import Libptytty.Closing
import Libptytty.Lib.RecordFile
import Libptytty.Ttyslot

/-!
# Session records in slots

Without `HAVE_UTMP_PID`, `log_session` writes its record into the utmp file itself, at the slot that
`ttyslot` gave in `get`. The file is a list of bytes here, and `write_record` is `pwrite` at
`pos * size`. On the table of records it is an update of one entry, so that the slots of objects
that are logged in hold their logins, and everything else in the file is as it was or is the record
of a logout (`slots_follow_objects`).
-/

namespace Libptytty

open CString RecordFile

variable {cfg : Config}

/-! ## The file -/

/-- How a `struct utmp` is laid out in memory. -/
structure RecordLayout (cfg : Config) where
  sizeofUtmp : ℕ
  bytes : Utmp cfg → List UInt8
  length_bytes : ∀ r, (bytes r).length = sizeofUtmp

/-- `write_record (UTMP_FILE, pos, ..)` if the file can be opened; `pwrite` writes at most `n`
bytes. -/
def writeRecord (L : RecordLayout cfg) (opened : Bool) (n : ℕ) (pos : ℤ) (r : Utmp cfg)
    (file : List UInt8) : List UInt8 :=
  if opened then pwrite 0 ((L.bytes r).take n) (pos.toNat * L.sizeofUtmp) file else file

/-- The slot and the record of a request to the utmp file. -/
def Update.toSlot : Update cfg → Option (ℤ × Utmp cfg)
  | .utmpAt pos r => some (pos, r)
  | _ => none

/-- The requests `us` are carried out. -/
def writeSlots (L : RecordLayout cfg) (opened : Bool) (n : ℕ) (us : List (Update cfg))
    (file : List UInt8) : List UInt8 :=
  (us.filterMap Update.toSlot).foldl (fun file w => writeRecord L opened n w.1 w.2 file) file

/-- The record of slot `n`. -/
def slotRecord (L : RecordLayout cfg) (file : List UInt8) (n : ℕ) : List UInt8 :=
  records 0 L.sizeofUtmp file n

/-! ## What `log_session` writes -/

/-- From `db` to `db'`, requests have been made of which those to the utmp file are `ws`. -/
def Writes (db : SessionDb cfg) (ws : List (ℤ × Utmp cfg)) (db' : SessionDb cfg) : Prop :=
  ∃ us, Requests db us db' ∧ us.filterMap Update.toSlot = ws

theorem Writes.trans {db db' db'' : SessionDb cfg} {ws ws' : List (ℤ × Utmp cfg)}
    (h : Writes db ws db') (h' : Writes db' ws' db'') : Writes db (ws ++ ws') db'' := by
  obtain ⟨us, hus, rfl⟩ := h
  obtain ⟨vs, hvs, rfl⟩ := h'
  exact ⟨us ++ vs, hus.trans hvs, List.filterMap_append⟩

theorem Writes.nil (db : SessionDb cfg) : Writes db [] db := ⟨[], Requests.nil db, rfl⟩

theorem logShell_writes (s : Session) (login : Bool) (hostname : Option CStr) (ut : Utmp cfg)
    (db : SessionDb cfg) : Writes db [] (logShell s login hostname ut db) := by
  unfold logShell
  by_cases hshell : s.loginShell = true
  · rw [if_pos hshell]
    have hwtmp : Writes db [] (if cfg.wtmp then db.note (.wtmp ut) else db) := by
      split_ifs
      · exact ⟨[.wtmp ut], rfl, rfl⟩
      · exact Writes.nil db
    dsimp only
    generalize (if cfg.wtmp then db.note (.wtmp ut) else db) = db₁ at hwtmp ⊢
    split_ifs
    · exact hwtmp.trans ⟨[_], rfl, rfl⟩
    · exact hwtmp
  · rw [if_neg hshell]
    exact Writes.nil db

/-- The write of a session with the slot `utmpPos`. -/
def slotWrite (utmpPos : Option ℤ) (ut : Utmp cfg) : List (ℤ × Utmp cfg) :=
  match utmpPos with
  | some pos => if pos > 0 then [(pos, ut)] else []
  | none => []

theorem logSessionDb_writes (hc : cfg.utmp = .utmpSlot) (s : Session) (login : Bool)
    (hostname : Option CStr) (db : SessionDb cfg) :
    ∃ ut : Utmp cfg, SessionRecord login (lineOf s.name) ut ∧
      Writes db (slotWrite s.utmpPos ut) (logSessionDb s login hostname db) := by
  have hut := sessionRecord_utmp (Or.inr hc) login s.cmdPid (lineOf s.name) hostname db.now.1
  refine ⟨_, hut, ?_⟩
  rw [logSessionDb, hc]
  dsimp only [logSessionUtmp]
  rw [if_neg (by simp [hc]), ← List.append_nil (slotWrite _ _)]
  refine Writes.trans ?_ (logShell_writes s login hostname _ _)
  unfold slotWrite
  cases s.utmpPos with
  | none => exact Writes.nil db
  | some pos =>
    dsimp only
    split_ifs
    · exact ⟨[.utmpAt pos _], rfl, rfl⟩
    · exact Writes.nil db

/-- What has been requested of the utmp file. -/
theorem Writes.requested {os os' : Os cfg} {ws : List (ℤ × Utmp cfg)}
    (h : Writes os.db ws os'.db) : (requested os os').filterMap Update.toSlot = ws := by
  obtain ⟨us, hus, rfl⟩ := h
  rw [requested_eq hus]

theorem writes_of_db {os os' : Os cfg} (h : os'.db = os.db) : Writes os.db [] os'.db := by
  rw [h]
  exact Writes.nil _

/-! ## Objects and slots -/

/-- A process with its objects, and the utmp file. -/
structure Slots (cfg : Config) where
  objects : Objects cfg
  file : List UInt8

/-- The object is logged in at the slot `n`. -/
def PtyttyUnix.LoggedInAt (x : PtyttyUnix) (n : ℕ) : Prop :=
  x.cmdPid ≠ 0 ∧ x.utmpPos = some (n : ℤ) ∧ 0 < n

/-- What has become of the records `old`: the objects that are logged in have theirs, and the others
have not been touched or are those of logouts. -/
structure Slotted (L : RecordLayout cfg) (old : ℕ → List UInt8) (objs : ℕ → Option PtyttyUnix)
    (now : ℕ → List UInt8) : Prop where
  own : ∀ i x n, objs i = some x → x.LoggedInAt n →
    ∃ r, SessionRecord true x.line r ∧ now n = L.bytes r
  rest : ∀ n, now n = old n ∨
    (0 < n ∧ ∃ line r, SessionRecord false line r ∧ now n = L.bytes r) ∨
    ∃ i x, objs i = some x ∧ x.LoggedInAt n

/-- No two objects have one slot. -/
def SlotsApart (objs : ℕ → Option PtyttyUnix) : Prop :=
  ∀ i j x y pos, objs i = some x → objs j = some y → x.utmpPos = some pos → y.utmpPos = some pos →
    0 < pos → i = j

namespace Slotted

variable {L : RecordLayout cfg} {old now : ℕ → List UInt8} {objs : ℕ → Option PtyttyUnix} {i : ℕ}

/-- A call that writes no record. -/
theorem same (h : Slotted L old objs now) {y : Option PtyttyUnix}
    (hnew : ∀ x' n, y = some x' → x'.LoggedInAt n →
      ∃ x, objs i = some x ∧ x.LoggedInAt n ∧ x.line = x'.line)
    (hkept : ∀ x n, objs i = some x → x.LoggedInAt n → ∃ x', y = some x' ∧ x'.LoggedInAt n) :
    Slotted L old (Function.update objs i y) now := by
  constructor
  · intro j x' n hx' hat
    by_cases hj : j = i
    · subst hj
      rw [Function.update_self] at hx'
      obtain ⟨x, hx, hxat, hline⟩ := hnew x' n hx' hat
      rw [← hline]
      exact h.own j x n hx hxat
    · rw [Function.update_of_ne hj] at hx'
      exact h.own j x' n hx' hat
  · intro n
    refine (h.rest n).imp_right (Or.imp_right ?_)
    rintro ⟨j, x, hx, hat⟩
    by_cases hj : j = i
    · subst hj
      obtain ⟨x', hx', hat'⟩ := hkept x n hx hat
      exact ⟨j, x', by rwa [Function.update_self], hat'⟩
    · exact ⟨j, x, by rwa [Function.update_of_ne hj], hat⟩

/-- A call that leaves the fields of its object alone. -/
theorem kept (h : Slotted L old objs now) {x x' : PtyttyUnix} (hx : objs i = some x)
    (hpid : x'.cmdPid = x.cmdPid) (hpos : x'.utmpPos = x.utmpPos) (hname : x'.name = x.name) :
    Slotted L old (Function.update objs i (some x')) now := by
  have hat (n : ℕ) : x'.LoggedInAt n ↔ x.LoggedInAt n := by
    unfold PtyttyUnix.LoggedInAt
    rw [hpid, hpos]
  have hline : x.line = x'.line := by
    unfold PtyttyUnix.line
    rw [hname]
  refine h.same ?_ ?_
  · rintro x₁ n ⟨⟩ hat'
    exact ⟨x, hx, (hat n).mp hat', hline⟩
  · intro x₁ n hx₁ hat'
    obtain rfl := Option.some.inj (hx.symm.trans hx₁)
    exact ⟨x', rfl, (hat n).mpr hat'⟩

/-- The slot of the object `i` is written: it logs in or it is deleted. -/
theorem write (h : Slotted L old objs now) (hapart : SlotsApart objs) {x : PtyttyUnix} {n : ℕ}
    (hx : objs i = some x) (hpos : x.utmpPos = some (n : ℤ)) (hn : 0 < n) {y : Option PtyttyUnix}
    {r : Utmp cfg} (hin : ∀ x', y = some x' → x'.LoggedInAt n ∧ SessionRecord true x'.line r)
    (hout : y = none → ∃ line, SessionRecord false line r) :
    Slotted L old (Function.update objs i y) (Function.update now n (L.bytes r)) := by
  constructor
  · intro j x' m hx' hat
    by_cases hj : j = i
    · subst hj
      rw [Function.update_self] at hx'
      obtain ⟨hat', hrec⟩ := hin x' hx'
      obtain rfl : m = n := by
        have := hat.2.1.symm.trans hat'.2.1
        exact_mod_cast Option.some.inj this
      exact ⟨r, hrec, Function.update_self _ _ _⟩
    · rw [Function.update_of_ne hj] at hx'
      have hmn : m ≠ n := by
        rintro rfl
        exact hj (hapart j i x' x m hx' hx hat.2.1 hpos (by exact_mod_cast hn))
      rw [Function.update_of_ne hmn]
      exact h.own j x' m hx' hat
  · intro m
    by_cases hmn : m = n
    · subst hmn
      rw [Function.update_self]
      right
      cases hy : y with
      | none =>
        obtain ⟨line, hrec⟩ := hout hy
        exact .inl ⟨hn, line, r, hrec, rfl⟩
      | some x' => exact .inr ⟨i, x', Function.update_self _ _ _, (hin x' hy).1⟩
    · rw [Function.update_of_ne hmn]
      refine (h.rest m).imp_right (Or.imp_right ?_)
      rintro ⟨j, x', hx', hat⟩
      have hj : j ≠ i := by
        rintro rfl
        obtain rfl : x = x' := Option.some.inj (hx.symm.trans hx')
        exact hmn (by exact_mod_cast Option.some.inj (hat.2.1.symm.trans hpos))
      exact ⟨j, x', by rwa [Function.update_of_ne hj], hat⟩

end Slotted

namespace Slots

/-- Whether the file of a call can be opened. -/
def opened : Objects.Act → Bool
  | .login _ o _ _ _ | .delete _ o => o.utmpFile
  | _ => false

/-- One call, with the number of bytes that `pwrite` is able to write. -/
def step (K : Kernel) (L : RecordLayout cfg) (s : Slots cfg) (a : Objects.Act × ℕ) :
    Option (Slots cfg) :=
  (Objects.step K s.objects a.1).map fun t =>
    ⟨t, writeSlots L (opened a.1) a.2 (requested s.objects.os t.os) s.file⟩

def initial (os : Os cfg) (file : List UInt8) : Slots cfg := ⟨.initial os, file⟩

/-- `ttyslot` gives a slot that no object has, the process of a session has a pid, and the file can
be opened and written. -/
def Regular (L : RecordLayout cfg) (s : Slots cfg) : Objects.Act × ℕ → Prop
  | (.get _ o, _) => 0 < o.ttyslot →
    ∀ j x, s.objects.objs j = some x → x.utmpPos ≠ some o.ttyslot
  | (.login _ o pid _ _, n) => o.utmpFile = true ∧ L.sizeofUtmp ≤ n ∧ pid ≠ 0
  | (.delete _ o, n) => o.utmpFile = true ∧ L.sizeofUtmp ≤ n
  | _ => True

variable {K : Kernel} {L : RecordLayout cfg}

/-- The slots of the objects and the records in them. -/
structure Inv (L : RecordLayout cfg) (file : List UInt8) (s : Slots cfg) : Prop where
  inv : s.objects.Inv
  named : s.objects.Named
  apart : SlotsApart s.objects.objs
  slotted : Slotted L (slotRecord L file) s.objects.objs (slotRecord L s.file)

theorem inv_initial (os : Os cfg) (file : List UInt8) : Inv L file (initial os file) := by
  refine ⟨Objects.inv_initial os, by rintro i x ⟨⟩, by rintro i j x y pos ⟨⟩, ?_, fun n => .inl rfl⟩
  rintro i x n ⟨⟩

/-- Only `get` gives an object a slot. -/
theorem utmpPos_step (hc : cfg.utmp = .utmpSlot) {s t : Objects cfg} {a : Objects.Act}
    (hI : s.Inv) (ht : Objects.step K s a = some t) {x' : PtyttyUnix} {pos : ℤ}
    (hx' : t.objs a.index = some x') (hpos : x'.utmpPos = some pos) :
    (∃ x, s.objs a.index = some x ∧ x.utmpPos = some pos) ∨
      ∃ i o, a = .get i o ∧ pos = o.ttyslot := by
  obtain ⟨y, os, hcalled, rfl⟩ := Objects.step_called hI ht
  have hself : Function.update s.objs a.index y a.index = y := Function.update_self _ _ _
  have hy : y = some x' := hself.symm.trans hx'
  generalize hold : s.objs a.index = old at hcalled
  cases hcalled with
  | create => cases hy; cases hpos
  | refused => cases hy; cases hpos
  | @got i o x dev found name =>
    -- what `get` makes of the fields of a new object
    obtain ⟨r, hr, hupd⟩ := Option.map_eq_some_iff.mp ht
    rw [Objects.Act.index] at hold
    rw [Objects.Act.index, hold, Objects.call, if_neg (by decide)] at hr
    cases hr
    have hx : (PtyttyUnix.new.get K o s.os).2.1 = x' := by
      have hobjs := congrFun (congrArg Objects.objs hupd) i
      have hgot : Function.update s.objs i (some (PtyttyUnix.new.get K o s.os).2.1) i = _ :=
        Function.update_self _ _ _
      exact Option.some.inj (hgot.symm.trans (hobjs.trans hx'))
    obtain ⟨-, hentry⟩ := PtyttyUnix.get_entry (K := K) (o := o) (x := .new) rfl rfl s.os
    rw [found, hx] at hentry
    have hpos' : x'.utmpPos = if cfg.utmp = .utmpSlot then some o.ttyslot else none :=
      congrArg Entry.utmpPos hentry
    rw [hpos', if_pos hc] at hpos
    exact .inr ⟨i, o, rfl, (Option.some.inj hpos).symm⟩
  | idle => exact .inl ⟨x', hy, hpos⟩
  | login => cases hy; exact .inl ⟨_, rfl, hpos⟩
  | closeTty => cases hy; exact .inl ⟨_, rfl, hpos⟩
  | delete => cases hy

theorem apart_step (hc : cfg.utmp = .utmpSlot) {file : List UInt8} {s : Slots cfg}
    {t : Objects cfg} {a : Objects.Act × ℕ} (h : Inv L file s) (hok : Regular L s a)
    (ht : Objects.step K s.objects a.1 = some t) : SlotsApart t.objs := by
  have hothers : ∀ j, j ≠ a.1.index → t.objs j = s.objects.objs j := by
    obtain ⟨y, os, -, rfl⟩ := Objects.step_called h.inv ht
    exact fun j hj => Function.update_of_ne hj _ _
  -- the object called has the slot it had, or one that differs from all others
  have hother : ∀ x pos, t.objs a.1.index = some x → x.utmpPos = some pos → 0 < pos →
      ∀ j y, j ≠ a.1.index → t.objs j = some y → y.utmpPos ≠ some pos := by
    intro x pos hx hpos hlt j y hj hy hpos'
    rw [hothers j hj] at hy
    rcases utmpPos_step hc h.inv ht hx hpos with ⟨x₀, hx₀, hpos₀⟩ | ⟨i, o, ha, rfl⟩
    · exact hj (h.apart j _ y x₀ pos hy hx₀ hpos' hpos₀ hlt)
    · obtain ⟨a, n⟩ := a
      obtain rfl : a = .get i o := ha
      exact hok hlt j y hy hpos'
  intro i j x y pos hx hy hxp hyp hlt
  by_cases hi : i = a.1.index <;> by_cases hj : j = a.1.index
  · rw [hi, hj]
  · exact absurd hyp (hother x pos (hi ▸ hx) hxp hlt j y hj hy)
  · exact absurd hxp (hother y pos (hj ▸ hy) hyp hlt i x hi hx)
  · rw [hothers i hi] at hx
    rw [hothers j hj] at hy
    exact h.apart i j x y pos hx hy hxp hyp hlt

/-- A record that is written whole. -/
theorem slotRecord_writeSlots {us : List (Update cfg)} {n pos : ℕ} {r : Utmp cfg}
    (hus : us.filterMap Update.toSlot = [((pos : ℤ), r)]) (hn : L.sizeofUtmp ≤ n)
    (file : List UInt8) : slotRecord L (writeSlots L true n us file) =
      Function.update (slotRecord L file) pos (L.bytes r) := by
  have htake : (L.bytes r).take n = L.bytes r := List.take_of_length_le (by rwa [L.length_bytes])
  funext m
  rw [writeSlots, hus, List.foldl_cons, List.foldl_nil, writeRecord, if_pos rfl, htake,
    Int.toNat_natCast]
  exact congrFun (records_pwrite (L.length_bytes r) file pos) m

theorem writeSlots_nil {us : List (Update cfg)} (hus : us.filterMap Update.toSlot = [])
    (opened : Bool) (n : ℕ) (file : List UInt8) : writeSlots L opened n us file = file := by
  rw [writeSlots, hus]
  rfl

/-- One session record of the object `i` is requested, and it is written if there is a slot. -/
theorem slotted_session {old : ℕ → List UInt8} {objs : ℕ → Option PtyttyUnix} {file : List UInt8}
    (h : Slotted L old objs (slotRecord L file)) (hapart : SlotsApart objs) {i n : ℕ}
    (hn : L.sizeofUtmp ≤ n) {x : PtyttyUnix} (hx : objs i = some x) {us : List (Update cfg)}
    {r : Utmp cfg} (hus : us.filterMap Update.toSlot = slotWrite x.utmpPos r)
    {y : Option PtyttyUnix} (hin : ∀ x', y = some x' →
      x'.cmdPid ≠ 0 ∧ x'.utmpPos = x.utmpPos ∧ SessionRecord true x'.line r)
    (hout : y = none → ∃ line, SessionRecord false line r) :
    Slotted L old (Function.update objs i y) (slotRecord L (writeSlots L true n us file)) := by
  by_cases hslot : ∃ pos, x.utmpPos = some pos ∧ 0 < pos
  · obtain ⟨pos, hpos, hlt⟩ := hslot
    lift pos to ℕ using hlt.le
    rw [hpos, slotWrite, if_pos hlt] at hus
    rw [slotRecord_writeSlots hus hn]
    refine h.write hapart hx hpos (by exact_mod_cast hlt) (fun x' hx' => ?_) hout
    obtain ⟨hpid, hpos', hrec⟩ := hin x' hx'
    exact ⟨⟨hpid, hpos'.trans hpos, by exact_mod_cast hlt⟩, hrec⟩
  · have hnone : slotWrite x.utmpPos r = [] := by
      unfold slotWrite
      cases hp : x.utmpPos with
      | none => rfl
      | some pos => exact if_neg fun hlt => hslot ⟨pos, hp, hlt⟩
    have hno : ∀ x' : PtyttyUnix, x'.utmpPos = x.utmpPos → ∀ m, ¬ x'.LoggedInAt m :=
      fun x' hpos m hat => hslot ⟨m, hpos ▸ hat.2.1, by exact_mod_cast hat.2.2⟩
    rw [writeSlots_nil (hus.trans hnone)]
    refine h.same (fun x' m hx' hat => absurd hat (hno x' (hin x' hx').2.1 m)) ?_
    intro x₁ m hx₁ hat
    obtain rfl := Option.some.inj (hx.symm.trans hx₁)
    exact absurd hat (hno x rfl m)

theorem slotted_step (hc : cfg.utmp = .utmpSlot) {file : List UInt8} {s t : Slots cfg}
    {a : Objects.Act × ℕ} (h : Inv L file s) (hok : Regular L s a) (ht : step K L s a = some t) :
    Slotted L (slotRecord L file) t.objects.objs (slotRecord L t.file) := by
  obtain ⟨a, n⟩ := a
  obtain ⟨u, hu, rfl⟩ := Option.map_eq_some_iff.mp ht
  obtain ⟨y, os, hcalled, rfl⟩ := Objects.step_called h.inv hu
  dsimp only at hcalled ⊢
  -- a call that leaves the databases alone
  have quiet : ∀ os' : Os cfg, os'.db = s.objects.os.db →
      writeSlots L (opened a) n (requested s.objects.os os') s.file = s.file := fun os' hdb =>
    writeSlots_nil (writes_of_db hdb).requested _ _ _
  generalize hold : s.objects.objs a.index = old at hcalled
  cases hcalled with
  | create =>
    rw [quiet _ rfl]
    exact h.slotted.same (by rintro x' n ⟨⟩ hat; exact absurd rfl hat.1)
      (by rw [hold]; rintro x n ⟨⟩)
  | refused =>
    rw [quiet _ (PtyttyUnix.get_db K _ _ _)]
    exact h.slotted.same (by rintro x' n ⟨⟩ hat; exact absurd rfl hat.1)
      (by rw [hold]; rintro x n ⟨⟩ hat; exact absurd rfl hat.1)
  | got found name pid =>
    rw [quiet _ (PtyttyUnix.get_db K _ _ _)]
    exact h.slotted.same (by rintro x' n ⟨⟩ hat; exact absurd pid hat.1)
      (by rw [hold]; rintro x n ⟨⟩ hat; exact absurd rfl hat.1)
  | idle =>
    rw [quiet _ rfl]
    exact h.slotted.kept hold rfl rfl rfl
  | @login i o pid shell hostname x dev utmp name nonempty =>
    obtain ⟨hopen, hn, hpid⟩ := hok
    obtain ⟨r, hrec, hw⟩ := logSessionDb_writes hc ⟨dev, pid, shell, x.utmpPos⟩ true
      (some hostname) s.objects.os.db
    rw [← (PtyttyUnix.login_named K _ utmp o pid shell hostname name nonempty).2] at hw
    rw [opened, hopen]
    refine slotted_session h.slotted h.apart hn hold hw.requested ?_ (by rintro ⟨⟩)
    rintro x' ⟨⟩
    have hline : PtyttyUnix.line { x with cmdPid := pid, loginShell := some shell } = lineOf dev :=
      Sessions.line_of_name name
    rw [← hline] at hrec
    exact ⟨hpid, rfl, hrec⟩
  | @closeTty i x =>
    rw [quiet _ (PtyttyUnix.closeTty_db _ x)]
    exact h.slotted.kept hold rfl rfl rfl
  | @delete i o x =>
    obtain ⟨hopen, hn⟩ := hok
    by_cases hp : x.cmdPid = 0
    · rw [quiet _ (PtyttyUnix.delete_unlogged K _ o hp)]
      refine h.slotted.same (by rintro x' n ⟨⟩) ?_
      rw [hold]
      rintro x₁ n ⟨⟩ hat
      exact absurd hp hat.1
    · obtain ⟨dev, name, -⟩ := h.named _ x hold hp
      have hu : cfg.utmp ≠ .none := by simp [hc]
      obtain ⟨r, hrec, hw⟩ := logSessionDb_writes hc
        ⟨dev, x.cmdPid, x.loginShell.getD false, x.utmpPos⟩ false none s.objects.os.db
      rw [← PtyttyUnix.delete_logged K _ hu o name hp] at hw
      rw [opened, hopen]
      exact slotted_session h.slotted h.apart hn hold hw.requested (by rintro x' ⟨⟩)
        fun _ => ⟨_, hrec⟩

theorem inv_step (hc : cfg.utmp = .utmpSlot) {file : List UInt8} {s t : Slots cfg}
    {a : Objects.Act × ℕ} (h : Inv L file s) (hok : Regular L s a) (ht : step K L s a = some t) :
    Inv L file t := by
  obtain ⟨u, hu, rfl⟩ := Option.map_eq_some_iff.mp ht
  exact ⟨Objects.inv_step h.inv hu, Objects.named_step h.named h.inv hu, apart_step hc h hok hu,
    slotted_step hc h hok ht⟩

end Slots

/-- **Session records in slots.** Where `log_session` writes the utmp file itself: if `ttyslot`
gives every object a slot of its own, each `write_record` succeeds and no login has the pid 0, then
in every state of every run without a `get` after a successful one, each object that is logged in at
a slot has its login there, and every other record of the file has the bytes that it had at the
start, or those of a logout. -/
theorem slots_follow_objects (hc : cfg.utmp = .utmpSlot) (K : Kernel) (L : RecordLayout cfg)
    (os : Os cfg) (file : List UInt8) {as : List (Objects.Act × ℕ)}
    (hok : Machine.Along (Slots.step K L) (Slots.Regular L) (Slots.initial os file) as) :
    Machine.Always (Slots.step K L) (fun s => Slotted L (slotRecord L file) s.objects.objs
      (slotRecord L s.file)) (Slots.initial os file) as := fun _ hp _ hs =>
  (Machine.inv_of_along (fun _ _ _ hI hok ht => Slots.inv_step hc hI hok ht)
    (Slots.inv_initial os file) (hok.take hp) hs).slotted

/-- A `struct utmp` without a pid: line, user and host, and the time in four bytes. -/
def bsdUtmp : RecordLayout PtyttyUnix.bsd44 where
  sizeofUtmp := 324
  bytes r := r.utLine.toList ++ r.utUser.toList ++ r.utHost.toList ++
    List.ofFn fun i : Fin 4 => (r.utTime / 256 ^ i.val).toUInt8
  length_bytes r := by simp [PtyttyUnix.bsd44, linux]

/-- A utmp file with a session on "pts/2" in the slot 2. -/
def besidePts2 : List UInt8 :=
  List.replicate 648 0 ++ bsdUtmp.bytes
    { utType := .empty
      utPid := 0
      utLine := strncpy _ (CString.read [112, 116, 115, 47, 50])
      utId := zeroed _
      utUser := strncpy _ (CString.read [97, 110, 110])
      utHost := zeroed _
      utTime := 1000 }

/-- An object with the slot 3 logs in. -/
def slotCalls : List (Objects.Act × ℕ) :=
  [(.create 0, 0), (.get 0 { PtyttyUnix.GetOutcome.pts7 with ttyslot := 3 }, 0),
    (.login 0 ⟨true, true, true⟩ 42 false (CString.read [58, 48]), 324)]

open PtyttyUnix (startSlot) in
theorem slots_follow_objects_slotCalls : ∃ s x r,
    Machine.run (Slots.step posix bsdUtmp) (.initial startSlot besidePts2) slotCalls = some s ∧
      s.objects.objs 0 = some x ∧ SessionRecord true x.line r ∧
      slotRecord bsdUtmp s.file 3 = bsdUtmp.bytes r ∧ s.file.take 972 = besidePts2 ∧
      Slotted bsdUtmp (slotRecord bsdUtmp besidePts2) s.objects.objs
        (slotRecord bsdUtmp s.file) := by
  have hok : Machine.Along (Slots.step posix bsdUtmp) (Slots.Regular bsdUtmp)
      (.initial startSlot besidePts2) slotCalls := by
    refine Machine.along_cons_of_step trivial rfl ?_
    refine Machine.along_cons_of_step (fun _ j x hx => ?_) rfl ?_
    · have hx : Function.update (fun _ => none) 0 (some PtyttyUnix.new) j = some x := hx
      by_cases hj : j = 0
      · rw [hj, Function.update_self] at hx
        cases hx
        decide
      · rw [Function.update_of_ne hj] at hx
        cases hx
    exact Machine.along_cons_of_step ⟨rfl, by decide, by decide⟩ rfl trivial
  obtain ⟨s, hs, x, hx, hat, hfile⟩ : ∃ s, Machine.run (Slots.step posix bsdUtmp)
      (.initial startSlot besidePts2) slotCalls = some s ∧
      ∃ x, s.objects.objs 0 = some x ∧ x.LoggedInAt 3 ∧ s.file.take 972 = besidePts2 :=
    ⟨_, rfl, _, rfl, ⟨by decide, rfl, by decide⟩, by decide +kernel⟩
  have hslots := (slots_follow_objects rfl posix bsdUtmp startSlot besidePts2 hok).last hs
  obtain ⟨r, hr, hbytes⟩ := hslots.own 0 x 3 hx hat
  exact ⟨s, x, r, hs, hx, hr, hbytes, hfile, hslots⟩

end Libptytty
