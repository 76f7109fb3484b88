import Libptytty.Registry
import Libptytty.Calls

/-!
# Logouts in wtmp

The records that one object adds to wtmp, from its `get` to its destruction. The destructor knows
the last login only, so a record of an earlier one is paired with a logout exactly if the last login
was one of a login shell as well (`loggedOut_iff`).

The objects of the helper have the same lives: `serve_life` follows an object through a run of
`serve`, up to the command or the last loop that deletes it.
-/

namespace Libptytty

open CString
open PtyttyUnix (GetOutcome)

variable {cfg : Config} {K : Kernel}

/-- The records that have come to wtmp since `os`; `login` tells who has added them. -/
def added (login : Bool) (os os' : Os cfg) : List (Bool × Utmp cfg) :=
  ((requested os os').filterMap Update.toWtmp).map fun r => (login, r)

/-- One object, with what it has added to wtmp. -/
structure Recorded (cfg : Config) where
  /-- `none` after the destruction. -/
  obj : Option PtyttyUnix
  os : Os cfg
  line : CStr
  /-- History: pid and `login_shell` of the logins that were not turned away. -/
  logins : List (ℤ × Bool)
  /-- History: the records of the object, with `true` for those of `login`. -/
  wtmp : List (Bool × Utmp cfg)

namespace Recorded

/-- A call, or a step of others. -/
inductive Act (cfg : Config)
  | login (o : LogOutcome) (pid : ℤ) (shell : Bool) (hostname : CStr)
  | closeTty
  | delete (o : LogOutcome)
  | others (os : Os cfg)

variable (K : Kernel)

/-- After `get` on a new object. -/
def born (o : GetOutcome) (os : Os cfg) : Recorded cfg :=
  let (_, x, os) := PtyttyUnix.new.get K o os
  ⟨some x, os, lineOf (x.name.getD CString.empty), [], []⟩

/-- Others may add to the databases. -/
def step (s : Recorded cfg) : Act cfg → Option (Recorded cfg)
  | .login o pid shell hostname => s.obj.map fun x =>
      let (y, os) := x.login K o pid shell hostname s.os
      { s with
        obj := some y
        os := os
        logins := if Calls.Records cfg x then s.logins ++ [(pid, shell)] else s.logins
        wtmp := s.wtmp ++ added true s.os os }
  | .closeTty => s.obj.map fun x =>
      let (x, os) := x.closeTty s.os
      { s with obj := some x, os := os }
  | .delete o => s.obj.map fun x =>
      let os := x.delete K o s.os
      { s with obj := none, os := os, wtmp := s.wtmp ++ added false s.os os }
  | .others os => if s.os.db.updates <+: os.db.updates then some { s with os := os } else none

variable {K}

/-- If a login has been recorded, a logout is recorded behind the last of them; else nothing is. -/
structure LoggedOut (s : Recorded cfg) : Prop where
  paired : (∃ r, (true, r) ∈ s.wtmp) → ∃ pre r post, s.wtmp = pre ++ (false, r) :: post ∧
    SessionRecord false s.line r ∧ ∀ e ∈ post, e.1 = false
  nothing : (∀ r, (true, r) ∉ s.wtmp) → s.wtmp = []

/-- No login was one of a login shell, or the last one was, with a pid. -/
def LastShell (s : Recorded cfg) : Prop :=
  (∀ l ∈ s.logins, l.2 = false) ∨ ∃ pid, s.logins.getLast? = some (pid, true) ∧ pid ≠ 0

/-- The records of the object are about its line, and wtmp has them in their order. -/
structure Genuine (s : Recorded cfg) : Prop where
  records : ∀ e ∈ s.wtmp, SessionRecord e.1 s.line e.2
  sub : (s.wtmp.map Prod.snd).Sublist (s.os.db.updates.filterMap Update.toWtmp)

/-! ## One call -/

/-- The object keeps the last login, and wtmp has a record for each login of a login shell. -/
structure Alive (s : Recorded cfg) (x : PtyttyUnix) : Prop where
  line : lineOf (x.name.getD CString.empty) = s.line
  pid : x.cmdPid = (s.logins.getLast?.map Prod.fst).getD 0
  shell : x.loginShell.getD false = (s.logins.getLast?.map Prod.snd).getD false
  named : s.logins ≠ [] → Calls.Records cfg x
  logins : ∀ e ∈ s.wtmp, e.1 = true
  shells : s.wtmp ≠ [] ↔ ∃ l ∈ s.logins, l.2 = true

structure Inv (s : Recorded cfg) : Prop where
  genuine : Genuine s
  alive : ∀ x ∈ s.obj, Alive s x
  ended : s.obj = none → (LoggedOut s ↔ LastShell s)

theorem Genuine.add {s : Recorded cfg} (h : Genuine s) {login : Bool} {os : Os cfg}
    (hos : s.os.db.updates <+: os.db.updates)
    (hadded : ∀ e ∈ added login s.os os, SessionRecord e.1 s.line e.2) (obj : Option PtyttyUnix)
    (logins : List (ℤ × Bool)) :
    Genuine ⟨obj, os, s.line, logins, s.wtmp ++ added login s.os os⟩ := by
  refine ⟨fun e he => ?_, ?_⟩
  · rcases List.mem_append.mp he with he | he
    · exact h.records e he
    · exact hadded e he
  · show ((s.wtmp ++ added login s.os os).map Prod.snd).Sublist _
    have hsnd :
        (added login s.os os).map Prod.snd = (requested s.os os).filterMap Update.toWtmp := by
      unfold added
      rw [List.map_map]
      exact List.map_id _
    rw [updates_eq hos, List.filterMap_append, List.map_append, hsnd]
    exact h.sub.append (List.Sublist.refl _)

/-- What a recorded login adds to wtmp. -/
theorem added_login (hw : cfg.wtmp = true) {x : PtyttyUnix} (hrec : Calls.Records cfg x)
    (o : LogOutcome) (pid : ℤ) (shell : Bool) (hostname : CStr) (os : Os cfg) :
    ∃ ut, SessionRecord true (lineOf (x.name.getD CString.empty)) ut ∧
      added true os (x.login K o pid shell hostname os).2 = if shell then [(true, ut)] else [] := by
  obtain ⟨hu, name, hn, hne⟩ := hrec.exists_name
  obtain ⟨ut, us, vs, hut, hus, hvs, hreq⟩ :=
    PtyttyUnix.login_requested K os hu o pid shell hostname hn hne
  refine ⟨ut, by rw [hn]; exact hut, ?_⟩
  unfold added
  rw [hreq, filterMap_parts hus hvs]
  cases shell <;> simp [hw]

/-- What the destructor adds. -/
theorem added_delete (hw : cfg.wtmp = true) {x : PtyttyUnix} (hrec : Calls.Records cfg x)
    (o : LogOutcome) (hp : x.cmdPid ≠ 0) (os : Os cfg) :
    ∃ ut, SessionRecord false (lineOf (x.name.getD CString.empty)) ut ∧
      added false os (x.delete K o os) =
        if x.loginShell.getD false then [(false, ut)] else [] := by
  obtain ⟨hu, name, hn, -⟩ := hrec.exists_name
  obtain ⟨ut, us, vs, hut, hus, hvs, hreq⟩ := PtyttyUnix.delete_requested K os hu o hn hp
  refine ⟨ut, by rw [hn]; exact hut, ?_⟩
  unfold added
  rw [hreq, filterMap_parts hus hvs]
  cases x.loginShell.getD false <;> simp [hw]

theorem added_nil {login : Bool} {os os' : Os cfg} (h : requested os os' = []) :
    added login os os' = [] := by
  unfold added
  rw [h]
  rfl

/-- `get` logs nobody in. -/
theorem get_fields (o : GetOutcome) (os : Os cfg) :
    (PtyttyUnix.new.get K o os).2.1.cmdPid = 0 ∧
      (PtyttyUnix.new.get K o os).2.1.loginShell = none := by
  have hentry := (PtyttyUnix.get_entry (K := K) (o := o) (x := .new) rfl rfl os).2
  generalize (PtyttyUnix.new.get K o os).2.1 = x at hentry ⊢
  cases h : PtyttyUnix.allocated cfg o with
  | none =>
    rw [h] at hentry
    exact ⟨congrArg Entry.cmdPid hentry, congrArg Entry.loginShell hentry⟩
  | some dev =>
    rw [h] at hentry
    exact ⟨congrArg Entry.cmdPid hentry, congrArg Entry.loginShell hentry⟩

theorem inv_born (o : GetOutcome) (os : Os cfg) : Inv (born K o os) := by
  refine ⟨⟨by rintro e ⟨⟩, List.nil_sublist _⟩, fun x hx => ?_, by rintro ⟨⟩⟩
  obtain rfl := Option.some.inj hx
  obtain ⟨hpid, hshell⟩ := get_fields (K := K) o os
  exact ⟨rfl, hpid, congrArg (Option.getD · false) hshell, fun h => absurd rfl h, by rintro e ⟨⟩,
    by simp [born]⟩

theorem inv_login (hw : cfg.wtmp = true) {s : Recorded cfg} (h : Inv s) {x : PtyttyUnix}
    (hx : s.obj = some x) (o : LogOutcome) (pid : ℤ) (shell : Bool) (hostname : CStr) :
    Inv { s with
      obj := some (x.login K o pid shell hostname s.os).1
      os := (x.login K o pid shell hostname s.os).2
      logins := if Calls.Records cfg x then s.logins ++ [(pid, shell)] else s.logins
      wtmp := s.wtmp ++ added true s.os (x.login K o pid shell hostname s.os).2 } := by
  have halive := h.alive x hx
  have hgrow := PtyttyUnix.login_extends K s.os o pid shell hostname x
  by_cases hrec : Calls.Records cfg x
  · obtain ⟨ut, hut, hadded⟩ := added_login (K := K) hw hrec o pid shell hostname s.os
    obtain ⟨hu, name, hn, hne⟩ := hrec.exists_name
    have hobj := (PtyttyUnix.login_named K s.os hu o pid shell hostname hn hne).1
    refine ⟨h.genuine.add hgrow (fun e he => ?_) _ _, fun y hy => ?_, by rintro ⟨⟩⟩
    · rw [hadded] at he
      rw [halive.line] at hut
      cases shell with
      | false => cases he
      | true =>
        obtain rfl := List.mem_singleton.mp he
        exact hut
    · obtain rfl := Option.some.inj hy
      rw [hobj, hadded, if_pos hrec]
      refine ⟨halive.line, by simp, by simp, fun _ => hrec, ?_, ?_⟩
      · intro e he
        rcases List.mem_append.mp he with he | he
        · exact halive.logins e he
        · cases shell with
          | false => cases he
          | true => rw [List.mem_singleton.mp he]
      · -- a login shell has a record now, and another login none
        have hshells := halive.shells
        cases shell with
        | false => simpa using hshells
        | true => exact iff_of_true (by simp) ⟨(pid, true), by simp, rfl⟩
  · rw [Calls.login_of_not_records hrec, added_nil (requested_self s.os), List.append_nil,
      if_neg hrec, ← hx]
    exact h

/-- What the destructor looks at is the last login. -/
theorem Alive.writes_iff {s : Recorded cfg} {x : PtyttyUnix} (h : Alive s x) :
    (x.cmdPid ≠ 0 ∧ x.loginShell.getD false = true) ↔
      ∃ pid, s.logins.getLast? = some (pid, true) ∧ pid ≠ 0 := by
  rw [h.pid, h.shell]
  cases s.logins.getLast? with
  | none => simp
  | some l =>
    obtain ⟨pid, shell⟩ := l
    simp [and_comm]

/-- The destructor writes a logout for a login shell, -/
theorem Alive.added_logout (hw : cfg.wtmp = true) {s : Recorded cfg} {x : PtyttyUnix}
    (h : Alive s x) (o : LogOutcome) (hlog : x.cmdPid ≠ 0 ∧ x.loginShell.getD false = true) :
    ∃ ut, SessionRecord false s.line ut ∧ added false s.os (x.delete K o s.os) = [(false, ut)] := by
  have hlogins : s.logins ≠ [] := by
    intro hnil
    have hpid := h.pid
    rw [hnil] at hpid
    exact hlog.1 hpid
  obtain ⟨ut, hut, hadded⟩ := added_delete (K := K) hw (h.named hlogins) o hlog.1 s.os
  rw [if_pos hlog.2] at hadded
  exact ⟨ut, h.line ▸ hut, hadded⟩

/-- and else nothing. -/
theorem Alive.added_none (hw : cfg.wtmp = true) {s : Recorded cfg} {x : PtyttyUnix}
    (h : Alive s x) (o : LogOutcome) (hlog : ¬ (x.cmdPid ≠ 0 ∧ x.loginShell.getD false = true)) :
    added false s.os (x.delete K o s.os) = [] := by
  by_cases hp : x.cmdPid = 0
  · exact added_nil (PtyttyUnix.delete_requested_nil K s.os o fun hlog => hlog.2 hp)
  · have hlogins : s.logins ≠ [] := by
      intro hnil
      have hpid := h.pid
      rw [hnil] at hpid
      exact hp hpid
    obtain ⟨ut, -, hadded⟩ := added_delete (K := K) hw (h.named hlogins) o hp s.os
    rw [hadded, if_neg fun hshell => hlog ⟨hp, hshell⟩]

/-- With the logout at the end every record of a login is paired. -/
theorem loggedOut_of_logout {s : Recorded cfg} {ut : Utmp cfg} (hut : SessionRecord false s.line ut)
    {w : List (Bool × Utmp cfg)} (hw : s.wtmp = w ++ [(false, ut)])
    (hlogin : ∃ r, (true, r) ∈ w) : LoggedOut s := by
  refine ⟨fun _ => ⟨w, ut, [], hw, hut, by rintro e ⟨⟩⟩, fun hno => ?_⟩
  obtain ⟨r, hr⟩ := hlogin
  exact absurd (hw ▸ List.mem_append_left _ hr) (hno r)

/-- Without it none may have been recorded. -/
theorem loggedOut_iff_nil {s : Recorded cfg} (h : ∀ e ∈ s.wtmp, e.1 = true) :
    LoggedOut s ↔ s.wtmp = [] := by
  constructor
  · intro hout
    by_contra hne
    obtain ⟨⟨login, r⟩, hr⟩ := List.exists_mem_of_ne_nil _ hne
    obtain rfl : login = true := h _ hr
    obtain ⟨pre, r', post, hw, -, -⟩ := hout.paired ⟨r, hr⟩
    exact Bool.false_ne_true (h (false, r') (by rw [hw]; simp))
  · intro hnil
    refine ⟨?_, fun _ => hnil⟩
    rintro ⟨r, hr⟩
    rw [hnil] at hr
    cases hr

theorem inv_delete (hw : cfg.wtmp = true) {s : Recorded cfg} (h : Inv s) {x : PtyttyUnix}
    (hx : s.obj = some x) (o : LogOutcome) :
    Inv { s with
      obj := none
      os := x.delete K o s.os
      wtmp := s.wtmp ++ added false s.os (x.delete K o s.os) } := by
  have halive := h.alive x hx
  have hgrow := PtyttyUnix.delete_extends K s.os o x
  by_cases hlog : x.cmdPid ≠ 0 ∧ x.loginShell.getD false = true
  · obtain ⟨ut, hut, hadded⟩ := halive.added_logout (K := K) hw o hlog
    refine ⟨h.genuine.add hgrow (fun e he => ?_) _ _, by rintro y ⟨⟩, fun _ => ?_⟩
    · rw [hadded] at he
      obtain rfl := List.mem_singleton.mp he
      exact hut
    · obtain ⟨pid, hlast, hpid⟩ := halive.writes_iff.mp hlog
      have hne : s.wtmp ≠ [] :=
        halive.shells.mpr ⟨(pid, true), List.mem_of_getLast? hlast, rfl⟩
      obtain ⟨⟨login, r⟩, hr⟩ := List.exists_mem_of_ne_nil _ hne
      obtain rfl : login = true := halive.logins _ hr
      rw [hadded]
      exact iff_of_true (loggedOut_of_logout hut rfl ⟨r, hr⟩) (Or.inr ⟨pid, hlast, hpid⟩)
  · have hadded := halive.added_none (K := K) hw o hlog
    refine ⟨h.genuine.add hgrow (fun e he => ?_) _ _, by rintro y ⟨⟩, fun _ => ?_⟩
    · rw [hadded] at he
      cases he
    · have hnil : s.wtmp = [] ↔ ∀ l ∈ s.logins, l.2 = false := by
        rw [← not_iff_not, ← ne_eq, halive.shells]
        simp
      rw [hadded, List.append_nil]
      refine (loggedOut_iff_nil (s := ⟨none, x.delete K o s.os, s.line, s.logins, s.wtmp⟩)
        halive.logins).trans (hnil.trans ?_)
      exact (or_iff_left fun hlast => hlog (halive.writes_iff.mpr hlast)).symm

theorem inv_step (hw : cfg.wtmp = true) {s t : Recorded cfg} {a : Act cfg} (h : Inv s)
    (ht : step K s a = some t) : Inv t := by
  cases a with
  | login o pid shell hostname =>
    obtain ⟨x, hx, rfl⟩ := Option.map_eq_some_iff.mp ht
    exact inv_login hw h hx o pid shell hostname
  | closeTty =>
    obtain ⟨x, hx, rfl⟩ := Option.map_eq_some_iff.mp ht
    have halive := h.alive x hx
    have hdb := PtyttyUnix.closeTty_db s.os x
    refine ⟨⟨h.genuine.records, ?_⟩, fun y hy => ?_, by rintro ⟨⟩⟩
    · rw [hdb]
      exact h.genuine.sub
    · obtain rfl := Option.some.inj hy
      rw [PtyttyUnix.closeTty_fst]
      exact ⟨halive.line, halive.pid, halive.shell, halive.named, halive.logins, halive.shells⟩
  | delete o =>
    obtain ⟨x, hx, rfl⟩ := Option.map_eq_some_iff.mp ht
    exact inv_delete hw h hx o
  | others os =>
    change (if _ then _ else none) = some t at ht
    split_ifs at ht with hgrow
    obtain rfl := Option.some.inj ht
    refine ⟨⟨h.genuine.records, h.genuine.sub.trans ?_⟩, fun x hx => ?_, fun hobj => ?_⟩
    · exact (hgrow.filterMap _).sublist
    · have halive := h.alive x hx
      exact ⟨halive.line, halive.pid, halive.shell, halive.named, halive.logins, halive.shells⟩
    · exact ⟨fun hout => (h.ended hobj).mp ⟨hout.paired, hout.nothing⟩, fun hlast =>
        ⟨((h.ended hobj).mpr hlast).paired, ((h.ended hobj).mpr hlast).nothing⟩⟩

theorem inv_run (hw : cfg.wtmp = true) {o : GetOutcome} {os : Os cfg} {as : List (Act cfg)}
    {s : Recorded cfg} (h : Machine.run (step K) (born K o os) as = some s) : Inv s :=
  Machine.inv_of_run (fun _ _ _ hI ht => inv_step hw hI ht) (inv_born o os) h

end Recorded

/-! ## The objects of the helper -/

namespace Serve

open Memory

section Acts

variable (K : Kernel) (n : ℕ)

/-- What `delete` is to the object `n`. -/
def deleteActs (o : LogOutcome) (a : Addr) (s : Serve cfg) : List (Recorded.Act cfg) :=
  if s.heap.serialAt a = some n then [.delete o] else [.others (s.delete K o a).os]

/-- What the last loop is to the object `n`. -/
def destroyActs (o : ℕ → LogOutcome) : ℕ → Serve cfg → List (Recorded.Act cfg)
  | 0, _ => []
  | i + 1, s => deleteActs K n (o i) (s.ptys.getD i 0) s ++
      destroyActs o i (s.delete K (o i) (s.ptys.getD i 0))

/-- What one iteration of `serve` is to the object `n`. -/
def lifeActs (s : Serve cfg) : Input → List (Recorded.Act cfg)
  | .short log => destroyActs K n log s.ptys.length s
  | .command cmd o =>
    match cmd.type with
    | .get => [.others (s.handleGet K o).os]
    | .login =>
      if cmd.id ∈ s.ptys ∧ s.heap.serialAt cmd.id = some n then
        [.login (o.log 0) cmd.cmdPid cmd.loginShell (ofArray (terminate (n := 511) cmd.hostname))]
      else [.others (s.handleLogin K (o.log 0) cmd).os]
    | .destroy =>
      if cmd.id ∈ s.ptys ∧ s.heap.serialAt cmd.id = some n then [.delete (o.log 0)]
      else [.others (s.handleDestroy K (o.log 0) cmd).os]
    | .other _ => destroyActs K n o.log s.ptys.length s

end Acts

/-- The life `l` is the one of the object `n`. -/
structure Follows (n : ℕ) (heap : Heap PtyttyUnix) (os : Os cfg) (l : Recorded cfg) : Prop where
  lt : n < heap.created
  os : l.os = os
  obj : ∀ x, l.obj = some x ↔ heap.Holds n x

variable {n : ℕ} {heap : Heap PtyttyUnix} {os : Os cfg} {l : Recorded cfg}

theorem serialAt_eq {a : Addr} {c : Cell PtyttyUnix} (ha : heap.cells a = some c) :
    heap.serialAt a = some c.serial := by
  unfold Heap.serialAt
  rw [ha]
  rfl

/-- Others act, and leave the object alone. -/
theorem Follows.others (h : Follows n heap os l) {heap' : Heap PtyttyUnix} {os' : Os cfg}
    (hcreated : heap.created ≤ heap'.created) (hgrow : os.db.updates <+: os'.db.updates)
    (hobj : ∀ x, heap'.Holds n x ↔ heap.Holds n x) :
    ∃ l', Machine.run (Recorded.step K) l [.others os'] = some l' ∧ Follows n heap' os' l' := by
  refine ⟨{ l with os := os' }, ?_, h.lt.trans_le hcreated, rfl, fun x => ?_⟩
  · refine Machine.run_cons_eq_some.mpr ⟨_, if_pos ?_, rfl⟩
    rw [h.os]
    exact hgrow
  · exact (h.obj x).trans (hobj x).symm

/-- The object at `a` is deleted. -/
theorem Follows.delete (h : Follows n heap os l) {a : Addr} {c : Cell PtyttyUnix}
    (ha : heap.cells a = some c) (o : LogOutcome) :
    ∃ l', Machine.run (Recorded.step K) l (if heap.serialAt a = some n then [.delete o]
        else [.others (c.obj.delete K o os)]) = some l' ∧
      Follows n (heap.free a) (c.obj.delete K o os) l' := by
  have hserial := serialAt_eq ha
  by_cases hn : c.serial = n
  · subst hn
    have hobj : l.obj = some c.obj := (h.obj _).mpr ((Heap.holds_iff_of_cells ha _).mpr rfl)
    rw [if_pos hserial]
    refine ⟨_, Machine.run_cons_eq_some.mpr ⟨_, Option.map_eq_some_iff.mpr ⟨_, hobj, rfl⟩, rfl⟩,
      h.lt, ?_, fun x => ?_⟩
    · show c.obj.delete K o l.os = _
      rw [h.os]
    · rw [Heap.holds_free ha]
      exact iff_of_false (by rintro ⟨⟩) fun hx => hx.1 rfl
  · rw [if_neg fun hs => hn (Option.some.inj (hserial.symm.trans hs))]
    refine h.others le_rfl (PtyttyUnix.delete_extends K os o c.obj) fun x => ?_
    rw [Heap.holds_free ha]
    exact and_iff_right fun he => hn he.symm

/-- The last loop. -/
theorem follows_destroyAll (o : ℕ → LogOutcome) (i : ℕ) {s : Serve cfg} (hs : Destroying i s)
    (hi : i ≤ s.ptys.length) (h : Follows n s.heap s.os l) :
    ∃ l', Machine.run (Recorded.step K) l (destroyActs K n o i s) = some l' ∧
      Follows n (destroyAll K o i s).heap (destroyAll K o i s).os l' := by
  induction i generalizing s l with
  | zero => exact ⟨l, rfl, h⟩
  | succ i ih =>
    obtain ⟨hd, hp⟩ := destroying_step (K := K) hs hi (o i)
    have hmem : s.ptys.getD i 0 ∈ s.ptys.take (i + 1) := by
      rw [List.getD_eq_getElem _ _ hi]
      exact List.mem_take_iff_getElem.mpr ⟨i, by omega, rfl⟩
    obtain ⟨c, hc⟩ := Option.isSome_iff_exists.mp ((hs.live _).mp hmem)
    obtain ⟨l₁, hl₁, h₁⟩ := h.delete (K := K) hc (o i)
    have hdel := delete_eq (K := K) hc (o i)
    obtain ⟨l₂, hl₂, h₂⟩ := ih (l := l₁) hd (by rw [hp]; omega) (by rw [hdel]; exact h₁)
    refine ⟨l₂, Machine.run_append_eq_some.mpr ⟨l₁, ?_, hl₂⟩, h₂⟩
    unfold deleteActs
    rw [hdel]
    exact hl₁

theorem follows_get {s : Serve cfg} (h : Follows n s.heap s.os l) {o : Outcome}
    (free : s.heap.cells o.addr = none) :
    ∃ l', Machine.run (Recorded.step K) l [.others (s.handleGet K o).os] = some l' ∧
      Follows n (s.handleGet K o).heap (s.handleGet K o).os l' := by
  have hn : n ≠ s.heap.created := h.lt.ne
  have hdb := PtyttyUnix.get_db K s.os o.get .new
  rcases he : PtyttyUnix.new.get K o.get s.os with ⟨ok, x, os⟩
  rw [he] at hdb
  have hcell : (s.heap.alloc o.addr x).cells o.addr = some ⟨s.heap.created, x⟩ := by
    rw [Heap.cells_alloc, if_pos rfl]
  cases ok with
  | true =>
    rw [handleGet_true he]
    dsimp only
    refine h.others (Nat.le_succ _) ?_ fun y => ?_
    · show s.os.db.updates <+: (x.closeTty os).2.db.updates
      rw [PtyttyUnix.closeTty_db, hdb]
    · exact (Heap.holds_modify_of_ne hcell _ hn y).trans (Heap.holds_alloc free x hn y)
  | false =>
    rw [handleGet_false he]
    refine h.others (Nat.le_succ _) ?_ fun y => ?_
    · have hgrow := PtyttyUnix.delete_extends K os (o.log 0) x
      rwa [show os.db = s.os.db from hdb] at hgrow
    · rw [Heap.holds_free hcell, Heap.holds_alloc free x hn]
      exact and_iff_right hn

theorem follows_login {s : Serve cfg} (hs : AtHead s) (h : Follows n s.heap s.os l)
    (o : LogOutcome) (cmd : Command) :
    ∃ l', Machine.run (Recorded.step K) l
        (if cmd.id ∈ s.ptys ∧ s.heap.serialAt cmd.id = some n then
          [.login o cmd.cmdPid cmd.loginShell (ofArray (terminate (n := 511) cmd.hostname))]
        else [.others (s.handleLogin K o cmd).os]) = some l' ∧
      Follows n (s.handleLogin K o cmd).heap (s.handleLogin K o cmd).os l' := by
  -- the object takes the command also in a build where `login` does nothing
  have own : ∀ c, s.heap.cells cmd.id = some c → c.serial = n →
      ∀ (heap' : Heap PtyttyUnix), s.heap.created ≤ heap'.created →
      (∀ x, heap'.Holds n x ↔ x = (c.obj.login K o cmd.cmdPid cmd.loginShell
        (ofArray (terminate (n := 511) cmd.hostname)) s.os).1) →
      ∃ l', Machine.run (Recorded.step K) l
          [.login o cmd.cmdPid cmd.loginShell (ofArray (terminate (n := 511) cmd.hostname))] =
            some l' ∧
        Follows n heap' (c.obj.login K o cmd.cmdPid cmd.loginShell
          (ofArray (terminate (n := 511) cmd.hostname)) s.os).2 l' := by
    rintro c hc rfl heap' hcreated hobj
    have hl : l.obj = some c.obj := (h.obj _).mpr ((Heap.holds_iff_of_cells hc _).mpr rfl)
    refine ⟨_, Machine.run_cons_eq_some.mpr ⟨_, Option.map_eq_some_iff.mpr ⟨_, hl, rfl⟩, rfl⟩,
      h.lt.trans_le hcreated, ?_, fun x => ?_⟩
    · show (c.obj.login K o _ _ _ l.os).2 = _
      rw [h.os]
    · rw [hobj, ← h.os]
      exact Option.some_inj.trans eq_comm
  rcases handleLogin_cases (K := K) hs.reg o cmd with ⟨he, hno⟩ | ⟨c, hu, hmem, hc, he⟩
  · rw [he]
    split_ifs with hcond
    · have hu : cfg.utmp = .none := hno.resolve_right fun hno => hno hcond.1
      obtain ⟨c, hc⟩ := Option.isSome_iff_exists.mp ((hs.reg.live _).mp hcond.1)
      have hserial : c.serial = n := Option.some.inj ((serialAt_eq hc).symm.trans hcond.2)
      have hsame : c.obj.login K o cmd.cmdPid cmd.loginShell
          (ofArray (terminate (n := 511) cmd.hostname)) s.os = (c.obj, s.os) := by
        unfold PtyttyUnix.login
        rw [if_pos hu]
      have := own c hc hserial s.heap le_rfl
      rw [hsame] at this
      exact this fun x => by rw [← hserial]; exact Heap.holds_iff_of_cells hc x
    · exact h.others le_rfl List.prefix_rfl fun _ => Iff.rfl
  · rw [he]
    dsimp only
    have hserial := serialAt_eq hc
    by_cases hn : c.serial = n
    · rw [if_pos ⟨hmem, hn ▸ hserial⟩]
      exact own c hc hn _ le_rfl fun x => by rw [← hn]; exact Heap.holds_modify_self hc _ x
    · rw [if_neg fun hcond => hn (Option.some.inj (hserial.symm.trans hcond.2))]
      exact h.others le_rfl (PtyttyUnix.login_extends K s.os o _ _ _ _) fun x =>
        Heap.holds_modify_of_ne hc _ (Ne.symm hn) x

theorem follows_destroy {s : Serve cfg} (hs : AtHead s) (h : Follows n s.heap s.os l)
    (o : LogOutcome) (cmd : Command) :
    ∃ l', Machine.run (Recorded.step K) l
        (if cmd.id ∈ s.ptys ∧ s.heap.serialAt cmd.id = some n then [.delete o]
        else [.others (s.handleDestroy K o cmd).os]) = some l' ∧
      Follows n (s.handleDestroy K o cmd).heap (s.handleDestroy K o cmd).os l' := by
  rcases handleDestroy_cases (K := K) hs.reg o cmd with ⟨he, hno⟩ | ⟨c, hmem, hc, he⟩
  · rw [he, if_neg fun hcond => hno hcond.1]
    exact h.others le_rfl List.prefix_rfl fun _ => Iff.rfl
  · rw [he]
    have hdel := h.delete (K := K) hc o
    simpa only [hmem, true_and] using hdel

/-- One iteration of `serve` is a part of the life of each object. -/
theorem follows_step {s t : Serve cfg} {i : Input} (hI : Inv s) (h : Follows n s.heap s.os l)
    (ht : step K s i = some t) :
    ∃ l', Machine.run (Recorded.step K) l (lifeActs K n s i) = some l' ∧
      Follows n t.heap t.os l' := by
  obtain ⟨hr, hi⟩ := iterates_of_step ht
  have hs : AtHead s := by simpa [Inv, hr] using hI
  cases hi with
  | short => exact follows_destroyAll _ _ hs.destroying le_rfl h
  | get type nonnull free =>
    simp only [lifeActs, type]
    exact follows_get h free
  | login type =>
    simp only [lifeActs, type]
    exact follows_login hs h _ _
  | destroy type =>
    simp only [lifeActs, type]
    exact follows_destroy hs h _ _
  | other type =>
    simp only [lifeActs, type]
    exact follows_destroyAll _ _ hs.destroying le_rfl h

/-- What `Follows` says at the end of a run of `serve`. -/
theorem Follows.obj_eq_none {s : Serve cfg} (h : Follows n s.heap s.os l) :
    l.obj = none ↔ ¬ s.heap.Live n := by
  rw [Heap.live_iff_holds, Option.eq_none_iff_forall_ne_some]
  push Not
  exact forall_congr' fun x => not_congr (h.obj x)

theorem Inv.hist {s : Serve cfg} (h : Inv s) : History s.events s.heap := by
  unfold Inv at h
  split_ifs at h
  · exact Destroying.hist h
  · exact AtHead.hist h

/-- An object of the helper that has a pty lives until its deletion as one by itself: `s₀` is the
state it is created in. -/
theorem serve_life {pre is : List Input} {s₀ s₁ s : Serve cfg}
    (hpre : Machine.run (step K) (initial os) pre = some s₀) {cmd : Command} {o : Outcome}
    (htype : cmd.type = .get) (hget : (PtyttyUnix.new.get K o.get s₀.os).1 = true)
    (h₁ : step K s₀ (.command cmd o) = some s₁) (his : Machine.run (step K) s₁ is = some s) :
    ∃ l, Machine.run (Recorded.step K) (Recorded.born K o.get s₀.os)
        (.closeTty :: Machine.image (step K) (lifeActs K s₀.heap.created) s₁ is) = some l ∧
      l.os = s.os ∧ (l.obj = none ↔ s₀.heap.created ∈ deletions s.events) ∧
      (s.returned = true → l.obj = none) := by
  have hI₀ : Inv s₀ := Machine.inv_of_run (fun _ _ _ hI ht => inv_step hI ht) (inv_initial os) hpre
  have hI₁ : Inv s₁ := inv_step hI₀ h₁
  rcases he : PtyttyUnix.new.get K o.get s₀.os with ⟨ok, x, os₁⟩
  obtain rfl : ok = true := by rw [he] at hget; exact hget
  -- the new object, without its slave
  obtain ⟨-, hi⟩ := iterates_of_step h₁
  cases hi with
  | login type => simp [type] at htype
  | destroy type => simp [type] at htype
  | other type => simp [type] at htype
  | get type nonnull free =>
    have hcell : (s₀.heap.alloc o.addr x).cells o.addr = some ⟨s₀.heap.created, x⟩ := by
      rw [Heap.cells_alloc, if_pos rfl]
    have hborn : Recorded.born K o.get s₀.os =
        ⟨some x, os₁, lineOf (x.name.getD CString.empty), [], []⟩ := by
      unfold Recorded.born
      rw [he]
    have hfollows : Follows s₀.heap.created (s₀.handleGet K o).heap (s₀.handleGet K o).os
        ⟨some (x.closeTty os₁).1, (x.closeTty os₁).2, lineOf (x.name.getD CString.empty), [],
          []⟩ := by
      rw [handleGet_true he]
      refine ⟨Nat.lt_succ_self _, rfl, fun y => ?_⟩
      exact (Option.some_inj.trans eq_comm).trans
        (Heap.holds_modify_self hcell (fun _ => (x.closeTty os₁).1) y).symm
    obtain ⟨l, hl, hI, hend⟩ := Machine.run_of_image
      (R := fun s l => Inv s ∧ Follows s₀.heap.created s.heap s.os l)
      (fun s i t l h ht => by
        obtain ⟨l', hl', h'⟩ := follows_step h.1 h.2 ht
        exact ⟨l', hl', inv_step h.1 ht, h'⟩) ⟨hI₁, hfollows⟩ his
    refine ⟨l, ?_, hend.os, ?_, fun hret => ?_⟩
    · rw [hborn]
      exact Machine.run_cons_eq_some.mpr ⟨_, rfl, hl⟩
    · rw [hend.obj_eq_none, hI.hist.deleted]
      exact (and_iff_right hend.lt).symm
    · unfold Inv at hI
      rw [if_pos hret] at hI
      rw [hend.obj_eq_none]
      rintro ⟨a, c, hc, -⟩
      rw [hI.ended.1 a] at hc
      cases hc

end Serve

namespace Recorded

/-- **Logouts in wtmp.** Whatever is called on an object, and whatever else happens: after its
destruction each record of a login is paired with a logout exactly if no login was one of a login
shell, or the last one was. The objects of the helper have such lives, which a command or the end
of `serve` finishes. -/
theorem loggedOut_iff (hw : cfg.wtmp = true) (K : Kernel) :
    (∀ (o : GetOutcome) (os : Os cfg) (as : List (Act cfg)) (s : Recorded cfg),
      Machine.run (step K) (born K o os) as = some s → s.obj = none →
        Genuine s ∧ (LoggedOut s ↔ LastShell s)) ∧
    ∀ (os : Os cfg) (pre is : List Serve.Input) (s₀ s₁ s : Serve cfg) (cmd : Command) (o : Outcome),
      Machine.run (Serve.step K) (Serve.initial os) pre = some s₀ → cmd.type = .get →
      (PtyttyUnix.new.get K o.get s₀.os).1 = true →
      Serve.step K s₀ (.command cmd o) = some s₁ → Machine.run (Serve.step K) s₁ is = some s →
      ∃ l, Machine.run (step K) (born K o.get s₀.os) (.closeTty ::
          Machine.image (Serve.step K) (Serve.lifeActs K s₀.heap.created) s₁ is) = some l ∧
        l.os = s.os ∧
        (s₀.heap.created ∈ deletions s.events ∨ s.returned = true →
          l.obj = none ∧ Genuine l ∧ (LoggedOut l ↔ LastShell l)) := by
  have direct : ∀ (o : GetOutcome) (os : Os cfg) (as : List (Act cfg)) (s : Recorded cfg),
      Machine.run (step K) (born K o os) as = some s → s.obj = none →
        Genuine s ∧ (LoggedOut s ↔ LastShell s) := by
    intro o os as s h hobj
    have hI := inv_run hw h
    exact ⟨hI.genuine, hI.ended hobj⟩
  refine ⟨direct, fun os pre is s₀ s₁ s cmd o hpre htype hget h₁ his => ?_⟩
  obtain ⟨l, hl, hos, hdel, hret⟩ := Serve.serve_life hpre htype hget h₁ his
  refine ⟨l, hl, hos, fun hend => ?_⟩
  have hobj : l.obj = none := hend.elim hdel.mpr hret
  exact ⟨hobj, direct _ _ _ _ hl hobj⟩

/-- A login shell, another login, and the end. -/
theorem not_loggedOut :
    ∃ s, Machine.run (step posix) (born posix .pts7 Os.start)
        [.login ⟨true, true, true⟩ 42 true CString.empty,
          .login ⟨true, true, true⟩ 43 false CString.empty, .delete ⟨true, true, true⟩] = some s ∧
      s.obj = none ∧ ¬ LoggedOut s := by
  have hrun : (Machine.run (step posix) (born posix .pts7 Os.start)
      [.login ⟨true, true, true⟩ 42 true CString.empty,
        .login ⟨true, true, true⟩ 43 false CString.empty, .delete ⟨true, true, true⟩]).map
      (fun s => (s.obj.isSome, s.wtmp.map Prod.fst)) = some (false, [true]) := rfl
  obtain ⟨s, hs, hfields⟩ := Option.map_eq_some_iff.mp hrun
  obtain ⟨hobj, hwtmp⟩ := Prod.mk.inj hfields
  refine ⟨s, hs, by simpa using hobj, fun hout => ?_⟩
  have hlogins : ∀ e ∈ s.wtmp, e.1 = true := fun e he =>
    List.mem_singleton.mp (hwtmp ▸ List.mem_map_of_mem he)
  have hnil := (loggedOut_iff_nil hlogins).mp hout
  rw [hnil] at hwtmp
  cases hwtmp

/-- A login shell alone, directly and in the helper, where the client goes away after its login. -/
theorem loggedOut_iff_shell :
    (∃ s, Machine.run (step posix) (born posix .pts7 Os.start)
        [.login ⟨true, true, true⟩ 42 true CString.empty, .delete ⟨true, true, true⟩] = some s ∧
      Genuine s ∧ (LoggedOut s ↔ LastShell s)) ∧
    ∃ s₁ s, Serve.step posix (Serve.initial Os.start) (.command ⟨.get, 0, false, 0, zeroed 512⟩
        ⟨4096, .pts7, true, true, fun _ => ⟨true, true, true⟩⟩) = some s₁ ∧
      Machine.run (Serve.step posix) s₁ [.command (.ofLogin 4096 42 true CString.empty)
        ⟨4096, .pts7, true, true, fun _ => ⟨true, true, true⟩⟩,
        .short fun _ => ⟨true, true, true⟩] =
          some s ∧
      ∃ l : Recorded linux, l.os = s.os ∧ l.obj = none ∧ (LoggedOut l ↔ LastShell l) := by
  obtain ⟨hdirect, hserve⟩ := @loggedOut_iff linux rfl posix
  constructor
  · have hrun : (Machine.run (step posix) (born posix .pts7 Os.start)
        [.login ⟨true, true, true⟩ 42 true CString.empty, .delete ⟨true, true, true⟩]).map
        (fun s => s.obj.isSome) = some false := rfl
    obtain ⟨s, hs, hobj⟩ := Option.map_eq_some_iff.mp hrun
    exact ⟨s, hs, hdirect _ _ _ _ hs (by simpa using hobj)⟩
  · have hrun : ((Serve.step posix (Serve.initial Os.start)
      (.command ⟨.get, 0, false, 0, zeroed 512⟩
        ⟨4096, .pts7, true, true, fun _ => ⟨true, true, true⟩⟩)).bind fun s₁ =>
      Machine.run (Serve.step posix) s₁ [.command (.ofLogin 4096 42 true CString.empty)
        ⟨4096, .pts7, true, true, fun _ => ⟨true, true, true⟩⟩,
          .short fun _ => ⟨true, true, true⟩]).map (fun s => s.returned) = some true := rfl
    obtain ⟨s, hs, hret⟩ := Option.map_eq_some_iff.mp hrun
    obtain ⟨s₁, h₁, hs⟩ := Option.bind_eq_some_iff.mp hs
    obtain ⟨l, -, hos, hend⟩ := hserve Os.start [] _ _ _ _ _ _ rfl rfl rfl h₁ hs
    obtain ⟨hobj, -, hout⟩ := hend (Or.inr hret)
    exact ⟨s₁, s, h₁, hs, l, hos, hobj, hout⟩

end Recorded

end Libptytty
