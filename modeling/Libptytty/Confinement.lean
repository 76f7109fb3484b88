import Libptytty.Objects
import Libptytty.Sessions

/-!
# What the helper touches

A client is not trusted: its ids, pids and hostnames may be anything. `Confined ds os os'` says what
the privileged process may have done between `os` and `os'` to the world outside: it has requested
updates about the lines of the devices `ds` only, in the name of the user who started it, and it has
changed the mode and the owner of these devices only, in the ways that `get` and `put` do. Each
call keeps to the device of its object (`Objects.Called.confined`).
-/

namespace Libptytty

open CString Memory
open PtyttyUnix (GetOutcome allocated device)

variable {cfg : Config}

/-! ## Updates of the session databases -/

/-- A record about `line`, for the invoking user or for nobody. -/
structure Utmp.Of (line : CStr) (r : Utmp cfg) : Prop where
  line : r.utLine = strncpy _ line
  user : r.utUser = strncpy _ (userName cfg) ∨ r.utUser = zeroed _

/-- An update about `line`, in the name of the invoking user. -/
def Update.Of (line : CStr) : Update cfg → Prop
  | .utmp r => r.Of line ∧ r.utId = fillId _ line
  | .utmpAt _ r | .wtmp r => r.Of line
  | .lastlog uid r => uid = cfg.uid ∧ r.llLine = strncpy _ line

theorem fillUtmpx_of (login : Bool) (pid : ℤ) (line : CStr) (host : Option CStr) (now : ℕ) :
    (fillUtmpx login pid line (userName cfg) host now : Utmp cfg).Of line := ⟨rfl, Or.inl rfl⟩

theorem fillUtmp_of (login : Bool) (pid : ℤ) (line : CStr) (host : Option CStr) (now : ℕ) :
    (fillUtmp login pid line (userName cfg) host now : Utmp cfg).Of line := by
  unfold fillUtmp
  dsimp only
  split_ifs
  · exact ⟨rfl, Or.inl rfl⟩
  · exact ⟨rfl, Or.inl rfl⟩
  · exact ⟨rfl, Or.inr rfl⟩
  · exact ⟨rfl, Or.inr rfl⟩

/-- From `db` to `db'` there are only updates about `line`, and the records with other ids are the
same. -/
structure Logs (line : CStr) (db db' : SessionDb cfg) : Prop where
  updates : ∃ us, Requests db us db' ∧ ∀ u ∈ us, u.Of line
  utmp : SameOthers (fillId _ line) db.utmp db'.utmp

namespace Logs

variable {line : CStr} {db db' db'' : SessionDb cfg}

theorem refl (line : CStr) (db : SessionDb cfg) : Logs line db db :=
  ⟨⟨[], Requests.nil db, by rintro u ⟨⟩⟩, rfl⟩

theorem trans (h : Logs line db db') (h' : Logs line db' db'') : Logs line db db'' := by
  obtain ⟨us, hus, hof⟩ := h.updates
  obtain ⟨vs, hvs, hof'⟩ := h'.updates
  refine ⟨⟨us ++ vs, hus.trans hvs, fun u hu => ?_⟩, h'.utmp.trans h.utmp⟩
  exact (List.mem_append.mp hu).elim (hof u) (hof' u)

theorem note {u : Update cfg} (hu : u.Of line) (db : SessionDb cfg) : Logs line db (db.note u) :=
  ⟨⟨[u], rfl, fun v hv => by rwa [List.mem_singleton.mp hv]⟩, rfl⟩

theorem put {r : Utmp cfg} (hr : r.Of line) (hid : r.utId = fillId _ line) (db : SessionDb cfg) :
    Logs line db (db.put r) := by
  refine ⟨⟨[.utmp r], rfl, fun v hv => ?_⟩, ?_⟩
  · rw [List.mem_singleton.mp hv]
    exact ⟨hr, hid⟩
  · rw [← hid]
    exact sameOthers_pututline r db.utmp

end Logs

theorem logShell_logs (s : Session) (login : Bool) (hostname : Option CStr) {ut : Utmp cfg}
    (hut : ut.Of (lineOf s.name)) (db : SessionDb cfg) :
    Logs (lineOf s.name) db (logShell s login hostname ut db) := by
  have hlast : ∀ db : SessionDb cfg, Logs (lineOf s.name) db
      (updateLastlog (lineOf s.name) hostname db) := fun db =>
    ⟨⟨_, rfl, fun u hu => by rw [List.mem_singleton.mp hu]; exact ⟨rfl, rfl⟩⟩, rfl⟩
  have hwtmp : Logs (lineOf s.name) db (db.note (.wtmp ut)) := .note (u := .wtmp ut) hut db
  unfold logShell
  dsimp only
  split_ifs
  · exact hwtmp.trans (hlast _)
  · exact hlast _
  · exact hwtmp
  · exact .refl _ _
  · exact .refl _ _

theorem putSession_logs (s : Session) (login : Bool) {ut : Utmp cfg} {line : CStr}
    (hut : ut.Of line) (hid : ut.utId = fillId _ line) (db : SessionDb cfg) :
    Logs line db (putSession s login ut db) := by
  unfold putSession
  split_ifs
  · exact .put hut hid db
  · exact .refl _ _

/-- `log_session` keeps to the line of its session. -/
theorem logSessionDb_logs (s : Session) (login : Bool) (hostname : Option CStr)
    (db : SessionDb cfg) : Logs (lineOf s.name) db (logSessionDb s login hostname db) := by
  have hnow : Logs (lineOf s.name) db db.now.2 := ⟨⟨[], Requests.nil db, by rintro u ⟨⟩⟩, rfl⟩
  have hut : (fillUtmp login s.cmdPid (lineOf s.name) (userName cfg) hostname db.now.1 :
      Utmp cfg).Of (lineOf s.name) := fillUtmp_of _ _ _ _ _
  unfold logSessionDb
  cases hc : cfg.utmp with
  | none => exact .refl _ _
  | utmpx =>
    have hutx : (fillUtmpx login s.cmdPid (lineOf s.name) (userName cfg) hostname db.now.1 :
        Utmp cfg).Of (lineOf s.name) := fillUtmpx_of _ _ _ _ _
    exact (hnow.trans (putSession_logs s login hutx rfl db.now.2)).trans
      (logShell_logs s login hostname hutx _)
  | utmpPid =>
    have hid : (fillUtmp login s.cmdPid (lineOf s.name) (userName cfg) hostname db.now.1 :
        Utmp cfg).utId = fillId _ (lineOf s.name) := by
      unfold fillUtmp
      dsimp only
      rw [if_pos hc]
      split_ifs <;> rfl
    dsimp only [logSessionUtmp]
    rw [if_pos hc]
    exact (hnow.trans (putSession_logs s login hut hid db.now.2)).trans
      (logShell_logs s login hostname hut _)
  | utmpSlot =>
    dsimp only [logSessionUtmp]
    rw [if_neg (by simp [hc])]
    refine (hnow.trans ?_).trans (logShell_logs s login hostname hut _)
    cases s.utmpPos with
    | none => exact .refl _ _
    | some pos =>
      dsimp only
      split_ifs
      · exact .note (u := .utmpAt pos _) hut _
      · exact .refl _ _

/-! ## Changes of devices -/

/-- What `get` does to a device in a `SET_TTY_OWNER` build: it becomes the user's. -/
def given (cfg : Config) (dev : CStr) : List DevEvent :=
  if cfg.getPty = .bsd then [.chown dev cfg.uid (ttyconf cfg).gid, .chmod dev (ttyconf cfg).mode]
  else []

/-- What `put` does to a device. -/
def givenBack (cfg : Config) (dev : CStr) : List DevEvent :=
  [.chmod dev cfg.restoreTtyMode, .chown dev 0 (ttyconf cfg).gid]

namespace PtyttyUnix

variable {K : Kernel} {os : Os cfg}

theorem openFile_devs (ok : Bool) (f : File) : (os.openFile K ok f).2.devs = os.devs := by
  cases ok <;> rfl

theorem bsdOpen_devs (o : GetOutcome) (i : ℕ) : (bsdOpen K o i os).2.devs = os.devs := by
  unfold bsdOpen Os.openFile
  cases (o.probe i).first <;> cases (o.probe i).second <;> rfl

theorem bsdLoop_devs (o : GetOutcome) (tty : Option Fd) (name : Option CStr) (n i : ℕ) :
    (bsdLoop K o tty name n i os).os.devs = os.devs := by
  induction n generalizing i os with
  | zero => rfl
  | succ n ih =>
    have hopen : (bsdOpen K o i os).2.devs = os.devs := bsdOpen_devs o i
    unfold bsdLoop
    rcases he : bsdOpen K o i os with ⟨_ | ⟨pfd, dev⟩, os₁⟩ <;> rw [he] at hopen
    · exact (ih (i + 1)).trans hopen
    · dsimp only
      split_ifs
      · exact hopen
      · exact (ih (i + 1)).trans hopen

theorem getPty_devs (o : GetOutcome) (tty : Option Fd) (name : Option CStr) :
    (getPty K o tty name os).os.devs = os.devs := by
  unfold getPty
  split
  · unfold getPtyUnix98 Os.openFile
    cases o.master <;> cases o.grantpt <;> cases o.unlockpt <;> rfl
  · unfold getPtyOpenpty Os.openFile
    cases o.master <;> rfl
  · unfold getPtyGetpty Os.openFile
    cases o.master <;> rfl
  · exact bsdLoop_devs o tty name 256 0

theorem setTtyOwner_devs (name : Option CStr) (os : Os cfg) :
    (setTtyOwner name os).devs = os.devs ++ name.elim [] (given cfg) := by
  unfold setTtyOwner given
  cases name with
  | none => simp
  | some dev => cases cfg.getPty <;> simp

theorem restoreDev_devs (name : Option CStr) (os : Os cfg) :
    (restoreDev name os).devs = os.devs ++ name.elim [] (givenBack cfg) := by
  cases name with
  | none => exact (List.append_nil _).symm
  | some dev => rfl

theorem closeTty_devs (x : PtyttyUnix) (os : Os cfg) : (x.closeTty os).2.devs = os.devs := by
  unfold closeTty
  split <;> rfl

theorem put_devs (x : PtyttyUnix) (os : Os cfg) :
    (x.put os).2.devs = os.devs ++ x.name.elim [] (givenBack cfg) := by
  have hclose : ∀ (y : PtyttyUnix) (os : Os cfg), (closePty y os).devs = os.devs := by
    intro y os
    unfold closePty
    split <;> rfl
  show (closePty _ (x.closeTty (restoreDev x.name os)).2).devs = _
  rw [hclose, closeTty_devs, restoreDev_devs]

theorem withDatabase_devs (c : Prop) [Decidable c] (ok : Bool) (os : Os cfg) :
    (if c then withDatabase K ok os else os).devs = os.devs := by
  split_ifs
  · cases ok <;> rfl
  · rfl

theorem logSession_devs (o : LogOutcome) (x : PtyttyUnix) (login : Bool) (hostname : Option CStr)
    (os : Os cfg) : (x.logSession K o login hostname os).devs = os.devs := by
  unfold logSession
  cases x.name with
  | none => rfl
  | some name =>
    dsimp only [Libptytty.logSession]
    unfold logSessionFiles
    split
    · rfl
    · rfl
    all_goals
      dsimp only
      rw [withDatabase_devs, withDatabase_devs, withDatabase_devs]

theorem login_devs (o : LogOutcome) (pid : ℤ) (shell : Bool) (hostname : CStr) (x : PtyttyUnix)
    (os : Os cfg) : (x.login K o pid shell hostname os).2.devs = os.devs := by
  unfold login
  split_ifs
  · rfl
  · rfl
  · exact logSession_devs o _ true _ os

/-- The destructor gives the device back. -/
theorem delete_devs (o : LogOutcome) (x : PtyttyUnix) (os : Os cfg) :
    (x.delete K o os).devs = os.devs ++ x.name.elim [] (givenBack cfg) := by
  unfold delete
  dsimp only
  rw [put_devs]
  split_ifs
  · rw [logSession_devs]
  · rfl

/-- A `get` that finds a device but cannot open its slave gives it back at once. -/
theorem get_devs (o : GetOutcome) (os : Os cfg) : (new.get K o os).2.2.devs =
    os.devs ++ (device cfg o).elim [] fun dev =>
      given cfg dev ++ if allocated cfg o = none then givenBack cfg dev else [] := by
  have hfound : Found (device cfg o) (cfg.getPty = .openpty) (getPty K o none none os) :=
    getPty_found
  have hdevs : (getPty K o none none os).os.devs = os.devs := getPty_devs o none none
  unfold get allocated
  dsimp only [new]
  generalize getPty K o none none os = r at hfound hdevs ⊢
  obtain ⟨pfd, tty, name, os₁⟩ := r
  obtain ⟨hpfd, hname, htty⟩ := hfound
  dsimp only at hpfd hname htty hdevs ⊢
  subst hname
  cases hd : device cfg o with
  | none =>
    rw [hd] at hpfd
    obtain rfl : pfd = none := by simpa using hpfd
    exact hdevs.trans (List.append_nil _).symm
  | some dev =>
    rw [hd] at hpfd htty
    obtain ⟨p, rfl⟩ := Option.isSome_iff_exists.mp hpfd
    by_cases ho : cfg.getPty = .openpty
    · obtain ⟨t, rfl⟩ := Option.isSome_iff_exists.mp (htty.trans (by simp [ho]))
      rw [if_pos (Or.inl ho)]
      dsimp only
      rw [hdevs]
      simp [given, ho]
    · obtain rfl : tty = none := by simpa [ho] using htty
      dsimp only [getTty, Os.openFile]
      cases hs : o.slave with
      | false =>
        have hno : ¬ (cfg.getPty = .openpty ∨ false = true) := by simp [ho]
        rw [Option.elim_some, if_neg hno, if_pos rfl]
        simp only [Bool.false_eq_true, if_false]
        rw [put_devs, setTtyOwner_devs, hdevs, List.append_assoc]
        rfl
      | true =>
        rw [if_pos (Or.inr rfl)]
        simp only [if_true, Option.elim_some, reduceCtorEq, if_false, List.append_nil]
        show (setTtyOwner (some dev) os₁).devs = _
        rw [setTtyOwner_devs, hdevs]
        rfl

end PtyttyUnix

/-! ## Confinement -/

/-- The record has another id than those of the devices `ds`. -/
def Foreign (ds : List CStr) (r : Utmp cfg) : Bool :=
  ds.all fun dev => r.utId ≠ fillId _ (lineOf dev)

/-- From `os` to `os'` nothing but the devices `ds` and their lines has been touched. -/
structure Confined (ds : List CStr) (os os' : Os cfg) : Prop where
  updates : ∃ us, Requests os.db us os'.db ∧ ∀ u ∈ us, ∃ dev ∈ ds, u.Of (lineOf dev)
  utmp : os'.db.utmp.filter (Foreign ds) = os.db.utmp.filter (Foreign ds)
  devs : ∃ es, os'.devs = os.devs ++ es ∧
    ∀ e ∈ es, ∃ dev ∈ ds, e ∈ given cfg dev ++ givenBack cfg dev

namespace Confined

variable {ds : List CStr} {os os' os'' : Os cfg}

theorem refl (ds : List CStr) (os : Os cfg) : Confined ds os os :=
  ⟨⟨[], Requests.nil _, by rintro u ⟨⟩⟩, rfl, [], (List.append_nil _).symm, by rintro e ⟨⟩⟩

theorem trans (h : Confined ds os os') (h' : Confined ds os' os'') : Confined ds os os'' := by
  obtain ⟨us, hus, hof⟩ := h.updates
  obtain ⟨vs, hvs, hof'⟩ := h'.updates
  obtain ⟨es, hes, hdev⟩ := h.devs
  obtain ⟨fs, hfs, hdev'⟩ := h'.devs
  refine ⟨⟨us ++ vs, hus.trans hvs, fun u hu => ?_⟩, h'.utmp.trans h.utmp, es ++ fs, ?_,
    fun e he => ?_⟩
  · exact (List.mem_append.mp hu).elim (hof u) (hof' u)
  · rw [hfs, hes, List.append_assoc]
  · exact (List.mem_append.mp he).elim (hdev e) (hdev' e)

/-- The databases stay as they are. -/
theorem of_db (hdb : os'.db = os.db) {es : List DevEvent} (hes : os'.devs = os.devs ++ es)
    (hdev : ∀ e ∈ es, ∃ dev ∈ ds, e ∈ given cfg dev ++ givenBack cfg dev) :
    Confined ds os os' := by
  refine ⟨⟨[], ?_, by rintro u ⟨⟩⟩, by rw [hdb], es, hes, hdev⟩
  rw [hdb]
  exact Requests.nil _

/-- The databases are told about one device. -/
theorem of_logs {dev : CStr} (hmem : dev ∈ ds) (h : Logs (lineOf dev) os.db os'.db)
    {es : List DevEvent} (hes : os'.devs = os.devs ++ es)
    (hdev : ∀ e ∈ es, ∃ dev ∈ ds, e ∈ given cfg dev ++ givenBack cfg dev) :
    Confined ds os os' := by
  obtain ⟨us, hus, hof⟩ := h.updates
  refine ⟨⟨us, hus, fun u hu => ⟨dev, hmem, hof u hu⟩⟩, ?_, es, hes, hdev⟩
  -- a foreign record does not have the id of this device
  have hsplit : ∀ rs : List (Utmp cfg), rs.filter (Foreign ds) =
      (rs.filter fun r => r.utId ≠ fillId _ (lineOf dev)).filter (Foreign ds) := by
    intro rs
    rw [List.filter_filter]
    refine List.filter_congr fun r _ => ?_
    cases hr : Foreign ds r with
    | false => rfl
    | true => simpa using (List.all_eq_true.mp hr dev hmem)
  rw [hsplit, hsplit os.db.utmp]
  exact congrArg (List.filter (Foreign ds)) h.utmp

end Confined

theorem PtyttyUnix.delete_logs {K : Kernel} (o : LogOutcome) (x : PtyttyUnix) (os : Os cfg) :
    (x.delete K o os).db = os.db ∨
      ∃ dev, x.name = some dev ∧ Logs (lineOf dev) os.db (x.delete K o os).db := by
  by_cases hlog : cfg.utmp ≠ .none ∧ x.cmdPid ≠ 0
  · cases hn : x.name with
    | none =>
      left
      unfold delete
      dsimp only
      rw [put_db, if_pos hlog]
      unfold logSession
      rw [hn]
    | some dev =>
      right
      rw [delete_logged K os hlog.1 o hn hlog.2]
      exact ⟨dev, rfl, logSessionDb_logs ⟨dev, x.cmdPid, x.loginShell.getD false, x.utmpPos⟩ _ _ _⟩
  · left
    unfold delete
    dsimp only
    rw [put_db, if_neg hlog]

namespace Objects

/-- The device that the operating system gives to a call. -/
def Act.device (cfg : Config) : Act → Option CStr
  | .get _ o => PtyttyUnix.device cfg o
  | _ => none

variable {K : Kernel} {ds : List CStr} {os os' : Os cfg} {a : Act} {old y : Option PtyttyUnix}

/-- The devices of the objects are among `ds`. -/
def Within (ds : List CStr) (s : Objects cfg) : Prop :=
  ∀ i x, s.objs i = some x → ∀ dev ∈ x.name, dev ∈ ds

theorem device_of_allocated {o : GetOutcome} {dev : CStr} (h : allocated cfg o = some dev) :
    PtyttyUnix.device cfg o = some dev := by
  unfold allocated at h
  split_ifs at h
  exact h

/-- The object of a call keeps its device, or has the one that the call was given. -/
theorem Called.name_mem (h : Called K os a old y os') (hold : ∀ x ∈ old, ∀ dev ∈ x.name, dev ∈ ds)
    (ha : ∀ dev ∈ a.device cfg, dev ∈ ds) : ∀ x ∈ y, ∀ dev ∈ x.name, dev ∈ ds := by
  intro x hx dev hdev
  cases h with
  | create => cases hx; cases hdev
  | refused => cases hx; cases hdev
  | @got i o x' dev' found name =>
    cases hx
    obtain rfl : dev' = dev := Option.some.inj (name.symm.trans hdev)
    exact ha _ (device_of_allocated found)
  | idle => exact hold x hx dev hdev
  | login => cases hx; exact hold _ rfl dev hdev
  | closeTty => cases hx; exact hold _ rfl dev hdev
  | delete => cases hx

theorem confined_get {o : GetOutcome} (ha : ∀ dev ∈ PtyttyUnix.device cfg o, dev ∈ ds) :
    Confined ds os (PtyttyUnix.new.get K o os).2.2 := by
  refine .of_db (PtyttyUnix.get_db K os o .new) (PtyttyUnix.get_devs o os) fun e he => ?_
  cases hd : PtyttyUnix.device cfg o with
  | none => rw [hd] at he; cases he
  | some dev =>
    rw [hd, Option.elim_some] at he
    refine ⟨dev, ha dev hd, ?_⟩
    split_ifs at he
    · exact he
    · rw [List.append_nil] at he
      exact List.mem_append_left _ he

/-- A call keeps to the device of its object and to the one that it is given. -/
theorem Called.confined (h : Called K os a old y os') (hold : ∀ x ∈ old, ∀ dev ∈ x.name, dev ∈ ds)
    (ha : ∀ dev ∈ a.device cfg, dev ∈ ds) : Confined ds os os' := by
  cases h with
  | create => exact .refl ds os
  | refused => exact confined_get ha
  | got => exact confined_get ha
  | idle => exact .refl ds os
  | @login i o pid shell hostname x dev utmp name nonempty =>
    have hdb := (PtyttyUnix.login_named K os utmp o pid shell hostname name nonempty).2
    refine .of_logs (hold x rfl dev name) ?_
      ((PtyttyUnix.login_devs o pid shell hostname x os).trans (List.append_nil _).symm)
      (by rintro e ⟨⟩)
    rw [hdb]
    exact logSessionDb_logs ⟨dev, pid, shell, x.utmpPos⟩ _ _ _
  | @closeTty i x =>
    exact .of_db (PtyttyUnix.closeTty_db os x)
      ((PtyttyUnix.closeTty_devs x os).trans (List.append_nil _).symm) (by rintro e ⟨⟩)
  | @delete i o x =>
    have hdevs := PtyttyUnix.delete_devs (K := K) o x os
    have hback : ∀ e ∈ x.name.elim [] (givenBack cfg),
        ∃ dev ∈ ds, e ∈ given cfg dev ++ givenBack cfg dev := by
      intro e he
      cases hn : x.name with
      | none => rw [hn] at he; cases he
      | some dev =>
        rw [hn] at he
        exact ⟨dev, hold x rfl dev hn, List.mem_append_right _ he⟩
    rcases PtyttyUnix.delete_logs (K := K) o x os with hdb | ⟨dev, hn, hlogs⟩
    · exact .of_db hdb hdevs hback
    · exact .of_logs (hold x rfl dev hn) hlogs hdevs hback

theorem confined_step {s t : Objects cfg} (hI : Inv s) (hw : Within ds s)
    (ha : ∀ dev ∈ a.device cfg, dev ∈ ds) (ht : step K s a = some t) :
    Within ds t ∧ Confined ds s.os t.os := by
  obtain ⟨y, os, hcalled, rfl⟩ := step_called hI ht
  have hold := hw a.index
  exact ⟨forall_update (hcalled.name_mem hold ha) fun j x _ => hw j x, hcalled.confined hold ha⟩

theorem confined_run {as : List Act} {s : Objects cfg}
    (ha : ∀ a ∈ as, ∀ dev ∈ a.device cfg, dev ∈ ds)
    (h : Machine.run (step K) (initial os) as = some s) : Confined ds os s.os := by
  have hstep : ∀ (s : Objects cfg) (a : Act) (t : Objects cfg),
      (Inv s ∧ Within ds s ∧ Confined ds os s.os) → (∀ dev ∈ a.device cfg, dev ∈ ds) →
      step K s a = some t → Inv t ∧ Within ds t ∧ Confined ds os t.os := by
    rintro s a t ⟨hI, hw, hc⟩ ha ht
    obtain ⟨hw', hc'⟩ := confined_step hI hw ha ht
    exact ⟨inv_step hI ht, hw', hc.trans hc'⟩
  exact (Machine.inv_of_along hstep ⟨inv_initial os, by rintro i x ⟨⟩, .refl ds os⟩
    (Machine.along_of_forall ha _) h).2.2

end Objects

namespace Serve

/-- The device that the operating system gives to the helper while it handles a command. -/
def Input.device (cfg : Config) : Input → Option CStr
  | .command cmd o => if cmd.type = .get then PtyttyUnix.device cfg o.get else none
  | .short _ => none

theorem mem_destroyCalls {K : Kernel} {o : ℕ → LogOutcome} {i : ℕ} {s : Serve cfg}
    {a : Objects.Act} (h : a ∈ destroyCalls K o i s) : ∃ n o, a = .delete n o := by
  induction i generalizing s with
  | zero => cases h
  | succ i ih =>
    rcases List.mem_append.mp h with h | h
    · obtain ⟨n, -, rfl⟩ := List.mem_map.mp h
      exact ⟨n, _, rfl⟩
    · exact ih h

theorem device_of_mem_calls {K : Kernel} {s : Serve cfg} {i : Input} {a : Objects.Act}
    (h : a ∈ calls K s i) : ∀ dev ∈ a.device cfg, i.device cfg = some dev := by
  have hdelete : ∀ {o : ℕ → LogOutcome} {j : ℕ}, a ∈ destroyCalls K o j s →
      ∀ dev ∈ a.device cfg, i.device cfg = some dev := by
    intro o j h dev hdev
    obtain ⟨n, o, rfl⟩ := mem_destroyCalls h
    cases hdev
  intro dev hdev
  cases i with
  | short log => exact hdelete h dev hdev
  | command cmd o =>
    cases hty : cmd.type with
    | get =>
      simp only [calls, hty, List.mem_cons, List.not_mem_nil, or_false] at h
      rcases h with rfl | rfl | rfl
      · cases hdev
      · rw [Input.device, if_pos hty]
        exact hdev
      · split_ifs at hdev <;> cases hdev
    | login =>
      simp only [calls, hty] at h
      obtain ⟨n, -, rfl⟩ := List.mem_map.mp h
      cases hdev
    | destroy =>
      simp only [calls, hty] at h
      obtain ⟨n, -, rfl⟩ := List.mem_map.mp h
      cases hdev
    | other v =>
      simp only [calls, hty] at h
      exact hdelete h dev hdev

end Serve

/-- **Confinement.** Whatever calls a client makes on its own objects (with no `get` after a
successful one), and whatever it sends to the helper, the process that has the privileges touches
nothing in the session databases but the lines of the devices that it has been given, always in the
name of the invoking user, and no other device. -/
theorem privileges_confined (K : Kernel) (os : Os cfg) :
    (∀ cs, Machine.Always (Direct.step K)
      (fun d => Confined (cs.filterMap fun c => (Direct.act c).device cfg) os d.os)
      (Direct.initial os) cs) ∧
    ∀ is, Machine.Always (Serve.step K)
      (fun s => Confined (is.filterMap (Serve.Input.device cfg)) os s.os)
      (Serve.initial os) is := by
  constructor
  · intro cs pre hp d hd
    refine Objects.confined_run (fun a ha dev hdev => ?_) (Direct.objects_run hd)
    obtain ⟨c, hc, rfl⟩ := List.mem_map.mp ha
    exact List.mem_filterMap.mpr ⟨c, hp.subset hc, hdev⟩
  · intro is pre hp s hs
    obtain ⟨as, t, ht, hR, -, has⟩ := Serve.objects_run hs
    rw [← hR.os]
    refine Objects.confined_run (fun a ha dev hdev => ?_) ht
    obtain ⟨s', i, hi, hmem⟩ := has a ha
    exact List.mem_filterMap.mpr ⟨i, hp.subset hi, Serve.device_of_mem_calls hmem dev hdev⟩

end Libptytty
