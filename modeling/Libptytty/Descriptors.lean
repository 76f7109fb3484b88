import Libptytty.PtyttyUnix

/-!
# Descriptor accounting of `ptytty_unix`

Each method opens and closes descriptors on behalf of one object. `Moves own own' d d'` says that
it did so correctly: the object owned `own` before and owns `own'` after, everything it opened or
closed is in the log and balanced from `own` to `own'`, and the other descriptors of the process
are untouched. Each method of the class is such a move between the descriptors in its fields
(`getPty_moves`, `get_moves`, `closeTty_moves`, `login_moves`, `delete_moves`), and moves compose
(`Moves.trans`).
-/

namespace Libptytty

open CString

variable {cfg : Config}

/-! ## Moves -/

/-- From `d` to `d'`, descriptors were opened and closed for an owner of `own`, who owns `own'`
afterwards. -/
structure Moves (own own' : Finset Fd) (d d' : Descs) : Prop where
  sub : own ⊆ d.fds
  sub' : own' ⊆ d'.fds
  rest : d'.fds \ own' = d.fds \ own
  file : ∀ fd ∈ d.fds \ own, d'.file fd = d.file fd
  log : ∃ es, d'.log = d.log ++ es ∧ Ledger.run own es = some own' ∧
    ∀ fd, .acquire fd ∈ es → fd ∉ d.fds \ own

namespace Moves

variable {own own' own'' : Finset Fd} {d d' d'' : Descs}

theorem refl (h : own ⊆ d.fds) : Moves own own d d :=
  ⟨h, h, rfl, fun _ _ => rfl, [], by simp, rfl, by simp⟩

theorem trans (h : Moves own own' d d') (h' : Moves own' own'' d' d'') : Moves own own'' d d'' := by
  obtain ⟨es, hes, hrun, hacq⟩ := h.log
  obtain ⟨fs, hfs, hrun', hacq'⟩ := h'.log
  refine ⟨h.sub, h'.sub', h'.rest.trans h.rest, fun fd hfd => ?_, es ++ fs, ?_, ?_, ?_⟩
  · rw [h'.file fd (by rw [h.rest]; exact hfd), h.file fd hfd]
  · rw [hfs, hes, List.append_assoc]
  · exact Ledger.run_append hrun hrun'
  · intro fd hfd
    rcases List.mem_append.mp hfd with hfd | hfd
    · exact hacq fd hfd
    · rw [← h.rest]; exact hacq' fd hfd

/-- The descriptors after a move are those of the owner and those of the others. -/
theorem fds_eq (h : Moves own own' d d') : d'.fds = (d.fds \ own) ∪ own' := by
  rw [← h.rest, Finset.sdiff_union_of_subset h.sub']

/-- The frame rule: what somebody else owns stays open and stays somebody else's. -/
theorem frame (h : Moves own own' d d') {r : Finset Fd} (hr : r ⊆ d.fds) (hd : Disjoint r own) :
    r ⊆ d'.fds ∧ Disjoint r own' ∧ ∀ fd ∈ r, d'.file fd = d.file fd := by
  have hsub : r ⊆ d.fds \ own := fun fd hfd =>
    Finset.mem_sdiff.mpr ⟨hr hfd, Finset.disjoint_left.mp hd hfd⟩
  refine ⟨?_, ?_, fun fd hfd => h.file fd (hsub hfd)⟩
  · rw [h.fds_eq]; exact hsub.trans Finset.subset_union_left
  · rw [← h.rest] at hsub
    exact Finset.disjoint_of_subset_left hsub Finset.sdiff_disjoint

/-- A new descriptor was not open. -/
theorem notMem (K : Kernel) (f : File) (d : Descs) : (d.openFile K f).1 ∉ d.fds :=
  K.pick_notMem _ _

/-- A move is also one of an owner of more. -/
theorem union (h : Moves own own' d d') {r : Finset Fd} (hr : r ⊆ d.fds) (hd : Disjoint r own) :
    Moves (own ∪ r) (own' ∪ r) d d' := by
  obtain ⟨hr', -, -⟩ := h.frame hr hd
  obtain ⟨es, hes, hrun, hacq⟩ := h.log
  refine ⟨Finset.union_subset h.sub hr, Finset.union_subset h.sub' hr', ?_, fun fd hfd => ?_, es,
    hes, ?_, fun fd hfd hmem => ?_⟩
  · rw [← Finset.sup_eq_union, ← Finset.sup_eq_union, ← sdiff_sdiff_left, ← sdiff_sdiff_left,
      h.rest]
  · refine h.file fd (Finset.sdiff_subset_sdiff le_rfl Finset.subset_union_left hfd)
  · refine (Ledger.run_union (fun fd hfd hmem => hacq fd hfd ?_) hd.symm hrun).1
    exact Finset.mem_sdiff.mpr ⟨hr hmem, Finset.disjoint_left.mp hd hmem⟩
  · exact hacq fd hfd (Finset.sdiff_subset_sdiff le_rfl Finset.subset_union_left hmem)

/-- `open` for an owner of `own`. -/
theorem openFile (K : Kernel) (f : File) (h : own ⊆ d.fds) :
    Moves own (insert (d.openFile K f).1 own) d (d.openFile K f).2 := by
  have hnew := notMem K f d
  refine ⟨h, Finset.insert_subset_insert _ h, ?_, fun fd hfd => ?_, [_], rfl, ?_, ?_⟩
  · show insert (d.openFile K f).1 d.fds \ insert _ own = d.fds \ own
    rw [Finset.insert_sdiff_insert, Finset.sdiff_insert, Finset.erase_eq_of_notMem]
    exact fun hmem => hnew (Finset.mem_sdiff.mp hmem).1
  · have hne : fd ≠ (d.openFile K f).1 := by
      rintro rfl
      exact hnew (Finset.mem_sdiff.mp hfd).1
    exact Function.update_of_ne hne _ _
  · exact Machine.run_cons_eq_some.mpr
      ⟨_, Ledger.step_acquire.mpr ⟨fun hmem => hnew (h hmem), rfl⟩, rfl⟩
  · intro fd hfd hmem
    obtain rfl : fd = _ := by simpa using hfd
    exact hnew (Finset.mem_sdiff.mp hmem).1

/-- `close` of a descriptor that is owned. -/
theorem close {fd : Fd} (h : own ⊆ d.fds) (hfd : fd ∈ own) :
    Moves own (own.erase fd) d (d.close fd) := by
  refine ⟨h, Finset.erase_subset_erase fd h, ?_, fun _ _ => rfl, [_], rfl, ?_, by simp⟩
  · show d.fds.erase fd \ own.erase fd = d.fds \ own
    ext x
    by_cases hx : x = fd
    · subst hx; simp [hfd]
    · simp [hx]
  · exact Machine.run_cons_eq_some.mpr ⟨_, Ledger.step_release.mpr ⟨hfd, rfl⟩, rfl⟩

/-- A file that is opened and closed at once. -/
theorem openFile_close (K : Kernel) (f : File) (h : own ⊆ d.fds) :
    Moves own own d ((d.openFile K f).2.close (d.openFile K f).1) := by
  have hopen := openFile K f h
  have hclose := close hopen.sub' (Finset.mem_insert_self (d.openFile K f).1 own)
  rw [Finset.erase_insert (fun hmem => notMem K f d (h hmem))] at hclose
  exact hopen.trans hclose

end Moves

/-! ## `open` and `close` of a process -/

variable {K : Kernel} {own : Finset Fd}

/-- The two outcomes of `open`. -/
theorem Os.openFile_cases (ok : Bool) (f : File) {os : Os cfg} (h : own ⊆ os.descs.fds) :
    os.openFile K ok f = (none, os) ∨
      ∃ fd os', os.openFile K ok f = (some fd, os') ∧ fd ∉ os.descs.fds ∧
        os'.descs.file = Function.update os.descs.file fd f ∧
        Moves own (insert fd own) os.descs os'.descs := by
  cases ok with
  | false => exact Or.inl rfl
  | true => exact Or.inr ⟨_, _, rfl, Moves.notMem K f os.descs, rfl, Moves.openFile K f h⟩

theorem Os.close_moves {fd : Fd} {os : Os cfg} (h : own ⊆ os.descs.fds) (hfd : fd ∈ own) :
    Moves own (own.erase fd) os.descs (os.close fd).descs := Moves.close h hfd

theorem withDatabase_moves (c : Prop) [Decidable c] (ok : Bool) {os : Os cfg}
    (h : own ⊆ os.descs.fds) :
    Moves own own os.descs (if c then withDatabase K ok os else os).descs := by
  split_ifs
  · cases ok with
    | false => exact Moves.refl h
    | true => exact Moves.openFile_close K .database h
  · exact Moves.refl h

/-- The files of the session databases are closed again. -/
theorem logSessionFiles_moves (o : LogOutcome) (s : Session) (login : Bool) (os : Os cfg) :
    Moves ∅ ∅ os.descs (logSessionFiles K o s login os).descs := by
  have h : ∅ ⊆ os.descs.fds := Finset.empty_subset _
  unfold logSessionFiles
  split
  · exact Moves.refl h
  · exact Moves.refl h
  all_goals
    have h₁ := withDatabase_moves (K := K) (cfg.utmp = .utmpSlot ∧ (∃ pos ∈ s.utmpPos, pos > 0))
      o.utmpFile h
    have h₂ := withDatabase_moves (K := K) (s.loginShell ∧ cfg.wtmp ∧ cfg.ownUpdwtmp) o.wtmpFile
      h₁.sub'
    have h₃ := withDatabase_moves (K := K)
      (s.loginShell ∧ cfg.lastlog ∧ login ∧ cfg.pwent.isSome) o.lastlogFile h₂.sub'
    exact (h₁.trans h₂).trans h₃

theorem logSession_db_moves (o : LogOutcome) (s : Session) (login : Bool)
    (hostname : Option CStr) (os : Os cfg) :
    Moves ∅ ∅ os.descs (logSession K o s login hostname os).descs :=
  logSessionFiles_moves o s login { os with db := logSessionDb s login hostname os.db }

namespace PtyttyUnix

/-! ## `get_pty` -/

/-- What `get_pty` can have done for an owner of `own`. -/
inductive GetPtyDone (own : Finset Fd) (tty : Option Fd) (name : Option CStr) (os : Os cfg) :
    GetPty cfg → Prop
  | failed {os'} (moves : Moves own own os.descs os'.descs) :
      GetPtyDone own tty name os ⟨none, tty, name, os'⟩
  | master {os' p dev} (new : p ∉ own) (file : os'.descs.file p = .master dev)
      (moves : Moves own (insert p own) os.descs os'.descs) :
      GetPtyDone own tty name os ⟨some p, tty, some dev, os'⟩
  | both {os' p t dev} (newPty : p ∉ own) (newTty : t ∉ insert p own)
      (filePty : os'.descs.file p = .master dev) (fileTty : os'.descs.file t = .slave dev)
      (moves : Moves own (insert t (insert p own)) os.descs os'.descs) :
      GetPtyDone own tty name os ⟨some p, some t, some dev, os'⟩

variable {o : GetOutcome} {tty : Option Fd} {name : Option CStr} {os : Os cfg}

theorem getPtyUnix98_done (h : own ⊆ os.descs.fds) :
    GetPtyDone own tty name os (getPtyUnix98 K o tty name os) := by
  unfold getPtyUnix98
  rcases Os.openFile_cases o.master (.master o.device) h with he | ⟨p, os₁, he, hp, hfile, hmv⟩
  · rw [he]
    exact .failed (Moves.refl h)
  · rw [he]
    dsimp only
    split_ifs
    · exact .master (fun hmem => hp (h hmem)) (by rw [hfile, Function.update_self]) hmv
    · have hclose := Os.close_moves hmv.sub' (Finset.mem_insert_self p own)
      rw [Finset.erase_insert (fun hmem => hp (h hmem))] at hclose
      exact .failed (hmv.trans hclose)

theorem getPtyOpenpty_done (h : own ⊆ os.descs.fds) :
    GetPtyDone own tty name os (getPtyOpenpty K o tty name os) := by
  unfold getPtyOpenpty
  rcases Os.openFile_cases o.master (.master o.device) h with he | ⟨p, os₁, he, hp, hfile, hmv⟩
  · rw [he]
    exact .failed (Moves.refl h)
  · rw [he]
    have hopen := Moves.openFile K (.slave o.device) hmv.sub'
    have hnew := Moves.notMem K (.slave o.device) os₁.descs
    refine .both (fun hmem => hp (h hmem)) (fun hmem => hnew (hmv.sub' hmem)) ?_ ?_
      (hmv.trans hopen)
    · have hne : p ≠ (os₁.descs.openFile K (.slave o.device)).1 := by
        rintro rfl
        exact hnew (hmv.sub' (Finset.mem_insert_self _ _))
      exact (Function.update_of_ne hne _ _).trans (by rw [hfile, Function.update_self])
    · exact Function.update_self _ _ _

theorem getPtyGetpty_done (h : own ⊆ os.descs.fds) :
    GetPtyDone own tty name os (getPtyGetpty K o tty name os) := by
  unfold getPtyGetpty
  rcases Os.openFile_cases o.master (.master o.device) h with he | ⟨p, os₁, he, hp, hfile, hmv⟩
  · rw [he]
    exact .failed (Moves.refl h)
  · rw [he]
    exact .master (fun hmem => hp (h hmem)) (by rw [hfile, Function.update_self]) hmv

theorem GetPtyDone.after {os os' : Os cfg} {r : GetPty cfg}
    (h : Moves own own os.descs os'.descs) (hr : GetPtyDone own tty name os' r) :
    GetPtyDone own tty name os r := by
  cases hr with
  | failed moves => exact .failed (h.trans moves)
  | master new file moves => exact .master new file (h.trans moves)
  | both newPty newTty filePty fileTty moves =>
    exact .both newPty newTty filePty fileTty (h.trans moves)

/-- One iteration opens at most one master. -/
theorem bsdOpen_cases (i : ℕ) (h : own ⊆ os.descs.fds) :
    bsdOpen K o i os = (none, os) ∨
      ∃ p dev os', bsdOpen K o i os = (some (p, dev), os') ∧ p ∉ os.descs.fds ∧
        os'.descs.file p = .master dev ∧ Moves own (insert p own) os.descs os'.descs := by
  unfold bsdOpen
  rcases Os.openFile_cases (K := K) (o.probe i).first (.master (bsdName i)) h with
    he | ⟨p, os₁, he, hp, hfile, hmv⟩
  · rw [he]
    dsimp only
    rcases Os.openFile_cases (K := K) (o.probe i).second (.master (bsdAltName i)) h with
      he | ⟨p, os₁, he, hp, hfile, hmv⟩
    · rw [he]
      exact Or.inl rfl
    · rw [he]
      exact Or.inr ⟨p, _, os₁, rfl, hp, by rw [hfile, Function.update_self], hmv⟩
  · rw [he]
    exact Or.inr ⟨p, _, os₁, rfl, hp, by rw [hfile, Function.update_self], hmv⟩

theorem bsdLoop_done (n i : ℕ) (h : own ⊆ os.descs.fds) :
    GetPtyDone own tty name os (bsdLoop K o tty name n i os) := by
  induction n generalizing i os with
  | zero => exact .failed (Moves.refl h)
  | succ n ih =>
    unfold bsdLoop
    rcases bsdOpen_cases (K := K) (o := o) i h with he | ⟨p, dev, os₁, he, hp, hfile, hmv⟩
    · rw [he]
      exact ih (i + 1) h
    · rw [he]
      dsimp only
      split_ifs
      · exact .master (fun hmem => hp (h hmem)) hfile hmv
      · -- the slave is not accessible: the master is closed and the search goes on
        have hclose := Os.close_moves hmv.sub' (Finset.mem_insert_self p own)
        rw [Finset.erase_insert (fun hmem => hp (h hmem))] at hclose
        exact (ih (i + 1) hclose.sub').after (hmv.trans hclose)

/-- All variants of `get_pty` open what they report, and nothing else stays open. -/
theorem getPty_done (h : own ⊆ os.descs.fds) :
    GetPtyDone own tty name os (getPty K o tty name os) := by
  unfold getPty
  split
  · exact getPtyUnix98_done h
  · exact getPtyOpenpty_done h
  · exact getPtyGetpty_done h
  · exact bsdLoop_done 256 0 h

/-! ## Methods -/

/-- The descriptors in the fields of an object. -/
def owned (x : PtyttyUnix) : Finset Fd := x.pty.toFinset ∪ x.tty.toFinset

/-- The object is as the constructor and `put` leave it. -/
def Initial (x : PtyttyUnix) : Prop := x.pty = none ∧ x.tty = none ∧ x.name = none

/-- The object has a master, it may have a slave, and both are of the device `name`. -/
def Ready (x : PtyttyUnix) (d : Descs) : Prop :=
  ∃ p dev, x.pty = some p ∧ x.name = some dev ∧ d.file p = .master dev ∧
    ∀ t ∈ x.tty, t ≠ p ∧ d.file t = .slave dev

theorem initial_new : new.Initial := ⟨rfl, rfl, rfl⟩

theorem Initial.owned_eq {x : PtyttyUnix} (h : x.Initial) : x.owned = ∅ := by
  unfold owned
  rw [h.1, h.2.1]
  rfl

theorem setTtyOwner_descs (name : Option CStr) (os : Os cfg) :
    (setTtyOwner name os).descs = os.descs := by
  unfold setTtyOwner
  split <;> rfl

theorem restoreDev_descs (name : Option CStr) (os : Os cfg) :
    (restoreDev name os).descs = os.descs := by
  unfold restoreDev
  split <;> rfl

/-- `close_tty` closes the slave. -/
theorem closeTty_moves {x : PtyttyUnix} (hne : ∀ t ∈ x.tty, x.pty ≠ some t)
    (h : x.owned ⊆ os.descs.fds) :
    Moves x.owned (x.closeTty os).1.owned os.descs (x.closeTty os).2.descs := by
  obtain ⟨pty, tty, name, pos, pid, shell⟩ := x
  cases tty with
  | none => exact Moves.refl h
  | some t =>
    have hmem : t ∈ pty.toFinset ∪ (some t).toFinset := by simp
    have hclose := Os.close_moves h hmem
    have herase : (pty.toFinset ∪ (some t).toFinset).erase t = pty.toFinset ∪ ∅ := by
      have : t ∉ pty.toFinset := by simpa using hne t rfl
      simp [Finset.erase_eq_of_notMem this]
    unfold owned at hclose
    rw [herase] at hclose
    exact hclose

theorem closePty_moves {x : PtyttyUnix} (ht : x.tty = none) (h : x.owned ⊆ os.descs.fds) :
    Moves x.owned ∅ os.descs (x.closePty os).descs := by
  obtain ⟨pty, tty, name, pos, pid, shell⟩ := x
  obtain rfl : tty = none := ht
  cases pty with
  | none => exact Moves.refl h
  | some p =>
    have hmem : p ∈ owned ⟨some p, none, name, pos, pid, shell⟩ := by simp [owned]
    have hclose := Os.close_moves h hmem
    have herase : (owned ⟨some p, none, name, pos, pid, shell⟩).erase p = ∅ := by simp [owned]
    rw [herase] at hclose
    exact hclose

/-- `put` closes what the object has. -/
theorem put_moves {x : PtyttyUnix} (hne : ∀ t ∈ x.tty, x.pty ≠ some t)
    (h : x.owned ⊆ os.descs.fds) : Moves x.owned ∅ os.descs (x.put os).2.descs := by
  have hos : (restoreDev x.name os).descs = os.descs := restoreDev_descs _ _
  rw [← hos] at h
  have hclose := closeTty_moves hne h
  rw [hos] at hclose
  refine hclose.trans (closePty_moves ?_ hclose.sub')
  obtain ⟨pty, tty, name, pos, pid, shell⟩ := x
  cases tty <;> rfl

/-- After `put` the object is as it was constructed. -/
theorem put_initial (x : PtyttyUnix) (os : Os cfg) : (x.put os).1.Initial := ⟨rfl, rfl, rfl⟩

/-- `utmp_pos` is the only field that the end of `get` sets. -/
theorem setSlot_eq (cfg : Config) (o : GetOutcome) (x : PtyttyUnix) :
    ∃ pos, setSlot cfg o x = { x with utmpPos := pos } := by
  unfold setSlot
  split_ifs
  · exact ⟨_, rfl⟩
  · exact ⟨x.utmpPos, rfl⟩

theorem owned_pair (p t : Fd) (name : Option CStr) (pos : Option ℤ) (pid : ℤ)
    (shell : Option Bool) :
    owned ⟨some p, some t, name, pos, pid, shell⟩ = insert t (insert p ∅) := by
  unfold owned
  ext fd
  simp [or_comm]

theorem ready_pair {p t : Fd} {dev : CStr} {d : Descs} (hne : t ≠ p)
    (hp : d.file p = .master dev) (ht : d.file t = .slave dev) (pos : Option ℤ) (pid : ℤ)
    (shell : Option Bool) : Ready ⟨some p, some t, some dev, pos, pid, shell⟩ d := by
  refine ⟨p, dev, rfl, rfl, hp, fun t' ht' => ?_⟩
  obtain rfl : t = t' := Option.some.inj ht'
  exact ⟨hne, ht⟩

/-- The object at the end of a `get` that has a pair. -/
theorem ready_setSlot (cfg : Config) {p t : Fd} {dev : CStr} {d : Descs} (hne : t ≠ p)
    (hp : d.file p = .master dev) (ht : d.file t = .slave dev) (o : GetOutcome) (pos : Option ℤ)
    (pid : ℤ) (shell : Option Bool) :
    (setSlot cfg o ⟨some p, some t, some dev, pos, pid, shell⟩).Ready d ∧
      (setSlot cfg o ⟨some p, some t, some dev, pos, pid, shell⟩).tty.isSome ∧
      (setSlot cfg o ⟨some p, some t, some dev, pos, pid, shell⟩).cmdPid = pid ∧
      (setSlot cfg o ⟨some p, some t, some dev, pos, pid, shell⟩).owned =
        insert t (insert p ∅) := by
  obtain ⟨pos', hslot⟩ := setSlot_eq cfg o ⟨some p, some t, some dev, pos, pid, shell⟩
  rw [hslot]
  exact ⟨ready_pair hne hp ht _ _ _, rfl, rfl, owned_pair p t _ _ _ _⟩

/-- The two outcomes of `get` on an object without a pty: it fails and leaves the object and the
descriptors as they were, or it leaves the object with a master and its slave. -/
theorem get_moves {x : PtyttyUnix} (hx : x.Initial) (os : Os cfg) :
    (∃ os', x.get K o os = (false, x, os') ∧ Moves ∅ ∅ os.descs os'.descs) ∨
      ∃ x' os', x.get K o os = (true, x', os') ∧ x'.Ready os'.descs ∧ x'.tty.isSome ∧
        x'.cmdPid = x.cmdPid ∧ Moves ∅ x'.owned os.descs os'.descs := by
  obtain ⟨pty, tty, name, pos, pid, shell⟩ := x
  obtain ⟨rfl, rfl, rfl⟩ := hx
  have hdone : GetPtyDone ∅ none none os (getPty K o none none os) :=
    getPty_done (Finset.empty_subset os.descs.fds)
  unfold get
  dsimp only
  revert hdone
  generalize getPty K o none none os = r
  intro hdone
  cases hdone with
  | failed moves => exact Or.inl ⟨_, rfl, moves⟩
  | both newPty newTty filePty fileTty moves =>
    obtain ⟨hready, htty, hpid, howned⟩ :=
      ready_setSlot cfg (fun he => newTty (by simp [he])) filePty fileTty o pos pid shell
    exact Or.inr ⟨_, _, rfl, hready, htty, hpid, howned ▸ moves⟩
  | @master os₁ p dev new file moves =>
    dsimp only [getTty]
    have hsub : insert p ∅ ⊆ (setTtyOwner (some dev) os₁).descs.fds := by
      rw [setTtyOwner_descs]; exact moves.sub'
    rcases Os.openFile_cases (K := K) o.slave (.slave dev) hsub with
      he | ⟨t, os₂, he, ht, hfile, hmv⟩
    · -- the slave cannot be opened: `put` closes the master
      rw [he]
      refine Or.inl ⟨_, rfl, moves.trans ?_⟩
      have hput : Moves _ ∅ (setTtyOwner (some dev) os₁).descs _ :=
        put_moves (x := ⟨some p, none, some dev, pos, pid, shell⟩) (by simp)
          (by simpa [owned] using hsub)
      rw [setTtyOwner_descs] at hput
      exact hput
    · rw [he]
      rw [setTtyOwner_descs] at hsub ht hmv
      have hpt : t ≠ p := by
        rintro rfl
        exact ht (hsub (Finset.mem_insert_self t ∅))
      have hmaster : os₂.descs.file p = .master dev := by
        rw [hfile, Function.update_of_ne hpt.symm, setTtyOwner_descs, file]
      have hslave : os₂.descs.file t = .slave dev := by rw [hfile, Function.update_self]
      obtain ⟨hready, htty, hpid, howned⟩ :=
        ready_setSlot cfg hpt hmaster hslave o pos pid shell
      exact Or.inr ⟨_, _, rfl, hready, htty, hpid, howned ▸ moves.trans hmv⟩

/-- `log_session` closes the files it opens. -/
theorem logSession_moves (o : LogOutcome) (x : PtyttyUnix) (login : Bool) (hostname : Option CStr)
    (os : Os cfg) : Moves ∅ ∅ os.descs (x.logSession K o login hostname os).descs := by
  unfold logSession
  split
  · exact Moves.refl (Finset.empty_subset _)
  · exact logSession_db_moves o _ login hostname os

theorem login_moves (o : LogOutcome) (pid : ℤ) (shell : Bool) (hostname : CStr) (x : PtyttyUnix)
    (os : Os cfg) : Moves ∅ ∅ os.descs (x.login K o pid shell hostname os).2.descs := by
  unfold login
  split_ifs
  · exact Moves.refl (Finset.empty_subset _)
  · exact Moves.refl (Finset.empty_subset _)
  · exact logSession_moves o _ true _ os

/-- `login` changes neither the descriptors nor the name. -/
theorem login_fields (o : LogOutcome) (pid : ℤ) (shell : Bool) (hostname : CStr) (x : PtyttyUnix)
    (os : Os cfg) : (x.login K o pid shell hostname os).1.pty = x.pty ∧
      (x.login K o pid shell hostname os).1.tty = x.tty ∧
      (x.login K o pid shell hostname os).1.name = x.name := by
  unfold login
  split_ifs <;> exact ⟨rfl, rfl, rfl⟩

/-- The destructor closes what the object has. -/
theorem delete_moves (o : LogOutcome) {x : PtyttyUnix} (hne : ∀ t ∈ x.tty, x.pty ≠ some t)
    (h : x.owned ⊆ os.descs.fds) : Moves x.owned ∅ os.descs (x.delete K o os).descs := by
  unfold delete
  dsimp only
  split_ifs
  · have hlog := (logSession_moves (K := K) o x false none os).union h
      (Finset.disjoint_empty_right _)
    rw [Finset.empty_union] at hlog
    exact hlog.trans (put_moves hne hlog.sub')
  · exact put_moves hne h

theorem Ready.pty_ne_tty {x : PtyttyUnix} {d : Descs} (h : x.Ready d) :
    ∀ t ∈ x.tty, x.pty ≠ some t := by
  intro t ht he
  obtain ⟨p, dev, hp, -, -, htty⟩ := h
  exact (htty t ht).1 (Option.some.inj (he.symm.trans hp))

/-- The facts about an object's descriptors survive as long as they refer to the same files. -/
theorem Ready.congr {x : PtyttyUnix} {d d' : Descs} (h : x.Ready d)
    (hfile : ∀ fd ∈ x.owned, d'.file fd = d.file fd) : x.Ready d' := by
  obtain ⟨p, dev, hp, hname, hfp, htty⟩ := h
  refine ⟨p, dev, hp, hname, ?_, fun t ht => ⟨(htty t ht).1, ?_⟩⟩
  · rw [hfile p (by simp [owned, hp]), hfp]
  · rw [hfile t (by simp [owned, Option.mem_def.mp ht]), (htty t ht).2]

theorem closeTty_ready {x : PtyttyUnix} (h : x.Ready os.descs) :
    (x.closeTty os).1.Ready (x.closeTty os).2.descs := by
  obtain ⟨pty, tty, name, pos, pid, shell⟩ := x
  obtain ⟨p, dev, hp, hname, hfp, htty⟩ := h
  cases tty with
  | none => exact ⟨p, dev, hp, hname, hfp, htty⟩
  | some t => exact ⟨p, dev, hp, hname, hfp, by rintro t ⟨⟩⟩

end PtyttyUnix

/-! ## The life of one object -/

open PtyttyUnix (GetOutcome)

/-- One object of a process, from its construction on. -/
structure Life (cfg : Config) where
  /-- `none` after the destruction. -/
  obj : Option PtyttyUnix
  os : Os cfg
  /-- `get` has returned true. -/
  got : Bool
  /-- The openings and closings made for the object. -/
  log : List (Ledger.Event Fd)

namespace Life

/-- A step of the process. -/
inductive Act (cfg : Config)
  | get (o : GetOutcome)
  | login (o : LogOutcome) (pid : ℤ) (shell : Bool) (hostname : CStr)
  | closeTty
  | delete (o : LogOutcome)
  /-- Anything that happens to the descriptors of others. -/
  | others (os : Os cfg)

/-- After the constructor. -/
def initial (os : Os cfg) : Life cfg := ⟨some .new, os, false, []⟩

/-- The descriptors the object owns. -/
def owned (s : Life cfg) : Finset Fd :=
  match s.obj with
  | none => ∅
  | some x => x.owned

/-- The state after a method has returned. -/
def after (s : Life cfg) (obj : Option PtyttyUnix) (os : Os cfg) : Life cfg :=
  ⟨obj, os, s.got, s.log ++ os.descs.log.drop s.os.descs.log.length⟩

variable (K : Kernel)

/-- Methods are called on an object that exists, `get` not again after it has returned true. -/
def step (s : Life cfg) : Act cfg → Option (Life cfg)
  | .get o => s.obj.bind fun x =>
      if s.got then none
      else
        let (ok, x, os) := x.get K o s.os
        some { s.after (some x) os with got := ok }
  | .login o pid shell hostname => s.obj.map fun x =>
      let (x, os) := x.login K o pid shell hostname s.os
      s.after (some x) os
  | .closeTty => s.obj.map fun x =>
      let (x, os) := x.closeTty s.os
      s.after (some x) os
  | .delete o => s.obj.map fun x => s.after none (x.delete K o s.os)
  | .others os =>
      if s.owned ⊆ os.descs.fds ∧ ∀ fd ∈ s.owned, os.descs.file fd = s.os.descs.file fd then
        some { s with os := os }
      else none

variable {K}

/-- The log accounts for what the object owns, and until `get` has succeeded the object is as the
constructor left it. -/
structure Inv (s : Life cfg) : Prop where
  log : Ledger.run ∅ s.log = some s.owned
  sub : s.owned ⊆ s.os.descs.fds
  fresh : s.got = false → ∀ x ∈ s.obj, x = .new
  ready : s.got = true → ∀ x ∈ s.obj, x.Ready s.os.descs

theorem inv_initial (os : Os cfg) : Inv (initial os) := by
  have howned : (initial os).owned = ∅ := PtyttyUnix.initial_new.owned_eq
  refine ⟨?_, ?_, fun _ x hx => (Option.some.inj hx).symm, fun h => Bool.noConfusion h⟩
  · rw [howned]; rfl
  · rw [howned]; exact Finset.empty_subset _

theorem log_after {s : Life cfg} {own own' : Finset Fd} {os : Os cfg}
    (hlog : Ledger.run ∅ s.log = some own) (hmv : Moves own own' s.os.descs os.descs) :
    Ledger.run ∅ (s.log ++ os.descs.log.drop s.os.descs.log.length) = some own' := by
  obtain ⟨es, hes, hrun, -⟩ := hmv.log
  rw [hes, List.drop_left]
  exact Ledger.run_append hlog hrun

/-- The object has no two fields for one descriptor. -/
theorem Inv.pty_ne_tty {s : Life cfg} (h : Inv s) {x : PtyttyUnix} (hx : x ∈ s.obj) :
    ∀ t ∈ x.tty, x.pty ≠ some t := by
  cases hgot : s.got with
  | true => exact (h.ready hgot x hx).pty_ne_tty
  | false => rw [h.fresh hgot x hx]; rintro t ⟨⟩

theorem inv_get {s : Life cfg} (h : Inv s) {x : PtyttyUnix} (hx : s.obj = some x)
    (hgot : s.got = false) (o : GetOutcome) :
    Inv { s.after (some (x.get K o s.os).2.1) (x.get K o s.os).2.2 with
      got := (x.get K o s.os).1 } := by
  obtain rfl : x = .new := h.fresh hgot x hx
  have howned : s.owned = ∅ := by
    unfold owned; rw [hx]; exact PtyttyUnix.initial_new.owned_eq
  have hlog := h.log
  rw [howned] at hlog
  rcases PtyttyUnix.get_moves (K := K) (o := o) PtyttyUnix.initial_new s.os with
    ⟨os, he, hmv⟩ | ⟨x, os, he, hready, -, -, hmv⟩
  · -- `get` has failed: the object is still the one constructed
    rw [he]
    have hnew : PtyttyUnix.new.owned = ∅ := PtyttyUnix.initial_new.owned_eq
    refine ⟨?_, ?_, fun _ y hy => (Option.some.inj hy).symm, fun hg => Bool.noConfusion hg⟩
    · show Ledger.run ∅ _ = some PtyttyUnix.new.owned
      rw [hnew]; exact log_after hlog hmv
    · show PtyttyUnix.new.owned ⊆ _
      rw [hnew]; exact hmv.sub'
  · rw [he]
    refine ⟨log_after hlog hmv, hmv.sub', fun hg => Bool.noConfusion hg, fun _ y hy => ?_⟩
    obtain rfl : x = y := Option.some.inj hy
    exact hready

theorem inv_login {s : Life cfg} (h : Inv s) {x : PtyttyUnix} (hx : s.obj = some x)
    (o : LogOutcome) (pid : ℤ) (shell : Bool) (hostname : CStr) :
    Inv (s.after (some (x.login K o pid shell hostname s.os).1)
      (x.login K o pid shell hostname s.os).2) := by
  obtain ⟨hpty, htty, hname⟩ := PtyttyUnix.login_fields (K := K) o pid shell hostname x s.os
  have hown : s.owned = x.owned := by unfold owned; rw [hx]
  have hsub := h.sub
  rw [hown] at hsub
  have hmv := PtyttyUnix.login_moves (K := K) o pid shell hostname x s.os
  have hfile := (hmv.frame hsub (Finset.disjoint_empty_right _)).2.2
  have hmv := hmv.union hsub (Finset.disjoint_empty_right _)
  rw [Finset.empty_union] at hmv
  have howned : (x.login K o pid shell hostname s.os).1.owned = x.owned := by
    unfold PtyttyUnix.owned; rw [hpty, htty]
  refine ⟨?_, ?_, fun hg y hy => ?_, fun hg y hy => ?_⟩
  · show Ledger.run ∅ _ = some (x.login K o pid shell hostname s.os).1.owned
    rw [howned]; exact log_after (hown ▸ h.log) hmv
  · show (x.login K o pid shell hostname s.os).1.owned ⊆ _
    rw [howned]; exact hmv.sub'
  · -- without a name `login` does nothing
    obtain rfl : _ = y := Option.some.inj hy
    obtain rfl : x = .new := h.fresh hg x hx
    unfold PtyttyUnix.login
    split_ifs with h₁ h₂
    · rfl
    · rfl
    · exact absurd (Or.inl rfl) h₂
  · obtain rfl : _ = y := Option.some.inj hy
    obtain ⟨p, dev, hp, hn, hfp, ht⟩ := (h.ready hg x hx).congr hfile
    exact ⟨p, dev, hpty.trans hp, hname.trans hn, hfp, by rw [htty]; exact ht⟩

theorem inv_closeTty {s : Life cfg} (h : Inv s) {x : PtyttyUnix} (hx : s.obj = some x) :
    Inv (s.after (some (x.closeTty s.os).1) (x.closeTty s.os).2) := by
  have hown : s.owned = x.owned := by unfold owned; rw [hx]
  have hsub := h.sub
  rw [hown] at hsub
  have hmv := PtyttyUnix.closeTty_moves (h.pty_ne_tty hx) hsub
  refine ⟨log_after (hown ▸ h.log) hmv, hmv.sub', fun hg y hy => ?_, fun hg y hy => ?_⟩
  · obtain rfl : _ = y := Option.some.inj hy
    obtain rfl : x = .new := h.fresh hg x hx
    rfl
  · obtain rfl : _ = y := Option.some.inj hy
    exact PtyttyUnix.closeTty_ready (h.ready hg x hx)

theorem inv_delete {s : Life cfg} (h : Inv s) {x : PtyttyUnix} (hx : s.obj = some x)
    (o : LogOutcome) : Inv (s.after none (x.delete K o s.os)) := by
  have hown : s.owned = x.owned := by unfold owned; rw [hx]
  have hsub := h.sub
  rw [hown] at hsub
  have hmv := PtyttyUnix.delete_moves (K := K) o (h.pty_ne_tty hx) hsub
  exact ⟨log_after (hown ▸ h.log) hmv, hmv.sub', fun _ _ hy => (nomatch hy),
    fun _ _ hy => (nomatch hy)⟩

theorem inv_step {s t : Life cfg} {a : Act cfg} (h : Inv s) (ht : step K s a = some t) :
    Inv t := by
  cases a with
  | get o =>
    obtain ⟨x, hx, ht⟩ := Option.bind_eq_some_iff.mp ht
    split_ifs at ht with hgot
    obtain rfl := Option.some.inj ht
    exact inv_get h hx (by simpa using hgot) o
  | login o pid shell hostname =>
    obtain ⟨x, hx, ht⟩ := Option.map_eq_some_iff.mp ht
    obtain rfl := ht
    exact inv_login h hx o pid shell hostname
  | closeTty =>
    obtain ⟨x, hx, ht⟩ := Option.map_eq_some_iff.mp ht
    obtain rfl := ht
    exact inv_closeTty h hx
  | delete o =>
    obtain ⟨x, hx, ht⟩ := Option.map_eq_some_iff.mp ht
    obtain rfl := ht
    exact inv_delete h hx o
  | others os =>
    change (if _ ∧ _ then _ else none) = some t at ht
    split_ifs at ht with hcond
    obtain rfl := Option.some.inj ht
    refine ⟨h.log, hcond.1, h.fresh, fun hg x hx => (h.ready hg x hx).congr ?_⟩
    have hown : s.owned = x.owned := by unfold owned; rw [Option.mem_def.mp hx]
    rw [← hown]
    exact hcond.2

/-- The invariant holds in every state of the life of an object. -/
theorem inv_run {os : Os cfg} {as : List (Act cfg)} {s : Life cfg}
    (h : Machine.run (step K) (initial os) as = some s) : Inv s :=
  Machine.inv_of_run (fun _ _ _ hI ht => inv_step hI ht) (inv_initial os) h

end Life

end Libptytty
