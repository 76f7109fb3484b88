import Libptytty.Reuse

/-!
# The swap of descriptor 0

Without `HAVE_UTMP_PID`, `get` ends by putting the slave on descriptor 0 for a call of `ttyslot`,
and restoring it from a `dup` whose result nobody looks at. `getSwap` is `get` with this end, for a
kernel that hands out the lowest free descriptor below a limit.

Descriptor 0 is open when the swap begins: if it was closed before, it is the new master. So the
swap does no harm where the slave never gets to 0, or where there is a third descriptor to save 0 in
and the way back succeeds (`leftAlone_iff`; `onePair_swap_iff` for the pair alone).
-/

namespace Libptytty

open CString
open PtyttyUnix (GetOutcome GetDone GetPtyDone Found device)

variable {cfg : Config}

/-! ## `dup` and `dup2` -/

/-- `dup`. -/
def Descs.dup (K : Kernel) (limit : ℕ) (ok : Bool) (fd : Fd) (d : Descs) : Option Fd × Descs :=
  if ok ∧ fd ∈ d.fds ∧ K.pick d.log.length d.fds < limit then
    let (n, d) := d.openFile K (d.file fd)
    (some n, d)
  else (none, d)

/-- `dup2`; a descriptor that is `none` is `-1`. -/
def Descs.dup2 (ok : Bool) (fd : Option Fd) (target : Fd) (d : Descs) : Descs :=
  match fd with
  | none => d
  | some fd =>
    if ok ∧ fd ∈ d.fds ∧ fd ≠ target then
      { fds := insert target d.fds
        file := Function.update d.file target (d.file fd)
        log := d.log ++ (if target ∈ d.fds then [.release target] else []) ++ [.acquire target] }
    else d

/-- Whether the system calls of the swap are refused. -/
structure SwapOutcome where
  dup : Bool
  first : Bool
  second : Bool

variable (K : Kernel) (limit : ℕ)

/-- The descriptors around the call of `ttyslot`. -/
def ttyslotSwap (w : SwapOutcome) (tty : Option Fd) (d : Descs) : Descs :=
  let (fdStdin, d) := d.dup K limit w.dup 0
  let d := d.dup2 w.first tty 0
  let d := d.dup2 w.second fdStdin 0
  match fdStdin with
  | none => d
  | some fd => d.close fd

/-- `ptytty_unix::get` with the swap. -/
def PtyttyUnix.getSwap (o : GetOutcome) (w : SwapOutcome) (x : PtyttyUnix) (os : Os cfg) :
    Bool × PtyttyUnix × Os cfg :=
  match x.get K o os with
  | (false, x, os) => (false, x, os)
  | (true, x, os) =>
    if cfg.utmp = .utmpSlot then
      (true, x, { os with descs := ttyslotSwap K limit w x.tty os.descs })
    else (true, x, os)

/-- The descriptors that were open before refer to the same files, and the only new ones are those
of the pair in the fields of the object. -/
structure LeftAlone (d : Descs) (x : PtyttyUnix) (d' : Descs) : Prop where
  same : ∀ fd ∈ d.fds, fd ∈ d'.fds ∧ d'.file fd = d.file fd
  only : ∀ fd ∈ d'.fds, fd ∉ d.fds → x.pty = some fd ∨ x.tty = some fd
  pair : Calls.OnePair x d'

variable {K limit}

theorem dup2_fds (ok : Bool) (fd : Option Fd) {target : Fd} {d : Descs} (htarget : target ∈ d.fds) :
    (d.dup2 ok fd target).fds = d.fds := by
  unfold Descs.dup2
  split
  · rfl
  · split_ifs
    · exact Finset.insert_eq_of_mem htarget
    · rfl

/-- `dup2` of an open descriptor. -/
theorem dup2_file (ok : Bool) {fd : Fd} (target : Fd) {d : Descs} (hfd : fd ∈ d.fds) :
    (d.dup2 ok (some fd) target).file =
      if ok then Function.update d.file target (d.file fd) else d.file := by
  cases ok with
  | false => rfl
  | true =>
    unfold Descs.dup2
    dsimp only
    by_cases hne : fd = target
    · subst hne
      rw [if_neg fun h => h.2.2 rfl]
      exact (Function.update_eq_self fd d.file).symm
    · rw [if_pos ⟨rfl, hfd, hne⟩]
      rfl

/-- `dup` of descriptor 0, which is open. -/
theorem dup_posix (ok : Bool) {d : Descs} (h0 : 0 ∈ d.fds) :
    d.dup posix limit ok 0 = if ok = true ∧ lowestFree d.fds < limit then
      (some (lowestFree d.fds), (d.openFile posix (d.file 0)).2) else (none, d) := by
  unfold Descs.dup
  simp only [h0, true_and]
  rfl

variable (limit) in
/-- The swap opens and closes the same. -/
theorem ttyslotSwap_fds (w : SwapOutcome) (tty : Option Fd) {d : Descs} (h0 : 0 ∈ d.fds) :
    (ttyslotSwap posix limit w tty d).fds = d.fds := by
  have hnew := lowestFree_notMem d.fds
  unfold ttyslotSwap
  rw [dup_posix w.dup h0]
  split_ifs with hdup
  · have h0₁ : 0 ∈ (d.openFile posix (d.file 0)).2.fds := Finset.mem_insert_of_mem h0
    have h0₂ : 0 ∈ ((d.openFile posix (d.file 0)).2.dup2 w.first tty 0).fds := by
      rw [dup2_fds _ _ h0₁]
      exact h0₁
    show (Descs.dup2 w.second _ 0 _).fds.erase (lowestFree d.fds) = d.fds
    rw [dup2_fds _ _ h0₂, dup2_fds _ _ h0₁]
    exact Finset.erase_insert hnew
  · exact dup2_fds _ _ h0

variable (limit) in
/-- It leaves the slave on descriptor 0 if the way back fails. -/
theorem ttyslotSwap_file (w : SwapOutcome) {t : Fd} {d : Descs} (h0 : 0 ∈ d.fds) (ht : t ∈ d.fds)
    {fd : Fd} (hfd : fd ∈ d.fds) :
    (ttyslotSwap posix limit w (some t) d).file fd =
      if fd = 0 ∧ w.first = true ∧
          ¬ (w.dup = true ∧ lowestFree d.fds < limit ∧ w.second = true) then
        d.file t
      else d.file fd := by
  have hnew := lowestFree_notMem d.fds
  have hn0 : lowestFree d.fds ≠ 0 := fun he => hnew (he ▸ h0)
  have hnt : t ≠ lowestFree d.fds := fun he => hnew (he ▸ ht)
  have hfdn : fd ≠ lowestFree d.fds := fun he => hnew (he ▸ hfd)
  unfold ttyslotSwap
  rw [dup_posix w.dup h0]
  by_cases hdup : w.dup = true ∧ lowestFree d.fds < limit
  · -- descriptor 0 is saved, and is put back from there
    rw [if_pos hdup]
    have hfds : (d.openFile posix (d.file 0)).2.fds = insert (lowestFree d.fds) d.fds := rfl
    have hfile : (d.openFile posix (d.file 0)).2.file =
        Function.update d.file (lowestFree d.fds) (d.file 0) := rfl
    generalize (d.openFile posix (d.file 0)).2 = d₁ at hfds hfile ⊢
    have h0₁ : 0 ∈ d₁.fds := hfds ▸ Finset.mem_insert_of_mem h0
    have ht₁ : t ∈ d₁.fds := hfds ▸ Finset.mem_insert_of_mem ht
    have hn₂ : lowestFree d.fds ∈ (d₁.dup2 w.first (some t) 0).fds := by
      rw [dup2_fds _ _ h0₁, hfds]
      exact Finset.mem_insert_self _ _
    show (Descs.dup2 w.second (some (lowestFree d.fds)) 0 _).file fd = _
    rw [dup2_file _ _ hn₂, dup2_file _ _ ht₁, hfile]
    by_cases hfd0 : fd = 0
    · subst hfd0
      cases w.first <;> cases w.second <;> simp [hdup.1, hdup.2, hfdn, hnt, hn0]
    · cases w.first <;> cases w.second <;> simp [hfd0, hfdn]
  · rw [if_neg hdup]
    have hcond : ¬ (w.dup = true ∧ lowestFree d.fds < limit ∧ w.second = true) :=
      fun h => hdup ⟨h.1, h.2.1⟩
    show (Descs.dup2 w.first (some t) 0 d).file fd = _
    rw [dup2_file _ _ ht]
    by_cases hfd0 : fd = 0
    · subst hfd0
      cases w.first <;> simp [hcond]
    · cases w.first <;> simp [hfd0]

/-! ## `get` with the lowest free descriptors -/

namespace PtyttyUnix

variable {o : GetOutcome} {os : Os cfg}

theorem openFile_posix {ok : Bool} {f : File} {fd : Fd} {os' : Os cfg}
    (h : os.openFile posix ok f = (some fd, os')) :
    fd = lowestFree os.descs.fds ∧ os'.descs.fds = insert fd os.descs.fds := by
  cases ok with
  | false => cases h
  | true => cases h; exact ⟨rfl, rfl⟩

theorem openFile_none {K : Kernel} {ok : Bool} {f : File} {os' : Os cfg}
    (h : os.openFile K ok f = (none, os')) : os' = os := by
  cases ok with
  | false => cases h; rfl
  | true => cases h

theorem bsdOpen_posix {i : ℕ} {p : Fd} {dev : CStr} {os' : Os cfg}
    (h : bsdOpen posix o i os = (some (p, dev), os')) :
    p = lowestFree os.descs.fds ∧ os'.descs.fds = insert p os.descs.fds := by
  unfold bsdOpen at h
  split at h
  · rename_i he
    cases h
    exact openFile_posix he
  · rename_i he
    obtain rfl := openFile_none he
    split at h
    · rename_i he'
      cases h
      exact openFile_posix he'
    · cases h

theorem bsdOpen_none {i : ℕ} {os' : Os cfg} (h : bsdOpen posix o i os = (none, os')) :
    os' = os := by
  unfold bsdOpen at h
  split at h
  · cases h
  · rename_i he
    split at h
    · cases h
    · rename_i he'
      cases h
      exact (openFile_none he').trans (openFile_none he)

/-- The loop closes the masters it does not take, so that each is allotted the same number. -/
theorem bsdLoop_pick {n i : ℕ} {p : Fd} {s : Finset Fd} (hs : os.descs.fds = s)
    (h : (bsdLoop posix o none none n i os).pfd = some p) :
    p = lowestFree s ∧ (bsdLoop posix o none none n i os).tty = none := by
  induction n generalizing i os with
  | zero => cases h
  | succ n ih =>
    unfold bsdLoop at h ⊢
    split at h
    · rename_i os₁ he
      obtain rfl := bsdOpen_none he
      exact ih hs h
    · rename_i q dev os₁ he
      obtain ⟨hq, hfds⟩ := bsdOpen_posix he
      split_ifs at h ⊢ with haccess
      · cases h
        exact ⟨hs ▸ hq, rfl⟩
      · refine ih ?_ h
        show os₁.descs.fds.erase q = s
        rw [hfds, hs, Finset.erase_insert]
        rw [hq, hs]
        exact lowestFree_notMem s

/-- The numbers of the descriptors that `get_pty` opens. -/
theorem getPty_pick {p : Fd} (h : (getPty posix o none none os).pfd = some p) :
    p = lowestFree os.descs.fds ∧
      ∀ t ∈ (getPty posix o none none os).tty, t = lowestFree (insert p os.descs.fds) := by
  unfold getPty at h ⊢
  split at h
  · unfold getPtyUnix98 at h ⊢
    split at h
    · cases h
    · rename_i he
      split_ifs at h ⊢
      · cases h
        exact ⟨(openFile_posix he).1, by rintro t ⟨⟩⟩
  · unfold getPtyOpenpty at h ⊢
    split at h
    · cases h
    · rename_i he
      cases h
      obtain ⟨hp, hfds⟩ := openFile_posix he
      refine ⟨hp, fun t ht => ?_⟩
      cases ht
      rw [← hfds]
      rfl
  · unfold getPtyGetpty at h ⊢
    split at h
    · cases h
    · rename_i he
      cases h
      exact ⟨(openFile_posix he).1, by rintro t ⟨⟩⟩
  · obtain ⟨hp, htty⟩ := bsdLoop_pick rfl h
    exact ⟨hp, fun t ht => by cases htty.symm.trans ht⟩

/-- `get` opens a slave: in `openpty`, or because `tty` is closed. -/
def Opens (cfg : Config) (x : PtyttyUnix) : Prop := cfg.getPty = .openpty ∨ x.tty = none

instance (x : PtyttyUnix) : Decidable (Opens cfg x) := inferInstanceAs (Decidable (_ ∨ _))

/-- How many descriptors `get` opens. -/
def openings (cfg : Config) (x : PtyttyUnix) : ℕ := if Opens cfg x then 2 else 1

/-- The descriptors after `get` has found the master of `dev`, before the swap. -/
structure FoundPair (cfg : Config) (x : PtyttyUnix) (d d' : Descs) (p t : Fd) (dev : CStr) :
    Prop where
  pty : p = lowestFree d.fds
  rest : ∀ fd ∈ d.fds, d'.file fd = d.file fd
  master : d'.file p = .master dev
  tty : Opens cfg x ∧ t = lowestFree (insert p d.fds) ∧ d'.fds = insert t (insert p d.fds) ∧
      d'.file t = .slave dev ∨
    ¬ Opens cfg x ∧ x.tty = some t ∧ d'.fds = insert p d.fds

theorem eq_setSlot {y x' : PtyttyUnix} {os₁ os' : Os cfg}
    (h : (true, setSlot cfg o y, os₁) = (true, x', os')) :
    os' = os₁ ∧ ∃ pos, x' = { y with utmpPos := pos } := by
  obtain ⟨pos, hslot⟩ := setSlot_eq cfg o y
  cases h
  exact ⟨rfl, pos, hslot⟩

theorem get_posix {x x' : PtyttyUnix} {os' : Os cfg} (h : x.get posix o os = (true, x', os')) :
    ∃ p t dev pos, device cfg o = some dev ∧ FoundPair cfg x os.descs os'.descs p t dev ∧
      x' = { x with pty := some p, tty := some t, name := some dev, utmpPos := pos } := by
  obtain ⟨pty, tty, name, pos, pid, shell⟩ := x
  have hdone : GetPtyDone ∅ none none os (getPty posix o none none os) :=
    getPty_done (Finset.empty_subset os.descs.fds)
  have hfound : Found (device cfg o) (cfg.getPty = .openpty) (getPty posix o none none os) :=
    getPty_found
  have hpick : ∀ p, (getPty posix o none none os).pfd = some p → p = lowestFree os.descs.fds ∧
      ∀ t ∈ (getPty posix o none none os).tty, t = lowestFree (insert p os.descs.fds) :=
    fun _ => getPty_pick
  unfold get at h
  dsimp only at h
  rw [getPty_over] at h
  generalize getPty posix o none none os = r at hdone hfound hpick h
  obtain ⟨-, hdev, htty⟩ := hfound
  cases hdone with
  | failed moves => cases h
  | @both os₁ p t dev newPty newTty filePty fileTty moves =>
    have hopenpty : cfg.getPty = .openpty := by simpa [← hdev] using htty
    obtain ⟨rfl, pos', rfl⟩ := eq_setSlot h
    obtain ⟨hp, ht⟩ := hpick p rfl
    have hfds := moves.fds_eq
    rw [Finset.sdiff_empty] at hfds
    refine ⟨p, t, dev, pos', hdev.symm, ⟨hp, fun fd hfd => ?_, filePty,
      Or.inl ⟨Or.inl hopenpty, ht t rfl, ?_, fileTty⟩⟩, rfl⟩
    · exact moves.file fd (by simpa using hfd)
    · rw [hfds]
      ext fd
      simp [or_left_comm]
  | @master os₁ p dev new file moves =>
    have hopenpty : cfg.getPty ≠ .openpty := by simpa [← hdev] using htty
    obtain ⟨hp, -⟩ := hpick p rfl
    have hfds := moves.fds_eq
    rw [Finset.sdiff_empty, Finset.union_comm] at hfds
    change os₁.descs.fds = insert p os.descs.fds at hfds
    have hrest : ∀ fd ∈ os.descs.fds, os₁.descs.file fd = os.descs.file fd :=
      fun fd hfd => moves.file fd (by simpa using hfd)
    cases tty with
    | some t =>
      obtain ⟨rfl, pos', rfl⟩ := eq_setSlot h
      exact ⟨p, t, dev, pos', hdev.symm, ⟨hp, hrest, file,
        Or.inr ⟨by simp [Opens, hopenpty], rfl, hfds⟩⟩, rfl⟩
    | none =>
      dsimp only [getTty, GetPty.over, Option.or] at h
      have hsub : ∅ ⊆ (setTtyOwner (some dev) os₁).descs.fds := Finset.empty_subset _
      rcases Os.openFile_cases (K := posix) o.slave (.slave dev) hsub with
        he | ⟨t, os₂, he, ht, hfile, hmv⟩
      · rw [he] at h
        cases h
      · rw [he] at h
        obtain ⟨rfl, pos', rfl⟩ := eq_setSlot h
        obtain ⟨htty, hfds₂⟩ := openFile_posix he
        rw [setTtyOwner_descs, hfds] at ht htty hfds₂
        rw [setTtyOwner_descs] at hfile
        have hold : ∀ fd ∈ insert p os.descs.fds, os'.descs.file fd = os₁.descs.file fd := by
          intro fd hfd
          have hne : fd ≠ t := fun he => ht (he ▸ hfd)
          rw [hfile, Function.update_of_ne hne]
        refine ⟨p, t, dev, pos', hdev.symm, ⟨hp, fun fd hfd => ?_, ?_,
          Or.inl ⟨Or.inr rfl, htty, hfds₂, ?_⟩⟩, rfl⟩
        · exact (hold fd (Finset.mem_insert_of_mem hfd)).trans (hrest fd hfd)
        · exact (hold p (Finset.mem_insert_self _ _)).trans file
        · rw [hfile, Function.update_self]

namespace FoundPair

variable {x : PtyttyUnix} {d d' : Descs} {p t : Fd} {dev : CStr}

theorem pty_eq_zero (h : FoundPair cfg x d d' p t dev) (h0 : 0 ∉ d.fds) : p = 0 :=
  Nat.le_zero.mp (h.pty ▸ lowestFree_le h0)

theorem sub (h : FoundPair cfg x d d' p t dev) : insert p d.fds ⊆ d'.fds := by
  rcases h.tty with ⟨-, -, hfds, -⟩ | ⟨-, -, hfds⟩
  · rw [hfds]
    exact Finset.subset_insert _ _
  · rw [hfds]

/-- Descriptor 0 is open when the swap begins. -/
theorem zero_mem (h : FoundPair cfg x d d' p t dev) : 0 ∈ d'.fds := by
  apply h.sub
  by_cases h0 : 0 ∈ d.fds
  · exact Finset.mem_insert_of_mem h0
  · exact h.pty_eq_zero h0 ▸ Finset.mem_insert_self p _

/-- Descriptor 0 can be saved if there is one more free descriptor. -/
theorem lowestFree_lt_iff (h : FoundPair cfg x d d' p t dev) (limit : ℕ) :
    lowestFree d'.fds < limit ↔ openings cfg x < spare limit d.fds := by
  have hp := spare_insert limit d.fds
  rw [← h.pty] at hp
  rw [Libptytty.lowestFree_lt_iff]
  rcases h.tty with ⟨ho, ht, hfds, -⟩ | ⟨ho, -, hfds⟩
  · have hspare := spare_insert limit (insert p d.fds)
    rw [← ht] at hspare
    rw [hfds, hspare, hp, openings, if_pos ho]
    omega
  · rw [hfds, hp, openings, if_neg ho]
    omega

/-- With the files as `get` has left them nothing is harmed. -/
theorem leftAlone (h : FoundPair cfg x d d' p t dev) (ht : t ∈ d'.fds)
    (hslave : d'.file t = .slave dev) {d'' : Descs} (hfds : d''.fds = d'.fds)
    (hfile : ∀ fd ∈ d'.fds, d''.file fd = d'.file fd) {y : PtyttyUnix} (hpty : y.pty = some p)
    (htty : y.tty = some t) (hname : y.name = some dev) : LeftAlone d y d'' := by
  have hp : p ∈ d'.fds := h.sub (Finset.mem_insert_self _ _)
  refine ⟨fun fd hfd => ?_, fun fd hfd hnew => ?_, p, t, dev, hpty, htty, hname, ?_, ?_, ?_, ?_⟩
  · have hfd' : fd ∈ d'.fds := h.sub (Finset.mem_insert_of_mem hfd)
    exact ⟨hfds ▸ hfd', (hfile fd hfd').trans (h.rest fd hfd)⟩
  · rw [hfds] at hfd
    rcases h.tty with ⟨-, -, heq, -⟩ | ⟨-, -, heq⟩
    · rw [heq, Finset.mem_insert, Finset.mem_insert] at hfd
      rcases hfd with rfl | rfl | hold
      · exact Or.inr htty
      · exact Or.inl hpty
      · exact absurd hold hnew
    · rw [heq, Finset.mem_insert] at hfd
      rcases hfd with rfl | hold
      · exact Or.inl hpty
      · exact absurd hold hnew
  · exact hfds ▸ hp
  · exact hfds ▸ ht
  · exact (hfile p hp).trans h.master
  · exact (hfile t ht).trans hslave

end FoundPair

/-- The slave in the fields is the new one: it is opened, or an old one is of the same device. -/
def SlaveFits (cfg : Config) (o : GetOutcome) (x : PtyttyUnix) (d : Descs) : Prop :=
  Opens cfg x ∨ ∀ t ∈ x.tty, t ∈ d.fds ∧ ∃ dev ∈ device cfg o, d.file t = .slave dev

/-- Descriptor 0 is not replaced, or is put back. -/
def ZeroRestored (cfg : Config) (limit : ℕ) (w : SwapOutcome) (x : PtyttyUnix) (d : Descs) : Prop :=
  w.first = false ∨ w.dup = true ∧ openings cfg x < spare limit d.fds ∧ w.second = true

/-- Descriptor 0 is on a slave of the master that is found. Nobody can have opened the slave of a
new master before; `File` would not tell that open file from the new one. -/
def ZeroOnSlave (cfg : Config) (o : GetOutcome) (d : Descs) : Prop :=
  0 ∈ d.fds ∧ ∃ dev ∈ device cfg o, d.file 0 = .slave dev

theorem FoundPair.slaveFits_iff {x : PtyttyUnix} {d d' : Descs} {p t : Fd} {dev : CStr}
    (h : FoundPair cfg x d d' p t dev) (hdev : device cfg o = some dev) :
    t ∈ d'.fds ∧ d'.file t = .slave dev ↔ SlaveFits cfg o x d := by
  rcases h.tty with ⟨ho, -, hfds, hslave⟩ | ⟨ho, htty, hfds⟩
  · exact iff_of_true ⟨hfds ▸ Finset.mem_insert_self _ _, hslave⟩ (Or.inl ho)
  · constructor
    · rintro ⟨ht, hslave⟩
      rw [hfds, Finset.mem_insert] at ht
      rcases ht with rfl | ht
      · -- the number of an old slave that is closed may have become the master's
        rw [h.master] at hslave
        cases hslave
      · refine Or.inr fun t' ht' => ?_
        obtain rfl : t = t' := Option.some.inj (htty.symm.trans ht')
        exact ⟨ht, dev, hdev, (h.rest t ht).symm.trans hslave⟩
    · intro hfits
      obtain ⟨ht, dev', hdev', hslave⟩ := hfits.resolve_left ho t htty
      obtain rfl : dev = dev' := Option.some.inj (hdev.symm.trans hdev')
      exact ⟨hfds ▸ Finset.mem_insert_of_mem ht, (h.rest t ht).trans hslave⟩

/-- The swap after `get`. -/
theorem FoundPair.leftAlone_swap_iff {x : PtyttyUnix} {d d' : Descs} {p t : Fd} {dev : CStr}
    (h : FoundPair cfg x d d' p t dev) (hdev : device cfg o = some dev) (limit : ℕ)
    (w : SwapOutcome) {y : PtyttyUnix} (hpty : y.pty = some p) (htty : y.tty = some t)
    (hname : y.name = some dev) : LeftAlone d y (ttyslotSwap posix limit w (some t) d') ↔
      SlaveFits cfg o x d ∧ (ZeroRestored cfg limit w x d ∨ ZeroOnSlave cfg o d) := by
  have h0 := h.zero_mem
  have hfds := ttyslotSwap_fds limit w (some t) h0
  rw [← h.slaveFits_iff hdev]
  by_cases ht : t ∈ d'.fds
  · have hfile : ∀ fd ∈ d'.fds, _ := fun fd hfd =>
      ttyslotSwap_file limit w h0 ht hfd
    simp only [h.lowestFree_lt_iff] at hfile
    constructor
    · intro hleft
      obtain ⟨p', t', dev', hp', ht', hn', -, -, hmaster, hslave⟩ := hleft.pair
      cases hpty.symm.trans hp'
      cases htty.symm.trans ht'
      cases hname.symm.trans hn'
      rw [hfile t ht, ite_self] at hslave
      refine ⟨⟨ht, hslave⟩, ?_⟩
      by_cases hbad : w.first = true ∧
          ¬ (w.dup = true ∧ openings cfg x < spare limit d.fds ∧ w.second = true)
      · -- the slave is on descriptor 0
        have hfile0 := hfile 0 h0
        rw [if_pos ⟨rfl, hbad⟩, hslave] at hfile0
        by_cases h0' : 0 ∈ d.fds
        · exact Or.inr ⟨h0', dev, hdev, (hleft.same 0 h0').2.symm.trans hfile0⟩
        · rw [h.pty_eq_zero h0', hfile0] at hmaster
          cases hmaster
      · rw [not_and, not_not] at hbad
        cases hfirst : w.first with
        | false => exact Or.inl (Or.inl hfirst)
        | true => exact Or.inl (Or.inr (hbad hfirst))
    · rintro ⟨⟨-, hslave⟩, hzero⟩
      refine h.leftAlone ht hslave hfds (fun fd hfd => ?_) hpty htty hname
      rw [hfile fd hfd]
      split_ifs with hbad
      · obtain ⟨rfl, hfirst, hno⟩ := hbad
        have hnot : ¬ ZeroRestored cfg limit w x d := by
          rintro (hf | hback)
          · simp [hf] at hfirst
          · exact hno hback
        obtain ⟨h0', dev', hdev', hsame⟩ := hzero.resolve_left hnot
        cases hdev.symm.trans hdev'
        rw [h.rest 0 h0', hsame, hslave]
      · rfl
  · refine iff_of_false (fun hleft => ?_) fun hfits => ht hfits.1.1
    obtain ⟨p', t', dev', -, ht', -, -, hmem, -⟩ := hleft.pair
    cases htty.symm.trans ht'
    exact ht (hfds ▸ hmem)

/-- Of the pair the swap can only harm a master that has become descriptor 0. -/
theorem FoundPair.onePair_swap_iff {x : PtyttyUnix} {d d' : Descs} {p t : Fd} {dev : CStr}
    (h : FoundPair cfg x d d' p t dev) (limit : ℕ) (w : SwapOutcome) {y : PtyttyUnix}
    (hpty : y.pty = some p) (htty : y.tty = some t) (hname : y.name = some dev) :
    Calls.OnePair y (ttyslotSwap posix limit w (some t) d') ↔
      Calls.OnePair y d' ∧ (0 ∈ d.fds ∨ ZeroRestored cfg limit w x d) := by
  have h0 := h.zero_mem
  have hfds := ttyslotSwap_fds limit w (some t) h0
  have hp0 : p = 0 ↔ 0 ∉ d.fds :=
    ⟨fun he => he ▸ h.pty ▸ lowestFree_notMem d.fds, h.pty_eq_zero⟩
  by_cases ht : t ∈ d'.fds
  swap
  · constructor
    · rintro ⟨p', t', dev', -, ht', -, -, hmem, -⟩
      cases htty.symm.trans ht'
      exact absurd (hfds ▸ hmem) ht
    · rintro ⟨⟨p', t', dev', -, ht', -, -, hmem, -⟩, -⟩
      cases htty.symm.trans ht'
      exact absurd hmem ht
  have hp : p ∈ d'.fds := h.sub (Finset.mem_insert_self _ _)
  have hfilep := ttyslotSwap_file limit w h0 ht hp
  have hfilet := ttyslotSwap_file limit w h0 ht ht
  rw [ite_self] at hfilet
  simp only [h.lowestFree_lt_iff] at hfilep
  constructor
  · rintro ⟨p', t', dev', hp', ht', hn', -, -, hmaster, hslave⟩
    cases hpty.symm.trans hp'
    cases htty.symm.trans ht'
    cases hname.symm.trans hn'
    rw [hfilet] at hslave
    rw [hfilep] at hmaster
    split_ifs at hmaster with hbad
    · rw [hslave] at hmaster
      cases hmaster
    · refine ⟨⟨p, t, dev, hpty, htty, hname, hp, ht, hmaster, hslave⟩, ?_⟩
      by_cases hzero : 0 ∈ d.fds
      · exact Or.inl hzero
      · refine Or.inr (or_iff_not_imp_left.mpr fun hfirst => ?_)
        by_contra hback
        exact hbad ⟨hp0.mpr hzero, by simpa using hfirst, hback⟩
  · rintro ⟨⟨p', t', dev', hp', ht', hn', -, -, hmaster, hslave⟩, hzero⟩
    cases hpty.symm.trans hp'
    cases htty.symm.trans ht'
    cases hname.symm.trans hn'
    refine ⟨p, t, dev, hpty, htty, hname, hfds ▸ hp, hfds ▸ ht, ?_, hfilet.trans hslave⟩
    rw [hfilep, if_neg, hmaster]
    rintro ⟨hp, hfirst, hback⟩
    rcases hzero with hmem | hf | hok
    · exact hp0.mp hp hmem
    · simp [hf] at hfirst
    · exact hback hok

/-- **Caller's descriptors.** A `get` that returns true leaves all descriptors alone exactly if the
slave in the fields is the one of the new master, and descriptor 0 is restored: for that, one more
descriptor than those of the pair must be free, and the way back must succeed. -/
theorem leftAlone_iff (hslot : cfg.utmp = .utmpSlot) (limit : ℕ) (o : GetOutcome) (w : SwapOutcome)
    {x x' : PtyttyUnix} {os os' : Os cfg} (hnew : ¬ ZeroOnSlave cfg o os.descs)
    (h : x.getSwap posix limit o w os = (true, x', os')) : LeftAlone os.descs x' os'.descs ↔
      SlaveFits cfg o x os.descs ∧ ZeroRestored cfg limit w x os.descs := by
  rcases he : x.get posix o os with ⟨ok, y, os₁⟩
  unfold getSwap at h
  rw [he] at h
  cases ok with
  | false => cases h
  | true =>
    dsimp only at h
    rw [if_pos hslot] at h
    cases h
    obtain ⟨p, t, dev, pos, hdev, hfound, rfl⟩ := get_posix he
    rw [hfound.leftAlone_swap_iff hdev limit w rfl rfl rfl, or_iff_left hnew]

/-- A build with `openpty`, for a platform without `ut_pid`. -/
def bsd44 : Config := { linux with getPty := .openpty, utmp := .utmpSlot }

/-- Such a process, with the standard descriptors. -/
def startSlot : Os bsd44 where
  descs := ⟨{0, 1, 2}, fun _ => .database, []⟩
  devs := []
  db := ⟨[], [], fun n => n, 0⟩
  fault := false

/-- At most 5 descriptors: none is left for the `dup` after `openpty`, and the slave stays on
descriptor 0. -/
theorem not_leftAlone : ∃ x' os',
    new.getSwap posix 5 .pts7 ⟨true, true, true⟩ startSlot = (true, x', os') ∧
      ¬ LeftAlone startSlot.descs x' os'.descs :=
  ⟨_, _, rfl, fun h => absurd (h.same 0 (by decide)).2 (by decide)⟩

/-- At most 6. -/
theorem leftAlone_iff_six : ∃ x' os',
    new.getSwap posix 6 .pts7 ⟨true, true, true⟩ startSlot = (true, x', os') ∧
      LeftAlone startSlot.descs x' os'.descs := by
  have hnew : ¬ ZeroOnSlave bsd44 .pts7 startSlot.descs := by
    rintro ⟨-, dev, -, hfile⟩
    cases hfile
  refine ⟨_, _, rfl, (leftAlone_iff rfl 6 .pts7 ⟨true, true, true⟩ hnew rfl).mpr ⟨?_, ?_⟩⟩
  · exact Or.inl (Or.inl rfl)
  · exact Or.inr ⟨rfl, by decide, rfl⟩

end PtyttyUnix

end Libptytty
