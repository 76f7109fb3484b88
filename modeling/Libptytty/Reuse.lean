import Libptytty.Descriptors
import Libptytty.Entries

/-!
# Calling `get` again

What `get` does to an object on which it may have been called before: it overwrites `pty` and
`name`, but opens a slave only where `tty` is closed, and it does not look at `cmd_pid`
(`get_done`).
-/

namespace Libptytty

open CString

variable {cfg : Config} {K : Kernel}

namespace PtyttyUnix

variable {o : GetOutcome} {os : Os cfg}

/-! ## `get` on any object -/

/-- What `get_pty` does not assign keeps its value. -/
def GetPty.over (r : GetPty cfg) (tty : Option Fd) (name : Option CStr) : GetPty cfg :=
  ⟨r.pfd, r.tty.or tty, r.name.or name, r.os⟩

theorem bsdLoop_over (tty : Option Fd) (name : Option CStr) (n i : ℕ) :
    bsdLoop K o tty name n i os = (bsdLoop K o none none n i os).over tty name := by
  induction n generalizing i os with
  | zero => rfl
  | succ n ih =>
    unfold bsdLoop
    split
    · exact ih _
    · split_ifs
      · rfl
      · exact ih _

/-- `get_pty` does not read what it assigns. -/
theorem getPty_over (tty : Option Fd) (name : Option CStr) :
    getPty K o tty name os = (getPty K o none none os).over tty name := by
  unfold getPty
  split
  · unfold getPtyUnix98
    split
    · rfl
    · split_ifs <;> rfl
  · unfold getPtyOpenpty
    split <;> rfl
  · unfold getPtyGetpty
    split <;> rfl
  · exact bsdLoop_over tty name 256 0

/-- What `get` can have done to an object. -/
inductive GetDone (o : GetOutcome) (x : PtyttyUnix) (os : Os cfg) :
    Bool × PtyttyUnix × Os cfg → Prop
  | noMaster {os' : Os cfg} (found : device cfg o = none) (sub : os.descs.fds ⊆ os'.descs.fds) :
      GetDone o x os (false, { x with pty := none }, os')
  | noSlave {os' : Os cfg} {dev : CStr} (found : device cfg o = some dev)
      (closed : ¬ (cfg.getPty = .openpty ∨ x.tty.isSome ∨ o.slave)) :
      GetDone o x os (false, { x with pty := none, tty := none, name := none }, os')
  | pair {os' : Os cfg} {p t : Fd} {dev : CStr} {pos : Option ℤ} (found : device cfg o = some dev)
      (opened : cfg.getPty = .openpty ∨ x.tty.isSome ∨ o.slave) (ne : t ≠ p)
      (openPty : p ∈ os'.descs.fds) (openTty : t ∈ os'.descs.fds)
      (master : os'.descs.file p = .master dev)
      (slave : os'.descs.file t = .slave dev ↔
        cfg.getPty = .openpty ∨ ∀ t ∈ x.tty, os.descs.file t = .slave dev) :
      GetDone o x os
        (true, { x with pty := some p, tty := some t, name := some dev, utmpPos := pos }, os')

/-- A pair in an object, with the slot that the end of `get` looks up. -/
theorem GetDone.slot {x : PtyttyUnix} {os' : Os cfg} {p t : Fd} {dev : CStr}
    (found : device cfg o = some dev) (opened : cfg.getPty = .openpty ∨ x.tty.isSome ∨ o.slave)
    (ne : t ≠ p) (openPty : p ∈ os'.descs.fds) (openTty : t ∈ os'.descs.fds)
    (master : os'.descs.file p = .master dev)
    (slave : os'.descs.file t = .slave dev ↔
      cfg.getPty = .openpty ∨ ∀ t ∈ x.tty, os.descs.file t = .slave dev) :
    GetDone o x os
      (true, setSlot cfg o { x with pty := some p, tty := some t, name := some dev }, os') := by
  obtain ⟨pos, hslot⟩ :=
    setSlot_eq cfg o { x with pty := some p, tty := some t, name := some dev }
  rw [hslot]
  exact .pair found opened ne openPty openTty master slave

theorem get_done {x : PtyttyUnix} (hsub : ∀ t ∈ x.tty, t ∈ os.descs.fds) :
    GetDone o x os (x.get K o os) := by
  obtain ⟨pty, tty, name, pos, pid, shell⟩ := x
  have hdone : GetPtyDone ∅ none none os (getPty K o none none os) :=
    getPty_done (Finset.empty_subset os.descs.fds)
  have hfound : Found (device cfg o) (cfg.getPty = .openpty) (getPty K o none none os) :=
    getPty_found
  unfold get
  dsimp only
  rw [getPty_over]
  generalize getPty K o none none os = r at hdone hfound ⊢
  obtain ⟨hpfd, hname, htty⟩ := hfound
  cases hdone with
  | failed moves =>
    have hnew := moves.rest
    rw [Finset.sdiff_empty, Finset.sdiff_empty] at hnew
    exact .noMaster hname.symm hnew.ge
  | @both os₁ p t dev newPty newTty filePty fileTty moves =>
    have hopenpty : cfg.getPty = .openpty := by simpa [← hname] using htty
    refine .slot hname.symm (Or.inl hopenpty) (fun he => newTty (by simp [he])) ?_ ?_ filePty ?_
    · exact moves.sub' (by simp)
    · exact moves.sub' (by simp)
    · exact iff_of_true fileTty (Or.inl hopenpty)
  | @master os₁ p dev new file moves =>
    have hopenpty : cfg.getPty ≠ .openpty := by simpa [← hname] using htty
    have hrest := moves.rest
    rw [Finset.sdiff_empty] at hrest
    have hold : ∀ fd ∈ os.descs.fds, fd ≠ p ∧ fd ∈ os₁.descs.fds := by
      intro fd hfd
      rw [← hrest, Finset.mem_sdiff] at hfd
      exact ⟨by simpa using hfd.2, hfd.1⟩
    cases tty with
    | some t =>
      -- the slave of before stays in the object
      obtain ⟨hne, hopen⟩ := hold t (hsub t rfl)
      have hsame := moves.file t (by simpa using hsub t rfl)
      show GetDone o _ os (true, setSlot cfg o ⟨some p, some t, some dev, pos, pid, shell⟩, os₁)
      refine .slot hname.symm (Or.inr (Or.inl rfl)) hne (moves.sub' (by simp)) hopen file ?_
      rw [hsame]
      simp [hopenpty]
    | none =>
      dsimp only [getTty, GetPty.over, Option.or]
      have hsubset : insert p ∅ ⊆ (setTtyOwner (some dev) os₁).descs.fds := by
        rw [setTtyOwner_descs]; exact moves.sub'
      rcases Os.openFile_cases (K := K) o.slave (.slave dev) hsubset with
        he | ⟨t, os₂, he, ht, hfile, hmv⟩
      · have hslave := Os.openFile_isSome K o.slave (.slave dev) (setTtyOwner (some dev) os₁)
        rw [he] at hslave ⊢
        exact .noSlave hname.symm (by simp [hopenpty, ← hslave])
      · have hslave := Os.openFile_isSome K o.slave (.slave dev) (setTtyOwner (some dev) os₁)
        rw [he] at hslave ⊢
        rw [setTtyOwner_descs] at hsubset ht hmv
        have hpt : t ≠ p := by
          rintro rfl
          exact ht (hsubset (Finset.mem_insert_self t ∅))
        refine .slot hname.symm (Or.inr (Or.inr hslave.symm)) hpt (hmv.sub' (by simp))
          (hmv.sub' (by simp)) ?_ ?_
        · rw [hfile, Function.update_of_ne hpt.symm, setTtyOwner_descs, file]
        · rw [hfile, Function.update_self]
          simp

end PtyttyUnix

namespace Calls

/-- The fields have one pair, and it is open. -/
def OnePair (x : PtyttyUnix) (d : Descs) : Prop :=
  ∃ p t dev, x.pty = some p ∧ x.tty = some t ∧ x.name = some dev ∧ p ∈ d.fds ∧ t ∈ d.fds ∧
    d.file p = .master dev ∧ d.file t = .slave dev

end Calls

end Libptytty
