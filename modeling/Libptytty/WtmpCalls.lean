import Mathlib
import Libptytty.Wtmp

/-!
# Calls of `updwtmp` return

The attempts to lock are counted and `F_SETLK` does not wait, so a call returns after at most 16
steps of its own, whatever the other processes do in between (`updwtmp_waitFree`). Nothing of it is
left over: only a process between its lock and its `close` has a lock, so a process finds the end of
file free when no other process is there.
-/

namespace Libptytty.Wtmp

open Machine RangeLocks

/-! ## Own steps -/

/-- The system calls that a call may still make. -/
def Pc.rank : Pc → ℕ
  | .openFile => 16
  | .setLock retry => retry + 6
  | .fstat => 5
  | .write _ => 4
  | .ftruncate _ => 3
  | .unlock => 2
  | .close => 1

section

variable {size : ℕ} {init : List UInt8} {w w' : World} {p q : ℕ} {act : Act}

theorem step_other (hq : q ≠ p) (h : step size w (p, act) = some w') :
    w'.procs q = w.procs q := by
  cases trans_of_step h with
  | start | lock | noLock | stat | writeBad | writeWhole | truncate | unlock =>
    exact goto_other _ _ hq
  | startFailed | close => exact return_other _ hq

/-- A call that goes on is nearer to its end. -/
def Nearer (w : World) (p : ℕ) (w' : World) : Prop :=
  (w'.procs p).calls = (w.procs p).calls ∧ (w'.procs p).pc.rank < (w.procs p).pc.rank

theorem nearer_goto {v : World} {pc : Pc} (hprocs : v.procs = w.procs)
    (hlt : pc.rank < (w.procs p).pc.rank) : Nearer w p (v.goto p pc) := by
  refine ⟨?_, by rwa [goto_same]⟩
  rw [goto_calls, hprocs]

/-- The call has returned. -/
def Returned (w : World) (p : ℕ) (w' : World) : Prop :=
  w'.procs p = ⟨.openFile, (w.procs p).calls + 1⟩

theorem returned_return {v : World} (hprocs : v.procs = w.procs) : Returned w p (v.return_ p) := by
  simp [Returned, World.return_, hprocs]

/-- A step of a process ends its call or brings the end nearer. -/
theorem step_own (h : step size w (p, act) = some w') :
    Returned w p w' ∨ Nearer w p w' := by
  cases hpc : (w.procs p).pc <;> cases act <;> simp only [step, hpc] at h <;> try cases h
  case openFile.openFile ok ut =>
    split_ifs at h <;> cases h
    · exact .inr (nearer_goto rfl (by rw [hpc]; decide))
    · exact .inl (returned_return rfl)
  case setLock.setLock retry answer =>
    cases answer with
    | granted =>
      obtain ⟨t, -, rfl⟩ := Option.map_eq_some_iff.mp h
      exact .inr (nearer_goto rfl (by simp only [hpc, Pc.rank]; omega))
    | refused =>
      cases h
      refine .inr (nearer_goto rfl ?_)
      split_ifs <;> simp only [hpc, Pc.rank] <;> omega
    | failed =>
      cases h
      exact .inr (nearer_goto rfl (by simp only [hpc, Pc.rank]; omega))
  case fstat.fstat ok =>
    exact .inr (nearer_goto rfl (by cases ok <;> simp [hpc, Pc.rank]))
  case write.write st n =>
    cases n with
    | none =>
      cases h
      exact .inr (nearer_goto rfl (by simp [hpc, Pc.rank]))
    | some n =>
      simp only at h
      split_ifs at h <;> cases h
      · exact .inr (nearer_goto rfl (by simp [hpc, Pc.rank]))
      · exact .inr (nearer_goto rfl (by simp [hpc, Pc.rank]))
  case ftruncate.ftruncate st => exact .inr (nearer_goto rfl (by simp [hpc, Pc.rank]))
  case unlock.unlock ok => exact .inr (nearer_goto (by split_ifs <;> rfl) (by simp [hpc, Pc.rank]))
  case close.close => exact .inl (returned_return rfl)

/-- No system call waits. -/
theorem exists_own (size : ℕ) (w : World) (p : ℕ) :
    ∃ act w', step size w (p, act) = some w' := by
  cases hpc : (w.procs p).pc with
  | openFile => exact ⟨.openFile true (List.replicate size 0), _, by simp [step, hpc]; rfl⟩
  | setLock retry => exact ⟨.setLock .failed, _, by simp [step, hpc]; rfl⟩
  | fstat => exact ⟨.fstat true, _, by simp [step, hpc]; rfl⟩
  | write st => exact ⟨.write none, _, by simp [step, hpc]; rfl⟩
  | ftruncate st => exact ⟨.ftruncate, _, by simp [step, hpc]; rfl⟩
  | unlock => exact ⟨.unlock true, _, by simp [step, hpc]; rfl⟩
  | close => exact ⟨.close, _, by simp [step, hpc]; rfl⟩

/-! ## What holds in every state -/

/-- No call makes more than ten attempts, and only between its lock and its `close` it has one. -/
structure Attempts (w : World) : Prop where
  rank : ∀ p, (w.procs p).pc.rank ≤ 16
  locked : ∀ p i, Covers w.locks p i → (w.procs p).pc.Inside ∨ (w.procs p).pc = .close

theorem attempts_initial (init : List UInt8) : Attempts (World.initial init) where
  rank _ := le_rfl
  locked p i hcov := by
    obtain ⟨l, hl, -⟩ := hcov
    cases hl

theorem rank_step (h : ∀ p, (w.procs p).pc.rank ≤ 16) (hw : step size w (p, act) = some w')
    (q : ℕ) : (w'.procs q).pc.rank ≤ 16 := by
  by_cases hq : q = p
  · subst hq
    rcases step_own hw with hret | hnear
    · rw [hret]
      exact le_rfl
    · exact hnear.2.le.trans (h q)
  · rw [step_other hq hw]
    exact h q

theorem covers_unlock (hpc : (w.procs p).pc = .unlock) (hw : step size w (p, act) = some w')
    {i : ℕ} (hcov : Covers w'.locks q i) : Covers w.locks q i := by
  cases act <;> simp only [step, hpc] at hw <;> try cases hw
  split_ifs at hcov
  · exact (covers_clear.mp hcov).1
  · exact hcov

theorem locked_step
    (h : ∀ p i, Covers w.locks p i → (w.procs p).pc.Inside ∨ (w.procs p).pc = .close)
    (hw : step size w (p, act) = some w') (q i : ℕ) (hcov : Covers w'.locks q i) :
    (w'.procs q).pc.Inside ∨ (w'.procs q).pc = .close := by
  by_cases hq : q = p
  · subst hq
    have hbefore := h q i
    cases trans_of_step hw with
    | start ut hpc | startFailed ut hpc | noLock retry pc hpc =>
      rcases hbefore hcov with hin | hclose
      · rw [hpc] at hin
        exact hin.elim
      · rw [hpc] at hclose
        cases hclose
    | lock | writeBad | writeWhole | truncate =>
      rw [goto_same]
      exact .inl trivial
    | stat pc hpc hnext =>
      rw [goto_same]
      rcases hnext with rfl | rfl <;> exact .inl trivial
    | unlock =>
      rw [goto_same]
      exact .inr rfl
    | close => exact absurd rfl (covers_drop.mp hcov).1
  · rw [step_other hq hw]
    refine h q i ?_
    by_cases hunlock : (w.procs p).pc = .unlock
    · exact covers_unlock hunlock hw hcov
    · cases trans_of_step hw with
      | lock retry t hpc ht =>
        rcases (covers_set ht).mp hcov with ⟨heq, -⟩ | ⟨hcov, -⟩
        · exact absurd heq hq
        · exact hcov
      | unlock t hpc => exact absurd hpc hunlock
      | close => exact (covers_drop.mp hcov).2
      | start | startFailed | noLock | stat | writeBad | writeWhole | truncate => exact hcov

theorem attempts_step (h : Attempts w) (hw : step size w (p, act) = some w') : Attempts w' :=
  ⟨rank_step h.rank hw, locked_step h.locked hw⟩

/-! ## Whole runs -/

/-- The call that `p` is in, or makes next, has returned. -/
abbrev HasReturned (w : World) (p : ℕ) (w' : World) : Prop :=
  (w.procs p).calls < (w'.procs p).calls

/-- What `p` may still do until then. -/
def remaining (w : World) (p : ℕ) (v : World) : ℕ :=
  if (w.procs p).calls < (v.procs p).calls then 0 else (v.procs p).pc.rank

theorem Pc.rank_pos (pc : Pc) : 0 < pc.rank := by cases pc <;> simp [Pc.rank]

theorem waitFree_remaining (size : ℕ) (w : World) (p : ℕ) :
    WaitFree (step size) (fun a => a.1 = p) (HasReturned w p) (remaining w p w) w := by
  have hcan : ∀ v, (w.procs p).calls ≤ (v.procs p).calls → ¬ HasReturned w p v →
      0 < remaining w p v ∧ ∃ a v', decide (a.1 = p) = true ∧ step size v a = some v' := by
    intro v _ hno
    obtain ⟨act, v', hv'⟩ := exists_own size v p
    refine ⟨?_, (p, act), v', decide_eq_true rfl, hv'⟩
    rw [remaining, if_neg hno]
    exact Pc.rank_pos _
  have hown : ∀ v (a : ℕ × Act) v', (w.procs p).calls ≤ (v.procs p).calls → ¬ HasReturned w p v →
      decide (a.1 = p) = true → step size v a = some v' →
      (w.procs p).calls ≤ (v'.procs p).calls ∧ remaining w p v' < remaining w p v := by
    rintro v ⟨q, act⟩ v' hle hno hown hv'
    obtain rfl : q = p := of_decide_eq_true hown
    rw [remaining, remaining, if_neg hno]
    rcases step_own hv' with hret | ⟨hcalls, hlt⟩
    · have hdone : HasReturned w q v' := by
        show _ < (v'.procs q).calls
        rw [hret]
        exact Nat.lt_succ_of_le hle
      rw [if_pos hdone]
      exact ⟨hdone.le, Pc.rank_pos _⟩
    · rw [hcalls, if_neg hno]
      exact ⟨hle, hlt⟩
  have hother : ∀ v (a : ℕ × Act) v', (w.procs p).calls ≤ (v.procs p).calls →
      ¬ HasReturned w p v → ¬ decide (a.1 = p) = true → step size v a = some v' →
      (w.procs p).calls ≤ (v'.procs p).calls ∧ remaining w p v' ≤ remaining w p v := by
    rintro v ⟨q, act⟩ v' hle hno hother hv'
    have hne : p ≠ q := fun heq => hother (decide_eq_true heq.symm)
    rw [remaining, remaining, step_other hne hv']
    exact ⟨hle, le_rfl⟩
  exact waitFree_of_rank hcan hown hother (le_refl (w.procs p).calls)

/-- Who has no lock conflicts with nobody. -/
theorem set_of_alone (h : Attempts w)
    (hq : ∀ q, q ≠ p → ¬ (w.procs q).pc.Inside ∧ (w.procs q).pc ≠ .close) :
    (RangeLocks.set w.locks p w.file.length).isSome := by
  have hnone : ¬ conflict w.locks p w.file.length = true := fun hcon => by
    obtain ⟨q, i, hne, -, hcov⟩ := conflict_iff.mp hcon
    rcases h.locked q i hcov with hin | hclose
    · exact (hq q hne).1 hin
    · exact (hq q hne).2 hclose
  rw [RangeLocks.set, if_neg hnone]
  rfl

/-- **Appending is wait-free.** For any number of processes, in every state of every run: whatever
the others do from there on, the call that a process is in, or makes next, returns after at most 16
steps of its own, and such a step is possible all the time; locks are held only by processes between
the lock and the `close`, so that the lock can be granted when no other process is there. -/
theorem updwtmp_waitFree {size : ℕ} {init : List UInt8} {acts : List (ℕ × Act)} {w : World}
    (hw : run (step size) (World.initial init) acts = some w) (p : ℕ) :
    WaitFree (step size) (fun a => a.1 = p) (HasReturned w p) 16 w ∧
      (∀ i, Covers w.locks p i → (w.procs p).pc.Inside ∨ (w.procs p).pc = .close) ∧
      ((∀ q, q ≠ p → ¬ (w.procs q).pc.Inside ∧ (w.procs q).pc ≠ .close) →
        (RangeLocks.set w.locks p w.file.length).isSome) := by
  have hattempts : Attempts w :=
    inv_of_run (fun v a v' h hv' => attempts_step h hv') (attempts_initial init) hw
  refine ⟨fun as u hu hno => ?_, hattempts.locked p, set_of_alone hattempts⟩
  obtain ⟨hcount, hnext⟩ := waitFree_remaining size w p as u hu hno
  have hrank := hattempts.rank p
  have hno : ¬ HasReturned w p w := lt_irrefl _
  rw [remaining, if_neg hno] at hcount
  exact ⟨by omega, hnext⟩

end

/-- The first of two processes has the lock. -/
def twoProcs : List (ℕ × Act) :=
  [(0, .openFile true [1]), (1, .openFile true [2]), (0, .setLock .granted), (1, .setLock .refused)]

theorem updwtmp_waitFree_twoProcs : ∃ w, run (step 1) (World.initial []) twoProcs = some w ∧
    w.locks ≠ [] ∧ WaitFree (step 1) (fun a => a.1 = 1) (HasReturned w 1) 16 w := by
  refine ⟨_, rfl, ?_, (@updwtmp_waitFree 1 [] twoProcs _ rfl 1).1⟩
  simp [World.goto, World.initial]

end Libptytty.Wtmp
