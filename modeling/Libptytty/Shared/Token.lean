import Libptytty.Shared.Steps

/-!
# The token

`NEED_TOKEN` and `GIVE_TOKEN` ignore the results of `read` and `write`, and `get` throws without
`GIVE_TOKEN`. `gain` is what a step does to the number of tokens. There is exactly one token, and
at most one client inside, as long as no step has a gain (`exclusive_iff`).
-/

namespace Libptytty.Shared

open Machine

/-- An interrupted `NEED_TOKEN` makes a token, an exception of `get` loses one. -/
def Action.gain : Action → ℤ
  | .client _ (.take true) | .helper (.need true) => 1
  | .client _ (.failId _ _) | .client _ (.failFd _) => -1
  | _ => 0

theorem Action.gain_eq_zero (a : Action) : a.gain = 0 ↔ a.Uninterrupted ∧ a.NoThrow := by
  cases a with
  | client p a =>
    cases a with
    | take interrupted => cases interrupted <;> simp [gain, Uninterrupted, NoThrow]
    | _ => simp [gain, Uninterrupted, NoThrow]
  | helper a =>
    cases a with
    | need interrupted => cases interrupted <;> simp [gain, Uninterrupted, NoThrow]
    | _ => simp [gain, Uninterrupted, NoThrow]

theorem Action.gain_nonneg (a : Action) (h : a.NoThrow) : 0 ≤ a.gain := by
  cases a with
  | client p a =>
    cases a with
    | take interrupted => cases interrupted <;> simp [gain]
    | failId | failFd => exact h.elim
    | create | fork | call | write | readId | recvFd | give => exact le_rfl
  | helper a =>
    cases a with
    | need interrupted => cases interrupted <;> simp [gain]
    | give | read | handle | writeId | send => exact le_rfl

/-! ## What a step does to the tokens -/

/-- The token that the helper is about to give. -/
def System.helperToken (s : System) : ℕ :=
  match s.pc with
  | .giveToken => 1
  | _ => 0

theorem System.tokens_eq (s : System) :
    s.tokens = s.clientBytes + s.serverBytes + s.insiders.card + s.helperToken := rfl

theorem ClientTrans.tokens {s t : System} {p : Pid} {a : ClientAct} (hp : p ∈ s.procs)
    (h : ClientTrans s p (s.proc p) a t) :
    (t.tokens : ℤ) = s.tokens + (Action.client p a).gain := by
  have hins := h.insiders hp
  have enter : ∀ {c}, (s.proc p).pc = .needToken c → (insert p s.insiders).card =
      s.insiders.card + 1 := fun hpc =>
    Finset.card_insert_of_notMem (not_mem_insiders (by rw [hpc]; rfl))
  have leave : ∀ {pc}, (s.proc p).pc = pc → pc.inside = true →
      (s.insiders.erase p).card + 1 = s.insiders.card := fun hpc hin =>
    Finset.card_erase_add_one (mem_insiders_of_pc hp hpc hin)
  rw [System.tokens_eq, System.tokens_eq, hins]
  unfold System.insidersAfter
  cases h with
  | interrupted pc =>
    have := enter pc
    simp [System.helperToken, System.enter, Action.gain]
    omega
  | take pc byte =>
    have := enter pc
    simp [System.helperToken, System.enter, Action.gain]
    omega
  | failId pc proxy =>
    have := leave pc rfl
    simp [System.helperToken, System.throw, Action.gain]
    omega
  | failPty pc proxy =>
    have := leave pc rfl
    simp [System.helperToken, System.throw, Action.gain]
    omega
  | failTty pc proxy =>
    have := leave pc rfl
    simp [System.helperToken, System.throw, Action.gain]
    omega
  | give pc =>
    have := leave pc rfl
    simp [System.helperToken, System.set, Action.gain]
    omega
  | _ => simp [System.helperToken, System.set, Action.gain]

theorem HelperTrans.tokens {s t : System} {a : HelperAct} (h : HelperTrans s a t) :
    (t.tokens : ℤ) = s.tokens + (Action.helper a).gain := by
  have hins := h.insiders
  rw [System.tokens_eq, System.tokens_eq, hins]
  cases h with
  | give pc => simp [System.helperToken, pc, Action.gain]; omega
  | interrupted pc => simp [System.helperToken, pc, Action.gain]
  | need pc byte => simp [System.helperToken, pc, Action.gain]; omega
  | _ => simp_all [System.helperToken, Action.gain]

/-- Every step changes the number of tokens by its gain. -/
theorem tokens_step {s t : System} {a : Action} (h : step s a = some t) :
    (t.tokens : ℤ) = s.tokens + a.gain := by
  cases trans_of_step h with
  | client mem trans => exact trans.tokens mem
  | helper trans => exact trans.tokens

/-- Without interruptions a token can only be lost. -/
theorem tokens_uninterrupted {s t : System} {a : Action} (hle : s.tokens ≤ 1)
    (hu : a.Uninterrupted) (ht : step s a = some t) :
    t.tokens ≤ 1 ∧ (t.tokens ≠ 0 → s.tokens ≠ 0 ∧ a.NoThrow) := by
  have htokens := tokens_step ht
  have hgain : a.gain = 0 ∨ a.gain = -1 := by
    cases a with
    | client p a =>
      cases a with
      | take b => rw [show b = false from hu]; exact Or.inl rfl
      | failId | failFd => exact Or.inr rfl
      | create | fork | call | write | readId | recvFd | give => exact Or.inl rfl
    | helper a =>
      cases a with
      | need b => rw [show b = false from hu]; exact Or.inl rfl
      | give | read | handle | writeId | send => exact Or.inl rfl
  rcases hgain with hgain | hgain
  · exact ⟨by omega, fun hne => ⟨by omega, (a.gain_eq_zero.mp hgain).2⟩⟩
  · exact ⟨by omega, fun hne => by omega⟩

/-! ## Mutual exclusion -/

/-- There is one token, and no two clients are inside. -/
def Exclusive (s : System) : Prop :=
  s.tokens = 1 ∧ ∀ p ∈ s.insiders, ∀ q ∈ s.insiders, p = q

theorem exclusive_of_tokens {s : System} (h : s.tokens = 1) : Exclusive s := by
  refine ⟨h, fun p hp q hq => ?_⟩
  have hcard : s.insiders.card ≤ 1 := by rw [System.tokens_eq] at h; omega
  exact Finset.card_le_one.mp hcard p hp q hq

theorem tokens_initial : initial.tokens = 1 := rfl

/-- **Mutual exclusion.** There is one token, and at most one client inside, throughout a run
exactly if no `read` of the lock socket in it is interrupted and no `get` throws. -/
theorem exclusive_iff {as : List Action} {s : System} (h : run step initial as = some s) :
    Always step Exclusive initial as ↔ ∀ a ∈ as, a.Uninterrupted ∧ a.NoThrow := by
  rw [← along_iff_forall h]
  refine always_iff_along (fun s a t hs ht => ?_) (exclusive_of_tokens tokens_initial) h
  have htokens := tokens_step ht
  rw [hs.1] at htokens
  rw [← a.gain_eq_zero]
  constructor
  · intro hex
    rw [hex.1] at htokens
    omega
  · intro hgain
    exact exclusive_of_tokens (by omega)

theorem exclusive_iff_twoProcesses : ∃ s, run step initial twoProcesses = some s ∧
    Always step Exclusive initial twoProcesses := by
  obtain ⟨s, hs, -⟩ := twoProcesses_runs
  refine ⟨s, hs, (exclusive_iff hs).mpr ?_⟩
  simp [twoProcesses, getRun, destroyRun, Action.Uninterrupted, Action.NoThrow]

/-- A second process is interrupted in `NEED_TOKEN` while the first is inside. -/
def interruptedTake : List Action :=
  [.client 0 (.create 0), .client 0 (.fork 1), .helper .give, .client 0 (.call (.get 0)),
    .client 0 (.take false), .client 1 (.call (.get 0)), .client 1 (.take true)]

theorem not_exclusive_interruptedTake : ¬ Always step Exclusive initial interruptedTake := by
  intro h
  obtain ⟨s, hs⟩ : ∃ s, run step initial interruptedTake = some s := ⟨_, rfl⟩
  have hex : Exclusive s := h interruptedTake List.prefix_rfl s hs
  cases hs
  have h0 : (0 : Pid) = 1 :=
    hex.2 0 (mem_insiders.mpr ⟨by decide, rfl⟩) 1 (mem_insiders.mpr ⟨by decide, rfl⟩)
  cases h0

end Libptytty.Shared
