import Libptytty.Lib.Machine

/-!
# Ledgers of acquired and released resources

A log of events `acquire k` and `release k` is *balanced* from one set of held resources to
another if every acquired resource was free and every released one was held (`run`). A log that
is balanced from `∅` to `∅` releases exactly what it acquires, once (`count_acquire`), and a
balanced log stays balanced when somebody else holds resources that it does not touch
(`run_union`).
-/

namespace Ledger

/-- An event on a resource `k`. -/
inductive Event (κ : Type*)
  | acquire (k : κ)
  | release (k : κ)
  deriving DecidableEq

variable {κ : Type*} [DecidableEq κ]

/-- The resources held after an event; `none` if it acquires a held or releases a free one. -/
def step (s : Finset κ) : Event κ → Option (Finset κ)
  | .acquire k => if k ∈ s then none else some (insert k s)
  | .release k => if k ∈ s then some (s.erase k) else none

/-- The resources held after a log. -/
abbrev run (s : Finset κ) (es : List (Event κ)) : Option (Finset κ) := Machine.run step s es

theorem step_acquire {s t : Finset κ} {k : κ} :
    step s (.acquire k) = some t ↔ k ∉ s ∧ t = insert k s := by
  show (if k ∈ s then none else some (insert k s)) = some t ↔ _
  split_ifs with h
  · simp [h]
  · simp [h, eq_comm]

theorem step_release {s t : Finset κ} {k : κ} :
    step s (.release k) = some t ↔ k ∈ s ∧ t = s.erase k := by
  show (if k ∈ s then some (s.erase k) else none) = some t ↔ _
  split_ifs with h
  · simp [h, eq_comm]
  · simp [h]

theorem run_append {s u : Finset κ} {es fs : List (Event κ)} {t : Finset κ}
    (hs : run s es = some t) (ht : run t fs = some u) : run s (es ++ fs) = some u :=
  Machine.run_append_eq_some.mpr ⟨t, hs, ht⟩

/-- In a balanced log a resource that was free is acquired as often as it is released, once more
if it is held in the end. -/
theorem count_acquire {s t : Finset κ} {es : List (Event κ)} (h : run s es = some t) (k : κ) :
    es.count (.acquire k) + (if k ∈ s then 1 else 0) =
      es.count (.release k) + (if k ∈ t then 1 else 0) := by
  induction es generalizing s with
  | nil => cases h; rfl
  | cons e es ih =>
    obtain ⟨u, hu, ht⟩ := Machine.run_cons_eq_some.mp h
    have := ih ht
    cases e with
    | acquire l =>
      obtain ⟨hl, rfl⟩ := step_acquire.mp hu
      rw [List.count_cons, List.count_cons]
      by_cases hk : k = l
      · subst hk
        simp [hl] at this ⊢
        omega
      · simp [hk, Ne.symm hk] at this ⊢
        exact this
    | release l =>
      obtain ⟨hl, rfl⟩ := step_release.mp hu
      rw [List.count_cons, List.count_cons]
      by_cases hk : k = l
      · subst hk
        simp [hl] at this ⊢
        omega
      · simp [hk, Ne.symm hk] at this ⊢
        exact this

/-- The frame rule: resources `r` held by somebody else, none of which the log acquires. -/
theorem run_union {s t r : Finset κ} {es : List (Event κ)} (hr : ∀ k, .acquire k ∈ es → k ∉ r)
    (hd : Disjoint s r) (h : run s es = some t) :
    run (s ∪ r) es = some (t ∪ r) ∧ Disjoint t r := by
  induction es generalizing s with
  | nil => cases h; exact ⟨rfl, hd⟩
  | cons e es ih =>
    obtain ⟨u, hu, ht⟩ := Machine.run_cons_eq_some.mp h
    have hr' : ∀ k, .acquire k ∈ es → k ∉ r := fun k hk => hr k (List.mem_cons_of_mem e hk)
    cases e with
    | acquire k =>
      obtain ⟨hk, rfl⟩ := step_acquire.mp hu
      have hkr : k ∉ r := hr k List.mem_cons_self
      obtain ⟨hrun, hdt⟩ := ih hr' (Finset.disjoint_insert_left.mpr ⟨hkr, hd⟩) ht
      refine ⟨Machine.run_cons_eq_some.mpr ⟨_, step_acquire.mpr ⟨?_, rfl⟩, ?_⟩, hdt⟩
      · simp [hk, hkr]
      · rwa [← Finset.insert_union]
    | release k =>
      obtain ⟨hk, rfl⟩ := step_release.mp hu
      have hkr : k ∉ r := Finset.disjoint_left.mp hd hk
      obtain ⟨hrun, hdt⟩ := ih hr' (hd.mono_left (Finset.erase_subset k s)) ht
      refine ⟨Machine.run_cons_eq_some.mpr ⟨_, step_release.mpr ⟨?_, rfl⟩, ?_⟩, hdt⟩
      · exact Finset.mem_union_left r hk
      · rwa [Finset.erase_union_distrib, Finset.erase_eq_of_notMem hkr]

end Ledger
