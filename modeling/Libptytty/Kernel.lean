import Mathlib

/-!
# Descriptors

The kernel hands out a descriptor that is not open in the process. `Kernel` leaves open which one:
`pick n s` is the `n`-th descriptor handed out, in a process whose open descriptors are `s`. The
rule of POSIX, the lowest free one, is `posix`.
-/

namespace Libptytty

/-- A file descriptor. -/
abbrev Fd := ℕ

/-- The choices of the kernel among the free descriptors. -/
structure Kernel where
  pick : ℕ → Finset Fd → Fd
  pick_notMem : ∀ n s, pick n s ∉ s

/-- The lowest descriptor that is not open. -/
def lowestFree (s : Finset Fd) : Fd := ((List.range (s.card + 1)).find? (· ∉ s)).getD 0

theorem lowestFree_notMem (s : Finset Fd) : lowestFree s ∉ s := by
  -- `s` cannot contain all of `0, …, s.card`
  obtain ⟨x, hx, hxs⟩ := Finset.exists_mem_notMem_of_card_lt_card
    (show s.card < (Finset.range (s.card + 1)).card by rw [Finset.card_range]; omega)
  have hsome : ((List.range (s.card + 1)).find? (· ∉ s)).isSome := by
    rw [List.find?_isSome]
    exact ⟨x, List.mem_range.mpr (Finset.mem_range.mp hx), decide_eq_true hxs⟩
  obtain ⟨y, hy⟩ := Option.isSome_iff_exists.mp hsome
  have := List.find?_some hy
  unfold lowestFree
  rw [hy]
  simpa using this

theorem lowestFree_le {s : Finset Fd} {n : Fd} (hn : n ∉ s) : lowestFree s ≤ n := by
  cases h : (List.range (s.card + 1)).find? (· ∉ s) with
  | none =>
    unfold lowestFree
    rw [h]
    exact Nat.zero_le n
  | some m =>
    have hlow : lowestFree s = m := by
      unfold lowestFree
      rw [h]
      rfl
    obtain ⟨-, hm, hall⟩ := List.find?_range_eq_some.mp h
    rw [hlow]
    by_contra hlt
    exact absurd hn (by simpa using hall n (not_le.mp hlt))

/-- How many descriptors below `limit` are free. -/
def spare (limit : ℕ) (s : Finset Fd) : ℕ := (Finset.range limit \ s).card

theorem lowestFree_lt_iff {limit : ℕ} {s : Finset Fd} :
    lowestFree s < limit ↔ 1 ≤ spare limit s := by
  unfold spare
  rw [Nat.one_le_iff_ne_zero, Finset.card_ne_zero]
  constructor
  · intro h
    exact ⟨_, Finset.mem_sdiff.mpr ⟨Finset.mem_range.mpr h, lowestFree_notMem s⟩⟩
  · rintro ⟨n, hn⟩
    obtain ⟨hlt, hfree⟩ := Finset.mem_sdiff.mp hn
    exact (lowestFree_le hfree).trans_lt (Finset.mem_range.mp hlt)

/-- The lowest free descriptor is handed out. -/
theorem spare_insert (limit : ℕ) (s : Finset Fd) :
    spare limit (insert (lowestFree s) s) = spare limit s - 1 := by
  unfold spare
  rw [Finset.sdiff_insert]
  by_cases h : lowestFree s < limit
  · exact Finset.card_erase_of_mem
      (Finset.mem_sdiff.mpr ⟨Finset.mem_range.mpr h, lowestFree_notMem s⟩)
  · have hnone : spare limit s = 0 := by
      rw [lowestFree_lt_iff] at h
      omega
    unfold spare at hnone
    rw [Finset.card_eq_zero] at hnone
    rw [hnone]
    rfl

/-- The kernel that follows POSIX. -/
def posix : Kernel := ⟨fun _ s => lowestFree s, fun _ s => lowestFree_notMem s⟩

end Libptytty
