import Mathlib

/-!
# Logarithms by halving

The position of the highest bit of a number, found by trying shifts of decreasing widths: whenever
what remains after a shift is not zero, the highest bit is in there. `halve_eq`: with widths that
leave no gap, such as 16, 8, 4, 2, 1, this is the logarithm.
-/

namespace Log

/-- Try the shifts by `ws`; `r` bits have been shifted out. -/
def halve : List ℕ → ℕ → ℕ → ℕ
  | [], _, r => r
  | w :: ws, x, r => if x >>> w ≠ 0 then halve ws (x >>> w) (r + w) else halve ws x r

/-- Each width reaches over what the widths behind it cover. -/
def Gapless : List ℕ → Prop
  | [] => True
  | w :: ws => w ≤ ws.sum + 1 ∧ Gapless ws

theorem log2_shiftRight {x w : ℕ} (h : x >>> w ≠ 0) : Nat.log2 (x >>> w) + w = Nat.log2 x := by
  have hx : x ≠ 0 := by
    rintro rfl
    exact h (Nat.zero_shiftRight w)
  rw [Nat.shiftRight_eq_div_pow] at h ⊢
  have hlo := Nat.log2_self_le h
  have hhi := Nat.lt_log2_self (n := x / 2 ^ w)
  symm
  rw [Nat.log2_eq_iff hx, Nat.pow_add, add_right_comm, Nat.pow_add]
  have hdiv := Nat.div_add_mod x (2 ^ w)
  have hmod := Nat.mod_lt x (Nat.two_pow_pos w)
  constructor
  · calc 2 ^ Nat.log2 (x / 2 ^ w) * 2 ^ w ≤ x / 2 ^ w * 2 ^ w := Nat.mul_le_mul_right _ hlo
      _ ≤ x := Nat.div_mul_le_self x _
  · exact (Nat.div_lt_iff_lt_mul (Nat.two_pow_pos w)).mp hhi

theorem halve_eq {ws : List ℕ} (hws : Gapless ws) {x : ℕ} (hx : x ≠ 0)
    (hlt : x < 2 ^ (ws.sum + 1)) (r : ℕ) : halve ws x r = Nat.log2 x + r := by
  induction ws generalizing x r with
  | nil =>
    obtain rfl : x = 1 := by
      rw [List.sum_nil] at hlt
      omega
    exact (Nat.zero_add r).symm
  | cons w ws ih =>
    obtain ⟨hw, hws⟩ := hws
    unfold halve
    split_ifs with hrest
    · have hsmall : x >>> w < 2 ^ (ws.sum + 1) := by
        rw [Nat.shiftRight_eq_div_pow, Nat.div_lt_iff_lt_mul (Nat.two_pow_pos w), ← Nat.pow_add]
        rwa [List.sum_cons, Nat.add_assoc, Nat.add_comm] at hlt
      rw [ih hws hrest hsmall, ← log2_shiftRight hrest]
      omega
    · have hzero : x / 2 ^ w = 0 := by
        rw [← Nat.shiftRight_eq_div_pow]
        exact not_not.mp hrest
      have hsmall : x < 2 ^ w := by
        rcases Nat.div_eq_zero_iff.mp hzero with h | h
        · exact absurd h (Nat.two_pow_pos w).ne'
        · exact h
      exact ih hws hx (hsmall.trans_le (Nat.pow_le_pow_right (by decide) hw)) r

end Log
