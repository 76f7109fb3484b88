import Mathlib
import Libptytty.Lib.Log
import Libptytty.Estl.Growth

/-!
# The logarithms of `ecb.h`

`good_size` uses `ecb_ld32`, which ecb.h takes from the compiler where it can and computes by
halving where it cannot. `ld_agrees`: for all arguments but 0 there is no difference, and with
either `good_size` is the least power of two above its argument, for 1 up to `max_size ()` elements
and fewer than 2^32.
-/

namespace Libptytty

namespace Ecb

/-! ## The functions -/

/-- `ecb_ld32`. -/
def ld32 (x : BitVec 32) : ℕ :=
  let r := 0
  let (x, r) := if x >>> 16 ≠ 0 then (x >>> 16, r + 16) else (x, r)
  let (x, r) := if x >>> 8 ≠ 0 then (x >>> 8, r + 8) else (x, r)
  let (x, r) := if x >>> 4 ≠ 0 then (x >>> 4, r + 4) else (x, r)
  let (x, r) := if x >>> 2 ≠ 0 then (x >>> 2, r + 2) else (x, r)
  if x >>> 1 ≠ 0 then r + 1 else r

/-- The macro `ecb_ld32`; `__builtin_clz` is unspecified at 0. -/
def ld32Builtin (x : BitVec 32) : ℕ := x.clz.toNat ^^^ 31

/-- `ecb_ld64`. -/
def ld64 (x : BitVec 64) : ℕ :=
  let r := 0
  let (x, r) := if x >>> 32 ≠ 0 then (x >>> 32, r + 32) else (x, r)
  r + ld32 (x.setWidth 32)

/-- The macro `ecb_ld64`. -/
def ld64Builtin (x : BitVec 64) : ℕ := x.clz.toNat ^^^ 63

/-! ## Halving -/

theorem shift_ne_zero {m : ℕ} (x : BitVec m) (w : ℕ) : x >>> w ≠ 0 ↔ x.toNat >>> w ≠ 0 := by
  rw [← BitVec.toNat_ushiftRight, ne_eq, ← BitVec.toNat_inj]
  rfl

/-- One line of `ecb_ld32`. -/
def shiftOut (w : ℕ) (p : BitVec 32 × ℕ) : BitVec 32 × ℕ :=
  if p.1 >>> w ≠ 0 then (p.1 >>> w, p.2 + w) else p

theorem halve_cons (w : ℕ) (ws : List ℕ) (p : BitVec 32 × ℕ) :
    Log.halve (w :: ws) p.1.toNat p.2 =
      Log.halve ws (shiftOut w p).1.toNat (shiftOut w p).2 := by
  rw [Log.halve, shiftOut]
  by_cases h : p.1 >>> w ≠ 0
  · rw [if_pos ((shift_ne_zero p.1 w).mp h), if_pos h, BitVec.toNat_ushiftRight]
  · rw [if_neg fun h' => h ((shift_ne_zero p.1 w).mpr h'), if_neg h]

theorem ld32_eq_halve (x : BitVec 32) : ld32 x = Log.halve [16, 8, 4, 2, 1] x.toNat 0 := by
  have hlast (p : BitVec 32 × ℕ) :
      (if p.1 >>> 1 ≠ 0 then p.2 + 1 else p.2) = (shiftOut 1 p).2 := by
    unfold shiftOut
    split_ifs <;> rfl
  calc ld32 x = (shiftOut 1 (shiftOut 2 (shiftOut 4 (shiftOut 8 (shiftOut 16 (x, 0)))))).2 :=
        hlast (shiftOut 2 (shiftOut 4 (shiftOut 8 (shiftOut 16 (x, 0)))))
    _ = Log.halve [16, 8, 4, 2, 1] x.toNat 0 := by
        rw [halve_cons 16 _ (x, 0), halve_cons, halve_cons, halve_cons, halve_cons]
        rfl

theorem ld32_eq {x : BitVec 32} (hx : x ≠ 0) : ld32 x = Nat.log2 x.toNat := by
  have hnat : x.toNat ≠ 0 := fun h => hx (BitVec.eq_of_toNat_eq h)
  rw [ld32_eq_halve]
  have hsum : x.toNat < 2 ^ ([16, 8, 4, 2, 1].sum + 1) := x.isLt
  exact Log.halve_eq (by simp [Log.Gapless]) hnat hsum 0

theorem ld64_eq {x : BitVec 64} (hx : x ≠ 0) : ld64 x = Nat.log2 x.toNat := by
  have hnat : x.toNat ≠ 0 := fun h => hx (BitVec.eq_of_toNat_eq h)
  have hlt := x.isLt
  unfold ld64
  dsimp only
  by_cases h : x >>> 32 ≠ 0
  · have hshift := (shift_ne_zero x 32).mp h
    have hsmall : x.toNat >>> 32 < 2 ^ 32 := by
      rw [Nat.shiftRight_eq_div_pow]
      omega
    have hcut : ((x >>> 32).setWidth 32).toNat = x.toNat >>> 32 := by
      rw [BitVec.toNat_setWidth, BitVec.toNat_ushiftRight, Nat.mod_eq_of_lt hsmall]
    have hne : (x >>> 32).setWidth 32 ≠ 0 := fun h0 => hshift (by rw [← hcut, h0]; rfl)
    rw [if_pos h, ld32_eq hne, hcut, ← Log.log2_shiftRight hshift]
    omega
  · have hzero : x.toNat >>> 32 = 0 := not_not.mp fun h' => h ((shift_ne_zero x 32).mpr h')
    rw [Nat.shiftRight_eq_div_pow] at hzero
    have hcut : (x.setWidth 32).toNat = x.toNat := by
      rw [BitVec.toNat_setWidth]
      omega
    have hne : x.setWidth 32 ≠ 0 := fun h0 => hnat (by rw [← hcut, h0]; rfl)
    rw [if_neg h, ld32_eq hne, hcut]
    exact Nat.zero_add _

/-! ## Counting the leading zeros -/

theorem clz_eq {w : ℕ} (hw : 0 < w) {x : BitVec w} (hx : x ≠ 0) :
    Nat.log2 x.toNat + x.clz.toNat = w - 1 ∧ x.clz.toNat < w := by
  have hnat : x.toNat ≠ 0 := fun h => hx (BitVec.eq_of_toNat_eq h)
  have hlo := BitVec.two_pow_sub_clz_le_toNat_of_ne_zero hw hx
  have hhi := BitVec.toNat_lt_two_pow_sub_clz (x := x)
  have hclz : x.clz.toNat < w := by
    by_contra hge
    rw [Nat.sub_eq_zero_of_le (by omega)] at hhi
    omega
  have hlog : Nat.log2 x.toNat = w - 1 - x.clz.toNat := by
    refine (Nat.log2_eq_iff hnat).mpr ⟨hlo, ?_⟩
    rwa [show w - 1 - x.clz.toNat + 1 = w - x.clz.toNat by omega]
  omega

theorem ld32Builtin_eq {x : BitVec 32} (hx : x ≠ 0) : ld32Builtin x = Nat.log2 x.toNat := by
  obtain ⟨hsum, hlt⟩ := clz_eq (by decide) hx
  have hxor : ∀ c < 32, c ^^^ 31 = 31 - c := by decide
  rw [ld32Builtin, hxor _ hlt]
  omega

theorem ld64Builtin_eq {x : BitVec 64} (hx : x ≠ 0) : ld64Builtin x = Nat.log2 x.toNat := by
  obtain ⟨hsum, hlt⟩ := clz_eq (by decide) hx
  have hxor : ∀ c < 64, c ^^^ 63 = 63 - c := by decide
  rw [ld64Builtin, hxor _ hlt]
  omega

end Ecb

/-! ## `good_size` -/

namespace Simplevec.Target

theorem toNat_uint32 {n : ℕ} (hn : n < 2 ^ 32) : (BitVec.ofNat 32 n).toNat = n :=
  Nat.mod_eq_of_lt hn

theorem uint32_ne_zero {n : ℕ} (h0 : n ≠ 0) (hn : n < 2 ^ 32) : BitVec.ofNat 32 n ≠ 0 :=
  fun h => h0 (by rw [← toNat_uint32 hn, h]; rfl)

variable (P : Target)

/-- The platform with the function of ecb.h. -/
def portable : Target :=
  P.withLd32 (fun n => Ecb.ld32 (BitVec.ofNat 32 n)) fun n h0 hn => by
    rw [Ecb.ld32_eq (uint32_ne_zero h0 hn), toNat_uint32 hn]

/-- The platform with the function of the compiler. -/
def builtin : Target :=
  P.withLd32 (fun n => Ecb.ld32Builtin (BitVec.ofNat 32 n)) fun n h0 hn => by
    rw [Ecb.ld32Builtin_eq (uint32_ne_zero h0 hn), toNat_uint32 hn]

end Simplevec.Target

namespace Ecb

open Simplevec

/-- `m` is the least power of two above `n`. -/
def NextPower (n m : ℕ) : Prop := n < m ∧ (∃ k, m = 2 ^ k) ∧ ∀ k, n < 2 ^ k → m ≤ 2 ^ k

theorem nextPower_log2 {n : ℕ} (h0 : n ≠ 0) : NextPower n (2 ^ (Nat.log2 n + 1)) := by
  refine ⟨Nat.lt_log2_self, ⟨_, rfl⟩, fun k hk => ?_⟩
  exact Nat.pow_le_pow_right (by decide) ((Nat.log2_lt h0).mpr hk)

/-- **Logarithms.** What ecb.h computes by halving is what the compiler offers, for every argument
but 0. With either function, and all widths that the header offers, `good_size` yields the least
power of two above its argument, if this is not 0, below 2^32 and at most `max_size ()`. -/
theorem ld_agrees :
    (∀ x : BitVec 32, x ≠ 0 → ld32 x = Nat.log2 x.toNat ∧ ld32Builtin x = Nat.log2 x.toNat) ∧
    (∀ x : BitVec 64, x ≠ 0 → ld64 x = Nat.log2 x.toNat ∧ ld64Builtin x = Nat.log2 x.toNat) ∧
    ∀ (P : Target), P.Offered → ∀ n, n ≠ 0 → n < 2 ^ 32 → n ≤ P.maxSize →
      NextPower n (P.portable.goodSize n) ∧ P.builtin.goodSize n = P.portable.goodSize n := by
  refine ⟨fun x hx => ⟨ld32_eq hx, ld32Builtin_eq hx⟩,
    fun x hx => ⟨ld64_eq hx, ld64Builtin_eq hx⟩, fun P hP n h0 h32 hn => ?_⟩
  have hportable : P.portable.Offered := hP.withLd32 _
  have hbuiltin : P.builtin.Offered := hP.withLd32 _
  rw [hportable.goodSize h0 hn h32, hbuiltin.goodSize h0 hn h32]
  exact ⟨nextPower_log2 h0, rfl⟩

end Ecb

end Libptytty
