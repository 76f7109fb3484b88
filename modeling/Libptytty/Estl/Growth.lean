import Mathlib
import Libptytty.Estl.Lists

/-!
# What a growth asks for

`good_size` shifts by a 32-bit logarithm, and `alloc` multiplies in `size_t`. From 2^32 elements on
the logarithm is that of the lower 32 bits, and a product that wraps asks for a smaller block.
`growsEnough_iff` says when neither happens.
-/

namespace Libptytty.Simplevec

open Cells

variable {α : Type} {P : Target} {T : ElemType α} {v w : Vec α} {xs : List α} {f : Fresh α} {n : ℕ}

/-- What `estl.h` offers: `size_type` is `uint32_t`, or `unsigned long` with
`ESTL_LARGE_MEMORY_MODEL`. -/
structure Target.Offered (P : Target) : Prop where
  long : P.long = 32 ∨ P.long = 64
  size : P.size = 32 ∨ P.size = 64
  sizeType : P.sizeType = 32 ∨ P.sizeType = P.long

/-- The same platform with another `ecb_ld32`. -/
def Target.withLd32 (P : Target) (ld32 : ℕ → ℕ)
    (h : ∀ n, n ≠ 0 → n < 2 ^ 32 → ld32 n = Nat.log2 n) : Target :=
  { P with ld32 := ld32, ld32_eq := h }

/-- The argument of `operator new` in `alloc (n)`. -/
def Target.bytes (P : Target) (T : ElemType α) (n : ℕ) : ℕ := T.sizeof * n % 2 ^ P.size

/-- A capacity for `n` elements, with a block from `operator new` for which at least as many bytes
have been requested as it takes. -/
structure Suffices (P : Target) (T : ElemType α) (f : Fresh α) (n : ℕ) (w : Vec α) : Prop where
  capacity : n ≤ w.res
  block : w.buf.block = f.block ∧ w.buf.cells.length = P.bytes T w.res / T.sizeof
  bytes : w.res * T.sizeof ≤ P.bytes T w.res

/-- When `reserve` or `ins` grows for `n` elements, and is given a block, this is large enough. -/
def GrowsEnough (P : Target) (T : ElemType α) (n : ℕ) : Prop :=
  ∀ (v : Vec α) (xs : List α) (f : Fresh α), Holds T v xs → v.res < n →
    (∃ w, reserve P T (some f) n v = .ok () w ∧ Suffices P T f n w) ∧
    ∀ p k, p ≤ xs.length → xs.length + k = n →
      ∃ w, ins P T (some f) p k v = .ok () w ∧ Suffices P T f n w

/-! ## The capacity -/

theorem Target.Offered.withLd32 (hP : P.Offered) {ld32 : ℕ → ℕ}
    (h : ∀ n, n ≠ 0 → n < 2 ^ 32 → ld32 n = Nat.log2 n) : (P.withLd32 ld32 h).Offered :=
  ⟨hP.long, hP.size, hP.sizeType⟩

/-- `size_type` has 32 or 64 bits. -/
theorem Target.Offered.cases (hP : P.Offered) :
    (P.sizeType = 32 ∧ 32 ≤ P.long ∧ P.maxSize = 2 ^ 31 - 1) ∨
      (P.sizeType = 64 ∧ P.long = 64 ∧ P.maxSize = 2 ^ 63 - 1) := by
  have hlong := hP.long
  have hmax : ∀ k, P.sizeType = k → P.maxSize = (2 ^ k - 1) / 2 := by
    rintro k rfl
    rfl
  rcases hP.sizeType with h | h
  · exact Or.inl ⟨h, by omega, (hmax 32 h).trans (by norm_num)⟩
  · rcases hlong with h' | h'
    · exact Or.inl ⟨h.trans h', by omega, (hmax 32 (h.trans h')).trans (by norm_num)⟩
    · exact Or.inr ⟨h.trans h', h', (hmax 64 (h.trans h')).trans (by norm_num)⟩

/-- Up to 2^32 elements the capacity is the next power of two. -/
theorem Target.Offered.goodSize (hP : P.Offered) (h0 : n ≠ 0) (hn : n ≤ P.maxSize)
    (h32 : n < 2 ^ 32) : P.goodSize n = 2 ^ (Nat.log2 n + 1) := by
  have hpow : ∀ k, n < 2 ^ k → Nat.log2 n + 1 ≤ k := fun k hk => (Nat.log2_lt h0).mpr hk
  rcases hP.cases with ⟨hs, hl, hmax⟩ | ⟨hs, hl, -⟩
  · have hlog := hpow 31 (by omega)
    exact Target.goodSize_eq h0 h32 (Nat.pow_lt_pow_right (by decide) (by omega))
      (Nat.pow_lt_pow_right (by decide) (by omega))
  · have hlog := hpow 32 h32
    exact Target.goodSize_eq h0 h32 (Nat.pow_lt_pow_right (by decide) (by omega))
      (Nat.pow_lt_pow_right (by decide) (by omega))

/-- What `ecb_ld32` may give at 0. -/
def ld32Zero (n : ℕ) : ℕ := if n = 0 then 0 else Nat.log2 n

theorem ld32Zero_eq (n : ℕ) (h0 : n ≠ 0) (_ : n < 2 ^ 32) : ld32Zero n = Nat.log2 n := if_neg h0

/-- For more elements it may be smaller. -/
theorem goodSize_lt (hn : 2 ^ 32 ≤ n) : (P.withLd32 ld32Zero ld32Zero_eq).goodSize n < n := by
  have hle : (P.withLd32 ld32Zero ld32Zero_eq).goodSize n ≤ 2 <<< ld32Zero (n % 2 ^ 32) := by
    rw [Target.goodSize, if_neg (by omega)]
    exact (Nat.mod_le _ _).trans (Nat.mod_le _ _)
  refine hle.trans_lt ?_
  rw [Nat.shiftLeft_eq, ← pow_succ']
  unfold ld32Zero
  split_ifs with h
  · omega
  · have hlog : Nat.log2 (n % 2 ^ 32) + 1 ≤ 32 :=
      (Nat.log2_lt h).mpr (Nat.mod_lt _ (by norm_num))
    have hpow : 2 ^ (Nat.log2 (n % 2 ^ 32) + 1) ≤ 2 ^ 32 := Nat.pow_le_pow_right (by decide) hlog
    omega

/-! ## The buffer -/

theorem suffices_grown (v : Vec α) (f : Fresh α) (hn : n ≤ P.goodSize n)
    (hxs : xs.length ≤ P.cells T (P.goodSize n)) (hbytes : T.sizeof * P.goodSize n < 2 ^ P.size) :
    Suffices P T f n (grown P T f v xs n) := by
  refine ⟨hn, ⟨rfl, ?_⟩, ?_⟩
  · show (xs.map some ++ (f.cells T (P.cells T (P.goodSize n))).drop xs.length).length =
      P.cells T (P.goodSize n)
    simp [hxs]
  · show P.goodSize n * T.sizeof ≤ T.sizeof * P.goodSize n % 2 ^ P.size
    rw [Nat.mod_eq_of_lt hbytes, Nat.mul_comm]

/-- If the next power of two is asked for and no product wraps, the block is large enough. -/
theorem growsEnough_of (hn : n ≤ P.maxSize) (hlt : n < P.goodSize n)
    (hbytes : T.sizeof * P.goodSize n < 2 ^ P.size) : GrowsEnough P T n := by
  intro v xs f hv hres
  have hcells := Target.cells_eq hbytes
  have hsize := hv.size_le
  have hxs : xs.length ≤ P.cells T (P.goodSize n) := by omega
  have hgrown := suffices_grown v f hlt.le hxs hbytes
  refine ⟨⟨_, reserve_of_lt hv f hres hxs, hgrown⟩, fun p k hp hk => ?_⟩
  have hwrap : P.wrap n = n := by
    refine Nat.mod_eq_of_lt ?_
    have := Nat.two_pow_pos P.sizeType
    unfold Target.maxSize at hn
    omega
  have hsum : P.wrap (v.sze + k) = n := by rw [hv.sze, hk, hwrap]
  have hgrow := insGrow_of_lt hv f (n := k) (hsum.symm ▸ hres) (hsum.symm ▸ hxs)
  rw [hsum] at hgrow
  have hroom : xs.length + k ≤ (grown P T f v xs n).res := by
    rw [hk]
    exact hlt.le
  obtain ⟨zs, w, -, hw, hys, hblock⟩ := insShift_eq (holds_grown hv f hxs hcells) hp hroom
    (by rw [hk, hwrap])
  obtain ⟨-, hres', -⟩ := insShift_ok hw
  refine ⟨w, by rw [ins, bind_ok hgrow, hw], ?_⟩
  refine ⟨hres'.symm ▸ hgrown.capacity, ⟨hblock, ?_⟩, hres'.symm ▸ hgrown.bytes⟩
  rw [hys.res, hres']
  exact hcells.symm

/-- An empty vector shows what is asked for. -/
theorem GrowsEnough.goodSize (h : GrowsEnough P T n) (h0 : n ≠ 0) :
    n ≤ P.goodSize n ∧ P.goodSize n * T.sizeof < 2 ^ P.size := by
  have hempty : Holds T (empty : Vec α) [] := ⟨rfl, rfl, [], rfl, by rintro c ⟨⟩⟩
  have hlt : (empty : Vec α).res < n := Nat.pos_of_ne_zero h0
  let f : Fresh α := ⟨1, fun _ => T.dflt⟩
  obtain ⟨⟨w, hw, hsuf⟩, -⟩ := h empty [] f hempty hlt
  rw [reserve_of_lt hempty f hlt (Nat.zero_le _)] at hw
  cases hw
  exact ⟨hsuf.capacity, hsuf.bytes.trans_lt (Nat.mod_lt _ (Nat.two_pow_pos _))⟩

/-- **Growth.** Whatever `ecb_ld32` gives at 0, growing for up to `max_size ()` elements yields a
large enough buffer exactly if they are fewer than 2^32, and the size in bytes of the next power of
two fits in a `size_t`. -/
theorem growsEnough_iff (hP : P.Offered) (T : ElemType α) (hn : n ≤ P.maxSize) :
    (∀ ld32 h, GrowsEnough (P.withLd32 ld32 h) T n) ↔
      (n ≠ 0 → n < 2 ^ 32 ∧ 2 ^ (Nat.log2 n + 1) * T.sizeof < 2 ^ P.size) := by
  constructor
  · intro hall h0
    have h32 : n < 2 ^ 32 := by
      by_contra hle
      have hge := ((hall ld32Zero ld32Zero_eq).goodSize h0).1
      exact absurd (goodSize_lt (not_lt.mp hle)) (not_lt.mpr hge)
    have hbytes := ((hall P.ld32 P.ld32_eq).goodSize h0).2
    rw [(hP.withLd32 P.ld32_eq).goodSize h0 hn h32] at hbytes
    exact ⟨h32, hbytes⟩
  · intro hcond ld32 h
    by_cases h0 : n = 0
    · subst h0
      intro v xs f hv hlt
      exact absurd hlt (Nat.not_lt_zero _)
    · obtain ⟨h32, hbytes⟩ := hcond h0
      have hgood := (hP.withLd32 h).goodSize h0 hn h32
      refine growsEnough_of hn ?_ ?_
      · rw [hgood]
        exact Nat.lt_log2_self
      · rw [hgood, Nat.mul_comm]
        exact hbytes

theorem growsEnough_iff_three : GrowsEnough (lp64.withLd32 ld32Zero ld32Zero_eq) podElem 3 :=
  (growsEnough_iff ⟨Or.inr rfl, Or.inr rfl, Or.inl rfl⟩ podElem (by decide)).mpr
    (fun _ => ⟨by decide, by decide⟩) ld32Zero ld32Zero_eq

/-- A 32-bit platform. -/
def ilp32 : Target := ⟨32, 32, 32, Nat.log2, lp64.ld32_eq⟩

/-- With a 32-bit `size_t`, 2^28 elements of 16 bytes are a request for 0 bytes. With the large
memory model, a growth for 2^32 + 1 elements gives a capacity of 2. -/
theorem not_growsEnough :
    (ilp32.Offered ∧ 2 ^ 27 + 1 ≤ ilp32.maxSize ∧
      ¬ GrowsEnough ilp32 (classElem 16 (Nat.succ_pos 15)) (2 ^ 27 + 1)) ∧
    lp64Large.Offered ∧ 2 ^ 32 + 1 ≤ lp64Large.maxSize ∧
      ¬ GrowsEnough lp64Large (classElem 1 Nat.one_pos) (2 ^ 32 + 1) := by
  refine ⟨⟨⟨Or.inl rfl, Or.inl rfl, Or.inl rfl⟩, by decide, fun h => ?_⟩,
    ⟨Or.inr rfl, Or.inr rfl, Or.inr rfl⟩, by decide, fun h => ?_⟩
  · exact absurd (h.goodSize (by decide)).2 (by decide)
  · exact absurd (h.goodSize (by decide)).1 (by decide)

end Libptytty.Simplevec
