import Mathlib
import Libptytty.Estl.Lists

/-!
# Comparing vectors

`operator <` compares elements, `operator ==` the bytes of the buffers, on the slow path too. What
an object stands for and what its bytes are is a `Representation`. The order of the vectors is that
of the lists of their values (`less_eq`), but the equality is that of the lists of bytes
(`equal_eq`), so that they belong together exactly where bytes tell values (`agree_iff`).
-/

namespace Libptytty.Simplevec

open Cells

variable {α V : Type} {P : Target} {T : ElemType α} {v w : Vec α} {xs ys : List α}

/-- The objects of type `T`: the value that one stands for, which is what the operators of `T`
compare, its bytes, and `copy i x`, which is what the copy constructor makes of `x` for the `i`-th
element of a vector. -/
structure Representation (T : ElemType α) (V : Type) where
  val : α → V
  bytes : α → List UInt8
  copy : ℕ → α → α
  length_bytes : ∀ x, (bytes x).length = T.sizeof
  val_copy : ∀ i x, val (copy i x) = val x

variable (R : Representation T V)

/-! ## Equality -/

/-- The bytes of the first `n` elements. -/
def rawBytes (b : List (Option α)) : ℕ → Option (List UInt8)
  | 0 => some []
  | n + 1 => do
    let s ← rawBytes b n
    let x ← Cells.read b n
    return s ++ R.bytes x

/-- `operator ==`. The length in bytes is that of an array, so it does not wrap. -/
def equal (v w : Vec α) : Except Stop Bool :=
  if v.sze ≠ w.sze then .ok false
  else if v.sze = 0 then .ok true
  else do
    let s ← access (rawBytes R v.buf.cells v.sze)
    let t ← access (rawBytes R w.buf.cells v.sze)
    return s = t

/-- Two lists are equal in what `g` sees of their elements. -/
def SameBy {β : Type} (g : α → β) : List α → List α → Prop := List.Forall₂ fun x y => g x = g y

variable {R}

theorem sameBy_iff {β : Type} {g : α → β} : SameBy g xs ys ↔ xs.map g = ys.map g := by
  unfold SameBy
  rw [← List.forall₂_eq_eq_eq, List.forall₂_map_left_iff, List.forall₂_map_right_iff]

theorem rawBytes_eq (hv : Holds T v xs) {n : ℕ} (hn : n ≤ xs.length) :
    rawBytes R v.buf.cells n = some ((xs.take n).map R.bytes).flatten := by
  induction n with
  | zero => simp [rawBytes]
  | succ n ih =>
    rw [rawBytes, ih (by omega), hv.read n (by omega),
      List.take_succ_eq_append_getElem (by omega), List.map_append, List.flatten_append]
    simp

/-- All elements have the same size, so that their bytes can be told apart. -/
theorem flatten_bytes_inj (hlen : xs.length = ys.length) :
    (xs.map R.bytes).flatten = (ys.map R.bytes).flatten ↔ xs.map R.bytes = ys.map R.bytes := by
  have hsizes : ∀ zs : List α,
      (zs.map R.bytes).map List.length = List.replicate zs.length T.sizeof := by
    intro zs
    rw [List.map_map]
    exact List.eq_replicate_iff.mpr ⟨by simp, by simp [R.length_bytes]⟩
  rw [List.eq_iff_flatten_eq, hsizes, hsizes, hlen]
  simp

theorem equal_eq (hv : Holds T v xs) (hw : Holds T w ys) :
    equal R v w = .ok (decide (xs.map R.bytes = ys.map R.bytes)) := by
  have hlen : v.sze = w.sze ↔ xs.length = ys.length := by rw [hv.sze, hw.sze]
  unfold equal
  by_cases hsize : v.sze = w.sze
  · have hxy := hlen.mp hsize
    rw [if_neg (not_not.mpr hsize)]
    by_cases h0 : v.sze = 0
    · rw [if_pos h0]
      have hx : xs = [] := List.eq_nil_of_length_eq_zero (hv.sze ▸ h0)
      have hy : ys = [] := List.eq_nil_of_length_eq_zero (hxy ▸ hv.sze ▸ h0)
      subst hx hy
      rfl
    · rw [if_neg h0, hv.sze, rawBytes_eq hv le_rfl, rawBytes_eq hw hxy.le, List.take_length, hxy,
        List.take_length]
      show Except.ok _ = Except.ok _
      rw [Except.ok.injEq, decide_eq_decide]
      exact flatten_bytes_inj hxy
  · have hne : xs.map R.bytes ≠ ys.map R.bytes := by
      intro he
      have := congrArg List.length he
      rw [List.length_map, List.length_map] at this
      exact hsize (hlen.mpr this)
    rw [if_pos hsize, decide_eq_false hne]

/-- `operator ==` compares bytes. -/
theorem equal_iff (hv : Holds T v xs) (hw : Holds T w ys) :
    equal R v w = .ok true ↔ SameBy R.bytes xs ys := by
  rw [equal_eq hv hw, sameBy_iff]
  simp

/-! ## Copies -/

variable (R) in
/-- The copy constructor. -/
def copyOf (P : Target) (a : Option (Fresh α)) (v : Vec α) : Except Stop (Vec α) :=
  ofRange P T a (v.buf.cells.mapIdx fun i c => c.map (R.copy i)) 0 v.sze

variable (R) in
/-- A copy of the elements, if it can be made, has the same bytes. -/
def CopiesBytes (P : Target) (xs : List α) : Prop :=
  T.sizeof * xs.length < 2 ^ P.size → SameBy R.bytes xs (xs.mapIdx R.copy)

theorem Stores.mapIdx {b : List (Option α)} (hb : Stores T b xs) (g : ℕ → α → α) :
    ∃ C, b.mapIdx (fun i c => c.map (g i)) = (xs.mapIdx g).map some ++ C := by
  obtain ⟨spare, rfl, -⟩ := hb
  rw [List.mapIdx_append]
  refine ⟨_, congrArg (· ++ _) ?_⟩
  refine List.ext_getElem? fun i => ?_
  rw [List.getElem?_mapIdx, List.getElem?_map, List.getElem?_map, List.getElem?_mapIdx]
  cases xs[i]? <;> rfl

theorem copyOf_spec (hv : Holds T v xs) (hsize : xs.length < 2 ^ P.sizeType)
    (hn : T.sizeof * xs.length < 2 ^ P.size) (f : Fresh α) :
    ∃ w, copyOf R P (some f) v = .ok w ∧ Holds T w (xs.mapIdx R.copy) := by
  obtain ⟨C, hC⟩ := hv.stores.mapIdx R.copy
  have hlen : (xs.mapIdx R.copy).length = xs.length := List.length_mapIdx
  have hwrap : P.wrap (xs.mapIdx R.copy).length = (xs.mapIdx R.copy).length := by
    rw [hlen]
    exact Nat.mod_eq_of_lt hsize
  obtain ⟨w, hw, hxs⟩ := ofRange_spec hwrap (hlen.symm ▸ hn) f [] C
  refine ⟨w, ?_, hxs⟩
  rw [copyOf, hC, hv.sze]
  rwa [hlen] at hw

/-- A block whose size in bytes wraps has no room for the elements. -/
theorem copyOf_fault (hv : Holds T v xs) (hsize : xs.length < 2 ^ P.sizeType)
    (hn : ¬ T.sizeof * xs.length < 2 ^ P.size) (f : Fresh α) :
    copyOf R P (some f) v = .error .fault := by
  have hwrap : P.wrap xs.length = xs.length := Nat.mod_eq_of_lt hsize
  have hmod : T.sizeof * xs.length % 2 ^ P.size < T.sizeof * xs.length :=
    (Nat.mod_lt _ (Nat.two_pow_pos _)).trans_le (not_lt.mp hn)
  have hcells : P.cells T xs.length < xs.length := Nat.div_lt_of_lt_mul hmod
  have hnone : ∀ src, copyFrom (newable T) src (f.cells T (P.cells T xs.length)) 0 0 xs.length =
      none := fun src => copyFrom_eq_none (by omega) (by simpa using hcells)
  rw [copyOf, ofRange, hv.sze, hwrap, alloc_some]
  simp only [bind, Except.bind, hnone, access]

theorem copies_iff (hv : Holds T v xs) (hsize : xs.length < 2 ^ P.sizeType) :
    (∀ f w, copyOf R P (some f) v = .ok w → equal R v w = .ok true) ↔ CopiesBytes R P xs := by
  constructor
  · intro h hn
    let f : Fresh α := ⟨1, fun _ => T.dflt⟩
    obtain ⟨w, hw, hxs⟩ := copyOf_spec (R := R) hv hsize hn f
    exact (equal_iff hv hxs).mp (h f w hw)
  · intro h f w hw
    by_cases hn : T.sizeof * xs.length < 2 ^ P.size
    · obtain ⟨w', hw', hxs⟩ := copyOf_spec (R := R) hv hsize hn f
      obtain rfl : w' = w := Except.ok.inj (hw'.symm.trans hw)
      exact (equal_iff hv hxs).mpr (h hn)
    · rw [copyOf_fault hv hsize hn] at hw
      cases hw

/-! ## Order -/

section Order

variable [LinearOrder V]

variable (R) in
/-- The loop of `operator <`: `n` iterations from `i` on. -/
def lessLoop (v w : Vec α) : ℕ → ℕ → Except Stop Bool
  | 0, _ => .ok (v.sze < w.sze)
  | n + 1, i => do
    let x ← access (Cells.read v.buf.cells i)
    let y ← access (Cells.read w.buf.cells i)
    if R.val x < R.val y then return true
    if R.val y < R.val x then return false
    lessLoop v w n (i + 1)

variable (R) in
/-- `operator <`. -/
def less (v w : Vec α) : Except Stop Bool := lessLoop R v w (min v.sze w.sze) 0

/-- The loop compares what is left of the two lists. -/
theorem lessLoop_eq (hv : Holds T v xs) (hw : Holds T w ys) {n i : ℕ}
    (hn : n + i = min xs.length ys.length) : lessLoop R v w n i =
      .ok (decide ((xs.drop i).map R.val < (ys.drop i).map R.val)) := by
  induction n generalizing i with
  | zero =>
    rw [lessLoop, hv.sze, hw.sze, Except.ok.injEq, decide_eq_decide]
    rcases lt_or_ge xs.length ys.length with hlt | hge
    · -- the first list is a proper prefix of the second
      have hi : i = xs.length := by omega
      subst hi
      rw [List.drop_length, List.drop_eq_getElem_cons hlt]
      exact iff_of_true hlt (List.nil_lt_cons _ _)
    · have hi : i = ys.length := by omega
      subst hi
      rw [List.drop_length]
      exact iff_of_false (not_lt.mpr hge) (List.not_lt_nil _)
  | succ n ih =>
    have hx : i < xs.length := by omega
    have hy : i < ys.length := by omega
    rw [lessLoop, hv.read i hx, hw.read i hy, List.drop_eq_getElem_cons hx,
      List.drop_eq_getElem_cons hy, List.map_cons, List.map_cons]
    show (if R.val xs[i] < R.val ys[i] then _ else if R.val ys[i] < R.val xs[i] then _ else _) = _
    rcases lt_trichotomy (R.val xs[i]) (R.val ys[i]) with hlt | heq | hgt
    · rw [if_pos hlt, decide_eq_true (List.cons_lt_cons_iff.mpr (Or.inl hlt))]
      rfl
    · rw [if_neg heq.not_lt, if_neg heq.symm.not_lt, ih (by omega), Except.ok.injEq,
        decide_eq_decide, List.cons_lt_cons_iff]
      simp [heq]
    · have hno : ¬ (R.val xs[i] < R.val ys[i] ∨ R.val xs[i] = R.val ys[i] ∧
          (xs.drop (i + 1)).map R.val < (ys.drop (i + 1)).map R.val) :=
        fun h => h.elim hgt.not_gt fun he => hgt.ne' he.1
      rw [if_neg hgt.not_gt, if_pos hgt, decide_eq_false (mt List.cons_lt_cons_iff.mp hno)]
      rfl

/-- `operator <` compares the lists of values. -/
theorem less_eq (hv : Holds T v xs) (hw : Holds T w ys) :
    less R v w = .ok (decide (xs.map R.val < ys.map R.val)) := by
  unfold less
  rw [hv.sze, hw.sze]
  exact lessLoop_eq hv hw rfl

theorem less_iff (hv : Holds T v xs) (hw : Holds T w ys) :
    less R v w = .ok true ↔ xs.map R.val < ys.map R.val := by
  rw [less_eq hv hw]
  simp

/-! ## The laws -/

def ExactlyOne (p q r : Prop) : Prop := p ∧ ¬ q ∧ ¬ r ∨ ¬ p ∧ q ∧ ¬ r ∨ ¬ p ∧ ¬ q ∧ r

variable (R) in
/-- `operator ==` means the same size and equal values, and holds for a copy; it is the equality
that belongs to `operator <`, and this is transitive. -/
structure Agree (P : Target) (a b c : Vec α) : Prop where
  eq : equal R a b = .ok true ↔ SameBy R.val a.toList b.toList
  copy : ∀ f w, copyOf R P (some f) a = .ok w → equal R a w = .ok true
  one : ExactlyOne (less R a b = .ok true) (equal R a b = .ok true) (less R b a = .ok true)
  trans : less R a b = .ok true → less R b c = .ok true → less R a c = .ok true

variable (R) in
/-- Byte for byte, the lists are equal exactly if their values are. -/
def BytesTell (xs ys : List α) : Prop := SameBy R.bytes xs ys ↔ SameBy R.val xs ys

theorem agree_of_holds {a b c : Vec α} {zs : List α} (ha : Holds T a xs) (hb : Holds T b ys)
    (hc : Holds T c zs) (hsize : xs.length < 2 ^ P.sizeType) :
    Agree R P a b c ↔ BytesTell R xs ys ∧ CopiesBytes R P xs := by
  have hequal : equal R a b = .ok true ↔ SameBy R.bytes xs ys := equal_iff ha hb
  constructor
  · intro h
    have heq := h.eq
    rw [hequal, ha.toList_eq, hb.toList_eq] at heq
    exact ⟨heq, (copies_iff ha hsize).mp h.copy⟩
  · rintro ⟨htell, hcopies⟩
    have hvalues : equal R a b = .ok true ↔ SameBy R.val xs ys := hequal.trans htell
    refine ⟨?_, (copies_iff ha hsize).mpr hcopies, ?_, ?_⟩
    · rw [hvalues, ha.toList_eq, hb.toList_eq]
    · rw [hvalues, sameBy_iff, less_iff ha hb, less_iff hb ha]
      rcases lt_trichotomy (xs.map R.val) (ys.map R.val) with hlt | heq | hgt
      · exact Or.inl ⟨hlt, hlt.ne, hlt.not_gt⟩
      · exact Or.inr (Or.inl ⟨heq.not_lt, heq, heq.symm.not_lt⟩)
      · exact Or.inr (Or.inr ⟨hgt.not_gt, hgt.ne', hgt⟩)
    · rw [less_iff ha hb, less_iff hb hc, less_iff ha hc]
      exact lt_trans

/-- A vector of one element. -/
def single (x : α) : Vec α := ⟨1, 1, ⟨1, [some x]⟩⟩

theorem holds_single (x : α) : Holds T (single x) [x] := ⟨rfl, rfl, [], rfl, by rintro c ⟨⟩⟩

/-- **Equality and order.** They agree on vectors exactly if these have the same bytes when they
have the same values, and copies of the elements have the bytes of their originals. They agree on
all vectors exactly if the bytes of an object of type `T` tell its value, and the value tells the
bytes. -/
theorem agree_iff (R : Representation T V) (hP : 0 < P.sizeType) :
    (∀ a b c xs ys zs, Holds T a xs → Holds T b ys → Holds T c zs → xs.length < 2 ^ P.sizeType →
      (Agree R P a b c ↔ BytesTell R xs ys ∧ CopiesBytes R P xs)) ∧
    ((∀ a b c xs ys zs, Holds T a xs → Holds T b ys → Holds T c zs → xs.length < 2 ^ P.sizeType →
      Agree R P a b c) ↔ ∀ x y, R.bytes x = R.bytes y ↔ R.val x = R.val y) := by
  refine ⟨fun a b c xs ys zs ha hb hc hsize => agree_of_holds ha hb hc hsize, fun h x y => ?_,
    fun h a b c xs ys zs ha hb hc hsize => (agree_of_holds ha hb hc hsize).mpr ⟨?_, fun _ => ?_⟩⟩
  · have hsize : [x].length < 2 ^ P.sizeType := Nat.one_lt_two_pow hP.ne'
    have hagree := h _ _ _ _ _ _ (holds_single x) (holds_single y) (holds_single y) hsize
    have htell := ((agree_of_holds (holds_single x) (holds_single y) (holds_single y) hsize).mp
      hagree).1
    simpa [BytesTell, sameBy_iff] using htell
  · have hsame : (fun x y => R.bytes x = R.bytes y) = fun x y => R.val x = R.val y := by
      funext x y
      exact propext (h x y)
    unfold BytesTell SameBy
    rw [hsame]
  · have hval : SameBy R.val xs (xs.mapIdx R.copy) := by
      rw [sameBy_iff]
      refine List.ext_getElem? fun i => ?_
      rw [List.getElem?_map, List.getElem?_map, List.getElem?_mapIdx]
      cases xs[i]? with
      | none => rfl
      | some x => exact congrArg some (R.val_copy i x).symm
    exact hval.imp fun x y => (h x y).mpr

end Order

/-! ## Two element types -/

/-- `struct { unsigned char c; }`, compared by `c`. -/
def bytePodElem : ElemType UInt8 := ⟨1, Nat.one_pos, true, 0⟩

theorem length_byte (x : UInt8) : [x].length = bytePodElem.sizeof := rfl

def byteRep : Representation bytePodElem ℕ :=
  ⟨UInt8.toNat, fun x => [x], fun _ x => x, length_byte, fun _ _ => rfl⟩

theorem agree_iff_bytes : Agree byteRep lp64 (single 1) (single 1) (single 2) := by
  have hbytes : ∀ x y : UInt8,
      byteRep.bytes x = byteRep.bytes y ↔ byteRep.val x = byteRep.val y := by
    intro x y
    rw [show byteRep.val x = byteRep.val y ↔ x = y from UInt8.toNat_inj]
    exact ⟨List.head_eq_of_cons_eq, congrArg fun z => [z]⟩
  exact (agree_iff (P := lp64) byteRep (by decide)).2.mpr hbytes _ _ _ _ _ _ (holds_single 1)
    (holds_single 1) (holds_single 2) (by decide)

/-- The bytes of an integer type, from the lowest on. -/
def littleEndian : ℕ → ℕ → List UInt8
  | 0, _ => []
  | k + 1, n => n.toUInt8 :: littleEndian k (n / 256)

theorem length_littleEndian (k n : ℕ) : (littleEndian k n).length = k := by
  induction k generalizing n with
  | zero => rfl
  | succ k ih => rw [littleEndian, List.length_cons, ih]

/-- `simplevec<int>`, with its three members. -/
def vecElem : ElemType (Vec ℕ) := ⟨16, Nat.succ_pos 15, false, empty⟩

def vecBytes (v : Vec ℕ) : List UInt8 :=
  littleEndian 4 v.sze ++ littleEndian 4 v.res ++ littleEndian 8 v.buf.block

/-- The copy of a vector is in a block of its own. -/
def vecCopy (i : ℕ) (v : Vec ℕ) : Vec ℕ :=
  ⟨v.sze, v.sze, ⟨v.buf.block + i + 1, v.buf.cells.take v.sze⟩⟩

theorem length_vecBytes (v : Vec ℕ) : (vecBytes v).length = vecElem.sizeof := by
  rw [vecBytes, List.length_append, List.length_append, length_littleEndian, length_littleEndian,
    length_littleEndian]
  rfl

theorem toList_vecCopy (i : ℕ) (v : Vec ℕ) : (vecCopy i v).toList = v.toList := by
  rw [Vec.toList, Vec.toList, vecCopy, List.take_take, min_self]

def vecRep : Representation vecElem (List ℕ) :=
  ⟨Vec.toList, vecBytes, vecCopy, length_vecBytes, toList_vecCopy⟩

/-- A vector of one vector of one number and its copy have equal values, so that neither is less,
but are not equal, as the pointers in them differ. -/
theorem not_agree : ∃ w, copyOf vecRep lp64 (some ⟨9, fun _ => empty⟩) (single (single 5)) = .ok w ∧
    SameBy vecRep.val (single (single 5)).toList w.toList ∧
    less vecRep (single (single 5)) w = .ok false ∧ less vecRep w (single (single 5)) = .ok false ∧
    equal vecRep (single (single 5)) w = .ok false ∧
    ¬ Agree vecRep lp64 (single (single 5)) w w := by
  have hv : Holds vecElem (single (single 5)) [single 5] := holds_single _
  obtain ⟨w, hw, hxs⟩ := copyOf_spec (R := vecRep) (P := lp64) hv (by decide) (by decide)
    ⟨9, fun _ => empty⟩
  have hval : [single 5].map vecRep.val = ([single 5].mapIdx vecRep.copy).map vecRep.val := by
    decide
  have hbytes : [single 5].map vecRep.bytes ≠ ([single 5].mapIdx vecRep.copy).map vecRep.bytes := by
    decide
  have hequal : equal vecRep (single (single 5)) w = .ok false := by
    rw [equal_eq hv hxs, decide_eq_false hbytes]
  refine ⟨w, hw, ?_, ?_, ?_, hequal, fun h => ?_⟩
  · rw [hv.toList_eq, hxs.toList_eq, sameBy_iff]
    exact hval
  · rw [less_eq hv hxs]
    exact congrArg Except.ok (decide_eq_false hval.not_lt)
  · rw [less_eq hxs hv]
    exact congrArg Except.ok (decide_eq_false hval.symm.not_lt)
  · have hcopy := h.copy _ w hw
    rw [hequal] at hcopy
    cases hcopy

end Libptytty.Simplevec
