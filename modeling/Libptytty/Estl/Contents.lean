import Mathlib
import Libptytty.Estl.Simplevec

/-!
# What a vector holds

`Holds T v xs` couples a vector with a list: the elements fill the first cells of the buffer, and
the spare cells are raw on the slow path. Each operation has a lemma saying what it does to a
vector that holds a list, in terms of the list alone; the two paths meet in the lemmas of the
private members (`copyNew_eq`, `insShift_eq` and so on), and the operations cite only these.
-/

namespace Libptytty.Simplevec

open Cells

variable {α β γ : Type}

/-! ## Running an operation -/

section Run

variable {v w : Vec α}

theorem bind_ok {x : VecM α β} {b : β} (h : x v = .ok b w) (f : β → VecM α γ) :
    (x >>= f) v = f b w := by
  simp only [bind, EStateM.bind, h]

theorem bind_error {x : VecM α β} {s : Stop} (h : x v = .error s w) (f : β → VecM α γ) :
    (x >>= f) v = .error s w := by
  simp only [bind, EStateM.bind, h]

theorem get_bind (f : Vec α → VecM α γ) (v : Vec α) : (get >>= f) v = f v v := rfl

theorem set_bind (w : Vec α) (f : PUnit → VecM α γ) (v : Vec α) : (set w >>= f) v = f ⟨⟩ w := rfl

theorem lift_bind {r : Except Stop β} {b : β} (h : r = .ok b) (f : β → VecM α γ) (v : Vec α) :
    ((liftM r : VecM α β) >>= f) v = f b v := by
  subst h
  rfl

theorem lift_bind_error {r : Except Stop β} {s : Stop} (h : r = .error s) (f : β → VecM α γ)
    (v : Vec α) : ((liftM r : VecM α β) >>= f) v = .error s v := by
  subst h
  rfl

theorem access_bind {o : Option β} {b : β} (h : o = some b) (f : β → VecM α γ) (v : Vec α) :
    ((liftM (access o) : VecM α β) >>= f) v = f b v :=
  lift_bind (by rw [h]; rfl) f v

theorem access_bind_none {o : Option β} (h : o = none) (f : β → VecM α γ) (v : Vec α) :
    ((liftM (access o) : VecM α β) >>= f) v = .error .fault v :=
  lift_bind_error (by rw [h]; rfl) f v

theorem bind_eq_ok {x : VecM α β} {f : β → VecM α γ} {c : γ} :
    (x >>= f) v = .ok c w ↔ ∃ b u, x v = .ok b u ∧ f b u = .ok c w := by
  cases h : x v with
  | ok b u => simp [bind_ok h]
  | error s u => simp [bind_error h]

theorem access_eq_ok {o : Option β} {b : β} :
    (liftM (access o) : VecM α β) v = .ok b w ↔ o = some b ∧ v = w := by
  cases o with
  | none => exact ⟨by rintro ⟨⟩, by rintro ⟨⟨⟩, -⟩⟩
  | some c =>
    constructor
    · rintro ⟨⟩
      exact ⟨rfl, rfl⟩
    · rintro ⟨⟨⟩, rfl⟩
      rfl

end Run

/-! ## Sizes -/

/-- A 32-bit `size_type` and a 64-bit `size_t`; `unsigned long` has at least 32 bits. -/
structure Target.Host (P : Target) : Prop where
  sizeType : P.sizeType = 32
  long : 32 ≤ P.long
  size : P.size = 64

/-- The vector has room for `n` elements, or a block that has can be asked for: `good_size (n)` is
not cut to less than `n`, and the bytes of the block can be counted in a `size_t`. -/
def Fits (P : Target) (T : ElemType α) (v : Vec α) (n : ℕ) : Prop :=
  n ≤ v.res ∨ n ≤ P.goodSize n ∧ T.sizeof * P.goodSize n < 2 ^ P.size

section Sizes

variable {P : Target} {T : ElemType α} {n : ℕ}

theorem Target.Host.maxSize_eq (hP : P.Host) : P.maxSize = 2 ^ 31 - 1 := by
  rw [Target.maxSize, hP.sizeType]
  norm_num

theorem Target.wrap_eq (hn : n < 2 ^ P.sizeType) : P.wrap n = n := Nat.mod_eq_of_lt hn

theorem Target.lt_of_le_maxSize (hn : n ≤ P.maxSize) : n < 2 ^ P.sizeType := by
  have := Nat.two_pow_pos P.sizeType
  unfold Target.maxSize at hn
  omega

/-- The growth step yields the next power of two, if the integer types have room for it. -/
theorem Target.goodSize_eq (h0 : n ≠ 0) (hn : n < 2 ^ 32)
    (hlong : 2 ^ (Nat.log2 n + 1) < 2 ^ P.long) (hsize : 2 ^ (Nat.log2 n + 1) < 2 ^ P.sizeType) :
    P.goodSize n = 2 ^ (Nat.log2 n + 1) := by
  have hshift : 2 <<< Nat.log2 n = 2 ^ (Nat.log2 n + 1) := by
    rw [Nat.shiftLeft_eq, pow_succ, Nat.mul_comm]
  rw [Target.goodSize, Target.wrap, if_neg h0, Nat.mod_eq_of_lt hn, P.ld32_eq n h0 hn, hshift,
    Nat.mod_eq_of_lt hlong, Nat.mod_eq_of_lt hsize]

theorem Target.Host.goodSize_eq (hP : P.Host) (h0 : n ≠ 0) (hn : n ≤ P.maxSize) :
    P.goodSize n = 2 ^ (Nat.log2 n + 1) := by
  rw [hP.maxSize_eq] at hn
  have hlog : Nat.log2 n < 31 := (Nat.log2_lt h0).mpr (by omega)
  refine Target.goodSize_eq h0 (by omega) ?_ ?_
  · exact Nat.pow_lt_pow_right (by decide) (by have := hP.long; omega)
  · exact Nat.pow_lt_pow_right (by decide) (by have := hP.sizeType; omega)

theorem Target.Host.lt_goodSize (hP : P.Host) (hn : n ≤ P.maxSize) : n < P.goodSize n := by
  rw [hP.maxSize_eq] at hn
  by_cases h0 : n = 0
  · subst h0
    rw [Target.goodSize, Target.wrap, hP.sizeType, if_pos rfl]
    decide
  · have hlog : Nat.log2 n + 1 < 32 := by
      have := (Nat.log2_lt h0).mpr (by omega : n < 2 ^ 31)
      omega
    have hlong : 2 ^ (Nat.log2 n + 1) < 2 ^ P.long :=
      Nat.pow_lt_pow_right (by decide) (hlog.trans_le hP.long)
    have hsize : 2 ^ (Nat.log2 n + 1) < 2 ^ P.sizeType :=
      Nat.pow_lt_pow_right (by decide) (hP.sizeType ▸ hlog)
    rw [Target.goodSize_eq h0 (by omega) hlong hsize]
    exact Nat.lt_log2_self

/-- For elements of a moderate size every block can be asked for. -/
theorem fits_of_sizeof {v : Vec α} (hP : P.Host) (hT : T.sizeof ≤ 2 ^ 32) (hn : n ≤ P.maxSize) :
    Fits P T v n := by
  have hlt : P.goodSize n < 2 ^ 32 := by
    rw [Target.goodSize, Target.wrap, hP.sizeType]
    exact Nat.mod_lt _ (by positivity)
  refine .inr ⟨(hP.lt_goodSize hn).le, ?_⟩
  rw [hP.size]
  calc T.sizeof * P.goodSize n ≤ 2 ^ 32 * P.goodSize n := Nat.mul_le_mul_right _ hT
    _ < 2 ^ 32 * 2 ^ 32 := Nat.mul_lt_mul_of_pos_left hlt (by positivity)
    _ = 2 ^ 64 := by norm_num

/-- A byte count that does not wrap gives all the cells asked for. -/
theorem Target.cells_eq (h : T.sizeof * n < 2 ^ P.size) : P.cells T n = n := by
  rw [Target.cells, Nat.mod_eq_of_lt h, Nat.mul_div_cancel_left n T.sizeof_pos]

@[simp] theorem Fresh.length_cells (f : Fresh α) (T : ElemType α) (n : ℕ) :
    (f.cells T n).length = n := by
  simp [Fresh.cells]

theorem Fresh.isSome_of_mem {f : Fresh α} {c : Option α} (h : c ∈ f.cells T n) :
    c.isSome = T.simple := by
  obtain ⟨i, _, rfl⟩ := List.mem_map.mp h
  cases T.simple <;> rfl

end Sizes

/-! ## The coupling -/

/-- The cells hold `xs` and then spare cells, which are raw on the slow path. -/
def Stores (T : ElemType α) (b : List (Option α)) (xs : List α) : Prop :=
  ∃ spare, b = xs.map some ++ spare ∧ ∀ c ∈ spare, c.isSome = T.simple

structure Holds (T : ElemType α) (v : Vec α) (xs : List α) : Prop where
  sze : v.sze = xs.length
  res : v.buf.cells.length = v.res
  stores : Stores T v.buf.cells xs

section Members

variable {P : Target} {T : ElemType α} {v : Vec α} {b : List (Option α)} {xs : List α} {n : ℕ}

theorem Stores.length_le (h : Stores T b xs) : xs.length ≤ b.length := by
  obtain ⟨spare, rfl, -⟩ := h
  simp

theorem holds_mk {m k : ℕ} {E : List (Option α)} (hn : n = xs.length)
    (hm : xs.length + E.length = m) (hE : ∀ c ∈ E, c.isSome = T.simple) :
    Holds T ⟨n, m, ⟨k, xs.map some ++ E⟩⟩ xs :=
  ⟨hn, by simpa using hm, E, rfl, hE⟩

theorem Holds.size_le (h : Holds T v xs) : xs.length ≤ v.res := h.res ▸ h.stores.length_le

theorem Holds.read (hv : Holds T v xs) (i : ℕ) (hi : i < xs.length) :
    Cells.read v.buf.cells i = some xs[i] := by
  obtain ⟨spare, hb, -⟩ := hv.stores
  rw [hb, read_append_left spare (by simpa using hi), read_map_some, List.getElem?_eq_getElem hi]

theorem newable_of_spare {c : Option α} (h : c.isSome = T.simple) : newable T c = true := by
  cases c <;> cases hs : T.simple <;> simp_all [newable]

theorem copyNew_eq {nbuf : List (Option α)} (hb : Stores T b xs) (hn : xs.length ≤ nbuf.length)
    (hnew : ∀ c ∈ nbuf, c.isSome = T.simple) :
    copyNew T nbuf b xs.length = some (xs.map some ++ nbuf.drop xs.length) := by
  obtain ⟨spare, rfl, -⟩ := hb
  have hsplit : nbuf = [] ++ nbuf.take xs.length ++ nbuf.drop xs.length := by simp
  have hlen : (nbuf.take xs.length).length = xs.length := by simp [hn]
  rw [copyNew]
  split_ifs with hs
  · have h := memcpy_eq (R := nbuf.take xs.length) (M := xs.map some) (by simp [hn]) []
      (nbuf.drop xs.length) [] spare
    rw [← hsplit] at h
    simpa using h
  · have hok : ∀ c ∈ nbuf.take xs.length, newable T c = true :=
      fun c hc => newable_of_spare (hnew c (List.mem_of_mem_take hc))
    have h := copyFrom_eq _ hok hlen.symm [] (nbuf.drop xs.length) [] spare
    rw [← hsplit, hlen] at h
    simpa using h

theorem destruct_eq (ys : List α) (A E : List (Option α)) :
    ∃ R, R.length = ys.length ∧ (∀ c ∈ R, c.isSome = T.simple) ∧
      destruct T (A ++ ys.map some ++ E) A.length ys.length = some (A ++ R ++ E) := by
  rw [destruct]
  split_ifs with hs
  · exact ⟨ys.map some, by simp, by simp [hs], rfl⟩
  · exact ⟨List.replicate ys.length none, by simp, by simp [hs], destroyUp_eq ys A E⟩

theorem dealloc_eq {m : ℕ} {buf : Buf α} (hn : n = xs.length) (hb : Stores T buf.cells xs) :
    dealloc T ⟨n, m, buf⟩ = .ok () ⟨n, m, Buf.null⟩ := by
  obtain ⟨spare, hb, hspare⟩ := hb
  obtain ⟨R, -, hR, hdes⟩ := destruct_eq (T := T) xs [] spare
  have hrel : release T (R ++ spare) = some () := by
    rw [release, if_pos]
    by_cases h : T.simple = true
    · exact .inl h
    · refine .inr fun c hc => ?_
      have : c.isSome = T.simple := (List.mem_append.mp hc).elim (hR c) (hspare c)
      cases c <;> simp_all
  rw [List.nil_append, List.nil_append, List.length_nil, ← hb, ← hn] at hdes
  rw [dealloc, get_bind, access_bind hdes, access_bind hrel]
  rfl

theorem construct_eq {R : List (Option α)} (hR : ∀ c ∈ R, c.isSome = T.simple)
    (A E : List (Option α)) : ∃ ys : List α, ys.length = R.length ∧
      construct T (A ++ R ++ E) A.length R.length = some (A ++ ys.map some ++ E) := by
  rw [construct]
  split_ifs with hs
  · obtain ⟨ys, rfl⟩ := exists_eq_map_some fun c hc => (hR c hc).trans hs
    exact ⟨ys, by simp, rfl⟩
  · refine ⟨List.replicate R.length T.dflt, by simp, ?_⟩
    rw [List.map_replicate]
    refine fillUp_eq _ (fun c hc => ?_) T.dflt A E
    have := hR c hc
    cases c <;> simp_all

/-! ## Growing -/

/-- The vector after its elements have moved to a new block, with room for `n` elements. -/
def grown (P : Target) (T : ElemType α) (f : Fresh α) (v : Vec α) (xs : List α) (n : ℕ) : Vec α :=
  ⟨v.sze, P.goodSize n,
    ⟨f.block, xs.map some ++ (f.cells T (P.cells T (P.goodSize n))).drop xs.length⟩⟩

theorem copyNew_fresh (hv : Holds T v xs) (f : Fresh α) (hn : xs.length ≤ n) :
    copyNew T (f.cells T n) v.buf.cells v.sze =
      some (xs.map some ++ (f.cells T n).drop xs.length) := by
  rw [hv.sze]
  exact copyNew_eq hv.stores (by simpa using hn) fun c hc => Fresh.isSome_of_mem hc

theorem alloc_some (f : Fresh α) (n : ℕ) :
    alloc P T (some f) n = .ok ⟨f.block, f.cells T (P.cells T n)⟩ := rfl

theorem reserve_of_le (h : n ≤ v.res) (a : Option (Fresh α)) : reserve P T a n v = .ok () v := by
  rw [reserve, get_bind, if_neg (by omega)]
  rfl

theorem reserve_of_lt (hv : Holds T v xs) (f : Fresh α) (h : v.res < n)
    (hn : xs.length ≤ P.cells T (P.goodSize n)) :
    reserve P T (some f) n v = .ok () (grown P T f v xs n) := by
  rw [reserve, get_bind, if_pos h, lift_bind (alloc_some f _), access_bind (copyNew_fresh hv f hn)]
  exact bind_ok (dealloc_eq hv.sze hv.stores) _

theorem insGrow_of_le (h : P.wrap (v.sze + n) ≤ v.res) (a : Option (Fresh α)) :
    insGrow P T a n v = .ok () v := by
  rw [insGrow, get_bind, if_neg (by omega)]
  rfl

theorem insGrow_of_lt (hv : Holds T v xs) (f : Fresh α) (h : v.res < P.wrap (v.sze + n))
    (hn : xs.length ≤ P.cells T (P.goodSize (P.wrap (v.sze + n)))) :
    insGrow P T (some f) n v = .ok () (grown P T f v xs (P.wrap (v.sze + n))) := by
  rw [insGrow, get_bind, if_pos h, set_bind, lift_bind (alloc_some f _),
    access_bind (copyNew_fresh hv f hn)]
  exact bind_ok (dealloc_eq hv.sze hv.stores) _

theorem holds_grown (hv : Holds T v xs) (f : Fresh α)
    (hn : xs.length ≤ P.cells T (P.goodSize n))
    (hcells : P.cells T (P.goodSize n) = P.goodSize n) : Holds T (grown P T f v xs n) xs where
  sze := hv.sze
  res := by
    simp [grown, hcells] at hn ⊢
    omega
  stores := ⟨_, rfl, fun _ hc => Fresh.isSome_of_mem (List.mem_of_mem_drop hc)⟩

/-- What growing does under the conditions that make it safe. -/
theorem Fits.cells (hfit : Fits P T v n) (h : v.res < n) :
    P.cells T (P.goodSize n) = P.goodSize n ∧ n ≤ P.goodSize n := by
  rcases hfit with hle | ⟨hgood, hbytes⟩
  · omega
  · exact ⟨Target.cells_eq hbytes, hgood⟩

/-- A block that holds the elements and whose bytes can be counted is safe, if the capacity does
not matter. -/
theorem reserve_safe (hv : Holds T v xs) (f : Fresh α)
    (hn : v.res < n → xs.length ≤ P.goodSize n ∧ T.sizeof * P.goodSize n < 2 ^ P.size) :
    ∃ w, reserve P T (some f) n v = .ok () w ∧ Holds T w xs := by
  by_cases h : v.res < n
  · obtain ⟨hlen, hbytes⟩ := hn h
    have hcells := Target.cells_eq hbytes
    have hfits : xs.length ≤ P.cells T (P.goodSize n) := hcells.symm ▸ hlen
    exact ⟨_, reserve_of_lt hv f h hfits, holds_grown hv f hfits hcells⟩
  · exact ⟨v, reserve_of_le (by omega) _, hv⟩

theorem reserve_spec (hv : Holds T v xs) (hfit : Fits P T v n) (f : Fresh α) :
    ∃ w, reserve P T (some f) n v = .ok () w ∧ Holds T w xs ∧ n ≤ w.res := by
  by_cases h : v.res < n
  · obtain ⟨hcells, hgood⟩ := hfit.cells h
    have hn : xs.length ≤ P.cells T (P.goodSize n) := by have := hv.size_le; omega
    exact ⟨_, reserve_of_lt hv f h hn, holds_grown hv f hn hcells, hgood⟩
  · exact ⟨v, reserve_of_le (by omega) _, hv, by omega⟩

theorem insGrow_spec (hv : Holds T v xs) (hlen : xs.length + n < 2 ^ P.sizeType)
    (hfit : Fits P T v (xs.length + n)) (f : Fresh α) :
    ∃ w, insGrow P T (some f) n v = .ok () w ∧ Holds T w xs ∧ xs.length + n ≤ w.res ∧
      w.buf.block = if v.res < xs.length + n then f.block else v.buf.block := by
  have hwrap : P.wrap (v.sze + n) = xs.length + n := by
    rw [hv.sze, Target.wrap_eq hlen]
  by_cases h : v.res < xs.length + n
  · obtain ⟨hcells, hgood⟩ := hfit.cells h
    have hn : xs.length ≤ P.cells T (P.goodSize (xs.length + n)) := by omega
    rw [if_pos h]
    exact ⟨_, insGrow_of_lt hv f (hwrap ▸ h) (hwrap ▸ hn), holds_grown hv f (hwrap ▸ hn)
      (hwrap ▸ hcells), by rw [hwrap]; exact hgood, rfl⟩
  · rw [if_neg h]
    exact ⟨v, insGrow_of_le (by omega) _, hv, by omega, rfl⟩

/-! ## Opening a gap -/

/-- The gap holds what the moved elements left behind: old elements, and constructed cells. -/
theorem insShift_eq (hv : Holds T v xs) {p : ℕ} (hp : p ≤ xs.length)
    (hroom : xs.length + n ≤ v.res) (hwrap : P.wrap (xs.length + n) = xs.length + n) :
    ∃ zs w, zs.length = n ∧ insShift P T p n v = .ok () w ∧
      Holds T w (xs.take p ++ ((xs ++ zs).drop p).take n ++ xs.drop p) ∧
      w.buf.block = v.buf.block := by
  obtain ⟨spare, hb, hspare⟩ := hv.stores
  have hlen : xs.length + spare.length = v.res := by rw [← hv.res, hb]; simp
  -- the spare cells that become elements, and the rest
  obtain ⟨R, E, rfl, hR⟩ : ∃ R E, spare = R ++ E ∧ R.length = n :=
    ⟨spare.take n, spare.drop n, by simp, by simp; omega⟩
  obtain ⟨zs, hzs, hcon⟩ := construct_eq (T := T) (R := R) (fun c hc => hspare c (by simp [hc]))
    (xs.map some) E
  rw [List.append_assoc, ← hb, List.length_map, ← hv.sze, hR] at hcon
  obtain ⟨A, hA⟩ : ∃ A, A = (xs.take p).map some := ⟨_, rfl⟩
  obtain ⟨L, hL⟩ : ∃ L, L = xs.drop p ++ zs := ⟨_, rfl⟩
  have hAp : A.length = p := by simp [hA, hp]
  have hLlen : L.length = (xs.length - p) + n := by simp [hL, hzs, hR]
  have hsplit : xs.map some ++ zs.map some ++ E = A ++ L.map some ++ E := by
    have hxs : xs ++ zs = xs.take p ++ L := by rw [hL, ← List.append_assoc, List.take_append_drop]
    rw [← List.map_append, hxs, List.map_append, hA]
  have htake : L.take (xs.length - p) = xs.drop p := by
    rw [hL, List.take_append_of_le_length (by simp), List.take_of_length_le (by simp)]
  have hmove : (if T.simple then memmove (xs.map some ++ zs.map some ++ E) (p + n) p (v.sze - p)
      else copyBackward Option.isSome (p + n) p (xs.map some ++ zs.map some ++ E) (v.sze - p)) =
        some (A ++ (L.take n ++ xs.drop p).map some ++ E) := by
    rw [hsplit, hv.sze, ← htake]
    split_ifs
    · have h := memmove_up (L := L.map some) (by simpa using hLlen) A E
      rwa [hAp, ← List.map_take, ← List.map_take, ← List.map_append] at h
    · have h := copyBackward_eq Option.isSome (fun _ => rfl) hLlen A E
      rwa [hAp] at h
  have hdrop : (xs ++ zs).drop p = L := by rw [hL, List.drop_append_of_le_length hp]
  have hrun : insShift P T p n v = .ok () ⟨P.wrap (v.sze + n), v.res,
      ⟨v.buf.block, A ++ (L.take n ++ xs.drop p).map some ++ E⟩⟩ := by
    rw [insShift, get_bind, access_bind hcon, access_bind hmove]
    rfl
  rw [hv.sze, hwrap, hA, ← List.map_append, ← List.append_assoc] at hrun
  refine ⟨zs, _, hzs.trans hR, hrun, ?_, rfl⟩
  rw [hdrop]
  refine holds_mk ?_ ?_ (fun c hc => hspare c (by simp [hc]))
  · simp [hLlen]
    omega
  · simp [hLlen] at hlen ⊢
    omega

/-- The capacity and the block stay. -/
theorem insShift_ok {p : ℕ} {w : Vec α} {r : Unit} (h : insShift P T p n v = .ok r w) :
    w.sze = P.wrap (v.sze + n) ∧ w.res = v.res ∧ w.buf.block = v.buf.block := by
  rw [insShift, get_bind] at h
  obtain ⟨c, u, hc, h⟩ := bind_eq_ok.mp h
  obtain ⟨-, rfl⟩ := access_eq_ok.mp hc
  obtain ⟨c', u', hc', h⟩ := bind_eq_ok.mp h
  obtain ⟨-, rfl⟩ := access_eq_ok.mp hc'
  cases h
  exact ⟨rfl, rfl, rfl⟩

theorem ins_spec (hv : Holds T v xs) {p : ℕ} (hp : p ≤ xs.length)
    (hlen : xs.length + n < 2 ^ P.sizeType) (hfit : Fits P T v (xs.length + n)) (f : Fresh α) :
    ∃ zs w, zs.length = n ∧ ins P T (some f) p n v = .ok () w ∧
      Holds T w (xs.take p ++ ((xs ++ zs).drop p).take n ++ xs.drop p) ∧
      w.buf.block = if v.res < xs.length + n then f.block else v.buf.block := by
  obtain ⟨u, hu, hxs, hroom, hblock⟩ := insGrow_spec hv hlen hfit f
  obtain ⟨zs, w, hzs, hw, hys, hblock'⟩ := insShift_eq hxs hp hroom (Target.wrap_eq hlen)
  exact ⟨zs, w, hzs, by rw [ins, bind_ok hu, hw], hys, hblock'.trans hblock⟩

/-- As `ins_spec`, when it does not matter what the gap holds. -/
theorem ins_gap (hv : Holds T v xs) {p : ℕ} (hp : p ≤ xs.length)
    (hlen : xs.length + n < 2 ^ P.sizeType) (hfit : Fits P T v (xs.length + n)) (f : Fresh α) :
    ∃ (G : List α) (w : Vec α), G.length = n ∧ ins P T (some f) p n v = .ok () w ∧
      Holds T w (xs.take p ++ G ++ xs.drop p) := by
  obtain ⟨zs, w, hzs, hw, hgap, -⟩ := ins_spec hv hp hlen hfit f
  exact ⟨_, w, by simp [hzs]; omega, hw, hgap⟩

/-! ## Inserting -/

/-- The elements in the middle may be overwritten, whatever follows them. -/
theorem Holds.middle {A B C : List α} (hv : Holds T v (A ++ B ++ C)) :
    ∃ E, v.buf.cells = A.map some ++ B.map some ++ E ∧ ∀ B' : List α, B'.length = B.length →
      Holds T { v with buf := ⟨v.buf.block, A.map some ++ B'.map some ++ E⟩ } (A ++ B' ++ C) := by
  obtain ⟨spare, hb, hspare⟩ := hv.stores
  have hlen := hv.res
  refine ⟨C.map some ++ spare, by simp [hb], fun B' hB' => ?_⟩
  have hcells : A.map some ++ B'.map some ++ (C.map some ++ spare) =
      (A ++ B' ++ C).map some ++ spare := by simp
  rw [hcells]
  refine holds_mk ?_ ?_ hspare
  · simp [hv.sze, hB']
  · simp [hb, hB'] at hlen ⊢
    omega

theorem assignLoop_outside (x : α) (buf : Buf α) (i n : ℕ) :
    assignLoop (.outside x) buf i n =
      (fillUp Option.isSome x buf.cells i n).map fun c => { buf with cells := c } := by
  induction n generalizing buf i with
  | zero => rfl
  | succ n ih =>
    rw [assignLoop, fillUp]
    simp only [Ref.read, Option.bind_eq_bind, Option.bind_some]
    cases store Option.isSome buf.cells i x with
    | none => rfl
    | some c => simp only [Option.bind_some, ih]

/-- The single insert is the insert of one copy. -/
theorem insert_eq_insertFill (a : Option (Fresh α)) (p : ℕ) (t : Ref α) :
    insert P T a p t = insertFill P T a p 1 t := by
  rw [insert, insertFill]
  refine congrArg _ (funext fun _ => congrArg _ (funext fun v => funext fun w => ?_))
  cases hx : t.read v.buf with
  | none =>
    rw [access_bind_none rfl, access_bind_none (by simp [assignLoop, hx])]
  | some x =>
    rw [access_bind rfl]
    cases hc : store Option.isSome v.buf.cells p x with
    | none => rw [access_bind_none rfl, access_bind_none (by simp [assignLoop, hx, hc])]
    | some c =>
      have hloop : assignLoop t v.buf p 1 = some { v.buf with cells := c } := by
        simp [assignLoop, hx, hc]
      rw [access_bind rfl, access_bind hloop]

/-- Once the gap is open, its cells are overwritten. -/
theorem insertFill_of_ins {a : Option (Fresh α)} {u : Vec α} {G : List α} {p : ℕ}
    (hu : ins P T a p n v = .ok () u) (hG : G.length = n) (hp : p ≤ xs.length)
    (hgap : Holds T u (xs.take p ++ G ++ xs.drop p)) (x : α) :
    ∃ w, insertFill P T a p n (.outside x) v = .ok p w ∧
      Holds T w (xs.take p ++ List.replicate n x ++ xs.drop p) := by
  obtain ⟨E, hcells, hmid⟩ := hgap.middle
  have hA : ((xs.take p).map some).length = p := by simp [hp]
  have hfill := fillUp_eq Option.isSome (R := G.map some) (by simp) x
    ((xs.take p).map some) E
  rw [hA, List.length_map, hG, ← hcells, ← List.map_replicate] at hfill
  refine ⟨_, ?_, hmid (List.replicate n x) (by rw [List.length_replicate, hG])⟩
  rw [insertFill, bind_ok hu, get_bind, access_bind (by rw [assignLoop_outside, hfill]; rfl)]
  rfl

theorem insertFill_spec (hv : Holds T v xs) {p : ℕ} (hp : p ≤ xs.length)
    (hlen : xs.length + n < 2 ^ P.sizeType) (hfit : Fits P T v (xs.length + n)) (f : Fresh α)
    (x : α) : ∃ w, insertFill P T (some f) p n (.outside x) v = .ok p w ∧
      Holds T w (xs.take p ++ List.replicate n x ++ xs.drop p) := by
  obtain ⟨G, u, hG, hu, hgap⟩ := ins_gap hv hp hlen hfit f
  exact insertFill_of_ins hu hG hp hgap x

theorem insert_spec (hv : Holds T v xs) {p : ℕ} (hp : p ≤ xs.length)
    (hlen : xs.length + 1 < 2 ^ P.sizeType) (hfit : Fits P T v (xs.length + 1)) (f : Fresh α)
    (x : α) : ∃ w, insert P T (some f) p (.outside x) v = .ok p w ∧
      Holds T w (xs.take p ++ [x] ++ xs.drop p) := by
  rw [insert_eq_insertFill]
  exact insertFill_spec hv hp hlen hfit f x

theorem insertRange_spec (hv : Holds T v xs) {p : ℕ} (hp : p ≤ xs.length)
    {ys : List α} (hlen : xs.length + ys.length < 2 ^ P.sizeType)
    (hfit : Fits P T v (xs.length + ys.length)) (f : Fresh α) :
    ∃ w, insertRange P T (some f) p ys v = .ok p w ∧ Holds T w (xs.take p ++ ys ++ xs.drop p) := by
  obtain ⟨G, u, hG, hu, hgap⟩ := ins_gap hv hp hlen hfit f
  obtain ⟨E, hcells, hmid⟩ := hgap.middle
  have hA : ((xs.take p).map some).length = p := by simp [hp]
  have hlength : ys.length = (G.map some).length := by simp [hG]
  have hcopy := copyFrom_eq Option.isSome (by simp) hlength ((xs.take p).map some) E [] []
  rw [hA, List.length_map, hG, ← hcells, List.nil_append, List.append_nil,
    List.length_nil] at hcopy
  have hwrap : P.wrap ys.length = ys.length := Target.wrap_eq (by omega)
  refine ⟨_, ?_, hmid ys hG.symm⟩
  rw [insertRange, hwrap, bind_ok hu, get_bind, access_bind hcopy]
  rfl

/-! ## The other operations -/

/-- Once there is room, the element is constructed in the first spare cell. -/
theorem pushBack_of_reserve {a : Option (Fresh α)} {u : Vec α} (hsze : v.sze = xs.length)
    (hwrap : P.wrap (xs.length + 1) = xs.length + 1)
    (hu : reserve P T a (xs.length + 1) v = .ok () u) (hxs : Holds T u xs)
    (hroom : xs.length + 1 ≤ u.res) {t : Ref α} {x : α} (ht : t.read u.buf = some x) :
    ∃ w, pushBack P T a t v = .ok () w ∧ Holds T w (xs ++ [x]) := by
  obtain ⟨spare, hb, hspare⟩ := hxs.stores
  have hlen := hxs.res
  cases spare with
  | nil =>
    simp [hb] at hlen
    omega
  | cons c E =>
    have hstore := store_append (newable_of_spare (hspare c List.mem_cons_self)) (xs.map some) E x
    rw [List.length_map, ← hb, ← hxs.sze] at hstore
    refine ⟨⟨xs.length + 1, u.res, ⟨u.buf.block, (xs ++ [x]).map some ++ E⟩⟩, ?_,
      holds_mk (by simp) ?_ fun c' hc' => hspare c' (List.mem_cons_of_mem c hc')⟩
    · rw [pushBack, get_bind, hsze, hwrap, bind_ok hu, get_bind, access_bind ht,
        access_bind hstore, hxs.sze, hwrap, List.map_append, List.append_assoc]
      rfl
    · simp [hb] at hlen ⊢
      omega

theorem pushBack_spec (hv : Holds T v xs) (hlen : xs.length + 1 < 2 ^ P.sizeType)
    (hfit : Fits P T v (xs.length + 1)) (f : Fresh α) (x : α) :
    ∃ w, pushBack P T (some f) (.outside x) v = .ok () w ∧ Holds T w (xs ++ [x]) := by
  obtain ⟨u, hu, hxs, hroom⟩ := reserve_spec hv hfit f
  exact pushBack_of_reserve hv.sze (Target.wrap_eq hlen) hu hxs hroom rfl

/-- Without a growth the value may be any object that exists before the call. -/
theorem pushBack_roomy (hv : Holds T v xs) (hlen : xs.length + 1 < 2 ^ P.sizeType)
    (hroom : xs.length < v.res) (a : Option (Fresh α)) {t : Ref α} {x : α}
    (ht : t.read v.buf = some x) :
    ∃ w, pushBack P T a t v = .ok () w ∧ Holds T w (xs ++ [x]) :=
  pushBack_of_reserve hv.sze (Target.wrap_eq hlen) (reserve_of_le hroom a) hv hroom ht

theorem resize_simple (hs : T.simple = true) {a : Option (Fresh α)} {u : Vec α}
    (hu : reserve P T a n v = .ok () u) : resize P T a n v = .ok () { u with sze := n } := by
  rw [resize, bind_ok hu, get_bind, if_pos hs]
  rfl

/-- On the slow path one of the two loops brings the vector to its new size. -/
theorem resize_slow (hs : T.simple = false) {a : Option (Fresh α)} {u : Vec α}
    (hu : reserve P T a n v = .ok () u) (hsze : u.sze = xs.length) (hxs : Stores T u.buf.cells xs)
    (hroom : n ≤ u.buf.cells.length) :
    ∃ b, resize P T a n v = .ok () ⟨n, u.res, ⟨u.buf.block, b⟩⟩ ∧
      b.length = u.buf.cells.length ∧
      Stores T b (xs.take n ++ List.replicate (n - xs.length) T.dflt) := by
  obtain ⟨spare, hb, hspare⟩ := hxs
  rw [hb, List.length_append, List.length_map] at hroom
  rw [resize, bind_ok hu, get_bind, if_neg (by simp [hs]), hsze, hb]
  by_cases hn : n ≤ xs.length
  · have hfill : fillUp Option.isNone T.dflt (xs.map some ++ spare) xs.length (n - xs.length) =
        some ((xs.take n).map some ++ (xs.drop n).map some ++ spare) := by
      rw [Nat.sub_eq_zero_of_le hn, ← List.map_append, List.take_append_drop]
      rfl
    have hdes := destroyDown_eq (xs.drop n) ((xs.take n).map some) spare
    rw [List.length_map, List.length_take, Nat.min_eq_left hn, List.length_drop] at hdes
    refine ⟨(xs.take n).map some ++ List.replicate (xs.length - n) none ++ spare, ?_, ?_,
      List.replicate (xs.length - n) none ++ spare, ?_, fun c hc => ?_⟩
    · rw [access_bind hfill, access_bind hdes]
      rfl
    · simp
      omega
    · simp [Nat.sub_eq_zero_of_le hn]
    · rcases List.mem_append.mp hc with hc | hc
      · rw [List.eq_of_mem_replicate hc, hs]
        rfl
      · exact hspare c hc
  · obtain ⟨R, E, rfl, hR⟩ : ∃ R E, spare = R ++ E ∧ R.length = n - xs.length :=
      ⟨spare.take (n - xs.length), spare.drop (n - xs.length), by simp, by simp; omega⟩
    have hraw : ∀ c ∈ R, c.isNone = true := fun c hc => by
      have := (hspare c (by simp [hc])).trans hs
      cases c
      · rfl
      · cases this
    have hfill := fillUp_eq _ hraw T.dflt (xs.map some) E
    rw [List.length_map, hR, List.append_assoc, ← List.map_replicate] at hfill
    have hdes : ∀ c : List (Option α), destroyDown c n (xs.length - n) = some c := fun c => by
      rw [Nat.sub_eq_zero_of_le (by omega)]
      rfl
    refine ⟨xs.map some ++ (List.replicate (n - xs.length) T.dflt).map some ++ E, ?_, ?_, E, ?_,
      fun c hc => hspare c (by simp [hc])⟩
    · rw [access_bind hfill, access_bind (hdes _)]
      rfl
    · simp
      omega
    · rw [List.take_of_length_le (by omega), List.map_append]

/-- On both paths the old elements stay; what the new ones are depends on the path. -/
theorem resize_spec (hv : Holds T v xs) (hfit : Fits P T v n) (f : Fresh α) :
    ∃ w ys, resize P T (some f) n v = .ok () w ∧ Holds T w ys ∧ ys.length = n ∧
      xs.take n <+: ys := by
  obtain ⟨u, hu, hxs, hroom⟩ := reserve_spec hv hfit f
  cases hs : T.simple with
  | false =>
    obtain ⟨b, hw, hb, hys⟩ := resize_slow hs hu hxs.sze hxs.stores (hxs.res.symm ▸ hroom)
    exact ⟨_, _, hw, ⟨by simp; omega, hb.trans hxs.res, hys⟩, by simp; omega,
      List.prefix_append _ _⟩
  | true =>
    obtain ⟨spare, hb, hspare⟩ := hxs.stores
    obtain ⟨ys, rfl⟩ := exists_eq_map_some fun c hc => (hspare c hc).trans hs
    have hlen := hxs.res
    have hsplit : u.buf.cells =
        ((xs ++ ys).take n).map some ++ ((xs ++ ys).drop n).map some := by
      rw [← List.map_append, List.take_append_drop, List.map_append, hb]
    refine ⟨_, (xs ++ ys).take n, resize_simple hs hu, ?_, ?_, ?_⟩
    · refine ⟨?_, hlen, _, hsplit, fun c hc => ?_⟩
      swap
      · obtain ⟨x, -, rfl⟩ := List.mem_map.mp hc
        exact hs.symm
      simp [hb] at hlen ⊢
      omega
    · simp [hb] at hlen ⊢
      omega
    · rw [List.take_append]
      exact List.prefix_append _ _

theorem popBack_spec {x : α} (hv : Holds T v (xs ++ [x]))
    (hlen : xs.length < 2 ^ P.sizeType) :
    ∃ w, popBack P T v = .ok () w ∧ Holds T w xs := by
  obtain ⟨spare, hb, hspare⟩ := hv.stores
  have hres := hv.res
  obtain ⟨R, hRlen, hR, hdes⟩ := destruct_eq (T := T) [x] (xs.map some) spare
  rw [← List.map_append, ← hb, List.length_map, List.length_singleton] at hdes
  have hsze : P.wrap (v.sze + (2 ^ P.sizeType - 1)) = xs.length := by
    have hsum : v.sze + (2 ^ P.sizeType - 1) = xs.length + 2 ^ P.sizeType := by
      have := Nat.two_pow_pos P.sizeType
      simp [hv.sze]
      omega
    rw [hsum, Target.wrap, Nat.add_mod_right, Nat.mod_eq_of_lt hlen]
  refine ⟨⟨xs.length, v.res, ⟨v.buf.block, xs.map some ++ (R ++ spare)⟩⟩, ?_,
    holds_mk rfl ?_ fun c hc => (List.mem_append.mp hc).elim (hR c) (hspare c)⟩
  · rw [popBack, get_bind, hsze, access_bind hdes, List.append_assoc]
    rfl
  · simp [hb] at hres hRlen ⊢
    omega

theorem clear_spec (hv : Holds T v xs) : ∃ w, clear T v = .ok () w ∧ Holds T w [] := by
  obtain ⟨spare, hb, hspare⟩ := hv.stores
  have hlen := hv.res
  obtain ⟨R, hRlen, hR, hdes⟩ := destruct_eq (T := T) xs [] spare
  rw [List.nil_append, ← hb, List.length_nil, ← hv.sze, List.nil_append] at hdes
  refine ⟨⟨0, v.res, ⟨v.buf.block, ([] : List α).map some ++ (R ++ spare)⟩⟩, ?_,
    holds_mk rfl ?_ fun c hc => (List.mem_append.mp hc).elim (hR c) (hspare c)⟩
  · rw [clear, get_bind, access_bind hdes]
    rfl
  · simp [hb] at hlen hRlen ⊢
    omega

theorem eraseRange_spec (hv : Holds T v xs) (hlen : xs.length < 2 ^ P.sizeType) {p q : ℕ}
    (hpq : p ≤ q) (hq : q ≤ xs.length) :
    ∃ w, eraseRange P T p q v = .ok p w ∧ Holds T w (xs.take p ++ xs.drop q) := by
  obtain ⟨spare, hb, hspare⟩ := hv.stores
  have hres := hv.res
  obtain ⟨A, hA⟩ : ∃ A, A = (xs.take p).map some := ⟨_, rfl⟩
  obtain ⟨L, hL⟩ : ∃ L, L = xs.drop p := ⟨_, rfl⟩
  have hAp : A.length = p := by simp [hA]; omega
  have hLlen : L.length = (q - p) + (xs.length - q) := by simp [hL]; omega
  have hcells : v.buf.cells = A ++ L.map some ++ spare := by
    rw [hA, hL, ← List.map_append, List.take_append_drop, hb]
  have hLq : L.drop (q - p) = xs.drop q := by
    rw [hL, List.drop_drop, Nat.add_sub_cancel' hpq]
  have hpq' : A.length + (q - p) = q := by omega
  have hmove : (if T.simple then memmove v.buf.cells p q (v.sze - q)
      else copyForward Option.isSome v.buf.cells p q (v.sze - q)) =
        some (A ++ (xs.drop q ++ L.drop (xs.length - q)).map some ++ spare) := by
    rw [hcells, hv.sze, ← hLq]
    split_ifs
    · have h := memmove_down (L := L.map some) (by simpa using hLlen) A spare
      rwa [hpq', hAp, ← List.map_drop, ← List.map_drop, ← List.map_append] at h
    · have h := copyForward_eq Option.isSome (fun _ => rfl) hLlen A spare
      rwa [hpq', hAp] at h
  have hsze : P.wrap (v.sze + 2 ^ P.sizeType - (q - p)) = xs.length - (q - p) := by
    have hsum : v.sze + 2 ^ P.sizeType - (q - p) = xs.length - (q - p) + 2 ^ P.sizeType := by
      rw [hv.sze]
      omega
    rw [hsum, Target.wrap, Nat.add_mod_right, Nat.mod_eq_of_lt (by omega)]
  obtain ⟨R, hRlen, hR, hdes⟩ := destruct_eq (T := T) (L.drop (xs.length - q))
    ((xs.take p ++ xs.drop q).map some) spare
  have hbase : ((xs.take p ++ xs.drop q).map some).length = xs.length - (q - p) := by
    simp
    omega
  have htail : (L.drop (xs.length - q)).length = q - p := by
    rw [List.length_drop]
    omega
  rw [hbase, htail, List.map_append, ← hA, List.append_assoc A, ← List.map_append] at hdes
  refine ⟨⟨xs.length - (q - p), v.res, ⟨v.buf.block, (xs.take p ++ xs.drop q).map some ++
    (R ++ spare)⟩⟩, ?_, holds_mk (by simpa using hbase.symm) ?_
      fun c hc => (List.mem_append.mp hc).elim (hR c) (hspare c)⟩
  · rw [eraseRange, get_bind, access_bind hmove, hsze, access_bind hdes, List.map_append, ← hA]
    simp only [List.append_assoc]
    rfl
  · simp [hb] at hres hbase hRlen ⊢
    omega

theorem erase_spec (hv : Holds T v xs) (hlen : xs.length < 2 ^ P.sizeType) {p : ℕ}
    (hp : p ≤ xs.length) :
    ∃ w, erase P T p v = .ok p w ∧ Holds T w (xs.take p ++ xs.drop (p + 1)) := by
  by_cases h : p = xs.length
  · refine ⟨v, ?_, ?_⟩
    · rw [erase, get_bind, if_neg (by simp [hv.sze, h])]
      rfl
    · rwa [List.take_of_length_le h.ge, List.drop_eq_nil_of_le (by omega), List.append_nil]
  · obtain ⟨w, hw, hys⟩ := eraseRange_spec hv hlen (Nat.le_succ p) (by omega)
    refine ⟨w, ?_, hys⟩
    rw [erase, get_bind, if_pos (by simp [hv.sze, h]), bind_ok hw]
    rfl

/-! ## Construction, assignment and destruction -/

theorem holds_empty (T : ElemType α) : Holds T empty [] :=
  ⟨rfl, rfl, [], rfl, by simp⟩

theorem ofFill_spec (hn : T.sizeof * n < 2 ^ P.size) (f : Fresh α) (x : α) :
    ∃ w, ofFill P T (some f) n x = .ok w ∧ Holds T w (List.replicate n x) := by
  have hcells : P.cells T n = n := Target.cells_eq hn
  have hfill := fillDown_eq (newable T) (R := f.cells T n)
    (fun c hc => newable_of_spare (Fresh.isSome_of_mem hc)) x []
  rw [List.append_nil, Fresh.length_cells, List.append_nil, ← List.map_replicate] at hfill
  refine ⟨⟨n, n, ⟨f.block, (List.replicate n x).map some ++ []⟩⟩, ?_,
    holds_mk (by simp) (by simp) (by simp)⟩
  rw [ofFill, alloc_some, hcells]
  simp only [bind, Except.bind, hfill, access, List.append_nil]
  rfl

/-- The elements may lie anywhere in an array that is not changed. -/
theorem ofRange_spec (hwrap : P.wrap xs.length = xs.length)
    (hn : T.sizeof * xs.length < 2 ^ P.size) (f : Fresh α) (A B : List (Option α)) :
    ∃ w, ofRange P T (some f) (A ++ xs.map some ++ B) A.length xs.length = .ok w ∧
      Holds T w xs := by
  have hcells : P.cells T xs.length = xs.length := Target.cells_eq hn
  have hlen : xs.length = (f.cells T xs.length).length := by simp
  have hcopy := copyFrom_eq (newable T) (fun c hc => newable_of_spare (Fresh.isSome_of_mem hc)) hlen
    [] [] A B
  rw [List.nil_append, List.append_nil, Fresh.length_cells, List.append_nil, List.nil_append,
    List.length_nil] at hcopy
  refine ⟨⟨xs.length, xs.length, ⟨f.block, xs.map some ++ []⟩⟩, ?_,
    holds_mk (by simp) (by simp) (by simp)⟩
  rw [ofRange, hwrap, alloc_some, hcells]
  simp only [bind, Except.bind, hcopy, access, List.append_nil]
  rfl

theorem swapIn_spec (hv : Holds T v xs) (w : Vec α) : swapIn T w v = .ok ⟨⟩ w := by
  rw [swapIn]
  exact bind_ok (dealloc_eq hv.sze hv.stores) _

theorem assignFill_spec (hv : Holds T v xs) (hn : T.sizeof * n < 2 ^ P.size) (f : Fresh α)
    {t : Ref α} {x : α} (ht : t.read v.buf = some x) :
    ∃ w, assignFill P T (some f) n t v = .ok () w ∧ Holds T w (List.replicate n x) := by
  obtain ⟨w, hw, hys⟩ := ofFill_spec hn f x
  exact ⟨w, by rw [assignFill, get_bind, access_bind ht, lift_bind hw, swapIn_spec hv], hys⟩

theorem assignRange_spec (hv : Holds T v xs) {ys : List α}
    (hlen : ys.length < 2 ^ P.sizeType) (hn : T.sizeof * ys.length < 2 ^ P.size) (f : Fresh α)
    (A B : List (Option α)) :
    ∃ w, assignRange P T (some f) (A ++ ys.map some ++ B) A.length ys.length v = .ok () w ∧
      Holds T w ys := by
  obtain ⟨w, hw, hys⟩ := ofRange_spec (Target.wrap_eq hlen) hn f A B
  exact ⟨w, by rw [assignRange, lift_bind hw, swapIn_spec hv], hys⟩

theorem assignVec_spec (hv : Holds T v xs) {u : Vec α} {ys : List α}
    (hu : Holds T u ys) (hlen : ys.length < 2 ^ P.sizeType) (hn : T.sizeof * ys.length < 2 ^ P.size)
    (f : Fresh α) : ∃ w, assignVec P T (some f) u v = .ok () w ∧ Holds T w ys := by
  obtain ⟨spare, hb, -⟩ := hu.stores
  rw [assignVec, hb, hu.sze]
  exact assignRange_spec hv hlen hn f [] spare

end Members

end Libptytty.Simplevec
