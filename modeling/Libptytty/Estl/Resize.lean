import Mathlib
import Libptytty.Estl.Failure

/-!
# What `resize` exposes

On the slow path `resize` constructs `T ()` in every cell it adds. On the fast path it only moves
`sze`, so the new elements are whatever the cells hold: the remains of earlier elements, or the
bytes of a fresh block. `resizesTo_iff` says when these are `T ()`.
-/

namespace Libptytty.Simplevec

open Cells Machine

variable {α : Type} {P : Target} {T : ElemType α} {v w : Vec α} {xs : List α} {n : ℕ}

/-- The vector's size and first cells are those of the list. -/
def Shows (v : Vec α) (xs : List α) : Prop :=
  v.sze = xs.length ∧ v.buf.cells.take v.sze = xs.map some

/-- `resize (n)` keeps the first elements and adds copies of `T ()`. -/
def ResizesTo (P : Target) (T : ElemType α) (f : Fresh α) (v : Vec α) (xs : List α) (n : ℕ) :
    Prop :=
  ∃ w, resize P T (some f) n v = .ok () w ∧
    Shows w (xs.take n ++ List.replicate (n - xs.length) T.dflt)

/-- What the cell `i` holds when `resize (n)` has made room for `n` elements: as before the call, or
as in the fresh block. -/
def exposed (f : Fresh α) (v : Vec α) (n i : ℕ) : Option α :=
  if n ≤ v.res then Cells.read v.buf.cells i else some (f.fill i)

/-- There is room for `n` elements, or the block that growing to `n` asks for has it. -/
def HasRoom (P : Target) (T : ElemType α) (v : Vec α) (n : ℕ) : Prop :=
  n ≤ v.res ∨ n ≤ P.cells T (P.goodSize n)

/-! ## Without room -/

theorem reserve_fault (hv : Holds T v xs) (f : Fresh α) (h : v.res < n)
    (hn : P.cells T (P.goodSize n) < xs.length) :
    reserve P T (some f) n v = .error .fault v := by
  have hcopy : copyNew T (f.cells T (P.cells T (P.goodSize n))) v.buf.cells v.sze = none := by
    rw [copyNew, hv.sze]
    split_ifs
    · exact memcpy_eq_none (by simpa using hn)
    · exact copyFrom_eq_none (by omega) (by simpa using hn)
  rw [reserve, get_bind, if_pos h, lift_bind (alloc_some f _), access_bind_none hcopy]

theorem not_resizesTo (hv : Holds T v xs) (f : Fresh α) (h : ¬ HasRoom P T v n) :
    ¬ ResizesTo P T f v xs n := by
  obtain ⟨hres, hcells⟩ := not_or.mp h
  have hsize := hv.size_le
  rintro ⟨w, hw, hsze, hcont⟩
  by_cases hlt : P.cells T (P.goodSize n) < xs.length
  · rw [resize, bind_error (reserve_fault hv f (by omega) hlt)] at hw
    cases hw
  · have hu := reserve_of_lt (P := P) hv f (by omega : v.res < n) (by omega)
    have hlen : (grown P T f v xs n).buf.cells.length = P.cells T (P.goodSize n) := by
      simp [grown]
      omega
    cases hs : T.simple with
    | true =>
      rw [resize_simple hs hu] at hw
      cases hw
      have := congrArg List.length hcont
      simp only [List.length_take, List.length_map, hlen, ← hsze] at this
      simp only at hsze this
      omega
    | false =>
      have hfill : fillUp Option.isNone T.dflt (grown P T f v xs n).buf.cells
          (grown P T f v xs n).sze (n - (grown P T f v xs n).sze) = none := by
        have hgsze : (grown P T f v xs n).sze = xs.length := hv.sze
        rw [hgsze]
        exact fillUp_eq_none (by omega) (by omega)
      rw [resize, bind_ok hu, get_bind, if_neg (by simp [hs]), access_bind_none hfill] at hw
      cases hw

/-! ## With room -/

/-- The vector after `reserve`: the old elements, and the cells that `resize` may expose. -/
theorem reserve_exposed (hv : Holds T v xs) (f : Fresh α) (h : HasRoom P T v n) :
    ∃ u, reserve P T (some f) n v = .ok () u ∧ u.sze = xs.length ∧ Stores T u.buf.cells xs ∧
      n ≤ u.buf.cells.length ∧ (T.simple = true → ∀ i, xs.length ≤ i → i < n →
        u.buf.cells[i]? = some (exposed f v n i)) := by
  by_cases hres : n ≤ v.res
  · refine ⟨v, reserve_of_le hres _, hv.sze, hv.stores, hv.res.symm ▸ hres, fun _ i _ hi => ?_⟩
    rw [exposed, if_pos hres, getElem?_eq_read (by rw [hv.res]; omega)]
  · have hcells := h.resolve_left hres
    have hsize := hv.size_le
    refine ⟨_, reserve_of_lt hv f (by omega) (by omega), hv.sze, ?_, ?_, fun hs i hi hin => ?_⟩
    · exact ⟨_, rfl, fun _ hc => Fresh.isSome_of_mem (List.mem_of_mem_drop hc)⟩
    · simp [grown]
      omega
    · rw [exposed, if_neg hres, grown, List.getElem?_append_right (by simpa using hi),
        List.length_map, List.getElem?_drop, Nat.add_sub_cancel' hi]
      have hi' : i < P.cells T (P.goodSize n) := by omega
      simp [Fresh.cells, hs, hi']

/-- **What `resize` adds**, exactly: the new elements are `T ()` on the slow path, and on the fast
path if the exposed cells happen to hold it; in either case there has to be room for them. -/
theorem resizesTo_iff (hv : Holds T v xs) (f : Fresh α) (n : ℕ) :
    ResizesTo P T f v xs n ↔ HasRoom P T v n ∧
      (T.simple = false ∨ ∀ i, xs.length ≤ i → i < n → exposed f v n i = some T.dflt) := by
  by_cases hroom : HasRoom P T v n
  swap
  · exact ⟨fun h => absurd h (not_resizesTo hv f hroom), fun h => absurd h.1 hroom⟩
  obtain ⟨u, hu, hsze, hxs, hlen, hexp⟩ := reserve_exposed hv f hroom
  simp only [hroom, true_and]
  cases hs : T.simple with
  | false =>
    obtain ⟨b, hw, hb, hys⟩ := resize_slow hs hu hsze hxs hlen
    obtain ⟨spare, rfl, -⟩ := hys
    have hn : n = ((xs.take n ++ List.replicate (n - xs.length) T.dflt).map some).length := by
      simp
      omega
    refine ⟨fun _ => .inl rfl, fun _ => ⟨_, hw, by simpa using hn, ?_⟩⟩
    exact List.take_left' hn.symm
  | true =>
    have hiff : ResizesTo P T f v xs n ↔ Shows { u with sze := n }
        (xs.take n ++ List.replicate (n - xs.length) T.dflt) := by
      rw [ResizesTo, resize_simple hs hu]
      constructor
      · rintro ⟨w, hw, h⟩
        cases hw
        exact h
      · exact fun h => ⟨_, rfl, h⟩
    obtain ⟨spare, hb, -⟩ := hxs
    have hsize : n = (xs.take n ++ List.replicate (n - xs.length) T.dflt).length := by
      simp
      omega
    rw [hiff, Shows, and_iff_right hsize]
    simp only [reduceCtorEq, false_or]
    constructor
    · intro h i hi hin
      have hcell := congrArg (·[i]?) h
      have hexp := hexp hs i hi hin
      simp only [List.getElem?_take_of_lt hin, hexp, List.getElem?_map] at hcell
      rw [List.getElem?_append_right (by simp; omega),
        List.getElem?_replicate_of_lt (by simp; omega)]
        at hcell
      simpa using hcell
    · intro h
      refine List.ext_getElem? fun i => ?_
      by_cases hin : i < n
      · rw [List.getElem?_take_of_lt hin, List.getElem?_map]
        by_cases hi : i < xs.length
        · rw [hb, List.getElem?_append_left (by simpa using hi), List.getElem?_map,
            List.getElem?_append_left (by simp; omega), List.getElem?_take_of_lt hin]
        · rw [hexp hs i (by omega) hin, h i (by omega) hin,
            List.getElem?_append_right (by simp; omega),
            List.getElem?_replicate_of_lt (by simp; omega)]
          rfl
      · rw [List.getElem?_eq_none (by simp; omega), List.getElem?_eq_none (by simp; omega)]

theorem resizesTo_iff_pair : ResizesTo lp64 podElem (zeroed 2) pair [7, 8] 3 ↔
    HasRoom lp64 podElem pair 3 ∧ (podElem.simple = false ∨
      ∀ i, [7, 8].length ≤ i → i < 3 → exposed (zeroed 2) pair 3 i = some podElem.dflt) :=
  resizesTo_iff holds_pair (zeroed 2) 3

/-- The property for the vectors that valid and fair operations lead to. -/
def ResizeAgrees (P : Target) (T : ElemType α) : Prop :=
  ∀ (ops : List (Op α)) (V : ℕ → Option (Vec α)) (r : Option ℕ) (k : ℕ) (v : Vec α) (n : ℕ)
    (f : Fresh α), Along (step P T) (fun s op => op.Valid P s ∧ op.Fair P T s) World.init ops →
    run (step P T) World.init ops = some (.running V r) → V k = some v → n ≤ P.maxSize →
    Fits P T v n → ResizesTo P T f v v.toList n

/-- With objects of `struct { int x; }`, `push_back (1)`, `pop_back ()`, `resize (1)` brings the 1
back. -/
theorem not_resizeAgrees : ¬ ResizeAgrees lp64 podElem := by
  intro h
  have hops : Along (step lp64 podElem) (fun s op => op.Valid lp64 s ∧ op.Fair lp64 podElem s)
      World.init [.make 0 .empty (zeroed 1), .call 0 (.pushBack (.outside 1)) (zeroed 2),
        .call 0 .popBack (zeroed 3)] := by
    refine along_cons_of_step ⟨⟨rfl, trivial⟩, trivial⟩ rfl ?_
    refine along_cons_of_step ⟨⟨_, rfl, trivial, by decide⟩, ?_⟩ rfl ?_
    · rintro v ⟨⟩
      exact ⟨.inr (by decide), .inl trivial⟩
    refine ⟨⟨⟨_, rfl, List.cons_ne_nil 1 []⟩, ?_⟩, fun _ _ => trivial⟩
    rintro v ⟨⟩
    trivial
  obtain ⟨w, hw, -, hcont⟩ := h _ _ _ 0 _ 1 (zeroed 4) hops rfl rfl (by decide) (.inl (by decide))
  cases hw
  exact absurd hcont (by decide)

end Libptytty.Simplevec
