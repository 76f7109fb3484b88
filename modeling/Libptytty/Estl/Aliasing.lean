import Mathlib
import Libptytty.Estl.Failure

/-!
# Inserting a vector's own element

`push_back` and the inserts take the value by reference and read it after the elements have moved.
When the buffer grows, the reference points into the released block; when it does not, it points to
a cell that may hold another element by then. `insertFill_own` reduces the second case to the
insert of an outside value, and `keepsValue_iff` says exactly when that is the right one.
-/

namespace Libptytty.Simplevec

open Cells

variable {α : Type} {P : Target} {T : ElemType α} {v w : Vec α} {xs : List α} {n p j : ℕ}

/-! ## Reading through the reference -/

theorem Ref.read_own (buf : Buf α) (j : ℕ) :
    (Ref.own buf.block j).read buf = Cells.read buf.cells j :=
  if_pos rfl

theorem Ref.read_released {block : ℕ} {buf : Buf α} (h : buf.block ≠ block) (j : ℕ) :
    (Ref.own block j).read buf = none :=
  if_neg h

/-- The loop of `insert` reads the same value in every round. -/
theorem assignLoop_own {buf : Buf α} {y : α} (hy : Cells.read buf.cells j = some y) (i n : ℕ) :
    assignLoop (.own buf.block j) buf i n = assignLoop (.outside y) buf i n := by
  induction n generalizing buf i with
  | zero => rfl
  | succ n ih =>
    have hread : (Ref.own buf.block j).read buf = some y := (Ref.read_own buf j).trans hy
    rw [assignLoop, assignLoop, hread]
    cases hc : store Option.isSome buf.cells i y with
    | none => simp [Ref.read, hc]
    | some c =>
      simp only [Ref.read, Option.bind_eq_bind, Option.bind_some, hc]
      have hy' : Cells.read c j = some y := by
        rw [read_store hc, hy, ite_self]
      exact @ih ⟨buf.block, c⟩ hy' (i + 1)

/-! ## Without growth -/

/-- An insert of an element is the insert of the value that its cell holds once the gap is open. -/
theorem insertFill_own {a : Option (Fresh α)} {u : Vec α} {y : α}
    (hu : ins P T a p n v = .ok () u) (hy : Cells.read u.buf.cells j = some y) :
    insertFill P T a p n (.own u.buf.block j) v = insertFill P T a p n (.outside y) v := by
  rw [insertFill, insertFill, bind_ok hu, bind_ok hu, get_bind, get_bind, assignLoop_own hy]

/-- Where the element `j` is looked for, once a gap of `n` has been opened at `p`. -/
theorem gap_getElem? {zs : List α} (hzs : zs.length = n) (hp : p ≤ xs.length)
    (hj : j < xs.length) :
    (xs.take p ++ ((xs ++ zs).drop p).take n ++ xs.drop p)[j]? =
      if j < p + n then xs[j]? else xs[j - n]? := by
  have htake : xs.take p ++ ((xs ++ zs).drop p).take n = (xs ++ zs).take (p + n) := by
    rw [List.take_add, List.take_append_of_le_length hp]
  have hlen : ((xs ++ zs).take (p + n)).length = p + n := by simp [hzs]; omega
  rw [htake]
  split_ifs with h
  · rw [List.getElem?_append_left (by omega), List.getElem?_take_of_lt h,
      List.getElem?_append_left hj]
  · rw [List.getElem?_append_right (by omega), hlen, List.getElem?_drop]
    congr 1
    omega

/-! ## The three operations -/

/-- `push_back (t)`, `insert (p, t)` and `insert (p, n, t)`. -/
inductive Insertion
  | back
  | one (p : ℕ)
  | fill (p n : ℕ)

namespace Insertion

def call (t : Ref α) : Insertion → Call α
  | back => .pushBack t
  | one p => .insert p t
  | fill p n => .insertFill p n t

/-- Where the copies go. -/
def place (xs : List α) : Insertion → ℕ
  | back => xs.length
  | one p | fill p _ => p

def count : Insertion → ℕ
  | back | one _ => 1
  | fill _ n => n

/-- The list with `x` inserted. -/
def result (xs : List α) (x : α) (i : Insertion) : List α :=
  xs.take (i.place xs) ++ List.replicate i.count x ++ xs.drop (i.place xs)

end Insertion

/-- Inserting the element `j` of the vector inserts the value that it had before the call. -/
def KeepsValue (P : Target) (T : ElemType α) (f : Fresh α) (v : Vec α) (xs : List α) (j : ℕ)
    (i : Insertion) : Prop :=
  ∃ x w r, xs[j]? = some x ∧ (i.call (.own v.buf.block j)).run P T (some f) v = .ok r w ∧
    Holds T w (i.result xs x)

theorem Holds.unique {ys : List α} (h : Holds T v xs) (h' : Holds T v ys) : xs = ys :=
  h.toList_eq.symm.trans h'.toList_eq

/-! ## With growth -/

theorem dealloc_ok {r : Unit} (h : dealloc T v = .ok r w) : w = { v with buf := Buf.null } := by
  rw [dealloc, get_bind] at h
  obtain ⟨b, u, hb, h⟩ := bind_eq_ok.mp h
  obtain ⟨-, rfl⟩ := access_eq_ok.mp hb
  obtain ⟨b', u', hb', h⟩ := bind_eq_ok.mp h
  obtain ⟨-, rfl⟩ := access_eq_ok.mp hb'
  cases h
  rfl

/-- The end of a growth: the elements are copied, and the new block takes the place of the old. -/
theorem move_ok {o : Option β} {g : β → Vec α → Vec α} {r : Unit}
    (h : (do
      let c ← access o
      dealloc T
      modify (g c) : VecM α Unit) v = .ok r w) :
    ∃ c, w = g c { v with buf := Buf.null } := by
  obtain ⟨c, u, hc, h⟩ := bind_eq_ok.mp h
  obtain ⟨-, rfl⟩ := access_eq_ok.mp hc
  obtain ⟨r', u', hd, h⟩ := bind_eq_ok.mp h
  cases h
  exact ⟨c, congrArg (g c) (dealloc_ok hd)⟩

/-- A vector that grows moves to the new block. -/
theorem reserve_ok {f : Fresh α} {r : Unit} (h : reserve P T (some f) n v = .ok r w) :
    w.sze = v.sze ∧ (v.res < n → w.buf.block = f.block) := by
  by_cases hgrow : v.res < n
  · rw [reserve, get_bind, if_pos hgrow, lift_bind (alloc_some f _)] at h
    obtain ⟨c, rfl⟩ := move_ok h
    exact ⟨rfl, fun _ => rfl⟩
  · rw [reserve_of_le (by omega)] at h
    cases h
    exact ⟨rfl, fun h => absurd h hgrow⟩

theorem insGrow_ok {f : Fresh α} {r : Unit} (h : insGrow P T (some f) n v = .ok r w) :
    w.sze = v.sze ∧ (v.res < P.wrap (v.sze + n) → w.buf.block = f.block) := by
  by_cases hgrow : v.res < P.wrap (v.sze + n)
  · rw [insGrow, get_bind, if_pos hgrow, set_bind, lift_bind (alloc_some f _)] at h
    obtain ⟨c, rfl⟩ := move_ok h
    exact ⟨rfl, fun _ => rfl⟩
  · rw [insGrow_of_le (by omega)] at h
    cases h
    exact ⟨rfl, fun h => absurd h hgrow⟩

/-- An insert that grows reads its value after the old block has been released. -/
theorem insertFill_ok {f : Fresh α} {t : Ref α} {r : ℕ}
    (h : insertFill P T (some f) p n t v = .ok r w) :
    w.sze = P.wrap (v.sze + n) ∧ (n ≠ 0 → v.res < P.wrap (v.sze + n) →
      ∃ buf : Buf α, buf.block = f.block ∧ t.read buf ≠ none) := by
  rw [insertFill, ins, bind_assoc] at h
  obtain ⟨_, u, hu, h⟩ := bind_eq_ok.mp h
  obtain ⟨_, u', hu', h⟩ := bind_eq_ok.mp h
  rw [get_bind] at h
  obtain ⟨b, u'', hb, h⟩ := bind_eq_ok.mp h
  obtain ⟨hloop, rfl⟩ := access_eq_ok.mp hb
  obtain ⟨hsze, hblock⟩ := insGrow_ok hu
  obtain ⟨hsze', -, hblock'⟩ := insShift_ok hu'
  cases h
  refine ⟨hsze'.trans (by rw [hsze]), fun hn hgrow => ⟨u'.buf, hblock'.trans (hblock hgrow), ?_⟩⟩
  intro hnone
  obtain ⟨m, rfl⟩ := Nat.exists_eq_succ_of_ne_zero hn
  rw [assignLoop, hnone] at hloop
  cases hloop

/-! ## The three operations, exactly -/

/-- Without room the value is not kept: the buffer grows, or the length is cut to a `size_type`. -/
theorem keepsValue_fill (hv : Holds T v xs) (hj : j < xs.length) (hp : p ≤ xs.length)
    (hres : v.res < 2 ^ P.sizeType) {f : Fresh α} (hf : f.block ≠ v.buf.block) :
    KeepsValue P T f v xs j (.fill p n) ↔
      n = 0 ∨ xs.length + n ≤ v.res ∧ (j < p + n ∨ xs[j - n]? = xs[j]?) := by
  have hsize := hv.size_le
  by_cases hroom : xs.length + n ≤ v.res
  · have hwrap : P.wrap (xs.length + n) = xs.length + n := Nat.mod_eq_of_lt (by omega)
    obtain ⟨zs, u, hzs, hshift, hgap, hblock⟩ := insShift_eq hv hp hroom hwrap
    have hu : ins P T (some f) p n v = .ok () u := by
      rw [ins, bind_ok (insGrow_of_le (by rw [hv.sze, hwrap]; exact hroom) _), hshift]
    have hjL : j < (xs.take p ++ ((xs ++ zs).drop p).take n ++ xs.drop p).length := by
      simp [hzs]
      omega
    have hy := gap_getElem? hzs hp hj
    rw [List.getElem?_eq_getElem hjL] at hy
    have hread := hgap.read j hjL
    generalize (xs.take p ++ ((xs ++ zs).drop p).take n ++ xs.drop p)[j] = y at hy hread
    obtain ⟨w, hw, hys⟩ := insertFill_of_ins hu (by simp [hzs]; omega) hp hgap y
    have hown : insertFill P T (some f) p n (.own v.buf.block j) v = .ok p w := by
      rw [← hblock, insertFill_own hu hread, hw]
    have hkeeps : KeepsValue P T f v xs j (.fill p n) ↔ n = 0 ∨ xs[j]? = some y := by
      constructor
      · rintro ⟨x, w', r, hx, hrun, hw'⟩
        rw [Insertion.call, Call.run, bind_ok hown] at hrun
        cases hrun
        have heq := List.append_cancel_left (List.append_cancel_right (hys.unique hw'))
        rcases (List.replicate_inj.mp heq).2 with h0 | rfl
        · exact .inl h0
        · exact .inr hx
      · intro h
        refine ⟨xs[j], w, some p, List.getElem?_eq_getElem hj, bind_ok hown _, ?_⟩
        rcases h with rfl | hx
        · exact hys
        · rw [List.getElem?_eq_getElem hj] at hx
          cases hx
          exact hys
    rw [hkeeps, hy]
    by_cases h : j < p + n
    · simp [h, hroom]
    · simp [h, hroom, eq_comm]
  · have hn : n ≠ 0 := by omega
    refine ⟨?_, by omega⟩
    rintro ⟨x, w, r, -, hrun, hw⟩
    rw [Insertion.call, Call.run] at hrun
    obtain ⟨q, u, hfill, hrun⟩ := bind_eq_ok.mp hrun
    cases hrun
    obtain ⟨hsze, hread⟩ := insertFill_ok hfill
    have hlen : P.wrap (v.sze + n) = xs.length + n := by
      rw [← hsze, hw.sze]
      simp [Insertion.result, Insertion.place, Insertion.count]
      omega
    obtain ⟨buf, hblock, hsome⟩ := hread hn (by omega)
    exact absurd (Ref.read_released (by rwa [hblock]) j) hsome

theorem keepsValue_back (hv : Holds T v xs) (hj : j < xs.length) (hres : v.res < 2 ^ P.sizeType)
    {f : Fresh α} (hf : f.block ≠ v.buf.block) :
    KeepsValue P T f v xs j .back ↔ xs.length + 1 ≤ v.res := by
  by_cases hroom : xs.length + 1 ≤ v.res
  · have hwrap : P.wrap (xs.length + 1) = xs.length + 1 := Nat.mod_eq_of_lt (by omega)
    have hread : (Ref.own v.buf.block j).read v.buf = some xs[j] :=
      (Ref.read_own v.buf j).trans (hv.read j hj)
    obtain ⟨w, hw, hys⟩ := pushBack_of_reserve (P := P) hv.sze hwrap
      (reserve_of_le hroom (some f)) hv hroom hread
    refine ⟨fun _ => hroom, fun _ =>
      ⟨xs[j], w, none, List.getElem?_eq_getElem hj, bind_ok hw _, ?_⟩⟩
    simpa [Insertion.result, Insertion.place, Insertion.count] using hys
  · refine ⟨?_, fun h => absurd h hroom⟩
    rintro ⟨x, w, r, -, hrun, hw⟩
    rw [Insertion.call, Call.run] at hrun
    obtain ⟨q, u, hpush, hrun⟩ := bind_eq_ok.mp hrun
    cases hrun
    rw [pushBack, get_bind] at hpush
    obtain ⟨_, u, hu, hpush⟩ := bind_eq_ok.mp hpush
    obtain ⟨hsze, hblock⟩ := reserve_ok hu
    rw [get_bind] at hpush
    obtain ⟨y, u', hread, hpush⟩ := bind_eq_ok.mp hpush
    obtain ⟨hsome, rfl⟩ := access_eq_ok.mp hread
    obtain ⟨c, u'', hc, hpush⟩ := bind_eq_ok.mp hpush
    cases hpush
    have hlen : P.wrap (v.sze + 1) = xs.length + 1 := by
      rw [← hsze]
      have := hw.sze
      simp [Insertion.result, Insertion.place, Insertion.count] at this
      exact this
    rw [Ref.read_released (by rwa [hblock (by omega)]) j] at hsome
    cases hsome

/-- **Inserting a vector's own element**, exactly: the value it had before the call is inserted if
nothing is inserted at all, or if the spare capacity suffices and the cell of the element holds the
same value after the elements behind the position have moved up. -/
theorem keepsValue_iff (hv : Holds T v xs) (hj : j < xs.length) {i : Insertion}
    (hi : i.place xs ≤ xs.length) (hres : v.res < 2 ^ P.sizeType) {f : Fresh α}
    (hf : f.block ≠ v.buf.block) :
    KeepsValue P T f v xs j i ↔ i.count = 0 ∨ xs.length + i.count ≤ v.res ∧
      (j < i.place xs + i.count ∨ xs[j - i.count]? = xs[j]?) := by
  cases i with
  | back =>
    rw [keepsValue_back hv hj hres hf]
    simp only [Insertion.count, Insertion.place]
    omega
  | one p =>
    have hone : KeepsValue P T f v xs j (.one p) ↔ KeepsValue P T f v xs j (.fill p 1) := by
      simp only [KeepsValue, Insertion.call, Insertion.result, Insertion.place, Insertion.count,
        Call.run, insert_eq_insertFill]
    rw [hone]
    exact keepsValue_fill hv hj hi hres hf
  | fill p n => exact keepsValue_fill hv hj hi hres hf

/-! ## Examples -/

/-- The pair with room for two more. -/
def roomy : Vec ℕ := ⟨2, 4, ⟨1, [some 7, some 8, some 0, some 0]⟩⟩

theorem holds_roomy : Holds podElem roomy [7, 8] :=
  ⟨rfl, rfl, [some 0, some 0], rfl, by decide⟩

theorem keepsValue_iff_roomy : KeepsValue lp64 podElem (zeroed 2) roomy [7, 8] 1 (.one 0) ↔
    1 = 0 ∨ 2 + 1 ≤ 4 ∧ (1 < 0 + 1 ∨ [7, 8][1 - 1]? = [7, 8][1]?) :=
  keepsValue_iff (P := lp64) holds_roomy (by decide) (i := .one 0) (by decide) (by decide)
    (by decide)

/-- The result without the condition. -/
def OwnElements (P : Target) (T : ElemType α) : Prop :=
  ∀ (v : Vec α) (xs : List α) (j : ℕ) (i : Insertion) (f : Fresh α), Holds T v xs →
    j < xs.length → i.place xs ≤ xs.length → v.res < 2 ^ P.sizeType → f.block ≠ v.buf.block →
      KeepsValue P T f v xs j i

/-- Inserting the second of two elements in front inserts the first one; adding the first of a full
buffer's elements at the end reads released memory. -/
theorem not_ownElements : ¬ OwnElements lp64 podElem ∧
    (∃ w, insert lp64 podElem none 0 (.own 1 1) roomy = .ok 0 w ∧ w.toList = [7, 7, 8]) ∧
    ∃ w, pushBack lp64 podElem (some (zeroed 2)) (.own 1 0) pair = .error .fault w := by
  refine ⟨fun h => ?_, ⟨_, rfl, rfl⟩, _, rfl⟩
  obtain ⟨x, w, r, -, hrun, -⟩ := h pair [7, 8] 0 .back (zeroed 2) holds_pair (by decide) le_rfl
    (by decide) (by decide)
  cases hrun

end Libptytty.Simplevec
