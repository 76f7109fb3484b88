import Mathlib
import Libptytty.Lib.Machine
import Libptytty.Estl.Contents

/-!
# Vectors are lists

A world holds any number of vectors, and an operation constructs one, calls a member function of
one, swaps or assigns two of them, or destroys one. `Op.Refines` says what the operation does to
the lists the vectors stand for. `refines_lists` is the result: as long as the vectors stay within
`max_size ()`, no operation makes an access it may not make, the vectors stay well formed, and each
operation does to the lists what it should, on the fast and on the slow path.

What the code does not check is a condition here (`Call.Fair`): a block that is asked for has to be
expressible, as a `size_type` and in bytes as a `size_t`, and an element that `push_back` gets from
the vector itself must not be moved by a growth.
-/

namespace Libptytty.Simplevec

open Cells Machine

variable {α : Type}

/-! ## Calls on one vector -/

/-- A range of elements: in an array that is not the vector's, or `n` cells of a block. -/
inductive Span (α : Type)
  | outside (xs : List α)
  | own (block i n : ℕ)

inductive Call (α : Type)
  | pushBack (t : Ref α)
  | popBack
  | insert (p : ℕ) (t : Ref α)
  | insertRange (p : ℕ) (xs : List α)
  | insertFill (p n : ℕ) (t : Ref α)
  | erase (p : ℕ)
  | eraseRange (p q : ℕ)
  | reserve (n : ℕ)
  | resize (n : ℕ)
  | clear
  | assignRange (s : Span α)
  | assignFill (n : ℕ) (t : Ref α)

namespace Span

/-- The array, the first index and the number of elements. -/
def source (v : Vec α) : Span α → List (Option α) × ℕ × ℕ
  | .outside xs => (xs.map some, 0, xs.length)
  | .own block i n => (if v.buf.block = block then v.buf.cells else [], i, n)

/-- The elements, for a vector that holds `xs`. -/
def value (xs : List α) : Span α → List α
  | .outside ys => ys
  | .own _ i n => (xs.drop i).take n

/-- The range lies outside the vector, or among its elements. -/
def Within (v : Vec α) (xs : List α) : Span α → Prop
  | .outside _ => True
  | .own block i n => block = v.buf.block ∧ i + n ≤ xs.length

end Span

namespace Ref

/-- The object the reference denotes, for a vector that holds `xs`. -/
def value (xs : List α) : Ref α → Option α
  | .outside x => some x
  | .own _ i => xs[i]?

/-- The object is outside the vector, or one of its elements. -/
def Within (v : Vec α) (xs : List α) : Ref α → Prop
  | .outside _ => True
  | .own block i => block = v.buf.block ∧ i < xs.length

def Outside : Ref α → Prop
  | .outside _ => True
  | .own _ _ => False

end Ref

namespace Call

/-- The call; the result is the index of the iterator it returns, if it returns one. -/
def run (P : Target) (T : ElemType α) (a : Option (Fresh α)) : Call α → VecM α (Option ℕ)
  | .pushBack t => do Simplevec.pushBack P T a t; return none
  | .popBack => do Simplevec.popBack P T; return none
  | .insert p t => do return some (← Simplevec.insert P T a p t)
  | .insertRange p xs => do return some (← Simplevec.insertRange P T a p xs)
  | .insertFill p n t => do return some (← Simplevec.insertFill P T a p n t)
  | .erase p => do return some (← Simplevec.erase P T p)
  | .eraseRange p q => do return some (← Simplevec.eraseRange P T p q)
  | .reserve n => do Simplevec.reserve P T a n; return none
  | .resize n => do Simplevec.resize P T a n; return none
  | .clear => do Simplevec.clear T; return none
  | .assignRange s => do
    let v ← get
    let (src, i, n) := s.source v
    Simplevec.assignRange P T a src i n
    return none
  | .assignFill n t => do Simplevec.assignFill P T a n t; return none

/-- What the call does to the list. The elements that `resize` adds are not determined. -/
def Yields (xs ys : List α) : Call α → Prop
  | .pushBack t => ∃ x ∈ t.value xs, ys = xs ++ [x]
  | .popBack => ys = xs.dropLast
  | .insert p t => ∃ x ∈ t.value xs, ys = xs.take p ++ [x] ++ xs.drop p
  | .insertRange p zs => ys = xs.take p ++ zs ++ xs.drop p
  | .insertFill p n t => ∃ x ∈ t.value xs, ys = xs.take p ++ List.replicate n x ++ xs.drop p
  | .erase p => ys = xs.eraseIdx p
  | .eraseRange p q => ys = xs.take p ++ xs.drop q
  | .reserve _ => ys = xs
  | .resize n => ys.length = n ∧ xs.take n <+: ys
  | .clear => ys = []
  | .assignRange s => ys = s.value xs
  | .assignFill n t => ∃ x ∈ t.value xs, ys = List.replicate n x

/-- The iterators that `insert` and `erase` return. -/
def returns : Call α → Option ℕ
  | .insert p _ | .insertRange p _ | .insertFill p _ _ | .erase p | .eraseRange p _ => some p
  | _ => none

/-- What the callers owe: positions are valid, values and ranges exist, and are outside the vector
for the inserts; the length stays within `max_size ()`, and an argument is a `size_type`. -/
def Valid (P : Target) (v : Vec α) (xs : List α) : Call α → Prop
  | .pushBack t => t.Within v xs ∧ xs.length + 1 ≤ P.maxSize
  | .popBack => xs ≠ []
  | .insert p t => p ≤ xs.length ∧ t.Outside ∧ xs.length + 1 ≤ P.maxSize
  | .insertRange p zs => p ≤ xs.length ∧ xs.length + zs.length ≤ P.maxSize
  | .insertFill p n t => p ≤ xs.length ∧ t.Outside ∧ xs.length + n ≤ P.maxSize
  | .erase p => p ≤ xs.length
  | .eraseRange p q => p ≤ q ∧ q ≤ xs.length
  | .reserve n => n < 2 ^ P.sizeType
  | .resize n => n ≤ P.maxSize
  | .clear => True
  | .assignRange s => s.Within v xs ∧ (s.value xs).length ≤ P.maxSize
  | .assignFill n t => t.Within v xs ∧ n ≤ P.maxSize

/-- The conditions that the code leaves to its callers without saying so: a block that the call
needs can be asked for, and an own element is added at the end only without a growth. -/
def Fair (P : Target) (T : ElemType α) (v : Vec α) (xs : List α) : Call α → Prop
  | .pushBack t => Fits P T v (xs.length + 1) ∧ (t.Outside ∨ xs.length < v.res)
  | .insert _ _ => Fits P T v (xs.length + 1)
  | .insertRange _ zs => Fits P T v (xs.length + zs.length)
  | .insertFill _ n _ => Fits P T v (xs.length + n)
  | .resize n => Fits P T v n
  -- the capacity that is asked for need not be reached
  | .reserve n => v.res < n → xs.length ≤ P.goodSize n ∧ T.sizeof * P.goodSize n < 2 ^ P.size
  | .assignRange s => T.sizeof * (s.value xs).length < 2 ^ P.size
  | .assignFill n _ => T.sizeof * n < 2 ^ P.size
  | .popBack | .erase _ | .eraseRange _ _ | .clear => True

end Call

/-! ## Worlds -/

inductive Ctor (α : Type)
  | empty
  | fill (n : ℕ) (x : α)
  | range (xs : List α)
  | copy (j : ℕ)

/-- Every operation that may need a block carries the one it gets. -/
inductive Op (α : Type)
  | make (k : ℕ) (c : Ctor α) (f : Fresh α)
  | call (k : ℕ) (c : Call α) (f : Fresh α)
  | swap (k j : ℕ)
  | assign (k j : ℕ) (f : Fresh α)
  | drop (k : ℕ)

/-- The vectors that exist, under arbitrary names, and what the last call returned. -/
inductive World (α : Type)
  | running (vecs : ℕ → Option (Vec α)) (ret : Option ℕ)
  | stopped (s : Stop)

namespace World

def init : World α := .running (fun _ => none) none

/-- A vector is put under a name, unless its construction stopped. -/
def place (V : ℕ → Option (Vec α)) (k : ℕ) : Except Stop (Vec α) → World α
  | .ok v => .running (Function.update V k (some v)) none
  | .error s => .stopped s

/-- The world after a member function of the vector `k`. -/
def after (V : ℕ → Option (Vec α)) (k : ℕ) : EStateM.Result Stop (Vec α) (Option ℕ) → World α
  | .ok r v => .running (Function.update V k (some v)) r
  | .error s _ => .stopped s

end World

/-- The copy constructor needs the vector it copies. -/
def Ctor.build (P : Target) (T : ElemType α) (V : ℕ → Option (Vec α)) (f : Fresh α) :
    Ctor α → Option (Except Stop (Vec α))
  | .empty => some (.ok Simplevec.empty)
  | .fill n x => some (ofFill P T (some f) n x)
  | .range xs => some (ofRange P T (some f) (xs.map some) 0 xs.length)
  | .copy j => (V j).map fun w => ofRange P T (some f) w.buf.cells 0 w.sze

/-- `none`: a name is taken, or a vector does not exist, or the program has stopped. -/
def step (P : Target) (T : ElemType α) : World α → Op α → Option (World α)
  | .stopped _, _ => none
  | .running V _, .make k c f =>
    if (V k).isNone then (c.build P T V f).map (World.place V k) else none
  | .running V _, .call k c f => (V k).map fun v => World.after V k (c.run P T (some f) v)
  | .running V _, .swap k j => do
    let v ← V k
    let w ← V j
    return .running (Function.update (Function.update V k (some w)) j (some v)) none
  | .running V _, .assign k j f => do
    let v ← V k
    let w ← V j
    return World.after V k ((do assignVec P T (some f) w; return none : VecM α (Option ℕ)) v)
  | .running V _, .drop k => (V k).map fun v =>
    match dealloc T v with
    | .ok _ _ => .running (Function.update V k none) none
    | .error s _ => .stopped s

/-! ## What has to hold -/

/-- The elements of a vector. -/
def Vec.toList (v : Vec α) : List α := (v.buf.cells.take v.sze).filterMap id

/-- `size () <= capacity ()`, the buffer has `capacity ()` cells, and the live cells are those below
`size ()` (on the fast path: all cells). -/
structure WellFormed (T : ElemType α) (v : Vec α) : Prop where
  size_le : v.sze ≤ v.res
  length : v.buf.cells.length = v.res
  live : ∀ i < v.res, (Cells.read v.buf.cells i).isSome ↔ T.simple ∨ i < v.sze

namespace World

def lists : World α → ℕ → Option (List α)
  | .running V _ => fun k => (V k).map Vec.toList
  | .stopped _ => fun _ => none

def returned : World α → Option ℕ
  | .running _ r => r
  | .stopped _ => none

/-- The program has not stopped, and its vectors are well formed. -/
def Sound (T : ElemType α) : World α → Prop
  | .running V _ => ∀ k, ∀ v ∈ V k, WellFormed T v
  | .stopped _ => False

end World

namespace Op

/-- What an operation does to the lists. -/
def Refines (L L' : ℕ → Option (List α)) : Op α → Prop
  | .make k c _ => match c with
    | .empty => L' = Function.update L k (some [])
    | .fill n x => L' = Function.update L k (some (List.replicate n x))
    | .range xs => L' = Function.update L k (some xs)
    | .copy j => L' = Function.update L k (L j)
  | .call k c _ => ∃ xs ys, L k = some xs ∧ c.Yields xs ys ∧ L' = Function.update L k (some ys)
  | .swap k j => L' = Function.update (Function.update L k (L j)) j (L k)
  | .assign k j _ => L' = Function.update L k (L j)
  | .drop k => L' = Function.update L k none

def returns : Op α → Option ℕ
  | .call _ c _ => c.returns
  | _ => none

/-- The vectors exist, the name of a new one is free, and the calls are valid. -/
def Valid (P : Target) : World α → Op α → Prop
  | .stopped _, _ => False
  | .running V _, .make k c _ => V k = none ∧ match c with
    | .empty => True
    | .fill n _ => n ≤ P.maxSize
    | .range xs => xs.length ≤ P.maxSize
    | .copy j => ∃ w, V j = some w
  | .running V _, .call k c _ => ∃ v, V k = some v ∧ c.Valid P v v.toList
  | .running V _, .swap k j => ∃ v w, V k = some v ∧ V j = some w
  | .running V _, .assign k j _ => ∃ v w, V k = some v ∧ V j = some w
  | .running V _, .drop k => ∃ v, V k = some v

/-- Every block the operation asks for can be asked for. -/
def Fair (P : Target) (T : ElemType α) : World α → Op α → Prop
  | .stopped _, _ => True
  | .running V _, .make _ c _ => match c with
    | .empty => True
    | .fill n _ => T.sizeof * n < 2 ^ P.size
    | .range xs => T.sizeof * xs.length < 2 ^ P.size
    | .copy j => ∀ w ∈ V j, T.sizeof * w.toList.length < 2 ^ P.size
  | .running V _, .call k c _ => ∀ v ∈ V k, c.Fair P T v v.toList
  | .running V _, .assign _ j _ => ∀ w ∈ V j, T.sizeof * w.toList.length < 2 ^ P.size
  | .running _ _, .swap _ _ => True
  | .running _ _, .drop _ => True

/-- The operation is carried out, and what it leaves behind is right. -/
def Correct (P : Target) (T : ElemType α) (s : World α) (op : Op α) : Prop :=
  ∃ t, step P T s op = some t ∧ t.Sound T ∧ op.Refines s.lists t.lists ∧
    t.returned = op.returns

end Op

/-! ## One call -/

section

variable {P : Target} {T : ElemType α} {v w : Vec α} {xs ys : List α}

theorem Holds.toList_eq (hv : Holds T v xs) : v.toList = xs := by
  obtain ⟨spare, hb, -⟩ := hv.stores
  rw [Vec.toList, hb, hv.sze, List.take_append_of_le_length (by simp),
    List.take_of_length_le (by simp), List.filterMap_map]
  exact List.filterMap_some

theorem Holds.wellFormed (hv : Holds T v xs) : WellFormed T v where
  size_le := hv.sze ▸ hv.size_le
  length := hv.res
  live i hi := by
    obtain ⟨spare, hb, hspare⟩ := hv.stores
    have hlen := hv.res
    by_cases h : i < xs.length
    · simp [hv.read i h, hv.sze, h]
    · obtain ⟨k, rfl⟩ := Nat.exists_eq_add_of_le (Nat.le_of_not_lt h)
      have hk : k < spare.length := by
        simp [hb] at hlen
        omega
      have hread : Cells.read v.buf.cells (xs.length + k) = spare[k] := by
        have h := read_append_right (xs.map some) spare k
        rw [List.length_map, ← hb] at h
        rw [h, Cells.read, List.getElem?_eq_getElem hk]
        rfl
      rw [hread, hspare _ (List.getElem_mem hk), hv.sze]
      simp

theorem Ref.read_of_within (hv : Holds T v xs) {t : Ref α} (ht : t.Within v xs) :
    ∃ x, t.read v.buf = some x ∧ t.value xs = some x := by
  cases t with
  | outside x => exact ⟨x, rfl, rfl⟩
  | own block i =>
    obtain ⟨rfl, hi⟩ := ht
    exact ⟨xs[i], by rw [Ref.read, if_pos rfl, hv.read i hi], List.getElem?_eq_getElem hi⟩

/-- The range a span denotes, in place in its array. -/
theorem Span.source_of_within (hv : Holds T v xs) {s : Span α} (hs : s.Within v xs) :
    ∃ A B, s.source v = (A ++ (s.value xs).map some ++ B, A.length, (s.value xs).length) := by
  cases s with
  | outside ys => exact ⟨[], [], by simp [Span.source, Span.value]⟩
  | own block i n =>
    obtain ⟨rfl, hi⟩ := hs
    obtain ⟨spare, hb, -⟩ := hv.stores
    have hxs : xs = xs.take i ++ ((xs.drop i).take n ++ (xs.drop i).drop n) := by simp
    refine ⟨(xs.take i).map some, ((xs.drop i).drop n).map some ++ spare, ?_⟩
    have hcells : v.buf.cells = (xs.take i).map some ++ ((xs.drop i).take n).map some ++
        (((xs.drop i).drop n).map some ++ spare) := by
      rw [hb]
      conv_lhs => rw [hxs]
      simp only [List.map_append, List.append_assoc]
    rw [Span.source, if_pos rfl, hcells, Span.value, List.length_map, List.length_take,
      List.length_take, List.length_drop, Nat.min_eq_left (by omega), Nat.min_eq_left (by omega)]

/-- A fair call does what it should. -/
theorem Call.run_spec (hv : Holds T v xs) (hlen : xs.length < 2 ^ P.sizeType) {c : Call α}
    (hc : c.Valid P v xs) (hfair : c.Fair P T v xs) (f : Fresh α) :
    ∃ w ys, c.run P T (some f) v = .ok c.returns w ∧ Holds T w ys ∧
      ys.length < 2 ^ P.sizeType ∧ c.Yields xs ys := by
  cases c with
  | pushBack t =>
    obtain ⟨hwithin, hmax⟩ := hc
    obtain ⟨hfit, hplace⟩ := hfair
    have hlen' := Target.lt_of_le_maxSize hmax
    obtain ⟨x, hread, hx⟩ := Ref.read_of_within hv hwithin
    rcases hplace with hout | hroom
    · cases t with
      | own block i => cases hout
      | outside y =>
        obtain ⟨w, hw, hys⟩ := pushBack_spec hv hlen' hfit f y
        exact ⟨w, _, bind_ok hw _, hys, by simpa using hlen', y, rfl, rfl⟩
    · obtain ⟨w, hw, hys⟩ := pushBack_roomy hv hlen' hroom (some f) hread
      exact ⟨w, _, bind_ok hw _, hys, by simpa using hlen', x, hx, rfl⟩
  | popBack =>
    obtain ⟨xs, x, rfl⟩ : ∃ ys x, xs = ys ++ [x] :=
      ⟨xs.dropLast, xs.getLast hc, (List.dropLast_append_getLast hc).symm⟩
    rw [List.length_append, List.length_singleton] at hlen
    have hlen' : xs.length < 2 ^ P.sizeType := by omega
    obtain ⟨w, hw, hys⟩ := popBack_spec hv hlen'
    exact ⟨w, xs, bind_ok hw _, hys, hlen', by simp [Yields]⟩
  | insert p t =>
    obtain ⟨hp, ht, hmax⟩ := hc
    have hlen' := Target.lt_of_le_maxSize hmax
    cases t with
    | own block i => cases ht
    | outside x =>
      obtain ⟨w, hw, hys⟩ := insert_spec hv hp hlen' hfair f x
      exact ⟨w, _, bind_ok hw _, hys, by simp; omega, x, rfl, rfl⟩
  | insertRange p zs =>
    obtain ⟨hp, hmax⟩ := hc
    have hlen' := Target.lt_of_le_maxSize hmax
    obtain ⟨w, hw, hys⟩ := insertRange_spec hv hp hlen' hfair f
    exact ⟨w, _, bind_ok hw _, hys, by simp; omega, rfl⟩
  | insertFill p n t =>
    obtain ⟨hp, ht, hmax⟩ := hc
    have hlen' := Target.lt_of_le_maxSize hmax
    cases t with
    | own block i => cases ht
    | outside x =>
      obtain ⟨w, hw, hys⟩ := insertFill_spec hv hp hlen' hfair f x
      exact ⟨w, _, bind_ok hw _, hys, by simp; omega, x, rfl, rfl⟩
  | erase p =>
    obtain ⟨w, hw, hys⟩ := erase_spec hv hlen hc
    exact ⟨w, _, bind_ok hw _, hys, by simp; omega, (List.eraseIdx_eq_take_drop_succ xs p).symm⟩
  | eraseRange p q =>
    obtain ⟨hpq, hq⟩ := hc
    obtain ⟨w, hw, hys⟩ := eraseRange_spec hv hlen hpq hq
    exact ⟨w, _, bind_ok hw _, hys, by simp; omega, rfl⟩
  | reserve n =>
    obtain ⟨w, hw, hys⟩ := reserve_safe hv f hfair
    exact ⟨w, xs, bind_ok hw _, hys, hlen, rfl⟩
  | resize n =>
    obtain ⟨w, ys, hw, hys, hn, hpre⟩ := resize_spec hv hfair f
    exact ⟨w, ys, bind_ok hw _, hys, hn ▸ Target.lt_of_le_maxSize hc, hn, hpre⟩
  | clear =>
    obtain ⟨w, hw, hys⟩ := clear_spec hv
    exact ⟨w, [], bind_ok hw _, hys, Nat.two_pow_pos _, rfl⟩
  | assignRange s =>
    obtain ⟨hs, hmax⟩ := hc
    have hlen' := Target.lt_of_le_maxSize hmax
    obtain ⟨A, B, hsrc⟩ := Span.source_of_within hv hs
    obtain ⟨w, hw, hys⟩ := assignRange_spec hv hlen' hfair f A B
    refine ⟨w, _, ?_, hys, hlen', rfl⟩
    rw [run, get_bind, hsrc]
    exact bind_ok hw _
  | assignFill n t =>
    obtain ⟨ht, hmax⟩ := hc
    obtain ⟨x, hread, hx⟩ := Ref.read_of_within hv ht
    obtain ⟨w, hw, hys⟩ := assignFill_spec hv hfair f hread
    exact ⟨w, _, bind_ok hw _, hys, by simpa using Target.lt_of_le_maxSize hmax, x, hx, rfl⟩

end

/-! ## Runs -/

/-- What every run keeps: each vector holds its list, whose length is a `size_type`. -/
def World.Inv (P : Target) (T : ElemType α) : World α → Prop
  | .running V _ => ∀ k, ∀ v ∈ V k, Holds T v v.toList ∧ v.toList.length < 2 ^ P.sizeType
  | .stopped _ => False

section

variable {P : Target} {T : ElemType α} {V : ℕ → Option (Vec α)} {v w : Vec α} {xs : List α}
  {r r' : Option ℕ} {k : ℕ}

theorem World.Inv.sound {s : World α} (h : s.Inv P T) : s.Sound T := by
  cases s with
  | stopped _ => exact h
  | running V r => exact fun k v hv => (h k v hv).1.wellFormed

theorem World.Inv.put (h : (World.running V r).Inv P T) (hw : Holds T w xs)
    (hlen : xs.length < 2 ^ P.sizeType) (k : ℕ) (r' : Option ℕ) :
    (World.running (Function.update V k (some w)) r').Inv P T := by
  intro j v hv
  by_cases hj : j = k
  · subst hj
    rw [Function.update_self] at hv
    cases hv
    rw [hw.toList_eq]
    exact ⟨hw, hlen⟩
  · rw [Function.update_of_ne hj] at hv
    exact h j v hv

theorem World.Inv.remove (h : (World.running V r).Inv P T) (k : ℕ) (r' : Option ℕ) :
    (World.running (Function.update V k none) r').Inv P T := by
  intro j v hv
  by_cases hj : j = k
  · subst hj
    rw [Function.update_self] at hv
    cases hv
  · rw [Function.update_of_ne hj] at hv
    exact h j v hv

theorem World.lists_update (o : Option (Vec α)) : (World.running (Function.update V k o) r').lists =
    Function.update (World.running V r).lists k (o.map Vec.toList) := by
  funext j
  by_cases hj : j = k
  · subst hj
    simp [World.lists]
  · simp [World.lists, hj]

theorem World.lists_put (hw : Holds T w xs) :
    (World.running (Function.update V k (some w)) r').lists =
      Function.update (World.running V r).lists k (some xs) := by
  rw [World.lists_update (r := r), Option.map_some, hw.toList_eq]

/-- A constructor builds the list it should. -/
theorem Ctor.build_spec {s : World α} (hs : s = .running V r) (hinv : s.Inv P T)
    {k : ℕ} {c : Ctor α} {f : Fresh α} (hval : (Op.make k c f).Valid P s)
    (hfair : (Op.make k c f).Fair P T s) :
    ∃ w xs, c.build P T V f = some (.ok w) ∧ Holds T w xs ∧ xs.length < 2 ^ P.sizeType ∧
      ∀ L', L' = Function.update s.lists k (some xs) → (Op.make k c f).Refines s.lists L' := by
  subst hs
  obtain ⟨-, hval⟩ := hval
  cases c with
  | empty =>
    exact ⟨Simplevec.empty, [], rfl, holds_empty T, Nat.two_pow_pos _, fun _ h => h⟩
  | fill n x =>
    obtain ⟨w, hw, hys⟩ := ofFill_spec hfair f x
    exact ⟨w, _, congrArg some hw, hys, by simpa using Target.lt_of_le_maxSize hval, fun _ h => h⟩
  | range xs =>
    have hlen := Target.lt_of_le_maxSize hval
    obtain ⟨w, hw, hys⟩ := ofRange_spec (Target.wrap_eq hlen) hfair f [] []
    rw [List.nil_append, List.append_nil, List.length_nil] at hw
    exact ⟨w, xs, congrArg some hw, hys, hlen, fun _ h => h⟩
  | copy j =>
    obtain ⟨u, hu⟩ := hval
    obtain ⟨hxs, hlen⟩ := hinv j u hu
    obtain ⟨w, hw, hys⟩ := ofRange_spec (Target.wrap_eq hlen) (hfair u hu) f []
      (u.buf.cells.drop u.toList.length)
    obtain ⟨spare, hb, -⟩ := hxs.stores
    have hcells : [] ++ u.toList.map some ++ u.buf.cells.drop u.toList.length = u.buf.cells := by
      conv_rhs => rw [hb]
      rw [hb, List.drop_append_of_le_length (by simp), List.drop_eq_nil_of_le (by simp)]
      rfl
    rw [hcells, ← hxs.sze, List.length_nil] at hw
    refine ⟨w, _, ?_, hys, hlen, fun L' h => ?_⟩
    · rw [build, hu, Option.map_some, hw]
    · rw [h]
      simp [Op.Refines, World.lists, hu]

/-- The step lemma: a valid and fair operation is carried out, keeps the invariant and does to the
lists what it should. -/
theorem step_spec {s : World α} (hs : s.Inv P T) {op : Op α}
    (hval : op.Valid P s) (hfair : op.Fair P T s) :
    ∃ t, step P T s op = some t ∧ t.Inv P T ∧ op.Refines s.lists t.lists ∧
      t.returned = op.returns := by
  cases s with
  | stopped s => cases hs
  | running V r =>
    cases op with
    | make k c f =>
      obtain ⟨w, xs, hw, hxs, hlen, href⟩ := Ctor.build_spec rfl hs hval hfair
      refine ⟨_, ?_, hs.put hxs hlen k none, href _ (World.lists_put hxs), rfl⟩
      rw [step, if_pos (by rw [hval.1]; rfl), hw]
      rfl
    | call k c f =>
      obtain ⟨v, hv, hval⟩ := hval
      obtain ⟨hxs, hlen⟩ := hs k v hv
      obtain ⟨w, ys, hw, hys, hlen', hyields⟩ := c.run_spec hxs hlen hval (hfair v hv) f
      refine ⟨_, ?_, hs.put hys hlen' k c.returns, ?_, rfl⟩
      · rw [step, hv, Option.map_some, hw]
        rfl
      · exact ⟨v.toList, ys, by simp [World.lists, hv], hyields, World.lists_put hys⟩
    | swap k j =>
      obtain ⟨v, w, hv, hw⟩ := hval
      obtain ⟨hxs, hlen⟩ := hs k v hv
      obtain ⟨hys, hlen'⟩ := hs j w hw
      refine ⟨_, ?_, (hs.put hys hlen' k none).put hxs hlen j none, ?_, rfl⟩
      · simp [step, hv, hw]
      · rw [World.lists_put (r := none) hxs, World.lists_put (r := r) hys]
        simp [Op.Refines, World.lists, hv, hw]
    | assign k j f =>
      obtain ⟨v, w, hv, hw⟩ := hval
      obtain ⟨hxs, -⟩ := hs k v hv
      obtain ⟨hys, hlen⟩ := hs j w hw
      obtain ⟨u, hu, hu'⟩ := assignVec_spec hxs hys hlen (hfair w hw) f
      refine ⟨_, ?_, hs.put hu' hlen k none, ?_, rfl⟩
      · simp only [step, hv, hw, Option.bind_eq_bind, Option.bind_some]
        rw [bind_ok hu]
        rfl
      · rw [World.lists_put (r := r) hu']
        simp [Op.Refines, World.lists, hw]
    | drop k =>
      obtain ⟨v, hv⟩ := hval
      obtain ⟨hxs, -⟩ := hs k v hv
      refine ⟨_, ?_, hs.remove k none, World.lists_update none, rfl⟩
      have hdealloc := dealloc_eq (T := T) (n := v.sze) (m := v.res) hxs.sze hxs.stores
      simp only [step, hv, Option.map_some]
      rw [show dealloc T v = _ from hdealloc]

theorem correct_of_inv {s : World α} (hs : s.Inv P T) {ops : List (Op α)}
    (hops : Along (step P T) (fun s op => op.Valid P s ∧ op.Fair P T s) s ops) :
    Along (step P T) (fun s op => op.Correct P T s) s ops := by
  have hinv : Always (step P T) (World.Inv P T) s ops := by
    refine always_of_along (fun s op t hs hop ht => ?_) hs hops
    obtain ⟨t', ht', hinv, -⟩ := step_spec hs hop.1 hop.2
    rw [ht] at ht'
    cases ht'
    exact hinv
  refine (hinv.along.and hops).mono fun s op h => ?_
  obtain ⟨t, ht, htinv, href, hret⟩ := step_spec h.1 h.2.1 h.2.2
  exact ⟨t, ht, htinv.sound, href, hret⟩

/-- **Vectors refine lists.** Over every finite sequence of valid and fair operations on any number
of vectors, on the fast and on the slow path: every operation is carried out without an access it
may not make, leaves all vectors well formed, and does to the lists they stand for, and returns,
what the same operation on lists does. -/
theorem refines_lists {ops : List (Op α)}
    (hops : Along (step P T) (fun s op => op.Valid P s ∧ op.Fair P T s) World.init ops) :
    Along (step P T) (fun s op => op.Correct P T s) World.init ops := by
  refine correct_of_inv (fun k v hv => ?_) hops
  cases hv

/-- A run that ends in a fault is not correct. -/
theorem not_correct_of_stop (pre : List (Op α)) (op : Op α) {s : World α} {e : Stop}
    (hs : run (step P T) World.init pre = some s) (he : step P T s op = some (.stopped e)) :
    ¬ Along (step P T) (fun s op => op.Correct P T s) World.init (pre ++ [op]) := by
  intro h
  obtain ⟨t, ht, hsound, -⟩ := ((along_append.mp h).2 s hs).1
  rw [he] at ht
  cases ht
  exact hsound

end

/-! ## Platforms and types for the examples -/

/-- The usual 64-bit platform. -/
def lp64 : Target := ⟨32, 64, 64, Nat.log2, fun _ _ _ => rfl⟩

theorem lp64_host : lp64.Host := ⟨rfl, by decide, rfl⟩

/-- A 64-bit platform with `ESTL_LARGE_MEMORY_MODEL`. -/
def lp64Large : Target := ⟨64, 64, 64, Nat.log2, lp64.ld32_eq⟩

/-- `struct { int x; }`, which is simple enough. (In C++11 `int` is not, since
`is_trivially_assignable<int, int>` is false.) -/
def podElem : ElemType ℕ := ⟨4, Nat.succ_pos 3, true, 0⟩

/-- A class with constructors, of the given size. -/
def classElem (sizeof : ℕ) (h : 0 < sizeof) : ElemType ℕ := ⟨sizeof, h, false, 0⟩

/-- A block whose bytes happen to be all zero. -/
def zeroed (block : ℕ) : Fresh ℕ := ⟨block, fun _ => 0⟩

/-- The second `push_back` adds the vector's first element, for which there is room. -/
theorem refines_lists_run :
    Along (step lp64 podElem) (fun s op => op.Correct lp64 podElem s) World.init
      [.make 0 .empty (zeroed 1), .call 0 (.pushBack (.outside 7)) (zeroed 2),
        .call 0 (.pushBack (.own 2 0)) (zeroed 3), .assign 0 0 (zeroed 4), .drop 0] := by
  refine refines_lists ?_
  refine along_cons_of_step ⟨⟨rfl, trivial⟩, trivial⟩ rfl ?_
  refine along_cons_of_step ⟨⟨_, rfl, trivial, by decide⟩, ?_⟩ rfl ?_
  · rintro v ⟨⟩
    exact ⟨.inr (by decide), .inl trivial⟩
  refine along_cons_of_step ⟨⟨_, rfl, ⟨rfl, by decide⟩, by decide⟩, ?_⟩ rfl ?_
  · rintro v ⟨⟩
    exact ⟨.inl (by decide), .inr (by decide)⟩
  refine along_cons_of_step ⟨⟨_, _, rfl, rfl⟩, by rintro w ⟨⟩; decide⟩ rfl ?_
  exact along_cons_of_step ⟨⟨_, rfl⟩, trivial⟩ rfl trivial

/-- The result without the conditions of `Op.Fair`. -/
def RefinesLists (P : Target) (T : ElemType α) : Prop :=
  ∀ ops : List (Op α), Along (step P T) (fun s op => op.Valid P s) World.init ops →
    Along (step P T) (fun s op => op.Correct P T s) World.init ops

/-- Three ways out of the buffer: `reserve` beyond `max_size ()`, where the new capacity is rounded
to a 33-bit number and cut to 0; `reserve (2^29)` for objects of 16 GiB, where the size in bytes is
cut to 0; and `push_back` of an element of a full vector. -/
theorem not_refinesLists : ¬ RefinesLists lp64 podElem ∧
    ¬ RefinesLists lp64 (classElem (2 ^ 34) (Nat.two_pow_pos 34)) ∧
    ¬ RefinesLists lp64 (classElem 4 (Nat.succ_pos 3)) := by
  refine ⟨fun h => ?_, fun h => ?_, fun h => ?_⟩
  · refine not_correct_of_stop
      [.make 0 .empty (zeroed 1), .call 0 (.pushBack (.outside 7)) (zeroed 2)]
      (.call 0 (.reserve (2 ^ 31)) (zeroed 3)) rfl rfl (h _ ?_)
    refine along_cons_of_step ⟨rfl, trivial⟩ rfl ?_
    refine along_cons_of_step ⟨_, rfl, trivial, by decide⟩ rfl ?_
    exact ⟨⟨_, rfl, (by decide : 2 ^ 31 < 2 ^ 32)⟩, fun _ _ => trivial⟩
  · refine not_correct_of_stop [.make 0 (.fill 1 7) (zeroed 1)]
      (.call 0 (.reserve (2 ^ 29)) (zeroed 2)) rfl rfl (h _ ?_)
    refine along_cons_of_step ⟨rfl, by decide⟩ rfl ?_
    exact ⟨⟨_, rfl, (by decide : 2 ^ 29 < 2 ^ 32)⟩, fun _ _ => trivial⟩
  · refine not_correct_of_stop [.make 0 (.fill 1 7) (zeroed 1)]
      (.call 0 (.pushBack (.own 1 0)) (zeroed 2)) rfl rfl (h _ ?_)
    refine along_cons_of_step ⟨rfl, by decide⟩ rfl ?_
    exact ⟨⟨_, rfl, ⟨rfl, by decide⟩, by decide⟩, fun _ _ => trivial⟩

end Libptytty.Simplevec
