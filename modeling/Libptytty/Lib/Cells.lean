import Mathlib

/-!
# Buffers of cells

A buffer is a list of cells, each raw (`none`) or holding an element (`some x`). An access outside
the buffer, and one that the state of its cell does not allow, has no result.

`store` is every kind of write, with the condition on the cell as a parameter: constructing wants a
raw cell, assigning a live one, writing bytes takes any. The loops over it are described by
splitting the buffer at the ends of the moved range (`copyFrom_eq`, `copyForward_eq`,
`copyBackward_eq`), and so are the block moves (`memcpy_eq`, `memmove_down`, `memmove_up`), so that
a loop and the block move that stands for it can be compared.
-/

namespace Cells

variable {α : Type*}

/-! ## Single cells -/

/-- Read a cell; reading outside the buffer or a raw cell has no result. -/
def read (b : List (Option α)) (i : ℕ) : Option α :=
  b[i]?.join

/-- Write `x` into cell `i`, whose state must meet `ok`. -/
def store (ok : Option α → Bool) (b : List (Option α)) (i : ℕ) (x : α) : Option (List (Option α)) :=
  match b[i]? with
  | some c => if ok c then some (b.set i (some x)) else none
  | none => none

/-- Make a live cell raw. -/
def destroy (b : List (Option α)) (i : ℕ) : Option (List (Option α)) :=
  match b[i]? with
  | some (some _) => some (b.set i none)
  | _ => none

section At

variable {A E : List (Option α)} {x : α}

theorem read_append (A E : List (Option α)) (x : α) :
    read (A ++ some x :: E) A.length = some x := by
  simp [read]

theorem read_append_right (A B : List (Option α)) (i : ℕ) :
    read (A ++ B) (A.length + i) = read B i := by
  rw [read, List.getElem?_append_right (Nat.le_add_right A.length i), Nat.add_sub_cancel_left]
  rfl

theorem read_append_left (B : List (Option α)) {A : List (Option α)} {i : ℕ} (h : i < A.length) :
    read (A ++ B) i = read A i := by
  simp [read, List.getElem?_append_left h]

@[simp] theorem read_map_some (xs : List α) (i : ℕ) : read (xs.map some) i = xs[i]? := by
  rw [read, List.getElem?_map]
  cases xs[i]? <;> rfl

theorem getElem?_eq_read {b : List (Option α)} {i : ℕ} (h : i < b.length) :
    b[i]? = some (read b i) := by
  rw [read, List.getElem?_eq_getElem h]
  rfl

theorem store_append {ok : Option α → Bool} {c : Option α} (hc : ok c = true)
    (A E : List (Option α)) (x : α) :
    store ok (A ++ c :: E) A.length x = some (A ++ some x :: E) := by
  simp [store, hc]

theorem read_store {ok : Option α → Bool} {b c : List (Option α)} {i : ℕ}
    (h : store ok b i x = some c) (j : ℕ) : read c j = if i = j then some x else read b j := by
  rw [store] at h
  cases hi : b[i]? with
  | none =>
    rw [hi] at h
    cases h
  | some old =>
    have hlen : i < b.length := (List.getElem?_eq_some_iff.mp hi).1
    rw [hi] at h
    simp only at h
    split_ifs at h with hok
    cases h
    rw [read, read, List.getElem?_set, if_pos hlen]
    split_ifs <;> rfl

theorem length_store {ok : Option α → Bool} {b c : List (Option α)} {i : ℕ}
    (h : store ok b i x = some c) : i < b.length ∧ c.length = b.length := by
  rw [store] at h
  cases hi : b[i]? with
  | none =>
    rw [hi] at h
    cases h
  | some old =>
    rw [hi] at h
    simp only at h
    split_ifs at h with hok
    cases h
    exact ⟨(List.getElem?_eq_some_iff.mp hi).1, List.length_set⟩

theorem destroy_append (A E : List (Option α)) (x : α) :
    destroy (A ++ some x :: E) A.length = some (A ++ none :: E) := by
  simp [destroy]

end At

theorem exists_eq_map_some {b : List (Option α)} (h : ∀ c ∈ b, c.isSome = true) :
    ∃ xs : List α, b = xs.map some := by
  induction b with
  | nil => exact ⟨[], rfl⟩
  | cons c b ih =>
    obtain ⟨x, rfl⟩ := Option.isSome_iff_exists.mp (h c List.mem_cons_self)
    obtain ⟨xs, rfl⟩ := ih fun c hc => h c (List.mem_cons_of_mem _ hc)
    exact ⟨x :: xs, rfl⟩

/-! ## Loops -/

/-- `n` cells are filled upwards from `i` with the value `x`. -/
def fillUp (ok : Option α → Bool) (x : α) : List (Option α) → ℕ → ℕ → Option (List (Option α))
  | b, _, 0 => some b
  | b, i, n + 1 => do
    let b ← store ok b i x
    fillUp ok x b (i + 1) n

/-- `n` cells from the start of the buffer are filled with `x`, the last one first. -/
def fillDown (ok : Option α → Bool) (x : α) : List (Option α) → ℕ → Option (List (Option α))
  | b, 0 => some b
  | b, n + 1 => do
    let b ← store ok b n x
    fillDown ok x b n

/-- `n` cells are made raw, upwards from `i`. -/
def destroyUp : List (Option α) → ℕ → ℕ → Option (List (Option α))
  | b, _, 0 => some b
  | b, i, n + 1 => do
    let b ← destroy b i
    destroyUp b (i + 1) n

/-- `n` cells are made raw, downwards to `i`. -/
def destroyDown : List (Option α) → ℕ → ℕ → Option (List (Option α))
  | b, _, 0 => some b
  | b, i, n + 1 => do
    let b ← destroy b (i + n)
    destroyDown b i n

/-- `n` elements of another buffer, from `s` on, are copied upwards to `d`. -/
def copyFrom (ok : Option α → Bool) (src : List (Option α)) :
    List (Option α) → ℕ → ℕ → ℕ → Option (List (Option α))
  | b, _, _, 0 => some b
  | b, d, s, n + 1 => do
    let x ← read src s
    let b ← store ok b d x
    copyFrom ok src b (d + 1) (s + 1) n

/-- `n` elements of the same buffer, from `s` on, are copied to `d`, the first one first. -/
def copyForward (ok : Option α → Bool) :
    List (Option α) → ℕ → ℕ → ℕ → Option (List (Option α))
  | b, _, _, 0 => some b
  | b, d, s, n + 1 => do
    let x ← read b s
    let b ← store ok b d x
    copyForward ok b (d + 1) (s + 1) n

/-- `n` elements of the same buffer, from `s` on, are copied to `d`, the last one first. -/
def copyBackward (ok : Option α → Bool) (d s : ℕ) :
    List (Option α) → ℕ → Option (List (Option α))
  | b, 0 => some b
  | b, n + 1 => do
    let x ← read b (s + n)
    let b ← store ok b (d + n) x
    copyBackward ok d s b n

/-! ## Block moves -/

/-- The `n` cells from `s` on of another buffer replace those from `d` on, whatever they hold. -/
def memcpy (b : List (Option α)) (d : ℕ) (src : List (Option α)) (s n : ℕ) :
    Option (List (Option α)) :=
  if d + n ≤ b.length ∧ s + n ≤ src.length then
    some (b.take d ++ (src.drop s).take n ++ b.drop (d + n))
  else
    none

/-- The same within one buffer; the two ranges may overlap. -/
def memmove (b : List (Option α)) (d s n : ℕ) : Option (List (Option α)) :=
  memcpy b d b s n

section Ranges

variable (ok : Option α → Bool) {R : List (Option α)}

theorem fillUp_eq (hR : ∀ c ∈ R, ok c = true) (x : α) (A E : List (Option α)) :
    fillUp ok x (A ++ R ++ E) A.length R.length =
      some (A ++ List.replicate R.length (some x) ++ E) := by
  induction R generalizing A with
  | nil => simp [fillUp]
  | cons c R ih =>
    have hstore := store_append (hR c List.mem_cons_self) A (R ++ E) x
    have hrest := ih (fun c' hc' => hR c' (List.mem_cons_of_mem c hc')) (A ++ [some x])
    simp only [List.append_assoc, List.length_append, List.length_cons, List.length_nil,
      List.cons_append, List.nil_append] at hrest ⊢
    rw [fillUp, hstore]
    simpa [List.replicate_succ] using hrest

theorem fillDown_eq (hR : ∀ c ∈ R, ok c = true) (x : α) (E : List (Option α)) :
    fillDown ok x (R ++ E) R.length = some (List.replicate R.length (some x) ++ E) := by
  induction R using List.reverseRecOn generalizing E with
  | nil => simp [fillDown]
  | append_singleton R c ih =>
    have hstore := store_append (hR c (by simp)) R E x
    have hrest := ih (fun c' hc' => hR c' (by simp [hc'])) (some x :: E)
    rw [List.length_append, List.length_singleton, fillDown, List.append_assoc,
      List.singleton_append, hstore]
    simpa [List.replicate_succ'] using hrest

theorem destroyUp_eq (xs : List α) (A E : List (Option α)) :
    destroyUp (A ++ xs.map some ++ E) A.length xs.length =
      some (A ++ List.replicate xs.length none ++ E) := by
  induction xs generalizing A with
  | nil => simp [destroyUp]
  | cons x xs ih =>
    have hdestroy := destroy_append A (xs.map some ++ E) x
    have hrest := ih (A ++ [none])
    simp only [List.append_assoc, List.length_append, List.length_cons, List.length_nil,
      List.cons_append, List.nil_append, List.map_cons] at hrest ⊢
    rw [destroyUp, hdestroy]
    simpa [List.replicate_succ] using hrest

theorem destroyDown_eq (xs : List α) (A E : List (Option α)) :
    destroyDown (A ++ xs.map some ++ E) A.length xs.length =
      some (A ++ List.replicate xs.length none ++ E) := by
  induction xs using List.reverseRecOn generalizing E with
  | nil => simp [destroyDown]
  | append_singleton xs x ih =>
    have hdestroy := destroy_append (A ++ xs.map some) E x
    have hrest := ih (none :: E)
    rw [List.length_append, List.length_map] at hdestroy
    rw [List.length_append, List.length_singleton, destroyDown, List.map_append, List.map_singleton,
      List.append_assoc A, List.append_assoc, List.singleton_append, ← List.append_assoc, hdestroy]
    simpa [List.replicate_succ'] using hrest

theorem copyFrom_eq (hR : ∀ c ∈ R, ok c = true) {xs : List α} (hn : xs.length = R.length)
    (A E B C : List (Option α)) :
    copyFrom ok (B ++ xs.map some ++ C) (A ++ R ++ E) A.length B.length R.length =
      some (A ++ xs.map some ++ E) := by
  induction R generalizing A B xs with
  | nil =>
    obtain rfl := List.eq_nil_of_length_eq_zero hn
    simp [copyFrom]
  | cons c R ih =>
    cases xs with
    | nil => simp at hn
    | cons x xs =>
      have hread : read (B ++ (x :: xs).map some ++ C) B.length = some x := by
        rw [List.append_assoc]
        exact read_append B _ x
      have hstore := store_append (hR c List.mem_cons_self) A (R ++ E) x
      have hrest := ih (fun c' hc' => hR c' (List.mem_cons_of_mem c hc'))
        (Nat.succ.inj hn) (A ++ [some x]) (B ++ [some x])
      simp only [List.append_assoc, List.length_append, List.length_cons, List.length_nil,
        List.cons_append, List.nil_append, List.map_cons] at hread hrest ⊢
      rw [copyFrom, hread]
      simp only [Option.bind_eq_bind, Option.bind_some]
      rw [hstore]
      exact hrest

/-- Copying downwards by `g` cells, the first cell first, reads every cell before it is written. -/
theorem copyForward_eq (hok : ∀ x, ok (some x) = true) {g n : ℕ} {L : List α}
    (hL : L.length = g + n) (A E : List (Option α)) :
    copyForward ok (A ++ L.map some ++ E) A.length (A.length + g) n =
      some (A ++ (L.drop g ++ L.drop n).map some ++ E) := by
  induction n generalizing A L with
  | zero =>
    obtain rfl : L.length = g := hL
    simp [copyForward]
  | succ n ih =>
    cases L with
    | nil => simp at hL
    | cons x L =>
      have hg : g < (x :: L).length := by omega
      have hL' : L.length = g + n := by rw [List.length_cons] at hL; omega
      have hread : read (A ++ (x :: L).map some ++ E) (A.length + g) = some (x :: L)[g] := by
        rw [List.append_assoc, read_append_right, read_append_left E (by simpa using hg),
          read_map_some, List.getElem?_eq_getElem hg]
      have hstore := store_append (hok x) A (L.map some ++ E) (x :: L)[g]
      have hrest := ih hL' (A ++ [some (x :: L)[g]])
      rw [copyForward, hread]
      simp only [Option.bind_eq_bind, Option.bind_some]
      simp only [List.append_assoc, List.map_cons, List.cons_append, List.nil_append,
        List.length_append, List.length_singleton, List.map_append] at hstore hrest ⊢
      rw [hstore]
      simp only [Option.bind_some]
      rw [Nat.add_right_comm, hrest, List.drop_eq_getElem_cons hg]
      simp

/-- Copying upwards by `g` cells, the last cell first, reads every cell before it is written. -/
theorem copyBackward_eq (hok : ∀ x, ok (some x) = true) {g n : ℕ} {L : List α}
    (hL : L.length = n + g) (A E : List (Option α)) :
    copyBackward ok (A.length + g) A.length (A ++ L.map some ++ E) n =
      some (A ++ (L.take g ++ L.take n).map some ++ E) := by
  induction n generalizing L E with
  | zero =>
    rw [Nat.zero_add] at hL
    simp [copyBackward, ← hL]
  | succ n ih =>
    obtain ⟨L, z, rfl⟩ : ∃ L' z, L = L' ++ [z] :=
      ⟨L.dropLast, L.getLast (by rintro rfl; simp at hL; omega),
        (List.dropLast_append_getLast _).symm⟩
    have hL' : L.length = n + g := by simp at hL; omega
    have hn : n < (L ++ [z]).length := by omega
    have hread : read (A ++ (L ++ [z]).map some ++ E) (A.length + n) = some (L ++ [z])[n] := by
      rw [List.append_assoc, read_append_right, read_append_left E (by simpa using hn),
        read_map_some, List.getElem?_eq_getElem hn]
    have hstore := store_append (hok z) (A ++ L.map some) E (L ++ [z])[n]
    have hrest := ih hL' (some (L ++ [z])[n] :: E)
    have hlen : (A ++ L.map some).length = A.length + g + n := by simp [hL']; omega
    rw [copyBackward, hread]
    simp only [Option.bind_eq_bind, Option.bind_some]
    rw [hlen] at hstore
    simp only [List.append_assoc, List.map_append, List.map_cons, List.map_nil, List.cons_append,
      List.nil_append] at hstore hrest ⊢
    rw [hstore]
    simp only [Option.bind_some]
    rw [hrest, List.take_add_one, List.getElem?_eq_getElem hn,
      List.take_append_of_le_length (by omega),
      List.take_append_of_le_length (by omega)]
    simp

theorem memcpy_eq {M : List (Option α)} (hR : R.length = M.length)
    (A E B C : List (Option α)) :
    memcpy (A ++ R ++ E) A.length (B ++ M ++ C) B.length M.length = some (A ++ M ++ E) := by
  rw [memcpy, if_pos (by simp; omega)]
  simp [← hR, List.drop_append]

/-- Moving a range downwards by `g` cells. -/
theorem memmove_down {g n : ℕ} {L : List (Option α)} (hL : L.length = g + n)
    (A E : List (Option α)) : memmove (A ++ L ++ E) A.length (A.length + g) n =
      some (A ++ (L.drop g ++ L.drop n) ++ E) := by
  have hA : ∀ k, A.drop (A.length + k) = [] := fun k => List.drop_eq_nil_of_le (by omega)
  have hM : (L.drop g).length = n := by rw [List.length_drop]; omega
  rw [memmove, memcpy, if_pos (by simp; omega)]
  simp [List.drop_append, hA, ← hM]

/-- Moving a range upwards by `g` cells. -/
theorem memmove_up {g n : ℕ} {L : List (Option α)} (hL : L.length = n + g)
    (A E : List (Option α)) : memmove (A ++ L ++ E) (A.length + g) A.length n =
      some (A ++ (L.take g ++ L.take n) ++ E) := by
  have hA : A.drop (A.length + g + n) = [] := List.drop_eq_nil_of_le (by omega)
  have hE : A.length + g + n - A.length = g + n := by omega
  rw [memmove, memcpy, if_pos (by simp; omega)]
  simp [List.take_append, List.drop_append, hA, hE, hL, Nat.add_comm g n]

end Ranges

/-! ## Leaving the buffer -/

section Outside

variable {ok : Option α → Bool} {x : α}

theorem fillUp_eq_none {b : List (Option α)} {i n : ℕ} (hn : 0 < n) (h : b.length < i + n) :
    fillUp ok x b i n = none := by
  induction n generalizing b i with
  | zero => omega
  | succ n ih =>
    rw [fillUp]
    cases hc : store ok b i x with
    | none => rfl
    | some c =>
      obtain ⟨hi, hlen⟩ := length_store hc
      exact ih (by omega) (by omega)

theorem copyFrom_eq_none {src b : List (Option α)} {d s n : ℕ} (hn : 0 < n)
    (h : b.length < d + n) : copyFrom ok src b d s n = none := by
  induction n generalizing b d s with
  | zero => omega
  | succ n ih =>
    rw [copyFrom]
    cases read src s with
    | none => rfl
    | some y =>
      simp only [Option.bind_eq_bind, Option.bind_some]
      cases hc : store ok b d y with
      | none => rfl
      | some c =>
        obtain ⟨hd, hlen⟩ := length_store hc
        exact ih (by omega) (by omega)

theorem memcpy_eq_none {src b : List (Option α)} {d s n : ℕ} (h : b.length < d + n) :
    memcpy b d src s n = none :=
  if_neg (by omega)

end Outside

end Cells
