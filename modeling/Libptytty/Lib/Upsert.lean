import Mathlib

/-!
# Replacing a record or adding it

`upsert p u l` replaces the first element of `l` that meets `p` by `u`, and adds `u` at the end if
there is none: the update of a table that is searched from its start.

`Owned` is a table whose elements are looked up by keys, some of which have an owner at the moment.
-/

namespace Upsert

variable {α : Type*}

/-- `u` replaces the first element with `p`, or is appended. -/
def upsert (p : α → Bool) (u : α) : List α → List α
  | [] => [u]
  | x :: xs => if p x then u :: xs else x :: upsert p u xs

variable {p q : α → Bool} {u : α}

/-- Searching for `p` afterwards finds the new element. -/
theorem find?_upsert (hu : p u = true) (l : List α) : (upsert p u l).find? p = some u := by
  induction l with
  | nil => simp [upsert, hu]
  | cons x xs ih =>
    unfold upsert
    by_cases hx : p x = true
    · rw [if_pos hx, List.find?_cons_of_pos hu]
    · rw [if_neg hx, List.find?_cons_of_neg hx, ih]

/-- Searching for something else finds the same as before. -/
theorem find?_upsert_of_disjoint (hpq : ∀ x, p x = true → q x = false) (hu : q u = false)
    (l : List α) : (upsert p u l).find? q = l.find? q := by
  induction l with
  | nil => simp [upsert, hu]
  | cons x xs ih =>
    unfold upsert
    by_cases hx : p x = true
    · rw [if_pos hx, List.find?_cons_of_neg (by simp [hu]),
        List.find?_cons_of_neg (by simp [hpq x hx])]
    · rw [if_neg hx, List.find?_cons, List.find?_cons, ih]

/-- The elements without `p` stay as they are. -/
theorem filter_upsert (hpq : ∀ x, p x = true → q x = false) (hu : q u = false) (l : List α) :
    (upsert p u l).filter q = l.filter q := by
  induction l with
  | nil => simp [upsert, hu]
  | cons x xs ih =>
    unfold upsert
    by_cases hx : p x = true
    · rw [if_pos hx, List.filter_cons_of_neg (by simp [hu]),
        List.filter_cons_of_neg (by simp [hpq x hx])]
    · rw [if_neg hx, List.filter_cons, List.filter_cons, ih]

/-- Only the position that the search finds is written. -/
theorem getElem?_upsert (l : List α) (k : ℕ) :
    (upsert p u l)[k]? = if k = l.findIdx p then some u else l[k]? := by
  induction l generalizing k with
  | nil => cases k <;> simp [upsert]
  | cons x xs ih =>
    unfold upsert
    rw [List.findIdx_cons]
    cases hx : p x with
    | true => cases k <;> simp
    | false => cases k <;> simp [ih]

/-- The new element is found where the old one was. -/
theorem findIdx_upsert (hu : p u = true) (l : List α) : (upsert p u l).findIdx p = l.findIdx p := by
  induction l with
  | nil => simp [upsert, hu]
  | cons x xs ih =>
    unfold upsert
    by_cases hx : p x = true
    · rw [if_pos hx, List.findIdx_cons, List.findIdx_cons, hx, hu]
    · rw [if_neg hx, List.findIdx_cons, List.findIdx_cons, ih]

/-- What was found under another key is found at the same place. -/
theorem findIdx_upsert_of_disjoint (hpq : ∀ x, p x = true → q x = false) (hu : q u = false)
    {l : List α} (hl : l.findIdx q < l.length) : (upsert p u l).findIdx q = l.findIdx q := by
  induction l with
  | nil => cases hl
  | cons x xs ih =>
    unfold upsert
    by_cases hx : p x = true
    · rw [if_pos hx, List.findIdx_cons, List.findIdx_cons, hu, hpq x hx]
    · rw [if_neg hx]
      rw [List.findIdx_cons] at hl ⊢
      rw [List.findIdx_cons]
      cases hq : q x with
      | true => rfl
      | false =>
        rw [hq, cond_false, List.length_cons] at hl
        rw [cond_false, cond_false, ih (by omega)]

theorem length_le_upsert (l : List α) : l.length ≤ (upsert p u l).length := by
  induction l with
  | nil => exact Nat.zero_le _
  | cons x xs ih =>
    unfold upsert
    split_ifs
    · exact le_rfl
    · exact Nat.succ_le_succ ih

/-- Two tables that agree through `f` agree after the same update. -/
theorem map_upsert {β : Type*} {f : α → β} {p' : β → Bool} (hp : ∀ x, p' (f x) = p x) (l : List α) :
    (upsert p u l).map f = upsert p' (f u) (l.map f) := by
  induction l with
  | nil => rfl
  | cons x xs ih =>
    rw [List.map_cons]
    unfold upsert
    rw [hp x]
    by_cases hx : p x = true
    · rw [if_pos hx, if_pos hx, List.map_cons]
    · rw [if_neg hx, if_neg hx, List.map_cons, ih]

/-! ## Tables with owners -/

variable {κ : Type*} {key : κ → α → Bool} {done : α → Prop} {l₀ l : List α} {own own' : Set κ}

/-- Since `l₀`, the table has been changed only for the keys `own`, which are found in it, and
elsewhere by elements that are `done`. -/
structure Owned (key : κ → α → Bool) (done : α → Prop) (l₀ : List α) (own : Set κ) (l : List α) :
    Prop where
  found : ∀ k ∈ own, l.findIdx (key k) < l.length
  rest : ∀ n x, l[n]? = some x → l₀[n]? = some x ∨ done x ∨ ∃ k ∈ own, l.findIdx (key k) = n

theorem owned_self (l : List α) : Owned key done l ∅ l :=
  ⟨by rintro k ⟨⟩, fun _ _ h => Or.inl h⟩

/-- An update under the key `k`, which has an owner afterwards if the element is not `done`. -/
theorem Owned.upsert (h : Owned key done l₀ own l) {k : κ} (hu : key k u = true)
    (hapart : ∀ k' ∈ own, k' ≠ k → ∀ x, key k x = true → key k' x = false)
    (hown : ∀ k', k' ≠ k → (k' ∈ own' ↔ k' ∈ own)) (hk : k ∈ own' ∨ done u) :
    Owned key done l₀ own' (upsert (key k) u l) := by
  have hidx : (Upsert.upsert (key k) u l).findIdx (key k) = l.findIdx (key k) := findIdx_upsert hu l
  have hother : ∀ k' ∈ own, k' ≠ k →
      (Upsert.upsert (key k) u l).findIdx (key k') = l.findIdx (key k') := fun k' hk' hne =>
    findIdx_upsert_of_disjoint (hapart k' hk' hne) (hapart k' hk' hne u hu) (h.found k' hk')
  constructor
  · intro k' hk'
    by_cases hne : k' = k
    · subst hne
      refine List.findIdx_lt_length_of_exists ⟨u, ?_, hu⟩
      exact List.mem_of_find?_eq_some (find?_upsert hu l)
    · have hmem := (hown k' hne).mp hk'
      rw [hother k' hmem hne]
      exact (h.found k' hmem).trans_le (length_le_upsert l)
  · intro n x hx
    rw [getElem?_upsert] at hx
    split_ifs at hx with hn
    · -- the element written
      obtain rfl := Option.some.inj hx
      rcases hk with hk | hdone
      · exact Or.inr (Or.inr ⟨k, hk, hidx.trans hn.symm⟩)
      · exact Or.inr (Or.inl hdone)
    · refine (h.rest n x hx).imp_right (Or.imp_right ?_)
      rintro ⟨k', hk', rfl⟩
      have hne : k' ≠ k := by rintro rfl; exact hn rfl
      exact ⟨k', (hown k' hne).mpr hk', hother k' hk' hne⟩

end Upsert
