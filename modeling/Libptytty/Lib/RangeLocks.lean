import Mathlib

/-!
# Record locks

Exclusive locks on ranges of a file, as POSIX has them: a lock belongs to its owner, an owner's own
locks never conflict, setting and clearing a range replaces what the owner held there, and closing
the file drops everything the owner holds.

A range that is set or cleared runs from an offset to the end of all offsets. What matters about a
table is whom each offset belongs to (`Covers`); the operations are described by it, and `Exclusive`
is what setting locks without conflict keeps.
-/

namespace RangeLocks

/-- The offsets from `lo` up to `hi`, or without end. -/
structure Lock (ι : Type*) where
  owner : ι
  lo : ℕ
  hi : Option ℕ

variable {ι : Type*}

/-- The offset `i` is in the range. -/
def Lock.Has (l : Lock ι) (i : ℕ) : Prop := l.lo ≤ i ∧ ∀ h ∈ l.hi, i < h

/-- The range reaches the offsets from `a` on. -/
def Lock.reaches (l : Lock ι) (a : ℕ) : Bool :=
  match l.hi with
  | none => true
  | some h => max l.lo a < h

/-- What is left of the range below `a`. -/
def Lock.below (l : Lock ι) (a : ℕ) : Lock ι :=
  { l with hi := some (match l.hi with | none => a | some h => min h a) }

/-- The offset `i` is locked by `p`. -/
def Covers (t : List (Lock ι)) (p : ι) (i : ℕ) : Prop :=
  ∃ l ∈ t, l.owner = p ∧ l.Has i

/-- No offset is locked twice. -/
def Exclusive (t : List (Lock ι)) : Prop :=
  ∀ p q i, Covers t p i → Covers t q i → p = q

theorem exclusive_nil : Exclusive ([] : List (Lock ι)) := by
  rintro p q i ⟨l, hl, -⟩
  cases hl

theorem Lock.has_below {l : Lock ι} {a i : ℕ} : (l.below a).Has i ↔ l.Has i ∧ i < a := by
  unfold Lock.Has Lock.below
  cases l.hi with
  | none => simp
  | some h =>
    simp only [Option.mem_def, Option.some.injEq, forall_eq']
    omega

theorem Lock.reaches_iff {l : Lock ι} {a : ℕ} : l.reaches a = true ↔ ∃ i, a ≤ i ∧ l.Has i := by
  unfold Lock.reaches Lock.Has
  cases l.hi with
  | none => simpa using ⟨max a l.lo, le_max_left _ _, le_max_right _ _⟩
  | some h =>
    simp only [Option.mem_def, Option.some.injEq, forall_eq', decide_eq_true_eq]
    constructor
    · intro hlt
      exact ⟨max l.lo a, le_max_right _ _, le_max_left _ _, hlt⟩
    · rintro ⟨i, ha, hlo, hi⟩
      omega

/-! ## Setting, clearing and dropping -/

variable [DecidableEq ι]

/-- Another owner holds an offset from `a` on. -/
def conflict (t : List (Lock ι)) (p : ι) (a : ℕ) : Bool :=
  t.any fun l => l.owner ≠ p && l.reaches a

/-- Clear the owner's locks from `a` on. -/
def clear (t : List (Lock ι)) (p : ι) (a : ℕ) : List (Lock ι) :=
  t.map fun l => if l.owner = p then l.below a else l

/-- Lock from `a` on, unless that conflicts. -/
def set (t : List (Lock ι)) (p : ι) (a : ℕ) : Option (List (Lock ι)) :=
  if conflict t p a then none else some (⟨p, a, none⟩ :: clear t p a)

/-- Drop all locks of the owner. -/
def drop (t : List (Lock ι)) (p : ι) : List (Lock ι) :=
  t.filter fun l => l.owner ≠ p

variable {t t' : List (Lock ι)} {p q : ι} {a i : ℕ}

theorem conflict_iff : conflict t p a = true ↔ ∃ q i, q ≠ p ∧ a ≤ i ∧ Covers t q i := by
  simp only [conflict, List.any_eq_true, Bool.and_eq_true, decide_eq_true_eq, Lock.reaches_iff]
  constructor
  · rintro ⟨l, hl, hne, i, ha, hi⟩
    exact ⟨l.owner, i, hne, ha, l, hl, rfl, hi⟩
  · rintro ⟨q, i, hne, ha, l, hl, rfl, hi⟩
    exact ⟨l, hl, hne, i, ha, hi⟩

theorem covers_clear : Covers (clear t p a) q i ↔ Covers t q i ∧ (q = p → i < a) := by
  constructor
  · rintro ⟨l', hl', rfl, hi⟩
    obtain ⟨l, hl, rfl⟩ := List.mem_map.mp hl'
    split_ifs at hi ⊢ with h
    · obtain ⟨hi, ha⟩ := Lock.has_below.mp hi
      exact ⟨⟨l, hl, rfl, hi⟩, fun _ => ha⟩
    · exact ⟨⟨l, hl, rfl, hi⟩, fun hp => absurd hp h⟩
  · rintro ⟨⟨l, hl, rfl, hi⟩, ha⟩
    by_cases h : l.owner = p
    · refine ⟨l.below a, List.mem_map.mpr ⟨l, hl, if_pos h⟩, rfl, ?_⟩
      exact Lock.has_below.mpr ⟨hi, ha h⟩
    · exact ⟨l, List.mem_map.mpr ⟨l, hl, if_neg h⟩, rfl, hi⟩

theorem covers_drop : Covers (drop t p) q i ↔ q ≠ p ∧ Covers t q i := by
  constructor
  · rintro ⟨l, hl, rfl, hi⟩
    obtain ⟨hl, hne⟩ := List.mem_filter.mp hl
    exact ⟨of_decide_eq_true hne, l, hl, rfl, hi⟩
  · rintro ⟨hne, l, hl, rfl, hi⟩
    exact ⟨l, List.mem_filter.mpr ⟨hl, decide_eq_true hne⟩, rfl, hi⟩

theorem covers_set (h : set t p a = some t') :
    Covers t' q i ↔ (q = p ∧ a ≤ i) ∨ Covers t q i ∧ (q = p → i < a) := by
  unfold set at h
  split_ifs at h
  cases h
  rw [← covers_clear]
  constructor
  · rintro ⟨l, hl, rfl, hi⟩
    rcases List.mem_cons.mp hl with rfl | hl
    · exact .inl ⟨rfl, hi.1⟩
    · exact .inr ⟨l, hl, rfl, hi⟩
  · rintro (⟨rfl, ha⟩ | ⟨l, hl, rfl, hi⟩)
    · exact ⟨_, List.mem_cons_self, rfl, ha, by simp⟩
    · exact ⟨l, List.mem_cons_of_mem _ hl, rfl, hi⟩

theorem not_covers_of_set (h : set t p a = some t') (hq : q ≠ p) (ha : a ≤ i) :
    ¬ Covers t q i := by
  intro hi
  have hcon : conflict t p a = true := conflict_iff.mpr ⟨q, i, hq, ha, hi⟩
  rw [set, if_pos hcon] at h
  cases h

theorem Exclusive.clear (ht : Exclusive t) (p : ι) (a : ℕ) : Exclusive (clear t p a) := by
  intro q r i hq hr
  exact ht q r i (covers_clear.mp hq).1 (covers_clear.mp hr).1

theorem Exclusive.drop (ht : Exclusive t) (p : ι) : Exclusive (drop t p) := by
  intro q r i hq hr
  exact ht q r i (covers_drop.mp hq).2 (covers_drop.mp hr).2

/-- Locks that are set without conflict stay exclusive. -/
theorem Exclusive.set (ht : Exclusive t) (h : set t p a = some t') : Exclusive t' := by
  intro q r i hq hr
  rcases (covers_set h).mp hq with ⟨rfl, ha⟩ | ⟨hq, -⟩ <;>
    rcases (covers_set h).mp hr with ⟨rfl, hb⟩ | ⟨hr, -⟩
  · rfl
  · by_contra hne
    exact not_covers_of_set h (Ne.symm hne) ha hr
  · by_contra hne
    exact not_covers_of_set h hne hb hq
  · exact ht q r i hq hr

end RangeLocks
