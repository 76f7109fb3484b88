import Mathlib

/-!
# Heaps whose addresses are reused

An address does not identify an object: after `free` it may be handed out again. Every allocation
therefore has a serial number of its own, which is what statements about objects speak of. The
program itself only sees addresses.
-/

namespace Memory

/-- An address; the null pointer is `0`. -/
abbrev Addr := ℕ

/-- An allocated object and the number of its allocation. -/
structure Cell (α : Type*) where
  serial : ℕ
  obj : α

/-- The objects that are allocated, by address. -/
structure Heap (α : Type*) where
  cells : Addr → Option (Cell α)
  /-- How many allocations there have been. -/
  created : ℕ
  lt_created : ∀ a c, cells a = some c → c.serial < created
  serial_inj : ∀ a b c d, cells a = some c → cells b = some d → c.serial = d.serial → a = b

namespace Heap

variable {α : Type*}

/-- The heap without objects. -/
def empty : Heap α := ⟨fun _ => none, 0, fun _ _ h => (nomatch h), fun _ _ _ _ h => (nomatch h)⟩

/-- Allocation of an object at `a`. -/
def alloc (a : Addr) (x : α) (h : Heap α) : Heap α where
  cells := Function.update h.cells a (some ⟨h.created, x⟩)
  created := h.created + 1
  lt_created := by
    intro b c hc
    by_cases hb : b = a
    · subst hb
      rw [Function.update_self] at hc
      cases hc
      exact Nat.lt_succ_self _
    · rw [Function.update_of_ne hb] at hc
      exact Nat.lt_succ_of_lt (h.lt_created b c hc)
  serial_inj := by
    intro b b' c c' hc hc' hs
    by_cases hb : b = a <;> by_cases hb' : b' = a
    · rw [hb, hb']
    · subst hb
      rw [Function.update_self] at hc
      rw [Function.update_of_ne hb'] at hc'
      cases hc
      exact absurd hs (h.lt_created _ _ hc').ne'
    · subst hb'
      rw [Function.update_self] at hc'
      rw [Function.update_of_ne hb] at hc
      cases hc'
      exact absurd hs (h.lt_created _ _ hc).ne
    · rw [Function.update_of_ne hb] at hc
      rw [Function.update_of_ne hb'] at hc'
      exact h.serial_inj _ _ _ _ hc hc' hs

/-- The object at `a` is freed. -/
def free (a : Addr) (h : Heap α) : Heap α where
  cells := Function.update h.cells a none
  created := h.created
  lt_created := by
    intro b c hc
    by_cases hb : b = a
    · subst hb; simp at hc
    · rw [Function.update_of_ne hb] at hc
      exact h.lt_created b c hc
  serial_inj := by
    intro b b' c c' hc hc' hs
    have hb : b ≠ a := by rintro rfl; simp at hc
    have hb' : b' ≠ a := by rintro rfl; simp at hc'
    rw [Function.update_of_ne hb] at hc
    rw [Function.update_of_ne hb'] at hc'
    exact h.serial_inj _ _ _ _ hc hc' hs

/-- The object at `a` is changed. -/
def modify (a : Addr) (f : α → α) (h : Heap α) : Heap α where
  cells b := if b = a then (h.cells b).map fun c => ⟨c.serial, f c.obj⟩ else h.cells b
  created := h.created
  lt_created := by
    intro b c hc
    split_ifs at hc with hb
    · obtain ⟨d, hd, rfl⟩ := Option.map_eq_some_iff.mp hc
      exact h.lt_created b d hd
    · exact h.lt_created b c hc
  serial_inj := by
    have key : ∀ b c, (if b = a then (h.cells b).map fun c => ⟨c.serial, f c.obj⟩
        else h.cells b) = some c → ∃ d, h.cells b = some d ∧ d.serial = c.serial := by
      intro b c hc
      split_ifs at hc with hb
      · obtain ⟨d, hd, rfl⟩ := Option.map_eq_some_iff.mp hc
        exact ⟨d, hd, rfl⟩
      · exact ⟨c, hc, rfl⟩
    intro b b' c c' hc hc' hs
    obtain ⟨d, hd, hds⟩ := key b c hc
    obtain ⟨d', hd', hds'⟩ := key b' c' hc'
    exact h.serial_inj _ _ _ _ hd hd' (by omega)

/-- The allocation `n` is still live. -/
def Live (h : Heap α) (n : ℕ) : Prop := ∃ a c, h.cells a = some c ∧ c.serial = n

theorem cells_alloc (a : Addr) (x : α) (h : Heap α) (b : Addr) :
    (h.alloc a x).cells b = if b = a then some ⟨h.created, x⟩ else h.cells b := by
  show Function.update h.cells a _ b = _
  by_cases hb : b = a
  · subst hb; simp
  · simp [hb]

theorem cells_free (a : Addr) (h : Heap α) (b : Addr) :
    (h.free a).cells b = if b = a then none else h.cells b := by
  show Function.update h.cells a none b = _
  by_cases hb : b = a
  · subst hb; simp
  · simp [hb]

theorem cells_modify (a : Addr) (f : α → α) (h : Heap α) (b : Addr) :
    (h.modify a f).cells b =
      if b = a then (h.cells b).map fun c => ⟨c.serial, f c.obj⟩ else h.cells b := rfl

@[simp] theorem created_alloc (a : Addr) (x : α) (h : Heap α) :
    (h.alloc a x).created = h.created + 1 := rfl

@[simp] theorem created_free (a : Addr) (h : Heap α) : (h.free a).created = h.created := rfl

@[simp] theorem created_modify (a : Addr) (f : α → α) (h : Heap α) :
    (h.modify a f).created = h.created := rfl

theorem isSome_modify (a : Addr) (f : α → α) (h : Heap α) (b : Addr) :
    ((h.modify a f).cells b).isSome = (h.cells b).isSome := by
  rw [cells_modify]
  split_ifs <;> simp

/-- The allocation that is live at an address. -/
def serialAt (h : Heap α) (a : Addr) : Option ℕ := (h.cells a).map Cell.serial

theorem serialAt_eq_none {h : Heap α} {a : Addr} : h.serialAt a = none ↔ h.cells a = none :=
  Option.map_eq_none_iff

@[simp] theorem isSome_serialAt (h : Heap α) (a : Addr) :
    (h.serialAt a).isSome = (h.cells a).isSome := Option.isSome_map

theorem live_iff_serialAt {h : Heap α} {n : ℕ} : h.Live n ↔ ∃ a, h.serialAt a = some n := by
  unfold Live serialAt
  simp

theorem serialAt_lt {h : Heap α} {a : Addr} {n : ℕ} (ha : h.serialAt a = some n) :
    n < h.created := by
  obtain ⟨c, hc, rfl⟩ := Option.map_eq_some_iff.mp ha
  exact h.lt_created a c hc

theorem serialAt_inj {h : Heap α} {a b : Addr} {n : ℕ} (ha : h.serialAt a = some n)
    (hb : h.serialAt b = some n) : a = b := by
  obtain ⟨c, hc, rfl⟩ := Option.map_eq_some_iff.mp ha
  obtain ⟨d, hd, hdc⟩ := Option.map_eq_some_iff.mp hb
  exact h.serial_inj _ _ _ _ hc hd hdc.symm

theorem serialAt_alloc (a : Addr) (x : α) (h : Heap α) (b : Addr) :
    (h.alloc a x).serialAt b = if b = a then some h.created else h.serialAt b := by
  unfold serialAt
  rw [cells_alloc]
  split_ifs <;> rfl

theorem serialAt_free (a : Addr) (h : Heap α) (b : Addr) :
    (h.free a).serialAt b = if b = a then none else h.serialAt b := by
  unfold serialAt
  rw [cells_free]
  split_ifs <;> rfl

@[simp] theorem serialAt_modify (a : Addr) (f : α → α) (h : Heap α) (b : Addr) :
    (h.modify a f).serialAt b = h.serialAt b := by
  unfold serialAt
  rw [cells_modify]
  split_ifs
  · cases h.cells b <;> rfl
  · rfl

theorem Live.lt {h : Heap α} {n : ℕ} (hn : h.Live n) : n < h.created := by
  obtain ⟨a, c, hc, rfl⟩ := hn
  exact h.lt_created a c hc

/-- There is always an address for a new object. -/
theorem exists_free (h : Heap α) : ∃ a, a ≠ 0 ∧ h.cells a = none := by
  by_contra hfull
  push Not at hfull
  have hcell : ∀ i, ∃ c, h.cells (i + 1) = some c := fun i =>
    Option.ne_none_iff_exists'.mp (hfull (i + 1) i.succ_ne_zero)
  choose cell hcell using hcell
  -- more objects than there have been allocations
  obtain ⟨i, -, j, -, hij, hserial⟩ := Finset.exists_ne_map_eq_of_card_lt_of_maps_to
    (s := Finset.range (h.created + 1)) (t := Finset.range h.created)
    (f := fun i => (cell i).serial) (by simp)
    (fun i _ => Finset.mem_range.mpr (h.lt_created _ _ (hcell i)))
  exact hij (Nat.succ_injective (h.serial_inj _ _ _ _ (hcell i) (hcell j) hserial))

/-- A new allocation is live, and so are the older ones if the address was free. -/
theorem live_alloc {a : Addr} {x : α} {h : Heap α} (ha : h.cells a = none) (n : ℕ) :
    (h.alloc a x).Live n ↔ n = h.created ∨ h.Live n := by
  constructor
  · rintro ⟨b, c, hc, rfl⟩
    rw [cells_alloc] at hc
    split_ifs at hc with hb
    · cases hc; exact Or.inl rfl
    · exact Or.inr ⟨b, c, hc, rfl⟩
  · rintro (rfl | ⟨b, c, hc, rfl⟩)
    · exact ⟨a, _, by rw [cells_alloc, if_pos rfl], rfl⟩
    · have hb : b ≠ a := by rintro rfl; rw [ha] at hc; cases hc
      exact ⟨b, c, by rw [cells_alloc, if_neg hb, hc], rfl⟩

/-- Freeing ends the life of exactly the object at that address. -/
theorem live_free {a : Addr} {c : Cell α} {h : Heap α} (ha : h.cells a = some c) (n : ℕ) :
    (h.free a).Live n ↔ h.Live n ∧ n ≠ c.serial := by
  constructor
  · rintro ⟨b, d, hd, rfl⟩
    rw [cells_free] at hd
    split_ifs at hd with hb
    exact ⟨⟨b, d, hd, rfl⟩, fun hs => hb (h.serial_inj _ _ _ _ hd ha hs)⟩
  · rintro ⟨⟨b, d, hd, rfl⟩, hne⟩
    have hb : b ≠ a := by
      rintro rfl
      rw [ha] at hd
      cases hd
      exact hne rfl
    exact ⟨b, d, by rw [cells_free, if_neg hb, hd], rfl⟩

theorem live_modify (a : Addr) (f : α → α) (h : Heap α) (n : ℕ) :
    (h.modify a f).Live n ↔ h.Live n := by
  constructor
  · rintro ⟨b, c, hc, rfl⟩
    rw [cells_modify] at hc
    split_ifs at hc
    · obtain ⟨d, hd, rfl⟩ := Option.map_eq_some_iff.mp hc
      exact ⟨b, d, hd, rfl⟩
    · exact ⟨b, c, hc, rfl⟩
  · rintro ⟨b, c, hc, rfl⟩
    by_cases hb : b = a
    · exact ⟨b, ⟨c.serial, f c.obj⟩, by rw [cells_modify, if_pos hb, hc]; rfl, rfl⟩
    · exact ⟨b, c, by rw [cells_modify, if_neg hb, hc], rfl⟩

/-- The allocation `n` is live, and its object is `x`. -/
def Holds (h : Heap α) (n : ℕ) (x : α) : Prop := ∃ a, h.cells a = some ⟨n, x⟩

theorem Holds.lt {h : Heap α} {n : ℕ} {x : α} (hn : h.Holds n x) : n < h.created := by
  obtain ⟨a, ha⟩ := hn
  exact h.lt_created a _ ha

/-- An allocation has one object. -/
theorem holds_iff_of_cells {h : Heap α} {a : Addr} {c : Cell α} (ha : h.cells a = some c) (x : α) :
    h.Holds c.serial x ↔ x = c.obj := by
  constructor
  · rintro ⟨b, hb⟩
    obtain rfl : b = a := h.serial_inj _ _ _ _ hb ha rfl
    rw [ha] at hb
    exact (congrArg Cell.obj (Option.some.inj hb)).symm
  · rintro rfl
    exact ⟨a, ha⟩

theorem live_iff_holds {h : Heap α} {n : ℕ} : h.Live n ↔ ∃ x, h.Holds n x := by
  constructor
  · rintro ⟨a, ⟨m, x⟩, ha, rfl⟩
    exact ⟨x, a, ha⟩
  · rintro ⟨x, a, ha⟩
    exact ⟨a, _, ha, rfl⟩

theorem holds_alloc {h : Heap α} {a : Addr} (ha : h.cells a = none) (y : α) {n : ℕ}
    (hn : n ≠ h.created) (x : α) : (h.alloc a y).Holds n x ↔ h.Holds n x := by
  refine exists_congr fun b => ?_
  rw [cells_alloc]
  split_ifs with hb
  · subst hb
    rw [ha]
    simp [hn.symm]
  · rfl

theorem holds_free {h : Heap α} {a : Addr} {c : Cell α} (ha : h.cells a = some c) (n : ℕ) (x : α) :
    (h.free a).Holds n x ↔ n ≠ c.serial ∧ h.Holds n x := by
  constructor
  · rintro ⟨b, hb⟩
    rw [cells_free] at hb
    split_ifs at hb with hba
    exact ⟨fun hs => hba (h.serial_inj _ _ _ _ hb ha hs), b, hb⟩
  · rintro ⟨hn, b, hb⟩
    have hba : b ≠ a := by
      rintro rfl
      rw [ha] at hb
      exact hn (congrArg Cell.serial (Option.some.inj hb)).symm
    exact ⟨b, by rw [cells_free, if_neg hba, hb]⟩

/-- Another object does not change. -/
theorem holds_modify_of_ne {h : Heap α} {a : Addr} {c : Cell α} (ha : h.cells a = some c)
    (f : α → α) {n : ℕ} (hn : n ≠ c.serial) (x : α) : (h.modify a f).Holds n x ↔ h.Holds n x := by
  refine exists_congr fun b => ?_
  rw [cells_modify]
  split_ifs with hb
  · subst hb
    rw [ha]
    simp only [Option.map_some, Option.some.injEq, Cell.mk.injEq]
    exact iff_of_false (fun hs => hn hs.1.symm) fun hs => hn (congrArg Cell.serial hs).symm
  · rfl

theorem holds_modify_self {h : Heap α} {a : Addr} {c : Cell α} (ha : h.cells a = some c)
    (f : α → α) (x : α) : (h.modify a f).Holds c.serial x ↔ x = f c.obj :=
  holds_iff_of_cells (c := ⟨c.serial, f c.obj⟩)
    (by rw [cells_modify, if_pos rfl, ha]; rfl) x

/-! ## Heaps as families of numbered objects -/

/-- `objs` are the live objects, by the number of their allocation. -/
def Indexed (h : Heap α) (objs : ℕ → Option α) : Prop := ∀ n x, objs n = some x ↔ h.Holds n x

theorem indexed_empty : (empty : Heap α).Indexed fun _ => none := by
  refine fun n x => iff_of_false (by rintro ⟨⟩) ?_
  rintro ⟨a, ha⟩
  cases ha

theorem Indexed.created {h : Heap α} {objs : ℕ → Option α} (hobjs : h.Indexed objs) :
    objs h.created = none :=
  Option.eq_none_iff_forall_ne_some.mpr fun x hx => lt_irrefl _ ((hobjs _ x).mp hx).lt

theorem Indexed.of_cells {h : Heap α} {objs : ℕ → Option α} (hobjs : h.Indexed objs) {a : Addr}
    {c : Cell α} (ha : h.cells a = some c) : objs c.serial = some c.obj :=
  (hobjs _ _).mpr ((holds_iff_of_cells ha _).mpr rfl)

/-- An update of a family, seen from each of its members. -/
theorem indexed_update {h : Heap α} {objs : ℕ → Option α} {n : ℕ} {y : Option α}
    (hn : ∀ x, y = some x ↔ h.Holds n x)
    (hother : ∀ m, m ≠ n → ∀ x, objs m = some x ↔ h.Holds m x) :
    h.Indexed (Function.update objs n y) := by
  intro m x
  by_cases hm : m = n
  · subst hm
    rw [Function.update_self]
    exact hn x
  · rw [Function.update_of_ne hm]
    exact hother m hm x

theorem Indexed.alloc {h : Heap α} {objs : ℕ → Option α} (hobjs : h.Indexed objs) {a : Addr}
    (ha : h.cells a = none) (x : α) :
    (h.alloc a x).Indexed (Function.update objs h.created (some x)) := by
  have hcell : (h.alloc a x).cells a = some ⟨h.created, x⟩ := by rw [cells_alloc, if_pos rfl]
  refine indexed_update (fun y => ?_) fun m hm y => ?_
  · exact (Option.some_inj.trans eq_comm).trans (holds_iff_of_cells hcell y).symm
  · exact (hobjs m y).trans (holds_alloc ha x hm y).symm

theorem Indexed.free {h : Heap α} {objs : ℕ → Option α} (hobjs : h.Indexed objs) {a : Addr}
    {c : Cell α} (ha : h.cells a = some c) :
    (h.free a).Indexed (Function.update objs c.serial none) := by
  refine indexed_update (fun y => ?_) fun m hm y => ?_
  · exact iff_of_false (by rintro ⟨⟩) fun hy => ((holds_free ha _ y).mp hy).1 rfl
  · exact (hobjs m y).trans ((holds_free ha m y).trans (and_iff_right hm)).symm

theorem Indexed.modify {h : Heap α} {objs : ℕ → Option α} (hobjs : h.Indexed objs) {a : Addr}
    {c : Cell α} (ha : h.cells a = some c) (f : α → α) :
    (h.modify a f).Indexed (Function.update objs c.serial (some (f c.obj))) := by
  refine indexed_update (fun y => ?_) fun m hm y => ?_
  · exact (Option.some_inj.trans eq_comm).trans (holds_modify_self ha f y).symm
  · exact (hobjs m y).trans (holds_modify_of_ne ha f hm y).symm

end Heap

end Memory
