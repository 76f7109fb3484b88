import Mathlib
import Libptytty.Estl.Lists

/-!
# Failed allocations

An operation whose allocation fails should leave the vector as it was. `reserve` asks for the block
before it changes a member, and the assignments build a temporary; `ins` sets `res` first, so the
three inserts leave a vector behind that believes in a capacity its buffer does not have, unless
`good_size` happens to give the capacity that it had.
-/

namespace Libptytty.Simplevec

open Cells Machine

variable {α β γ : Type}

/-! ## Operations that allocate nothing -/

/-- The operation does not throw. -/
def NoThrow (x : VecM α β) : Prop :=
  ∀ v w, x v ≠ .error .badAlloc w

theorem noThrow_pure (b : β) : NoThrow (pure b : VecM α β) := by
  rintro v w ⟨⟩

theorem noThrow_get : NoThrow (get : VecM α (Vec α)) := by
  rintro v w ⟨⟩

theorem noThrow_set (u : Vec α) : NoThrow (set u : VecM α PUnit) := by
  rintro v w ⟨⟩

theorem noThrow_access (o : Option β) : NoThrow (liftM (access o) : VecM α β) := by
  cases o <;> rintro v w ⟨⟩

theorem NoThrow.bind {x : VecM α β} {f : β → VecM α γ} (hx : NoThrow x) (hf : ∀ b, NoThrow (f b)) :
    NoThrow (x >>= f) := by
  intro v w h
  cases hr : x v with
  | ok b u =>
    rw [bind_ok hr] at h
    exact hf b u w h
  | error s u =>
    rw [bind_error hr] at h
    cases h
    exact hx v _ hr

section

variable (P : Target) (T : ElemType α)

theorem noThrow_insShift (p n : ℕ) : NoThrow (insShift P T p n) :=
  noThrow_get.bind fun _ => (noThrow_access _).bind fun _ => (noThrow_access _).bind fun _ =>
    noThrow_set _

theorem noThrow_popBack : NoThrow (popBack P T) :=
  noThrow_get.bind fun _ => (noThrow_access _).bind fun _ => noThrow_set _

theorem noThrow_clear : NoThrow (clear T) :=
  noThrow_get.bind fun _ => (noThrow_access _).bind fun _ => noThrow_set _

theorem noThrow_eraseRange (p q : ℕ) : NoThrow (eraseRange P T p q) :=
  noThrow_get.bind fun _ => (noThrow_access _).bind fun _ => (noThrow_access _).bind fun _ =>
    (noThrow_set _).bind fun _ => noThrow_pure _

theorem noThrow_erase (p : ℕ) : NoThrow (erase P T p) := by
  refine noThrow_get.bind fun v => ?_
  split_ifs
  · exact (noThrow_eraseRange P T p (p + 1)).bind fun _ => noThrow_pure _
  · exact noThrow_pure _

end

/-! ## Operations whose allocation fails -/

section

variable {P : Target} {T : ElemType α} {v w : Vec α} {n : ℕ}

theorem reserve_none (h : v.res < n) : reserve P T none n v = .error .badAlloc v := by
  rw [reserve, get_bind, if_pos h]
  rfl

theorem reserve_failed {f : Unit → VecM α β} (hf : ∀ b, NoThrow (f b))
    (h : (reserve P T none n >>= f) v = .error .badAlloc w) : w = v := by
  by_cases hn : v.res < n
  · rw [bind_error (reserve_none hn)] at h
    cases h
    rfl
  · rw [bind_ok (reserve_of_le (by omega) none)] at h
    exact absurd h (hf () v w)

/-- `ins` has changed the capacity when the exception leaves it. -/
theorem ins_none (h : v.res < P.wrap (v.sze + n)) (p : ℕ) : ins P T none p n v =
    .error .badAlloc { v with res := P.goodSize (P.wrap (v.sze + n)) } := by
  have hgrow : insGrow P T none n v =
      .error .badAlloc { v with res := P.goodSize (P.wrap (v.sze + n)) } := by
    rw [insGrow, get_bind, if_pos h]
    rfl
  exact bind_error hgrow _

theorem ins_failed {p : ℕ} {f : Unit → VecM α β} (hf : ∀ b, NoThrow (f b))
    (h : (ins P T none p n >>= f) v = .error .badAlloc w) :
    v.res < P.wrap (v.sze + n) ∧ w = { v with res := P.goodSize (P.wrap (v.sze + n)) } := by
  by_cases hn : v.res < P.wrap (v.sze + n)
  · rw [bind_error (ins_none hn p)] at h
    cases h
    exact ⟨hn, rfl⟩
  · have hins : ins P T none p n v = insShift P T p n v := bind_ok (insGrow_of_le (by omega) none) _
    cases hr : insShift P T p n v with
    | ok b u =>
      rw [bind_ok (hins.trans hr)] at h
      exact absurd h (hf b u w)
    | error s u =>
      rw [bind_error (hins.trans hr)] at h
      cases h
      exact absurd hr (noThrow_insShift P T p n v _)

theorem assignFill_failed {t : Ref α} {f : Unit → VecM α β}
    (h : (assignFill P T none n t >>= f) v = .error .badAlloc w) : w = v := by
  cases ht : t.read v.buf with
  | none =>
    have hr : assignFill P T none n t v = .error .fault v := by
      rw [assignFill, get_bind, access_bind_none ht]
    rw [bind_error hr] at h
    cases h
  | some x =>
    have hr : assignFill P T none n t v = .error .badAlloc v := by
      rw [assignFill, get_bind, access_bind ht]
      rfl
    rw [bind_error hr] at h
    cases h
    rfl

end

/-! ## The guarantee and where it holds -/

/-- A call, or `operator=` from the vector `u`, which may be the same. -/
inductive Mutation (α : Type)
  | call (c : Call α)
  | assign (u : Vec α)

/-- The number of elements that one of the three inserts adds, as a `size_type`. -/
def Call.inserted (P : Target) : Call α → Option ℕ
  | .insert _ _ => some 1
  | .insertRange _ zs => some (P.wrap zs.length)
  | .insertFill _ n _ => some n
  | _ => none

namespace Mutation

def run (P : Target) (T : ElemType α) (a : Option (Fresh α)) : Mutation α → VecM α (Option ℕ)
  | .call c => c.run P T a
  | .assign u => do assignVec P T a u; return none

def inserted (P : Target) : Mutation α → Option ℕ
  | .call c => c.inserted P
  | .assign _ => none

end Mutation

/-- The world of one vector. -/
def World.alone (v : Vec α) : World α :=
  .running (Function.update (fun _ => none) 0 (some v)) none

/-- The vector is as before, its capacity is that of its buffer, and later operations stay inside
the buffer. -/
structure Unharmed (P : Target) (T : ElemType α) (v w : Vec α) : Prop where
  same : w = v
  capacity : w.buf.cells.length = w.res
  later : ∀ ops : List (Op α),
    Along (step P T) (fun s op => op.Valid P s ∧ op.Fair P T s) (World.alone w) ops →
      Along (step P T) (fun s op => op.Correct P T s) (World.alone w) ops

section

variable {P : Target} {T : ElemType α} {v w : Vec α} {xs : List α}

theorem World.inv_alone (hv : Holds T v xs) (hlen : xs.length < 2 ^ P.sizeType) :
    (World.alone v).Inv P T := by
  have hinit : (World.init (α := α)).Inv P T := by
    intro k u hu
    cases hu
  exact hinit.put hv hlen 0 none

theorem Unharmed.refl (hv : Holds T v xs) (hlen : xs.length < 2 ^ P.sizeType) :
    Unharmed P T v v :=
  ⟨rfl, hv.res, fun _ hops => correct_of_inv (World.inv_alone hv hlen) hops⟩

/-- A failed allocation leaves the vector alone, but for an insert. -/
theorem Call.run_failed {c : Call α} (hc : c.inserted P = none)
    (h : c.run P T none v = .error .badAlloc w) : w = v := by
  cases c with
  | insert p t => cases hc
  | insertRange p zs => cases hc
  | insertFill p n t => cases hc
  | pushBack t =>
    cases hr : Simplevec.pushBack P T none t v with
    | ok b u =>
      rw [run, bind_ok hr] at h
      cases h
    | error s u =>
      rw [run, bind_error hr] at h
      cases h
      rw [Simplevec.pushBack, get_bind] at hr
      exact reserve_failed (fun _ => noThrow_get.bind fun _ => (noThrow_access _).bind fun _ =>
        (noThrow_access _).bind fun _ => noThrow_set _) hr
  | popBack => exact absurd h (((noThrow_popBack P T).bind fun _ => noThrow_pure _) v w)
  | erase p => exact absurd h (((noThrow_erase P T p).bind fun _ => noThrow_pure _) v w)
  | eraseRange p q =>
    exact absurd h (((noThrow_eraseRange P T p q).bind fun _ => noThrow_pure _) v w)
  | reserve n => exact reserve_failed (fun _ => noThrow_pure _) h
  | resize n =>
    cases hr : Simplevec.resize P T none n v with
    | ok b u =>
      rw [run, bind_ok hr] at h
      cases h
    | error s u =>
      rw [run, bind_error hr] at h
      cases h
      refine reserve_failed (fun _ => noThrow_get.bind fun _ => ?_) hr
      split_ifs
      · exact noThrow_set _
      · exact (noThrow_access _).bind fun _ => (noThrow_access _).bind fun _ => noThrow_set _
  | clear => exact absurd h (((noThrow_clear T).bind fun _ => noThrow_pure _) v w)
  | assignRange s =>
    rw [run, get_bind] at h
    cases h
    rfl
  | assignFill n t => exact assignFill_failed h

/-- A failed insert leaves the capacity behind that it wanted. -/
theorem Call.run_failed_insert {c : Call α} (hc : c.inserted P = some n)
    (h : c.run P T none v = .error .badAlloc w) :
    v.res < P.wrap (v.sze + n) ∧ w = { v with res := P.goodSize (P.wrap (v.sze + n)) } := by
  cases c with
  | insert p t =>
    cases hc
    rw [run, Simplevec.insert, bind_assoc] at h
    refine ins_failed (fun _ => ?_) h
    exact (noThrow_get.bind fun _ => (noThrow_access _).bind fun _ => (noThrow_access _).bind
      fun _ => (noThrow_set _).bind fun _ => noThrow_pure _).bind fun _ => noThrow_pure _
  | insertRange p zs =>
    cases hc
    rw [run, Simplevec.insertRange, bind_assoc] at h
    refine ins_failed (fun _ => ?_) h
    exact (noThrow_get.bind fun _ => (noThrow_access _).bind fun _ => (noThrow_set _).bind
      fun _ => noThrow_pure _).bind fun _ => noThrow_pure _
  | insertFill p m t =>
    cases hc
    rw [run, Simplevec.insertFill, bind_assoc] at h
    refine ins_failed (fun _ => ?_) h
    exact (noThrow_get.bind fun _ => (noThrow_access _).bind fun _ => (noThrow_set _).bind
      fun _ => noThrow_pure _).bind fun _ => noThrow_pure _
  | pushBack | popBack | erase | eraseRange | reserve | resize | clear | assignRange
  | assignFill => cases hc

/-- **The guarantee after a failed allocation**, exactly: it holds for every operation that may
allocate but the three inserts, and for an insert if the capacity that it sets before it allocates
is the one that the vector has. -/
theorem unharmed_iff (hv : Holds T v xs) (hlen : xs.length < 2 ^ P.sizeType) {m : Mutation α}
    (hfail : m.run P T none v = .error .badAlloc w) :
    Unharmed P T v w ↔ ∀ n ∈ m.inserted P, P.goodSize (P.wrap (v.sze + n)) = v.res := by
  have hunharmed : w = v → Unharmed P T v w := by
    rintro rfl
    exact .refl hv hlen
  cases m with
  | assign u =>
    obtain rfl : v = w := by
      cases hfail
      rfl
    exact ⟨fun _ => by rintro n ⟨⟩, fun _ => hunharmed rfl⟩
  | call c =>
    cases hc : c.inserted P with
    | none =>
      have hsame := Call.run_failed hc hfail
      refine ⟨fun _ n hn => ?_, fun _ => hunharmed hsame⟩
      rw [Mutation.inserted, hc] at hn
      cases hn
    | some n =>
      obtain ⟨-, hw⟩ := Call.run_failed_insert hc hfail
      constructor
      · intro h m hm
        rw [Mutation.inserted, hc] at hm
        cases hm
        exact congrArg Vec.res (hw.symm.trans h.same)
      · intro h
        have hgood := h n hc
        exact hunharmed (by rw [hw, hgood])

/-- With a 32-bit `size_type` every failed insert within `max_size ()` does harm. -/
theorem not_unharmed_of_inserted (hP : P.Host) {c : Call α} (hc : c.inserted P = some n)
    (hmax : v.sze + n ≤ P.maxSize) (hfail : c.run P T none v = .error .badAlloc w) :
    ¬ Unharmed P T v w := by
  intro h
  obtain ⟨hgrow, hw⟩ := Call.run_failed_insert hc hfail
  have hgood := congrArg Vec.res (hw.symm.trans h.same)
  rw [Target.wrap_eq (Target.lt_of_le_maxSize hmax)] at hgrow hgood
  exact absurd hgood (hgrow.trans (hP.lt_goodSize hmax)).ne'

end

/-- A vector of two elements in a buffer of two cells. -/
def pair : Vec ℕ := ⟨2, 2, ⟨1, [some 7, some 8]⟩⟩

theorem holds_pair : Holds podElem pair [7, 8] := ⟨rfl, rfl, [], rfl, by rintro c ⟨⟩⟩

/-- A `resize`; an insert; and an insert of 2^32 - 1 copies with the large memory model, where
`good_size` gives 2 again. -/
theorem unharmed_iff_pair : Unharmed lp64 podElem pair pair ∧
    ¬ Unharmed lp64 podElem pair { pair with res := 4 } ∧
      insertFill lp64Large podElem none 2 (2 ^ 32 - 1) (.outside 9) pair = .error .badAlloc pair ∧
        Unharmed lp64Large podElem pair pair := by
  have hgood : lp64Large.goodSize (lp64Large.wrap (2 + (2 ^ 32 - 1))) = 2 := by decide
  have hlarge : insertFill lp64Large podElem none 2 (2 ^ 32 - 1) (.outside 9) pair =
      .error .badAlloc pair :=
    (bind_error (ins_none (by decide) 2) _).trans (by rw [pair, hgood])
  refine ⟨?_, fun h => ?_, hlarge, ?_⟩
  · refine (unharmed_iff holds_pair (by decide) (m := .call (.resize 3)) rfl).mpr ?_
    rintro n ⟨⟩
  · have hinsert := (unharmed_iff holds_pair (by decide)
      (m := .call (.insert 0 (.outside 6))) rfl).mp h 1 rfl
    exact absurd hinsert (by decide)
  · refine (unharmed_iff holds_pair (by decide)
      (m := .call (.insertFill 2 (2 ^ 32 - 1) (.outside 9))) (bind_error hlarge _)).mpr ?_
    rintro n ⟨⟩
    exact hgood

/-- The guarantee for every vector and every operation. -/
def FailureHarmless (P : Target) (T : ElemType α) : Prop :=
  ∀ (v w : Vec α) (xs : List α) (m : Mutation α), Holds T v xs → xs.length < 2 ^ P.sizeType →
    m.run P T none v = .error .badAlloc w → Unharmed P T v w

/-- An insert into the full pair fails and leaves a capacity of 4; the `push_back` that follows
takes it at its word and writes behind the buffer. -/
theorem not_failureHarmless : ¬ FailureHarmless lp64 podElem ∧
    ∃ w u, insert lp64 podElem none 0 (.outside 6) pair = .error .badAlloc w ∧
      w.res = 4 ∧ w.buf.cells.length = 2 ∧
      pushBack lp64 podElem (some (zeroed 2)) (.outside 9) w = .error .fault u := by
  refine ⟨fun h => ?_, _, _, rfl, rfl, rfl, rfl⟩
  have hins := h pair _ [7, 8] (.call (.insert 0 (.outside 6))) holds_pair (by decide) rfl
  exact absurd hins.capacity (by decide)

end Libptytty.Simplevec
