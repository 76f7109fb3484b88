import Mathlib
import Libptytty.Lib.Machine
import Libptytty.Estl.Lists

/-!
# What growing costs

Whenever a call needs more room than there is, all elements are copied to a new block. Since
`good_size` yields the next power of two, a vector that grows by the calls that add elements pays
for that with a constant number of copies for each element added: `copied_le` is the potential rule
for the machine whose actions are the calls. Calls that take a capacity from their caller, such as
`reserve`, are left out.
-/

namespace Libptytty.Simplevec

open Cells Machine

variable {α : Type}

/-! ## Calls and their costs -/

/-- A call, with the block that `operator new` gives it if it asks for one. -/
def callStep (P : Target) (T : ElemType α) (v : Vec α) (c : Call α × Fresh α) : Option (Vec α) :=
  match c.1.run P T (some c.2) v with
  | .ok _ w => some w
  | .error _ _ => none

/-- The elements that a call adds to a vector of `sze` elements. -/
def Call.adds (sze : ℕ) : Call α → ℕ
  | .pushBack _ | .insert _ _ => 1
  | .insertRange _ zs => zs.length
  | .insertFill _ n _ => n
  | .resize n => n - sze
  | _ => 0

/-- The call adds or removes elements, and leaves the capacity to the vector. -/
def Call.Incremental : Call α → Prop
  | .reserve _ | .assignRange _ | .assignFill _ _ => False
  | _ => True

/-- The elements that a call copies to a new block: all, if the capacity changes. -/
def copies (P : Target) (T : ElemType α) (v : Vec α) (c : Call α × Fresh α) : ℕ :=
  match callStep P T v c with
  | some w => if w.res = v.res then 0 else v.sze
  | none => 0

/-- The elements that a sequence of calls copies to new blocks. -/
def copied (P : Target) (T : ElemType α) (v : Vec α) (cs : List (Call α × Fresh α)) : ℕ :=
  cost (callStep P T) (copies P T) v cs

/-- The elements that it adds. -/
def added (P : Target) (T : ElemType α) (v : Vec α) (cs : List (Call α × Fresh α)) : ℕ :=
  cost (callStep P T) (fun v c => c.1.adds v.sze) v cs

/-- The callers do what they owe, and set no capacity. -/
def Growing (P : Target) (T : ElemType α) (v : Vec α) (c : Call α × Fresh α) : Prop :=
  c.1.Incremental ∧ c.1.Valid P v v.toList ∧ c.1.Fair P T v v.toList

section

variable {P : Target} {T : ElemType α} {v w : Vec α} {xs : List α} {n : ℕ}

/-! ## The capacity after a call -/

/-- The capacity once there is room for `n` elements. -/
def capacityFor (P : Target) (v : Vec α) (n : ℕ) : ℕ := if v.res < n then P.goodSize n else v.res

theorem lift_bind_eq_ok {β γ : Type} {r : Except Stop β} {f : β → VecM α γ} {c : γ} :
    ((liftM r : VecM α β) >>= f) v = .ok c w ↔ ∃ b, r = .ok b ∧ f b v = .ok c w := by
  cases r with
  | ok b => simp [lift_bind rfl]
  | error s => simp [lift_bind_error rfl]

theorem res_reserve {a : Option (Fresh α)} {r : Unit} (h : reserve P T a n v = .ok r w) :
    w.res = capacityFor P v n ∧ w.sze = v.sze := by
  rw [reserve, get_bind] at h
  unfold capacityFor
  split_ifs at h ⊢ with hn
  · simp only [lift_bind_eq_ok] at h
    obtain ⟨nbuf, -, c, -, h⟩ := h
    obtain ⟨_, u, hu, h⟩ := bind_eq_ok.mp h
    rw [dealloc, get_bind] at hu
    simp only [lift_bind_eq_ok] at hu
    obtain ⟨b, -, _, -, hu⟩ := hu
    cases hu
    cases h
    exact ⟨rfl, rfl⟩
  · cases h
    exact ⟨rfl, rfl⟩

theorem res_insGrow {a : Option (Fresh α)} {r : Unit} (h : insGrow P T a n v = .ok r w) :
    w.res = capacityFor P v (P.wrap (v.sze + n)) := by
  rw [insGrow, get_bind] at h
  unfold capacityFor
  split_ifs at h ⊢ with hn
  · rw [set_bind] at h
    simp only [lift_bind_eq_ok] at h
    obtain ⟨nbuf, -, c, -, h⟩ := h
    obtain ⟨_, u, hu, h⟩ := bind_eq_ok.mp h
    rw [dealloc, get_bind] at hu
    simp only [lift_bind_eq_ok] at hu
    obtain ⟨b, -, _, -, hu⟩ := hu
    cases hu
    cases h
    rfl
  · cases h
    rfl

theorem res_ins {a : Option (Fresh α)} {p : ℕ} {r : Unit} (h : ins P T a p n v = .ok r w) :
    w.res = capacityFor P v (P.wrap (v.sze + n)) := by
  obtain ⟨_, u, hu, h⟩ := bind_eq_ok.mp h
  rw [(insShift_ok h).2.1, res_insGrow hu]

end

/-! ## What leaves the capacity alone -/

/-- A capacity `n` stays, if the operation succeeds. -/
def Keeps {β : Type} (n : ℕ) (x : VecM α β) : Prop :=
  ∀ v w b, v.res = n → x v = .ok b w → w.res = n

section

variable {β γ : Type} {n : ℕ}

theorem keeps_pure (b : β) : Keeps n (pure b : VecM α β) := by
  rintro v w c hv ⟨⟩
  exact hv

theorem keeps_set {u : Vec α} (hu : u.res = n) : Keeps n (set u : VecM α PUnit) := by
  rintro v w c - ⟨⟩
  exact hu

theorem keeps_access (o : Option β) : Keeps n (liftM (access o) : VecM α β) := by
  intro v w b hv h
  obtain ⟨-, rfl⟩ := access_eq_ok.mp h
  exact hv

theorem Keeps.bind {x : VecM α β} {f : β → VecM α γ} (hx : Keeps n x) (hf : ∀ b, Keeps n (f b)) :
    Keeps n (x >>= f) := by
  intro v w c hv h
  obtain ⟨b, u, hu, h⟩ := bind_eq_ok.mp h
  exact hf b u w c (hx v u b hv hu) h

theorem keeps_set_bind {u : Vec α} {f : PUnit → VecM α β} (hu : u.res = n)
    (hf : ∀ b, Keeps n (f b)) : Keeps n (set u >>= f) :=
  (keeps_set hu).bind hf

theorem keeps_get_bind {f : Vec α → VecM α β} (hf : ∀ v, v.res = n → Keeps n (f v)) :
    Keeps n (get >>= f) :=
  fun v w b hv h => hf v hv v w b hv h

variable (P : Target) (T : ElemType α)

theorem keeps_popBack : Keeps n (popBack P T) :=
  keeps_get_bind fun _ hv => (keeps_access _).bind fun _ => keeps_set hv

theorem keeps_clear : Keeps n (clear T) :=
  keeps_get_bind fun _ hv => (keeps_access _).bind fun _ => keeps_set hv

theorem keeps_eraseRange (p q : ℕ) : Keeps n (eraseRange P T p q) :=
  keeps_get_bind fun _ hv => (keeps_access _).bind fun _ => (keeps_access _).bind fun _ =>
    keeps_set_bind hv fun _ => keeps_pure _

theorem keeps_erase (p : ℕ) : Keeps n (erase P T p) := by
  refine keeps_get_bind fun v hv => ?_
  split_ifs
  · exact (keeps_eraseRange P T p (p + 1)).bind fun _ => keeps_pure _
  · exact keeps_pure _

end

/-! ## The capacity that a call leaves -/

/-- The number of elements for which a call makes room. -/
def Call.room (P : Target) (sze : ℕ) : Call α → ℕ
  | .pushBack _ | .insert _ _ => P.wrap (sze + 1)
  | .insertRange _ zs => P.wrap (sze + P.wrap zs.length)
  | .insertFill _ n _ => P.wrap (sze + n)
  | .resize n => n
  | _ => 0

section

variable {P : Target} {T : ElemType α} {v w : Vec α} {xs : List α} {n : ℕ} {β γ : Type}

/-- The capacity is settled by the first part of an operation. -/
theorem res_of_bind {x : VecM α β} {f : β → VecM α γ} {c : γ} (h : (x >>= f) v = .ok c w)
    (hx : ∀ b u, x v = .ok b u → u.res = n) (hf : ∀ b, Keeps n (f b)) : w.res = n := by
  obtain ⟨b, u, hu, h⟩ := bind_eq_ok.mp h
  exact hf b u w c (hx b u hu) h

theorem res_pushBack {a : Option (Fresh α)} {t : Ref α} {r : Unit}
    (h : pushBack P T a t v = .ok r w) : w.res = capacityFor P v (P.wrap (v.sze + 1)) := by
  rw [pushBack, get_bind] at h
  exact res_of_bind h (fun _ _ hu => (res_reserve hu).1) fun _ =>
    keeps_get_bind fun _ hv => (keeps_access _).bind fun _ => (keeps_access _).bind fun _ =>
      keeps_set hv

theorem res_resize {a : Option (Fresh α)} {r : Unit} (h : resize P T a n v = .ok r w) :
    w.res = capacityFor P v n := by
  refine res_of_bind h (fun _ _ hu => (res_reserve hu).1) fun _ => keeps_get_bind fun u hu => ?_
  split_ifs
  · exact keeps_set hu
  · exact (keeps_access _).bind fun _ => (keeps_access _).bind fun _ => keeps_set hu

theorem res_insert {a : Option (Fresh α)} {p : ℕ} {t : Ref α} {r : ℕ}
    (h : insert P T a p t v = .ok r w) : w.res = capacityFor P v (P.wrap (v.sze + 1)) :=
  res_of_bind h (fun _ _ hu => res_ins hu) fun _ => keeps_get_bind fun _ hv =>
    (keeps_access _).bind fun _ => (keeps_access _).bind fun _ => keeps_set_bind hv fun _ =>
      keeps_pure _

theorem res_insertRange {a : Option (Fresh α)} {p : ℕ} {zs : List α} {r : ℕ}
    (h : insertRange P T a p zs v = .ok r w) :
    w.res = capacityFor P v (P.wrap (v.sze + P.wrap zs.length)) :=
  res_of_bind h (fun _ _ hu => res_ins hu) fun _ => keeps_get_bind fun _ hv =>
    (keeps_access _).bind fun _ => keeps_set_bind hv fun _ => keeps_pure _

theorem res_insertFill {a : Option (Fresh α)} {p : ℕ} {t : Ref α} {r : ℕ}
    (h : insertFill P T a p n t v = .ok r w) : w.res = capacityFor P v (P.wrap (v.sze + n)) :=
  res_of_bind h (fun _ _ hu => res_ins hu) fun _ => keeps_get_bind fun _ hv =>
    (keeps_access _).bind fun _ => keeps_set_bind hv fun _ => keeps_pure _

theorem capacityFor_zero (v : Vec α) : capacityFor P v 0 = v.res := if_neg (Nat.not_lt_zero _)

theorem res_run {c : Call α} (hc : c.Incremental) {a : Option (Fresh α)} {r : Option ℕ}
    (h : c.run P T a v = .ok r w) : w.res = capacityFor P v (c.room P v.sze) := by
  cases c with
  | pushBack t => exact res_of_bind h (fun _ _ => res_pushBack) fun _ => keeps_pure _
  | insert p t => exact res_of_bind h (fun _ _ => res_insert) fun _ => keeps_pure _
  | insertRange p zs => exact res_of_bind h (fun _ _ => res_insertRange) fun _ => keeps_pure _
  | insertFill p n t => exact res_of_bind h (fun _ _ => res_insertFill) fun _ => keeps_pure _
  | resize n => exact res_of_bind h (fun _ _ => res_resize) fun _ => keeps_pure _
  | popBack =>
    refine Eq.trans ?_ (capacityFor_zero v).symm
    exact ((keeps_popBack P T).bind fun _ => keeps_pure _) v w r rfl h
  | erase p =>
    refine Eq.trans ?_ (capacityFor_zero v).symm
    exact ((keeps_erase P T p).bind fun _ => keeps_pure _) v w r rfl h
  | eraseRange p q =>
    refine Eq.trans ?_ (capacityFor_zero v).symm
    exact ((keeps_eraseRange P T p q).bind fun _ => keeps_pure _) v w r rfl h
  | clear =>
    refine Eq.trans ?_ (capacityFor_zero v).symm
    exact ((keeps_clear T).bind fun _ => keeps_pure _) v w r rfl h
  | reserve n | assignRange s | assignFill n t => cases hc

/-! ## What one call costs -/

/-- What has been paid in advance: two copies for each element, less those for which a capacity
that is a power of two has been bought. -/
def potential (v : Vec α) : ℕ := 2 * v.sze - if 2 ^ Nat.log2 v.res = v.res then v.res else 0

theorem Call.room_le (c : Call α) (sze : ℕ) : c.room P sze ≤ sze + c.adds sze := by
  cases c with
  | pushBack | insert | insertFill => exact Nat.mod_le _ _
  | insertRange p zs =>
    exact (Nat.mod_le _ _).trans (Nat.add_le_add_left (Nat.mod_le _ _) sze)
  | resize n =>
    show n ≤ sze + (n - sze)
    omega
  | _ => exact Nat.zero_le _

theorem Call.length_le {c : Call α} (hc : c.Incremental) (hvalid : c.Valid P v xs) {ys : List α}
    (hy : c.Yields xs ys) : ys.length ≤ xs.length + c.adds xs.length := by
  cases c with
  | pushBack t =>
    obtain ⟨x, -, rfl⟩ := hy
    simp [adds]
  | insert p t =>
    obtain ⟨x, -, rfl⟩ := hy
    simp [adds]
    omega
  | insertRange p zs =>
    cases hy
    simp [adds]
    omega
  | insertFill p n t =>
    obtain ⟨x, -, rfl⟩ := hy
    simp [adds]
    omega
  | popBack =>
    cases hy
    simp
    omega
  | erase p =>
    cases hy
    exact (List.length_eraseIdx_le xs p).trans (Nat.le_add_right _ _)
  | eraseRange p q =>
    cases hy
    have hpq := hvalid.1
    simp
    omega
  | resize n =>
    rw [hy.1]
    show n ≤ xs.length + (n - xs.length)
    omega
  | clear =>
    cases hy
    exact Nat.zero_le _
  | reserve n | assignRange s | assignFill n t => cases hc

theorem potential_grown {k : ℕ} (hP : P.Host) (hroom : v.res < n) (hmax : n ≤ P.maxSize)
    (hsze : v.sze ≤ v.res) (hn : n ≤ v.sze + k) (hw : w.sze ≤ v.sze + k)
    (hres : w.res = P.goodSize n) : v.sze + potential w ≤ potential v + 2 * k := by
  have h0 : n ≠ 0 := by omega
  have hgood : w.res = 2 ^ (Nat.log2 n + 1) := hres.trans (hP.goodSize_eq h0 hmax)
  have hlt : n < w.res := hgood ▸ Nat.lt_log2_self
  have hle : w.res ≤ 2 * n := by
    rw [hgood, pow_succ, Nat.mul_comm]
    exact Nat.mul_le_mul_left 2 (Nat.log2_self_le h0)
  have hpow : 2 ^ Nat.log2 w.res = w.res := by rw [hgood, Nat.log2_two_pow]
  unfold potential
  rw [if_pos hpow]
  split_ifs with hv
  · -- from one power of two to a greater one
    have hdouble : 2 * v.res ≤ w.res := by
      rw [hgood, ← hv, pow_succ, Nat.mul_comm]
      refine Nat.mul_le_mul_right 2 (Nat.pow_le_pow_right (by decide) ?_)
      exact (Nat.le_log2 h0).mpr (by omega)
    omega
  · omega

theorem Call.room_le_maxSize {c : Call α} (hc : c.Valid P v xs) :
    c.room P xs.length ≤ P.maxSize := by
  cases c with
  | pushBack t => exact (Nat.mod_le _ _).trans hc.2
  | insert p t => exact (Nat.mod_le _ _).trans hc.2.2
  | insertRange p zs =>
    exact (Nat.mod_le _ _).trans ((Nat.add_le_add_left (Nat.mod_le _ _) _).trans hc.2)
  | insertFill p n t => exact (Nat.mod_le _ _).trans hc.2.2
  | resize n => exact hc
  | _ => exact Nat.zero_le _

/-- What a call makes of a vector. -/
structure Grows (P : Target) (T : ElemType α) (v : Vec α) (c : Call α × Fresh α) (w : Vec α) :
    Prop where
  holds : ∃ ys, Holds T w ys ∧ ys.length < 2 ^ P.sizeType
  sze : w.sze ≤ v.sze + c.1.adds v.sze
  res : w.res = capacityFor P v (c.1.room P v.sze)

theorem callStep_grows (hv : Holds T v xs) (hlen : xs.length < 2 ^ P.sizeType)
    {c : Call α × Fresh α} (hc : Growing P T v c) (hw : callStep P T v c = some w) :
    Grows P T v c w := by
  obtain ⟨hinc, hvalid, hfair⟩ := hc
  rw [hv.toList_eq] at hvalid hfair
  obtain ⟨u, ys, hu, hys, hmax, hyields⟩ := c.1.run_spec hv hlen hvalid hfair c.2
  rw [callStep, hu] at hw
  cases hw
  refine ⟨⟨ys, hys, hmax⟩, ?_, res_run hinc hu⟩
  rw [hys.sze, hv.sze]
  exact Call.length_le hinc hvalid hyields

/-- The step of the potential argument. -/
theorem copies_le (hP : P.Host) (hv : Holds T v xs) {c : Call α × Fresh α}
    (hc : Growing P T v c) (hw : callStep P T v c = some w) (hgrows : Grows P T v c w) :
    copies P T v c + potential w ≤ potential v + 2 * c.1.adds v.sze := by
  have hvalid := hc.2.1
  rw [hv.toList_eq] at hvalid
  have hres := hgrows.res
  have hsze := hgrows.sze
  rw [copies, hw]
  dsimp only
  unfold capacityFor at hres
  split_ifs at hres with hroom
  · have hgrown := potential_grown hP hroom (hv.sze ▸ Call.room_le_maxSize hvalid)
      (hv.sze ▸ hv.size_le) (c.1.room_le v.sze) hsze hres
    split_ifs
    · omega
    · exact hgrown
  · rw [if_pos hres, Nat.zero_add]
    unfold potential
    rw [hres]
    omega

/-- A new capacity is at most twice what the vector has to hold. -/
theorem res_le (hP : P.Host) (hv : Holds T v xs) {c : Call α × Fresh α}
    (hc : Growing P T v c) (hgrows : Grows P T v c w) :
    w.res ≤ max v.res (2 * (v.sze + c.1.adds v.sze)) := by
  have hvalid := hc.2.1
  rw [hv.toList_eq] at hvalid
  rw [hgrows.res]
  unfold capacityFor
  split_ifs with hroom
  · have h0 : c.1.room P v.sze ≠ 0 := by omega
    have hle := c.1.room_le (P := P) v.sze
    rw [hP.goodSize_eq h0 (hv.sze ▸ Call.room_le_maxSize hvalid), pow_succ]
    have hlog := Nat.log2_self_le h0
    omega
  · exact le_max_left _ _

/-! ## What a sequence of calls costs -/

theorem copied_le (hP : P.Host) (hv : Holds T v xs) (hlen : xs.length < 2 ^ P.sizeType)
    {cs : List (Call α × Fresh α)} (hcs : Along (callStep P T) (Growing P T) v cs)
    (hw : run (callStep P T) v cs = some w) : copied P T v cs ≤ 2 * (v.sze + added P T v cs) := by
  have hstep : ∀ v (c : Call α × Fresh α) w, (∃ ys, Holds T v ys ∧ ys.length < 2 ^ P.sizeType) →
      Growing P T v c → callStep P T v c = some w →
        (∃ ys, Holds T w ys ∧ ys.length < 2 ^ P.sizeType) ∧
          copies P T v c + potential w ≤ potential v + 2 * c.1.adds v.sze := by
    rintro v c w ⟨ys, hys, hmax⟩ hc hw
    have hgrows := callStep_grows hys hmax hc hw
    exact ⟨hgrows.holds, copies_le hP hys hc hw hgrows⟩
  have hcost := cost_le_of_potential hstep ⟨xs, hv, hlen⟩ hcs hw
  rw [cost_mul] at hcost
  have hpot : potential v ≤ 2 * v.sze := Nat.sub_le _ _
  unfold copied added
  omega

theorem capacity_le (hP : P.Host) (hv : Holds T v xs) (hlen : xs.length < 2 ^ P.sizeType)
    {cs : List (Call α × Fresh α)} (hcs : Along (callStep P T) (Growing P T) v cs)
    (hw : run (callStep P T) v cs = some w) :
    w.res ≤ max v.res (2 * (v.sze + added P T v cs)) := by
  induction cs generalizing v xs with
  | nil =>
    cases hw
    exact le_max_left _ _
  | cons c cs ih =>
    obtain ⟨u, hu, hw⟩ := run_cons_eq_some.mp hw
    have hgrows := callStep_grows hv hlen hcs.1 hu
    obtain ⟨ys, hys, hmax⟩ := hgrows.holds
    have hrest := ih hys hmax (hcs.2 u hu) hw
    have hstep := res_le hP hv hcs.1 hgrows
    have hsze := hgrows.sze
    have hadded : added P T v (c :: cs) = c.1.adds v.sze + added P T u cs := cost_cons hu cs
    rw [hadded]
    omega

/-- **Amortised growth.** Whatever calls add and remove elements, a vector copies at most two
elements to new blocks for each that it had or that was added, and its capacity is at most twice
their number unless it was greater before. -/
theorem growth_amortised (hP : P.Host) (hv : Holds T v xs) (hlen : xs.length < 2 ^ P.sizeType)
    {cs : List (Call α × Fresh α)} (hcs : Along (callStep P T) (Growing P T) v cs)
    (hw : run (callStep P T) v cs = some w) :
    copied P T v cs ≤ 2 * (v.sze + added P T v cs) ∧
      w.res ≤ max v.res (2 * (v.sze + added P T v cs)) :=
  ⟨copied_le hP hv hlen hcs hw, capacity_le hP hv hlen hcs hw⟩

end

/-- The third element does not fit into the first block. -/
def threePushes : List (Call ℕ × Fresh ℕ) :=
  [(.pushBack (.outside 5), zeroed 1), (.pushBack (.outside 6), zeroed 2),
    (.pushBack (.outside 7), zeroed 3)]

theorem growth_amortised_threePushes :
    copied lp64 podElem empty threePushes = 2 ∧
      copied lp64 podElem empty threePushes ≤ 2 * (0 + added lp64 podElem empty threePushes) := by
  have hok : ∀ (v : Vec ℕ) (x block : ℕ), v.toList.length + 1 ≤ lp64.maxSize →
      Growing lp64 podElem v (.pushBack (.outside x), zeroed block) := by
    intro v x block hmax
    exact ⟨trivial, ⟨trivial, hmax⟩, fits_of_sizeof lp64_host (by decide) hmax, .inl trivial⟩
  have hcs : Along (callStep lp64 podElem) (Growing lp64 podElem) empty threePushes := by
    refine along_cons_of_step (hok _ _ _ (by decide)) rfl ?_
    refine along_cons_of_step (hok _ _ _ (by decide)) rfl ?_
    exact along_cons_of_step (hok _ _ _ (by decide)) rfl trivial
  exact ⟨by decide,
    (growth_amortised lp64_host (holds_empty podElem) (Nat.two_pow_pos _) hcs rfl).1⟩

end Libptytty.Simplevec
