import Mathlib

/-!
# Partial machines and their runs

A machine is a partial step function `step : σ → α → Option σ`. An action carries everything the
step does not decide by itself (who moves, what the environment answers); `none` means that the
action is not possible in this state. A run is the list of its actions.

`Along` says that every step of a run meets a condition at the state it is taken in, `Always`
that a predicate holds in every state of a run. `always_of_along` is the invariant rule,
`always_iff_along` its exact form, `inevitable_of_rank` and `waitFree_of_rank` are the progress
rules, and `cost_le_of_potential` is the rule for what a run costs.
-/

namespace Machine

variable {σ α : Type*} (step : σ → α → Option σ)

/-! ## Runs -/

/-- The state reached from `s` by the actions `as`, if each of them is possible in its turn. -/
def run (s : σ) : List α → Option σ
  | [] => some s
  | a :: as => (step s a).bind fun t => run t as

/-- Every step of the run meets `ok` in the state it is taken in. -/
def Along (ok : σ → α → Prop) (s : σ) : List α → Prop
  | [] => True
  | a :: as => ok s a ∧ ∀ t ∈ step s a, Along ok t as

/-- `P` holds in every state of the run, the first and the last included. -/
def Always (P : σ → Prop) (s : σ) (as : List α) : Prop :=
  ∀ pre, pre <+: as → ∀ t ∈ run step s pre, P t

variable {step}

@[simp] theorem run_nil (s : σ) : run step s [] = some s := rfl

theorem run_cons (s : σ) (a : α) (as : List α) :
    run step s (a :: as) = (step s a).bind fun t => run step t as := rfl

theorem run_cons_eq_some {s u : σ} {a : α} {as : List α} :
    run step s (a :: as) = some u ↔ ∃ t, step s a = some t ∧ run step t as = some u := by
  rw [run_cons, Option.bind_eq_some_iff]

theorem run_append (s : σ) (as bs : List α) :
    run step s (as ++ bs) = (run step s as).bind fun t => run step t bs := by
  induction as generalizing s with
  | nil => rfl
  | cons a as ih =>
    rw [List.cons_append, run_cons, run_cons, Option.bind_assoc]
    exact congrArg _ (funext fun t => ih t)

theorem run_append_eq_some {s u : σ} {as bs : List α} :
    run step s (as ++ bs) = some u ↔ ∃ t, run step s as = some t ∧ run step t bs = some u := by
  rw [run_append, Option.bind_eq_some_iff]

/-! ## Simulation -/

/-- What a run is to another machine: `lab` translates each step in the state it is taken in. -/
def image {β : Type*} (step : σ → α → Option σ) (lab : σ → α → List β) (s : σ) : List α → List β
  | [] => []
  | a :: as => lab s a ++ (step s a).elim [] fun t => image step lab t as

/-- Every translated action comes from some action of the run. -/
theorem mem_image {β : Type*} {lab : σ → α → List β} {b : β} {s : σ} {as : List α}
    (h : b ∈ image step lab s as) : ∃ t a, a ∈ as ∧ b ∈ lab t a := by
  induction as generalizing s with
  | nil => cases h
  | cons a as ih =>
    rw [image] at h
    rcases List.mem_append.mp h with h | h
    · exact ⟨s, a, List.mem_cons_self, h⟩
    · cases hs : step s a with
      | none => rw [hs] at h; cases h
      | some t =>
        rw [hs] at h
        obtain ⟨u, a', ha', hb⟩ := ih h
        exact ⟨u, a', List.mem_cons_of_mem a ha', hb⟩

/-- If every step corresponds to a run of another machine, then every run does. -/
theorem run_of_image {τ β : Type*} {step' : τ → β → Option τ} {lab : σ → α → List β}
    {R : σ → τ → Prop} (hsim : ∀ s a s' t, R s t → step s a = some s' →
      ∃ t', run step' t (lab s a) = some t' ∧ R s' t') {s s' : σ} {t : τ} {as : List α}
    (hR : R s t) (hs : run step s as = some s') :
    ∃ t', run step' t (image step lab s as) = some t' ∧ R s' t' := by
  induction as generalizing s t with
  | nil => cases hs; exact ⟨t, rfl, hR⟩
  | cons a as ih =>
    obtain ⟨u, hu, hs⟩ := run_cons_eq_some.mp hs
    obtain ⟨t₁, ht₁, hR₁⟩ := hsim s a u t hR hu
    obtain ⟨t₂, ht₂, hR₂⟩ := ih hR₁ hs
    refine ⟨t₂, ?_, hR₂⟩
    rw [image, hu]
    exact run_append_eq_some.mpr ⟨t₁, ht₁, ht₂⟩

/-- Where `lab` looks at the actions only. -/
theorem image_eq_filterMap {β : Type*} {lab : α → Option β} {s u : σ} {as : List α}
    (hu : run step s as = some u) :
    image step (fun _ a => (lab a).toList) s as = as.filterMap lab := by
  induction as generalizing s with
  | nil => rfl
  | cons a as ih =>
    obtain ⟨t, ht, hu⟩ := run_cons_eq_some.mp hu
    rw [image, ht, Option.elim_some, ih hu]
    cases h : lab a with
    | none => rw [List.filterMap_cons_none h]; rfl
    | some b => rw [List.filterMap_cons_some h]; rfl

/-- If every step corresponds to at most one step of another machine, as `lab` says, then every
run corresponds to a run of the other machine. -/
theorem run_of_simulation {τ β : Type*} {step' : τ → β → Option τ} {lab : α → Option β}
    {R : σ → τ → Prop} (hsim : ∀ s a s' t, R s t → step s a = some s' →
      ∃ t', run step' t (lab a).toList = some t' ∧ R s' t') {s s' : σ} {t : τ} {as : List α}
    (hR : R s t) (hs : run step s as = some s') :
    ∃ t', run step' t (as.filterMap lab) = some t' ∧ R s' t' := by
  rw [← image_eq_filterMap hs]
  exact run_of_image hsim hR hs

/-! ## Conditions along a run -/

@[simp] theorem along_nil (ok : σ → α → Prop) (s : σ) : Along step ok s [] := trivial

theorem along_cons {ok : σ → α → Prop} {s : σ} {a : α} {as : List α} :
    Along step ok s (a :: as) ↔ ok s a ∧ ∀ t ∈ step s a, Along step ok t as := Iff.rfl

theorem along_cons_of_step {ok : σ → α → Prop} {s t : σ} {a : α} {as : List α} (ha : ok s a)
    (ht : step s a = some t) (h : Along step ok t as) : Along step ok s (a :: as) := by
  refine ⟨ha, fun u hu => ?_⟩
  rw [ht] at hu
  cases hu
  exact h

instance decidableAlong (ok : σ → α → Prop) [∀ s a, Decidable (ok s a)] :
    ∀ (s : σ) (as : List α), Decidable (Along step ok s as)
  | _, [] => isTrue trivial
  | s, a :: as =>
    have : ∀ t, Decidable (Along step ok t as) := fun t => decidableAlong ok t as
    inferInstanceAs (Decidable (ok s a ∧ ∀ t ∈ step s a, Along step ok t as))

theorem Along.mono {ok ok' : σ → α → Prop} (h : ∀ s a, ok s a → ok' s a) {s : σ} {as : List α}
    (hs : Along step ok s as) : Along step ok' s as := by
  induction as generalizing s with
  | nil => trivial
  | cons a as ih => exact ⟨h s a hs.1, fun t ht => ih (hs.2 t ht)⟩

/-- A condition on the actions alone. -/
theorem along_of_forall {ok : α → Prop} {as : List α} (h : ∀ a ∈ as, ok a) (s : σ) :
    Along step (fun _ a => ok a) s as := by
  induction as generalizing s with
  | nil => trivial
  | cons a as ih =>
    exact ⟨h a List.mem_cons_self, fun t _ => ih (fun b hb => h b (List.mem_cons_of_mem a hb)) t⟩

theorem along_iff_forall {ok : α → Prop} {s u : σ} {as : List α} (hu : run step s as = some u) :
    Along step (fun _ a => ok a) s as ↔ ∀ a ∈ as, ok a := by
  refine ⟨fun h => ?_, fun h => along_of_forall h s⟩
  induction as generalizing s with
  | nil => rintro a ⟨⟩
  | cons a as ih =>
    obtain ⟨t, ht, hu⟩ := run_cons_eq_some.mp hu
    intro b hb
    rcases List.mem_cons.mp hb with rfl | hb
    · exact h.1
    · exact ih hu (h.2 t ht) b hb

theorem along_append {ok : σ → α → Prop} {s : σ} {as bs : List α} : Along step ok s (as ++ bs) ↔
    Along step ok s as ∧ ∀ t ∈ run step s as, Along step ok t bs := by
  induction as generalizing s with
  | nil => simp
  | cons a as ih =>
    rw [List.cons_append, along_cons, along_cons, and_assoc]
    refine and_congr_right fun _ => ⟨fun h => ⟨fun t ht => (ih.mp (h t ht)).1, fun u hu => ?_⟩,
      fun h t ht => ih.mpr ⟨h.1 t ht, fun u hu => h.2 u (run_cons_eq_some.mpr ⟨t, ht, hu⟩)⟩⟩
    obtain ⟨t, ht, hu⟩ := run_cons_eq_some.mp hu
    exact (ih.mp (h t ht)).2 u hu

/-- If in addition the conditions on the steps of one machine become conditions on the other, they
do so for runs. -/
theorem along_of_image {τ β : Type*} {step' : τ → β → Option τ} {lab : σ → α → List β}
    {R : σ → τ → Prop} {ok : σ → α → Prop} {ok' : τ → β → Prop}
    (hsim : ∀ s a s' t, R s t → ok s a → step s a = some s' →
      Along step' ok' t (lab s a) ∧ ∃ t', run step' t (lab s a) = some t' ∧ R s' t') {s s' : σ}
    {t : τ} {as : List α} (hR : R s t) (hok : Along step ok s as) (hs : run step s as = some s') :
    Along step' ok' t (image step lab s as) ∧
      ∃ t', run step' t (image step lab s as) = some t' ∧ R s' t' := by
  induction as generalizing s t with
  | nil => cases hs; exact ⟨trivial, t, rfl, hR⟩
  | cons a as ih =>
    obtain ⟨u, hu, hs⟩ := run_cons_eq_some.mp hs
    obtain ⟨hfirst, t₁, ht₁, hR₁⟩ := hsim s a u t hR hok.1 hu
    obtain ⟨hrest, t₂, ht₂, hR₂⟩ := ih hR₁ (hok.2 u hu) hs
    rw [image, hu, Option.elim_some]
    refine ⟨along_append.mpr ⟨hfirst, fun t' ht' => ?_⟩, t₂, ?_, hR₂⟩
    · obtain rfl : t₁ = t' := Option.some.inj (ht₁.symm.trans ht')
      exact hrest
    · exact run_append_eq_some.mpr ⟨t₁, ht₁, ht₂⟩

theorem Along.and {ok ok' : σ → α → Prop} {s : σ} {as : List α} (h : Along step ok s as)
    (h' : Along step ok' s as) : Along step (fun s a => ok s a ∧ ok' s a) s as := by
  induction as generalizing s with
  | nil => trivial
  | cons a as ih => exact ⟨⟨h.1, h'.1⟩, fun t ht => ih (h.2 t ht) (h'.2 t ht)⟩

theorem Along.take {ok : σ → α → Prop} {s : σ} {pre as : List α} (hp : pre <+: as)
    (h : Along step ok s as) : Along step ok s pre := by
  induction pre generalizing s as with
  | nil => trivial
  | cons a pre ih =>
    obtain ⟨suf, rfl⟩ := hp
    exact ⟨h.1, fun t ht => ih (List.prefix_append pre suf) (h.2 t ht)⟩

/-! ## The invariant rule -/

/-- A predicate kept by every step that meets `ok` holds after a run that meets `ok`. -/
theorem inv_of_along {P : σ → Prop} {ok : σ → α → Prop}
    (hstep : ∀ s a t, P s → ok s a → step s a = some t → P t) {s u : σ} {as : List α}
    (hs : P s) (hok : Along step ok s as) (hu : run step s as = some u) : P u := by
  induction as generalizing s with
  | nil => cases hu; exact hs
  | cons a as ih =>
    obtain ⟨t, ht, hu⟩ := run_cons_eq_some.mp hu
    exact ih (hstep s a t hs hok.1 ht) (hok.2 t ht) hu

/-- A predicate kept by every step holds after every run. -/
theorem inv_of_run {P : σ → Prop} (hstep : ∀ s a t, P s → step s a = some t → P t) {s u : σ}
    {as : List α} (hs : P s) (hu : run step s as = some u) : P u := by
  induction as generalizing s with
  | nil => cases hu; exact hs
  | cons a as ih =>
    obtain ⟨t, ht, hu⟩ := run_cons_eq_some.mp hu
    exact ih (hstep s a t hs ht) hu

/-- The invariant rule: the predicate holds in every state of the run. -/
theorem always_of_along {P : σ → Prop} {ok : σ → α → Prop}
    (hstep : ∀ s a t, P s → ok s a → step s a = some t → P t) {s : σ} {as : List α}
    (hs : P s) (hok : Along step ok s as) : Always step P s as :=
  fun _ hp _ ht => inv_of_along hstep hs (hok.take hp) ht

theorem Always.head {P : σ → Prop} {s : σ} {as : List α} (h : Always step P s as) : P s :=
  h [] (List.nil_prefix) s rfl

theorem Always.tail {P : σ → Prop} {s t : σ} {a : α} {as : List α}
    (h : Always step P s (a :: as)) (ht : step s a = some t) : Always step P t as :=
  fun pre hp u hu => h (a :: pre) (List.prefix_cons_inj a |>.mpr hp) u
    (run_cons_eq_some.mpr ⟨t, ht, hu⟩)

theorem Always.along {P : σ → Prop} {s : σ} {as : List α} (h : Always step P s as) :
    Along step (fun t _ => P t) s as := by
  induction as generalizing s with
  | nil => trivial
  | cons a as ih => exact ⟨h.head, fun t ht => ih (h.tail ht)⟩

theorem Always.last {P : σ → Prop} {s u : σ} {as : List α} (h : Always step P s as)
    (hu : run step s as = some u) : P u := h as List.prefix_rfl u hu

theorem Always.mono {P Q : σ → Prop} (hPQ : ∀ s, P s → Q s) {s : σ} {as : List α}
    (h : Always step P s as) : Always step Q s as :=
  fun pre hp t ht => hPQ t (h pre hp t ht)

/-- If no step keeps `P` unless it meets `ok`, a run that stays in `P` meets `ok` throughout. -/
theorem along_of_always {P : σ → Prop} {ok : σ → α → Prop}
    (hbreak : ∀ s a t, P s → step s a = some t → P t → ok s a) {s u : σ} {as : List α}
    (hu : run step s as = some u) (h : Always step P s as) : Along step ok s as := by
  induction as generalizing s with
  | nil => trivial
  | cons a as ih =>
    obtain ⟨t, ht, hu⟩ := run_cons_eq_some.mp hu
    refine ⟨hbreak s a t h.head ht (h.tail ht).head, fun t' ht' => ?_⟩
    obtain rfl : t = t' := Option.some.inj (ht.symm.trans ht')
    exact ih hu (h.tail ht)

/-- The exact invariant rule: when a step keeps `P` exactly if it meets `ok`, a run stays in `P`
exactly if all of its steps meet `ok`. -/
theorem always_iff_along {P : σ → Prop} {ok : σ → α → Prop}
    (hstep : ∀ s a t, P s → step s a = some t → (P t ↔ ok s a)) {s u : σ} {as : List α}
    (hs : P s) (hu : run step s as = some u) : Always step P s as ↔ Along step ok s as :=
  ⟨along_of_always (fun s a t hP ht hPt => (hstep s a t hP ht).mp hPt) hu,
    always_of_along (fun s a t hP hok ht => (hstep s a t hP ht).mpr hok) hs⟩

/-- The exact invariant rule, for a step that keeps `P` exactly if it meets `ok` in the states of an
invariant. -/
theorem always_iff_along_of_inv {I P : σ → Prop} {ok : σ → α → Prop}
    (hinv : ∀ s a t, I s → step s a = some t → I t)
    (hstep : ∀ s a t, I s → P s → step s a = some t → (P t ↔ ok s a)) {s u : σ} {as : List α}
    (hI : I s) (hs : P s) (hu : run step s as = some u) :
    Always step P s as ↔ Along step ok s as := by
  have hboth : Always step (fun t => I t ∧ P t) s as ↔ Along step ok s as :=
    always_iff_along (fun s a t h ht =>
      ⟨fun h' => (hstep s a t h.1 h.2 ht).mp h'.2,
        fun hok => ⟨hinv s a t h.1 ht, (hstep s a t h.1 h.2 ht).mpr hok⟩⟩) ⟨hI, hs⟩ hu
  rw [← hboth]
  exact ⟨fun h pre hp t ht => ⟨inv_of_run hinv hI ht, h pre hp t ht⟩,
    fun h => h.mono fun _ => And.right⟩

/-- Two conditions that agree under an invariant hold along the same runs. -/
theorem along_congr {I : σ → Prop} {ok ok' : σ → α → Prop} (hiff : ∀ s a, I s → (ok s a ↔ ok' s a))
    (hstep : ∀ s a t, I s → ok s a → step s a = some t → I t) {s : σ} (hs : I s) (as : List α) :
    Along step ok s as ↔ Along step ok' s as := by
  induction as generalizing s with
  | nil => exact Iff.rfl
  | cons a as ih =>
    rw [along_cons, along_cons, ← hiff s a hs]
    exact and_congr_right fun ha => forall₂_congr fun t ht => ih (hstep s a t hs ha ht)

/-! ## The progress rule -/

/-- `goal` is reached by the actions `own` alone, whatever they are: every run of `own` actions
from `s` that has not met `goal` is shorter than `n` and can be continued by such an action. -/
def Inevitable (step : σ → α → Option σ) (own : α → Prop) (goal : σ → Prop) (n : ℕ) (s : σ) :
    Prop :=
  ∀ as u, (∀ a ∈ as, own a) → run step s as = some u → Always step (fun t => ¬ goal t) s as →
    as.length < n ∧ ∃ a t, own a ∧ step u a = some t

/-- The progress rule: outside `goal` the rank is positive and an `own` action is possible, and each
one lowers the rank. -/
theorem inevitable_of_rank {own : α → Prop} {goal I : σ → Prop} {rank : σ → ℕ}
    (hcan : ∀ s, I s → ¬ goal s → 0 < rank s ∧ ∃ a t, own a ∧ step s a = some t)
    (hrank : ∀ s a t, I s → ¬ goal s → own a → step s a = some t → I t ∧ rank t < rank s)
    {s : σ} (hs : I s) : Inevitable step own goal (rank s) s := by
  intro as
  induction as generalizing s with
  | nil =>
    intro u _ hu hno
    cases hu
    exact hcan s hs hno.head
  | cons a as ih =>
    intro u hown hu hno
    obtain ⟨t, ht, hu⟩ := run_cons_eq_some.mp hu
    obtain ⟨hIt, hlt⟩ := hrank s a t hs hno.head (hown a List.mem_cons_self) ht
    obtain ⟨hlen, hnext⟩ :=
      ih hIt u (fun b hb => hown b (List.mem_cons_of_mem a hb)) hu (hno.tail ht)
    exact ⟨by rw [List.length_cons]; omega, hnext⟩

/-- Another goal, which every state reached meets with the first one. -/
theorem Inevitable.mono {own : α → Prop} {goal goal' : σ → Prop} {n : ℕ} {s : σ}
    (h : Inevitable step own goal n s)
    (hgoal : ∀ as t, run step s as = some t → goal t → goal' t) :
    Inevitable step own goal' n s := fun as u hown hu hno =>
  h as u hown hu fun pre hp t ht hg => hno pre hp t ht (hgoal pre t ht hg)

/-- `goal` is reached by the actions `own`, however many others come between them: a run that has
not met `goal` has fewer than `n` of them, and can be continued by one. -/
def WaitFree (step : σ → α → Option σ) (own : α → Bool) (goal : σ → Prop) (n : ℕ) (s : σ) : Prop :=
  ∀ as u, run step s as = some u → Always step (fun t => ¬ goal t) s as →
    as.countP own < n ∧ ∃ a t, own a ∧ step u a = some t

/-- The progress rule for one of several: its own actions lower the rank, and no other action
raises it. -/
theorem waitFree_of_rank {own : α → Bool} {goal I : σ → Prop} {rank : σ → ℕ}
    (hcan : ∀ s, I s → ¬ goal s → 0 < rank s ∧ ∃ a t, own a ∧ step s a = some t)
    (hown : ∀ s a t, I s → ¬ goal s → own a → step s a = some t → I t ∧ rank t < rank s)
    (hother : ∀ s a t, I s → ¬ goal s → ¬ own a → step s a = some t → I t ∧ rank t ≤ rank s)
    {s : σ} (hs : I s) : WaitFree step own goal (rank s) s := by
  intro as
  induction as generalizing s with
  | nil =>
    intro u hu hno
    cases hu
    exact hcan s hs hno.head
  | cons a as ih =>
    intro u hu hno
    obtain ⟨t, ht, hu⟩ := run_cons_eq_some.mp hu
    by_cases ha : own a
    · obtain ⟨hIt, hlt⟩ := hown s a t hs hno.head ha ht
      obtain ⟨hcount, hnext⟩ := ih hIt u hu (hno.tail ht)
      exact ⟨by rw [List.countP_cons_of_pos ha]; omega, hnext⟩
    · obtain ⟨hIt, hle⟩ := hother s a t hs hno.head ha ht
      obtain ⟨hcount, hnext⟩ := ih hIt u hu (hno.tail ht)
      exact ⟨by rw [List.countP_cons_of_neg ha]; omega, hnext⟩

/-! ## Costs -/

/-- The cost of a run, of which each step has its own in the state it is taken in. -/
def cost (step : σ → α → Option σ) (c : σ → α → ℕ) (s : σ) : List α → ℕ
  | [] => 0
  | a :: as => c s a + match step s a with
    | some t => cost step c t as
    | none => 0

theorem cost_cons {c : σ → α → ℕ} {s t : σ} {a : α} (ht : step s a = some t) (as : List α) :
    cost step c s (a :: as) = c s a + cost step c t as := by
  rw [cost, ht]

theorem cost_mul (k : ℕ) (c : σ → α → ℕ) (s : σ) (as : List α) :
    cost step (fun t a => k * c t a) s as = k * cost step c s as := by
  induction as generalizing s with
  | nil => rfl
  | cons a as ih =>
    unfold cost
    rw [Nat.mul_add]
    congr 1
    split
    · exact ih _
    · rfl

/-- The potential rule: a step costs no more than it gains and takes from the potential. -/
theorem cost_le_of_potential {ok : σ → α → Prop} {I : σ → Prop} {potential : σ → ℕ}
    {c gain : σ → α → ℕ}
    (hstep : ∀ s a t, I s → ok s a → step s a = some t →
      I t ∧ c s a + potential t ≤ potential s + gain s a)
    {s u : σ} {as : List α} (hs : I s) (hok : Along step ok s as) (hu : run step s as = some u) :
    cost step c s as + potential u ≤ potential s + cost step gain s as := by
  induction as generalizing s with
  | nil =>
    cases hu
    simp [cost]
  | cons a as ih =>
    obtain ⟨t, ht, hu⟩ := run_cons_eq_some.mp hu
    obtain ⟨hIt, hle⟩ := hstep s a t hs hok.1 ht
    have hrest := ih hIt (hok.2 t ht) hu
    rw [cost_cons ht, cost_cons ht]
    omega

end Machine
