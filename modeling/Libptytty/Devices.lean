import Libptytty.Confinement

/-!
# Devices and their objects

`get` may give a device to the user (`SET_TTY_OWNER`), and `put` gives it back: mode
`RESTORE_TTY_MODE`, owner root. `attrs` is what a history of such changes leaves a device with. At
every moment the devices without an object are as `put` leaves them, if they have been touched at
all, also those whose `get` has failed half-way (`givenBack_run`); and in a build that sets owners
the devices with an object are the user's, if an open pseudo terminal is not handed out a second
time (`ownedByUser_run`).
-/

namespace Libptytty

open CString Memory
open PtyttyUnix (GetOutcome allocated)

variable {cfg : Config}

/-! ## Attributes -/

/-- The mode and the owner of a device, as far as they have been set. -/
@[ext]
structure Attrs where
  mode : Option ℕ
  owner : Option (ℕ × ℕ)
  deriving DecidableEq

namespace Attrs

/-- Nothing has been set. -/
def unset : Attrs := ⟨none, none⟩

/-- The device belongs to the user. -/
def user (cfg : Config) : Attrs :=
  ⟨some (ttyconf cfg).mode, some (cfg.uid, (ttyconf cfg).gid)⟩

/-- The device is as `put` leaves it. -/
def back (cfg : Config) : Attrs := ⟨some cfg.restoreTtyMode, some (0, (ttyconf cfg).gid)⟩

/-- A change of some device, as seen by `dev`. -/
def change (dev : CStr) (a : Attrs) : DevEvent → Attrs
  | .chmod d mode => if d = dev then { a with mode := some mode } else a
  | .chown d uid gid => if d = dev then { a with owner := some (uid, gid) } else a

end Attrs

/-- What the changes leave `dev` with. -/
def attrs (dev : CStr) (es : List DevEvent) : Attrs := es.foldl (Attrs.change dev) .unset

theorem attrs_append (dev : CStr) (es fs : List DevEvent) :
    attrs dev (es ++ fs) = fs.foldl (Attrs.change dev) (attrs dev es) := List.foldl_append

theorem foldl_given_self (dev : CStr) (a : Attrs) (h : cfg.getPty = .bsd) :
    (given cfg dev).foldl (Attrs.change dev) a = .user cfg := by
  simp [given, h, Attrs.change, Attrs.user]

theorem foldl_givenBack_self (dev : CStr) (a : Attrs) :
    (givenBack cfg dev).foldl (Attrs.change dev) a = .back cfg := by
  simp [givenBack, Attrs.change, Attrs.back]

theorem foldl_given_of_ne {dev dev' : CStr} (h : dev' ≠ dev) (a : Attrs) :
    (given cfg dev').foldl (Attrs.change dev) a = a := by
  unfold given
  split_ifs
  · simp [Attrs.change, h]
  · rfl

theorem foldl_givenBack_of_ne {dev dev' : CStr} (h : dev' ≠ dev) (a : Attrs) :
    (givenBack cfg dev').foldl (Attrs.change dev) a = a := by
  simp [givenBack, Attrs.change, h]

/-- The changes since `os`. -/
def changes (os os' : Os cfg) : List DevEvent := os'.devs.drop os.devs.length

theorem changes_self (os : Os cfg) : changes os os = [] := List.drop_length

/-- More changes. -/
theorem changes_append {os₀ os os' : Os cfg} (h : os₀.devs <+: os.devs) {es : List DevEvent}
    (hes : os'.devs = os.devs ++ es) : changes os₀ os' = changes os₀ os ++ es := by
  unfold changes
  rw [hes, List.drop_append_of_le_length h.length_le]

/-- Since `os`, the devices that are not held are as `put` leaves them. -/
def GivenBack (os os' : Os cfg) (held : CStr → Prop) : Prop := ∀ dev, ¬ held dev →
  attrs dev (changes os os') = .unset ∨ attrs dev (changes os os') = .back cfg

/-- Since `os`, the devices that are held have become the user's. -/
def OwnedByUser (os os' : Os cfg) (held : CStr → Prop) : Prop := ∀ dev, held dev →
  attrs dev (changes os os') = .user cfg

/-! ## One call -/

namespace Objects

/-- Some object has the device. -/
def Has (s : Objects cfg) (dev : CStr) : Prop := ∃ i x, s.objs i = some x ∧ x.name = some dev

/-- The changes of devices in one call. -/
def Act.changes (cfg : Config) (old : Option PtyttyUnix) : Act → List DevEvent
  | .get _ o => (PtyttyUnix.device cfg o).elim [] fun dev =>
      given cfg dev ++ if allocated cfg o = none then givenBack cfg dev else []
  | .delete _ _ => (old.bind PtyttyUnix.name).elim [] (givenBack cfg)
  | _ => []

variable {K : Kernel} {s t : Objects cfg} {a : Act}

theorem Called.devs {os os' : Os cfg} {old y : Option PtyttyUnix} (h : Called K os a old y os') :
    os'.devs = os.devs ++ a.changes cfg old := by
  cases h with
  | create | idle => exact (List.append_nil _).symm
  | refused | got => exact PtyttyUnix.get_devs _ os
  | login => exact (PtyttyUnix.login_devs _ _ _ _ _ os).trans (List.append_nil _).symm
  | closeTty => exact (PtyttyUnix.closeTty_devs _ os).trans (List.append_nil _).symm
  | delete => exact PtyttyUnix.delete_devs _ _ os

/-- Where `s` has grown from. -/
def Since (os : Os cfg) (s : Objects cfg) : Prop := os.devs <+: s.os.devs

/-- What a call does to the attributes of `dev`. -/
theorem attrs_step {os : Os cfg} (hgrown : Since os s) (hI : Inv s) (ht : step K s a = some t)
    (dev : CStr) : Since os t ∧ attrs dev (Libptytty.changes os t.os) =
      (a.changes cfg (s.objs a.index)).foldl (Attrs.change dev)
        (attrs dev (Libptytty.changes os s.os)) := by
  obtain ⟨y, os', hcalled, rfl⟩ := step_called hI ht
  have hdevs := hcalled.devs
  refine ⟨hgrown.trans ⟨_, hdevs.symm⟩, ?_⟩
  rw [changes_append hgrown hdevs, attrs_append]

variable {β : Type*} {f : CStr → β}

/-- A call is given a device that differs by `f` from those of the objects. -/
def Apart (f : CStr → β) (s : Objects cfg) (a : Act) : Prop :=
  ∀ dev ∈ a.device cfg, ∀ dev', s.Has dev' → f dev' ≠ f dev

/-- The devices of different objects differ by `f`. -/
def Separate (f : CStr → β) (s : Objects cfg) : Prop :=
  ∀ i j x y dev dev', s.objs i = some x → s.objs j = some y → x.name = some dev →
    y.name = some dev' → f dev = f dev' → i = j

theorem has_update {s : Objects cfg} {i : ℕ} {y : Option PtyttyUnix} {os : Os cfg} {dev : CStr} :
    Has ⟨Function.update s.objs i y, os⟩ dev ↔
      (∃ x ∈ y, x.name = some dev) ∨ ∃ j x, j ≠ i ∧ s.objs j = some x ∧ x.name = some dev := by
  constructor
  · rintro ⟨j, x, hx, hn⟩
    dsimp only at hx
    by_cases hj : j = i
    · subst hj
      rw [Function.update_self] at hx
      exact Or.inl ⟨x, hx, hn⟩
    · rw [Function.update_of_ne hj] at hx
      exact Or.inr ⟨j, x, hj, hx, hn⟩
  · rintro (⟨x, hx, hn⟩ | ⟨j, x, hj, hx, hn⟩)
    · exact ⟨i, x, by simpa using hx, hn⟩
    · exact ⟨j, x, by simpa [hj] using hx, hn⟩

theorem givenBack_step {os : Os cfg} (hgrown : Since os s) (hI : Inv s)
    (h : GivenBack os s.os s.Has) (ht : step K s a = some t) : GivenBack os t.os t.Has := by
  intro dev hno
  rw [(attrs_step hgrown hI ht dev).2]
  obtain ⟨y, os', hcalled, rfl⟩ := step_called hI ht
  -- a device that an object has kept is no new one
  have keep : (∀ x, s.objs a.index = some x → x.name = some dev → ∃ x' ∈ y, x'.name = some dev) →
      ¬ s.Has dev := by
    rintro hsame ⟨j, x, hx, hn⟩
    by_cases hj : j = a.index
    · subst hj
      exact hno (has_update.mpr (Or.inl (hsame x hx hn)))
    · exact hno (has_update.mpr (Or.inr ⟨j, x, hj, hx, hn⟩))
  generalize hold : s.objs a.index = old at hcalled keep ⊢
  cases hcalled with
  | create => exact h dev (keep (by rintro x ⟨⟩))
  | @refused i o refused =>
    have hs := h dev (keep (by rintro x ⟨⟩ ⟨⟩))
    cases hd : PtyttyUnix.device cfg o with
    | none =>
      rw [Act.changes, hd]
      exact hs
    | some dev' =>
      rw [Act.changes, hd, Option.elim_some, if_pos refused, List.foldl_append]
      by_cases he : dev' = dev
      · subst he
        exact Or.inr (foldl_givenBack_self _ _)
      · rw [foldl_given_of_ne he, foldl_givenBack_of_ne he]
        exact hs
  | @got i o x dev' found name =>
    have hs := h dev (keep (by rintro x ⟨⟩ ⟨⟩))
    have hne : dev' ≠ dev := by
      rintro rfl
      exact hno (has_update.mpr (Or.inl ⟨x, rfl, name⟩))
    rw [Act.changes, device_of_allocated found, Option.elim_some, if_neg (by simp [found]),
      List.append_nil, foldl_given_of_ne hne]
    exact hs
  | idle => exact h dev (keep fun x hx hn => ⟨x, hx, hn⟩)
  | login => exact h dev (keep fun x hx hn => by cases hx; exact ⟨_, rfl, hn⟩)
  | closeTty => exact h dev (keep fun x hx hn => by cases hx; exact ⟨_, rfl, hn⟩)
  | @delete i o x =>
    rw [Act.changes, Option.bind_some]
    by_cases hn : x.name = some dev
    · rw [hn, Option.elim_some]
      exact Or.inr (foldl_givenBack_self _ _)
    · have hs := h dev (keep fun x' hx hn' => by cases hx; exact absurd hn' hn)
      cases hx : x.name with
      | none => exact hs
      | some dev' =>
        have hne : dev' ≠ dev := fun he => hn (he ▸ hx)
        rw [Option.elim_some, foldl_givenBack_of_ne hne]
        exact hs

theorem separate_initial (os : Os cfg) : Separate f (initial os) := by
  rintro i j x y dev dev' ⟨⟩

theorem separate_step (hI : Inv s) (hap : Apart f s a) (h : Separate f s)
    (ht : step K s a = some t) : Separate f t := by
  obtain ⟨y, os', hcalled, rfl⟩ := step_called hI ht
  -- the object called has the device it had, or one that differs from all others
  have hother : ∀ x ∈ y, ∀ dev, x.name = some dev → ∀ j x' dev', j ≠ a.index →
      s.objs j = some x' → x'.name = some dev' → f dev' ≠ f dev := by
    intro x hx dev hn j x' dev' hj hx' hn' he
    have kept : ∀ x₀, s.objs a.index = some x₀ → x₀.name = some dev → False := fun x₀ hx₀ hn₀ =>
      hj (h j a.index x' x₀ dev' dev hx' hx₀ hn' hn₀ he)
    generalize hold : s.objs a.index = old at hcalled kept
    cases hcalled with
    | create => cases hx; cases hn
    | refused => cases hx; cases hn
    | @got i o x₀ dev₀ found name =>
      cases hx
      obtain rfl : dev₀ = dev := Option.some.inj (name.symm.trans hn)
      exact hap _ (device_of_allocated found) dev' ⟨j, x', hx', hn'⟩ he
    | idle => exact kept x hx hn
    | login => cases hx; exact kept _ rfl hn
    | closeTty => cases hx; exact kept _ rfl hn
    | delete => cases hx
  intro i j x x' dev dev' hx hx' hn hn' he
  dsimp only at hx hx'
  by_cases hi : i = a.index <;> by_cases hj : j = a.index
  · rw [hi, hj]
  · rw [hi, Function.update_self] at hx
    rw [Function.update_of_ne hj] at hx'
    exact absurd he.symm (hother x hx dev hn j x' dev' hj hx' hn')
  · rw [Function.update_of_ne hi] at hx
    rw [hj, Function.update_self] at hx'
    exact absurd he (hother x' hx' dev' hn' i x dev hi hx hn)
  · rw [Function.update_of_ne hi] at hx
    rw [Function.update_of_ne hj] at hx'
    exact h i j x x' dev dev' hx hx' hn hn' he

theorem ownedByUser_step {os : Os cfg} (hbsd : cfg.getPty = .bsd) (hgrown : Since os s)
    (hI : Inv s) (hap : Apart id s a) (hsep : Separate id s) (h : OwnedByUser os s.os s.Has)
    (ht : step K s a = some t) : OwnedByUser os t.os t.Has := by
  intro dev hdev
  rw [(attrs_step hgrown hI ht dev).2]
  obtain ⟨y, os', hcalled, rfl⟩ := step_called hI ht
  rcases has_update.mp hdev with ⟨x, hx, hn⟩ | ⟨j, x, hj, hx, hn⟩
  · -- the object called
    have kept : ∀ x₀, s.objs a.index = some x₀ → x₀.name = some dev → s.Has dev :=
      fun x₀ hx₀ hn₀ => ⟨_, x₀, hx₀, hn₀⟩
    generalize s.objs a.index = old at hcalled kept ⊢
    cases hcalled with
    | create => cases hx; cases hn
    | refused => cases hx; cases hn
    | @got i o x₀ dev' found name =>
      cases hx
      obtain rfl : dev' = dev := Option.some.inj (name.symm.trans hn)
      rw [Act.changes, device_of_allocated found, Option.elim_some, if_neg (by simp [found]),
        List.append_nil, foldl_given_self _ _ hbsd]
    | idle => exact h dev (kept x hx hn)
    | login => cases hx; exact h dev (kept _ rfl hn)
    | closeTty => cases hx; exact h dev (kept _ rfl hn)
    | delete => cases hx
  · -- another one
    have hs := h dev ⟨j, x, hx, hn⟩
    have htaken : ∀ dev' ∈ a.device cfg, dev' ≠ dev := by
      rintro dev' hdev' rfl
      exact hap dev' hdev' dev' ⟨j, x, hx, hn⟩ rfl
    have hapart : ∀ x₀, s.objs a.index = some x₀ → x₀.name ≠ some dev :=
      fun x₀ hx₀ hn₀ => hj (hsep j a.index x x₀ dev dev hx hx₀ hn hn₀ rfl)
    generalize s.objs a.index = old at hcalled hapart ⊢
    cases a with
    | create | login | closeTty => exact hs
    | get i o =>
      cases hd : PtyttyUnix.device cfg o with
      | none =>
        rw [Act.changes, hd]
        exact hs
      | some dev' =>
        have hne : dev' ≠ dev := htaken dev' hd
        rw [Act.changes, hd, Option.elim_some, List.foldl_append, foldl_given_of_ne hne]
        split_ifs
        · rw [foldl_givenBack_of_ne hne]
          exact hs
        · exact hs
    | delete i o =>
      cases hcalled with
      | @delete i o x₀ =>
        rw [Act.changes, Option.bind_some]
        cases hx₀ : x₀.name with
        | none => exact hs
        | some dev' =>
          have hne : dev' ≠ dev := fun he => hapart x₀ rfl (he ▸ hx₀)
          rw [Option.elim_some, foldl_givenBack_of_ne hne]
          exact hs

/-! ## Runs -/

theorem since_step {os : Os cfg} (hgrown : Since os s) (hI : Inv s) (ht : step K s a = some t) :
    Since os t := (attrs_step hgrown hI ht CString.empty).1

theorem givenBack_run {os : Os cfg} {as : List Act}
    (h : Machine.run (step K) (initial os) as = some s) : GivenBack os s.os s.Has := by
  have hstep : ∀ (s : Objects cfg) (a : Act) (t : Objects cfg),
      (Inv s ∧ Since os s ∧ GivenBack os s.os s.Has) → step K s a = some t →
      Inv t ∧ Since os t ∧ GivenBack os t.os t.Has := by
    rintro s a t ⟨hI, hgrown, hs⟩ ht
    exact ⟨inv_step hI ht, since_step hgrown hI ht, givenBack_step hgrown hI hs ht⟩
  refine (Machine.inv_of_run hstep ⟨inv_initial os, List.prefix_rfl, fun dev _ => ?_⟩ h).2.2
  rw [show changes os (initial os).os = [] from changes_self os]
  exact Or.inl rfl

theorem ownedByUser_run {os : Os cfg} (hbsd : cfg.getPty = .bsd) {as : List Act}
    (hap : Machine.Along (step K) (Apart id) (initial os) as)
    (h : Machine.run (step K) (initial os) as = some s) : OwnedByUser os s.os s.Has := by
  have hstep : ∀ (s : Objects cfg) (a : Act) (t : Objects cfg),
      (Inv s ∧ Since os s ∧ Separate id s ∧ OwnedByUser os s.os s.Has) → Apart id s a →
      step K s a = some t → Inv t ∧ Since os t ∧ Separate id t ∧ OwnedByUser os t.os t.Has := by
    rintro s a t ⟨hI, hgrown, hsep, hs⟩ hap ht
    exact ⟨inv_step hI ht, since_step hgrown hI ht, separate_step hI hap hsep ht,
      ownedByUser_step hbsd hgrown hI hap hsep hs ht⟩
  exact (Machine.inv_of_along hstep ⟨inv_initial os, List.prefix_rfl, separate_initial os,
    by rintro dev ⟨i, x, hx, -⟩; cases hx⟩ hap h).2.2.2

end Objects

/-! ## Both paths -/

namespace Serve

/-- Some object of the helper has the device. -/
def Has (s : Serve cfg) (dev : CStr) : Prop := ∃ n x, s.heap.Holds n x ∧ x.name = some dev

/-- The helper is given a device that differs by `f` from those of its objects. -/
def Apart {β : Type*} (f : CStr → β) (s : Serve cfg) (i : Input) : Prop :=
  ∀ dev ∈ i.device cfg, ∀ dev', s.Has dev' → f dev' ≠ f dev

variable {K : Kernel}

theorem Represents.has {s : Serve cfg} {t : Objects cfg} (h : Represents s t) : t.Has = s.Has := by
  funext dev
  exact propext (exists₂_congr fun n x => and_congr_left fun _ => h.objs n x)

theorem apart_calls {β : Type*} {f : CStr → β} (s : Serve cfg) (t : Objects cfg) (i : Input)
    (h : Represents s t) (hap : Apart f s i) :
    Machine.Along (Objects.step K) (Objects.Apart f) t (calls K s i) := by
  have hnone : ∀ as : List Objects.Act, (∀ a ∈ as, a.device cfg = none) →
      Machine.Along (Objects.step K) (Objects.Apart f) t as := fun as has =>
    (Machine.along_of_forall has t).mono fun _ a ha dev hdev => by rw [ha] at hdev; cases hdev
  cases hd : i.device cfg with
  | none =>
    refine hnone _ fun a ha => Option.eq_none_iff_forall_ne_some.mpr fun dev hdev => ?_
    rw [device_of_mem_calls ha dev hdev] at hd
    cases hd
  | some dev =>
    -- the command is a `get`
    cases i with
    | short => cases hd
    | command cmd o =>
      rw [Input.device] at hd
      split_ifs at hd with hty
      simp only [calls, hty]
      refine ⟨by rintro dev ⟨⟩, fun t₁ ht₁ => ⟨fun dev₁ hdev₁ dev' hhas => ?_, fun t₂ _ =>
        ⟨fun dev' hdev' => ?_, fun _ _ => trivial⟩⟩⟩
      · obtain ⟨r, hr, rfl⟩ := Option.map_eq_some_iff.mp ht₁
        rcases Objects.has_update.mp hhas with ⟨x, hx, hn⟩ | ⟨j, x, -, hx, hn⟩
        · have hnew : t.objs s.heap.created = none := h.objs.created
          change Objects.call K _ (t.objs s.heap.created) _ = _ at hr
          rw [hnew] at hr
          cases hr
          cases hx
          cases hn
        · refine hap dev₁ ?_ dev' (h.has ▸ ⟨j, x, hx, hn⟩)
          rw [Input.device, if_pos hty]
          exact hdev₁
      · split_ifs at hdev' <;> cases hdev'

end Serve

/-- **Devices follow their objects.** On both paths, in every state of every run without a `get`
after a successful one, if each `chmod` and `chown` is carried out: a device that no object has is
as `put` leaves it, if it has been touched, and when `serve` has returned all devices are. In a
build that sets owners the devices with an object are the user's, as long as an open pseudo terminal
is not handed out again. -/
theorem devices_follow_objects (K : Kernel) (os : Os cfg) :
    (∀ cs, Machine.Always (Direct.step K) (fun d => GivenBack os d.os d.objects.Has)
      (Direct.initial os) cs) ∧
    (∀ is, Machine.Always (Serve.step K) (fun s => GivenBack os s.os s.Has ∧
      (s.returned = true → GivenBack os s.os fun _ => False)) (Serve.initial os) is) ∧
    (cfg.getPty = .bsd → ∀ cs, Machine.Along (Direct.step K)
        (fun d c => Objects.Apart id d.objects (Direct.act c)) (Direct.initial os) cs →
      Machine.Always (Direct.step K) (fun d => OwnedByUser os d.os d.objects.Has)
        (Direct.initial os) cs) ∧
    (cfg.getPty = .bsd → ∀ is, Machine.Along (Serve.step K) (Serve.Apart id) (Serve.initial os) is →
      Machine.Always (Serve.step K) (fun s => OwnedByUser os s.os s.Has)
        (Serve.initial os) is) := by
  refine ⟨fun cs pre hp d hd => ?_, fun is pre hp s hs => ?_, fun hbsd cs hap pre hp d hd => ?_,
    fun hbsd is hap pre hp s hs => ?_⟩
  · exact Objects.givenBack_run (Direct.objects_run hd)
  · obtain ⟨as, t, ht, hR, hI, -⟩ := Serve.objects_run hs
    have hback := Objects.givenBack_run ht
    rw [hR.has, hR.os] at hback
    refine ⟨hback, fun hret dev _ => hback dev ?_⟩
    rintro ⟨n, x, ⟨a, ha⟩, -⟩
    rw [((Serve.safe_of_inv hI).ended hret).1 a] at ha
    cases ha
  · exact Objects.ownedByUser_run hbsd (Direct.objects_along (hap.take hp) hd)
      (Direct.objects_run hd)
  · obtain ⟨as, t, hap', ht, hR, -, -⟩ := Serve.objects_along Serve.apart_calls (hap.take hp) hs
    have howned := Objects.ownedByUser_run hbsd hap' ht
    rwa [hR.has, hR.os] at howned

end Libptytty
