import Libptytty.Lib.Machine

/-!
# Dropping privileges

`ptytty::drop_privileges` and `ptytty::init` (proxy.C) over the credentials of a process, with the
rules of POSIX for the calls they make. A call that is not permitted leaves the credentials as they
are; the code ignores its result and looks only at the effective ids afterwards.

The `setresuid` and the `setreuid` builds always clear all six ids. The `setuid` build clears the
saved ids only for an effective user id 0 (`dropPrivileges_only_iff`).
-/

namespace Libptytty

/-! ## Credentials -/

/-- The real, effective and saved id of one kind (user or group). -/
structure Ids where
  real : ℕ
  eff : ℕ
  saved : ℕ
  deriving DecidableEq

/-- The user and group ids of a process. -/
structure Creds where
  uid : Ids
  gid : Ids
  deriving DecidableEq

/-- Appropriate privileges: effective user id 0. -/
def Creds.privileged (c : Creds) : Bool := c.uid.eff = 0

/-- All three ids are `u`. -/
def Ids.all (u : ℕ) : Ids := ⟨u, u, u⟩

/-- All user ids are `u` and all group ids are `g`. -/
def Creds.Only (c : Creds) (u g : ℕ) : Prop := c.uid = .all u ∧ c.gid = .all g

instance (c : Creds) (u g : ℕ) : Decidable (c.Only u g) := inferInstanceAs (Decidable (_ ∧ _))

/-- `v` is one of the current ids. -/
def Ids.has (i : Ids) (v : ℕ) : Bool := v = i.real || v = i.eff || v = i.saved

/-! ## The calls

`none` as an argument is `-1`, "leave this id alone"; no process has the id `(uid_t)-1`. The result
`none` is a call that fails with `EPERM`. -/

/-- What POSIX leaves open: to which of its current ids an unprivileged process may set the real
id with `setreuid` and `setregid`. Keeping the real id is no change and always permitted. -/
structure PosixRules where
  mayReal : Ids → ℕ → Bool
  mayReal_real : ∀ i, mayReal i i.real = true
  has_of_mayReal : ∀ i v, mayReal i v = true → i.has v = true

/-- `setuid` and `setgid`. -/
def setId (privileged : Bool) (v : ℕ) (i : Ids) : Option Ids :=
  if privileged then some (.all v)
  else if v = i.real ∨ v = i.saved then some { i with eff := v }
  else none

/-- `seteuid` and `setegid`. -/
def seteId (privileged : Bool) (v : ℕ) (i : Ids) : Option Ids :=
  if privileged ∨ v = i.real ∨ v = i.saved then some { i with eff := v } else none

/-- `setreuid` and `setregid`: the saved id follows the new effective id when the real id is set or
the effective id is set to something other than the real id. -/
def setreId (R : PosixRules) (privileged : Bool) (r e : Option ℕ) (i : Ids) : Option Ids :=
  if privileged ∨ ((∀ v ∈ r, R.mayReal i v) ∧ ∀ v ∈ e, i.has v) then
    let eff := e.getD i.eff
    some ⟨r.getD i.real, eff, if r.isSome ∨ (e.isSome ∧ eff ≠ i.real) then eff else i.saved⟩
  else none

/-- `setresuid` and `setresgid`. -/
def setresId (privileged : Bool) (r e s : Option ℕ) (i : Ids) : Option Ids :=
  if privileged ∨ ((∀ v ∈ r, i.has v) ∧ (∀ v ∈ e, i.has v) ∧ ∀ v ∈ s, i.has v) then
    some ⟨r.getD i.real, e.getD i.eff, s.getD i.saved⟩
  else none

/-- A call of the family. -/
inductive IdCall
  | setuid (u : ℕ)
  | seteuid (u : ℕ)
  | setreuid (r e : Option ℕ)
  | setresuid (r e s : Option ℕ)
  | setgid (g : ℕ)
  | setegid (g : ℕ)
  | setregid (r e : Option ℕ)
  | setresgid (r e s : Option ℕ)

/-- The credentials after a call whose result is ignored. -/
def IdCall.exec (R : PosixRules) (c : Creds) (k : IdCall) : Creds :=
  let onUid (f : Bool → Ids → Option Ids) : Creds := ⟨(f c.privileged c.uid).getD c.uid, c.gid⟩
  let onGid (f : Bool → Ids → Option Ids) : Creds := ⟨c.uid, (f c.privileged c.gid).getD c.gid⟩
  match k with
  | .setuid u => onUid fun p i => setId p u i
  | .seteuid u => onUid fun p i => seteId p u i
  | .setreuid r e => onUid fun p i => setreId R p r e i
  | .setresuid r e s => onUid fun p i => setresId p r e s i
  | .setgid g => onGid fun p i => setId p g i
  | .setegid g => onGid fun p i => seteId p g i
  | .setregid r e => onGid fun p i => setreId R p r e i
  | .setresgid r e s => onGid fun p i => setresId p r e s i

/-- The credentials after some calls of the family. -/
def execCalls (R : PosixRules) (c : Creds) (ks : List IdCall) : Creds := ks.foldl (IdCall.exec R) c

/-! ## The source functions -/

/-- Which calls the build uses: `HAVE_SETRESUID`, else `HAVE_SETREUID`, else `HAVE_SETUID`. -/
inductive IdBranch
  | setresuid
  | setreuid
  | setuid
  deriving DecidableEq

/-- The calls `drop_privileges` makes, the group first. -/
def IdBranch.calls (b : IdBranch) (uid gid : ℕ) : List IdCall :=
  match b with
  | .setresuid => [.setresgid (some gid) (some gid) (some gid),
      .setresuid (some uid) (some uid) (some uid)]
  | .setreuid => [.setregid (some gid) (some gid), .setreuid (some uid) (some uid)]
  | .setuid => [.setgid gid, .setuid uid]

/-- `ptytty::drop_privileges`; the error is the text of the `ptytty_error` thrown. -/
def dropPrivileges (R : PosixRules) (b : IdBranch) (c : Creds) : Except String Creds :=
  let uid := c.uid.real
  let gid := c.gid.real
  let c := execCalls R c (b.calls uid gid)
  if uid ≠ c.uid.eff ∨ gid ≠ c.gid.eff then .error "unable to drop privileges.\n" else .ok c

/-- `ptytty::init` as far as the ids of the client process go: `sanitised` and `helper` are what
`sanitise_stdfd` and `use_helper` do, neither of which changes an id. -/
def init (R : PosixRules) (b : IdBranch) (sanitised helper : Except String Unit) (c : Creds) :
    Except String Creds := do
  sanitised
  if c.uid.real ≠ c.uid.eff ∨ c.gid.real ≠ c.gid.eff then
    helper
    dropPrivileges R b c
  else
    return c

/-! ## What the calls do -/

/-- No call of the family changes ids that are all equal to one id of an unprivileged process. -/
def NoRegain (R : PosixRules) (c : Creds) (u g : ℕ) : Prop :=
  ∀ ks, (execCalls R c ks).Only u g

@[simp] theorem execCalls_nil (R : PosixRules) (c : Creds) : execCalls R c [] = c := rfl

@[simp] theorem execCalls_cons (R : PosixRules) (c : Creds) (k : IdCall) (ks : List IdCall) :
    execCalls R c (k :: ks) = execCalls R (k.exec R c) ks := rfl

theorem has_all {u v : ℕ} : (Ids.all u).has v = true ↔ v = u := by
  unfold Ids.has Ids.all; simp

theorem setId_all {u v : ℕ} : (setId false v (.all u)).getD (.all u) = .all u := by
  unfold setId Ids.all
  by_cases h : v = u <;> simp [h]

theorem seteId_all {u v : ℕ} : (seteId false v (.all u)).getD (.all u) = .all u := by
  unfold seteId Ids.all
  by_cases h : v = u <;> simp [h]

/-- A permitted argument of an unprivileged process whose ids are all `u` changes nothing. -/
theorem getD_eq_of_has {u : ℕ} {r : Option ℕ} (h : ∀ v ∈ r, (Ids.all u).has v = true) :
    r.getD u = u := by
  cases r with
  | none => rfl
  | some v => exact has_all.mp (h v rfl)

theorem setreId_all (R : PosixRules) {u : ℕ} {r e : Option ℕ} :
    (setreId R false r e (.all u)).getD (.all u) = .all u := by
  unfold setreId
  by_cases h : (∀ v ∈ r, R.mayReal (.all u) v) ∧ ∀ v ∈ e, (Ids.all u).has v
  · have hr := getD_eq_of_has fun v hv => R.has_of_mayReal _ v (h.1 v hv)
    have he := getD_eq_of_has h.2
    rw [if_pos (Or.inr h)]
    simp [Ids.all, hr, he]
  · rw [if_neg fun h' => h (h'.resolve_left Bool.false_ne_true)]
    rfl

theorem setresId_all {u : ℕ} {r e s : Option ℕ} :
    (setresId false r e s (.all u)).getD (.all u) = .all u := by
  unfold setresId
  by_cases h : (∀ v ∈ r, (Ids.all u).has v) ∧ (∀ v ∈ e, (Ids.all u).has v) ∧
      ∀ v ∈ s, (Ids.all u).has v
  · rw [if_pos (Or.inr h)]
    simp [Ids.all, getD_eq_of_has h.1, getD_eq_of_has h.2.1, getD_eq_of_has h.2.2]
  · rw [if_neg fun h' => h (h'.resolve_left Bool.false_ne_true)]
    rfl

/-- A call made by an unprivileged process whose ids are all equal. -/
theorem exec_only (R : PosixRules) {c : Creds} {u g : ℕ} (hu : u ≠ 0) (h : c.Only u g)
    (k : IdCall) : (k.exec R c).Only u g := by
  obtain ⟨cu, cg⟩ := c
  obtain ⟨rfl, rfl⟩ := h
  have hp : Creds.privileged ⟨.all u, .all g⟩ = false := by simp [Creds.privileged, Ids.all, hu]
  cases k <;> refine ⟨?_, ?_⟩ <;>
    simp only [IdCall.exec, hp, setId_all, seteId_all, setreId_all, setresId_all]

theorem execCalls_only (R : PosixRules) {u g : ℕ} (hu : u ≠ 0) (ks : List IdCall) :
    ∀ {c : Creds}, c.Only u g → (execCalls R c ks).Only u g := by
  induction ks with
  | nil => exact fun h => h
  | cons k ks ih => exact fun h => ih (exec_only R hu h k)

/-- Root can always take another id. -/
theorem not_noRegain_root (R : PosixRules) {c : Creds} {g : ℕ} (h : c.Only 0 g) :
    ¬ NoRegain R c 0 g := by
  intro hno
  have h1 := (hno [.setuid 1]).1
  simp [IdCall.exec, Creds.privileged, setId, h.1, Ids.all] at h1

/-- Credentials that are all `u` and `g` stay so exactly if `u` is not root. -/
theorem noRegain_iff (R : PosixRules) {c : Creds} {u g : ℕ} (h : c.Only u g) :
    NoRegain R c u g ↔ u ≠ 0 := by
  constructor
  · rintro hno rfl
    exact not_noRegain_root R h hno
  · exact fun hu ks => execCalls_only R hu ks h

/-! ## What `drop_privileges` does -/

/-- The credentials after the calls of `drop_privileges`. -/
def dropped (b : IdBranch) (c : Creds) : Creds :=
  if b = .setuid ∧ c.uid.eff ≠ 0 then
    ⟨{ c.uid with eff := c.uid.real }, { c.gid with eff := c.gid.real }⟩
  else ⟨.all c.uid.real, .all c.gid.real⟩

theorem setId_real (p : Bool) (i : Ids) :
    setId p i.real i = some (if p then .all i.real else { i with eff := i.real }) := by
  unfold setId
  cases p <;> simp

theorem setreId_real (R : PosixRules) (p : Bool) (i : Ids) :
    setreId R p (some i.real) (some i.real) i = some (.all i.real) := by
  unfold setreId
  rw [if_pos (Or.inr ⟨by simp [R.mayReal_real], by simp [Ids.has]⟩)]
  simp [Ids.all]

theorem setresId_real (p : Bool) (i : Ids) :
    setresId p (some i.real) (some i.real) (some i.real) i = some (.all i.real) := by
  unfold setresId
  rw [if_pos (Or.inr ⟨by simp [Ids.has], by simp [Ids.has], by simp [Ids.has]⟩)]
  rfl

theorem execCalls_calls (R : PosixRules) (b : IdBranch) (c : Creds) :
    execCalls R c (b.calls c.uid.real c.gid.real) = dropped b c := by
  unfold dropped
  cases b with
  | setresuid => simp [IdBranch.calls, IdCall.exec, setresId_real]
  | setreuid => simp [IdBranch.calls, IdCall.exec, setreId_real]
  | setuid =>
    -- the group call keeps the effective user id, so both calls see the same privileges
    by_cases h : c.uid.eff = 0 <;>
      simp [IdBranch.calls, IdCall.exec, setId_real, Creds.privileged, h]

/-- `drop_privileges` never throws under these rules. -/
theorem dropPrivileges_eq (R : PosixRules) (b : IdBranch) (c : Creds) :
    dropPrivileges R b c = .ok (dropped b c) := by
  unfold dropPrivileges
  simp only [execCalls_calls]
  rw [if_neg]
  unfold dropped
  split_ifs <;> simp [Ids.all]

/-- When `drop_privileges` clears all six ids. -/
def DropsAll (b : IdBranch) (c : Creds) : Prop :=
  b ≠ .setuid ∨ c.uid.eff = 0 ∨ (c.uid.saved = c.uid.real ∧ c.gid.saved = c.gid.real)

theorem dropped_only_iff (b : IdBranch) (c : Creds) :
    (dropped b c).Only c.uid.real c.gid.real ↔ DropsAll b c := by
  unfold dropped DropsAll Creds.Only
  by_cases hb : b = .setuid
  · by_cases h0 : c.uid.eff = 0
    · simp [h0]
    · simp [hb, h0, Ids.all]
  · simp [hb]

/-- A freshly executed process: the saved ids are the effective ones. -/
def Creds.Fresh (c : Creds) : Prop := c.uid.saved = c.uid.eff ∧ c.gid.saved = c.gid.eff

theorem only_of_eff_eq_real {c : Creds} (hc : c.Fresh) (hu : c.uid.real = c.uid.eff)
    (hg : c.gid.real = c.gid.eff) : c.Only c.uid.real c.gid.real := by
  obtain ⟨⟨ru, eu, su⟩, ⟨rg, eg, sg⟩⟩ := c
  obtain ⟨h1, h2⟩ := hc
  simp_all [Creds.Only, Ids.all]

theorem init_only_iff (R : PosixRules) (b : IdBranch) {c c' : Creds} (hc : c.Fresh)
    {sanitised helper : Except String Unit} (h : init R b sanitised helper c = .ok c') :
    c'.Only c.uid.real c.gid.real ↔ DropsAll b c := by
  cases sanitised with
  | error e => cases h
  | ok =>
    by_cases hd : c.uid.real ≠ c.uid.eff ∨ c.gid.real ≠ c.gid.eff
    · cases helper with
      | error e => simp [init, hd, bind, Except.bind] at h
      | ok =>
        have h' : dropPrivileges R b c = .ok c' := by simpa [init, hd, bind, Except.bind] using h
        rw [dropPrivileges_eq] at h'
        cases h'
        exact dropped_only_iff b c
    · have h' : c = c' := by
        simpa [init, hd, bind, Except.bind, pure, Except.pure] using h
      subst h'
      push Not at hd
      refine iff_of_true (only_of_eff_eq_real hc hd.1 hd.2) (Or.inr (Or.inr ?_))
      exact ⟨hc.1.trans hd.1.symm, hc.2.trans hd.2.symm⟩

/-- **Dropping privileges.** `drop_privileges` returns, and then all six ids are the real ones
exactly under `DropsAll`, for good exactly if moreover the real user is not root. For a freshly
executed process the same holds when `init` returns. -/
theorem dropPrivileges_only_iff (R : PosixRules) (b : IdBranch) (c : Creds) :
    (∃ c', dropPrivileges R b c = .ok c' ∧
      (c'.Only c.uid.real c.gid.real ↔ DropsAll b c) ∧
      (c'.Only c.uid.real c.gid.real ∧ NoRegain R c' c.uid.real c.gid.real ↔
        DropsAll b c ∧ c.uid.real ≠ 0)) ∧
    ∀ sanitised helper c', c.Fresh → init R b sanitised helper c = .ok c' →
      ((c'.Only c.uid.real c.gid.real ↔ DropsAll b c) ∧
        (c'.Only c.uid.real c.gid.real ∧ NoRegain R c' c.uid.real c.gid.real ↔
          DropsAll b c ∧ c.uid.real ≠ 0)) := by
  have regain : ∀ c', (c'.Only c.uid.real c.gid.real ↔ DropsAll b c) →
      (c'.Only c.uid.real c.gid.real ∧ NoRegain R c' c.uid.real c.gid.real ↔
        DropsAll b c ∧ c.uid.real ≠ 0) := by
    intro c' hc'
    constructor
    · rintro ⟨ho, hn⟩
      exact ⟨hc'.mp ho, (noRegain_iff R ho).mp hn⟩
    · rintro ⟨hd, hu⟩
      exact ⟨hc'.mpr hd, (noRegain_iff R (hc'.mpr hd)).mpr hu⟩
  refine ⟨⟨dropped b c, dropPrivileges_eq R b c, dropped_only_iff b c,
    regain _ (dropped_only_iff b c)⟩, fun sanitised helper c' hc h => ?_⟩
  exact ⟨init_only_iff R b hc h, regain _ (init_only_iff R b hc h)⟩

/-- Rules under which an unprivileged process may set the real id to any of its ids. -/
def laxRules : PosixRules := ⟨Ids.has, fun i => by simp [Ids.has], fun _ _ h => h⟩

/-- A program that is setuid to the user 50, run by the user 1000. -/
def setuidProgram : Creds := ⟨⟨1000, 50, 50⟩, ⟨100, 100, 100⟩⟩

theorem dropPrivileges_only_iff_setuidProgram :
    setuidProgram.Fresh ∧ init laxRules .setresuid (.ok ()) (.ok ()) setuidProgram =
        .ok (dropped .setresuid setuidProgram) ∧
      (dropped .setresuid setuidProgram).Only 1000 100 := by
  have hf : setuidProgram.Fresh := ⟨rfl, rfl⟩
  have hi : init laxRules .setresuid (.ok ()) (.ok ()) setuidProgram =
      .ok (dropped .setresuid setuidProgram) := rfl
  have h := (dropPrivileges_only_iff laxRules .setresuid setuidProgram).2 _ _ _ hf hi
  exact ⟨hf, hi, h.1.mpr (Or.inl (by decide))⟩

/-- In a `setuid` build a program that is setuid to an ordinary user keeps that user as its saved
id, and takes it back with one more `setuid`. -/
theorem dropPrivileges_keeps_saved :
    ¬ (∀ (R : PosixRules) (b : IdBranch) (c c' : Creds), dropPrivileges R b c = .ok c' →
        c'.Only c.uid.real c.gid.real) ∧
      dropPrivileges laxRules .setuid setuidProgram = .ok ⟨⟨1000, 1000, 50⟩, ⟨100, 100, 100⟩⟩ ∧
      execCalls laxRules ⟨⟨1000, 1000, 50⟩, ⟨100, 100, 100⟩⟩ [.setuid 50] = setuidProgram := by
  have h : dropPrivileges laxRules .setuid setuidProgram =
      .ok ⟨⟨1000, 1000, 50⟩, ⟨100, 100, 100⟩⟩ := dropPrivileges_eq _ _ _
  refine ⟨fun hall => ?_, h, rfl⟩
  exact absurd (hall _ _ _ _ h) (by decide)

end Libptytty
