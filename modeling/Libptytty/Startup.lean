import Libptytty.Privileges
import Libptytty.UseHelper

/-!
# Starting up

`ptytty::init` as a whole (proxy.C): `sanitise_stdfd`, and for a setuid or setgid program
`use_helper` and `drop_privileges`. `sanitise_stdfd` relies on the kernel for the lowest free
descriptor: it compares what `open` gives with the descriptor that it wants to fill.

`startup` runs the three on one process; what the ids become in it is `init` (`startup_fst`).
-/

namespace Libptytty

namespace UseHelper

/-- What a build has: `PTYTTY_HELPER`, `PTYTTY_REENTRANT` and the calls for the ids. -/
structure Build where
  helper : Bool
  reentrant : Bool
  ids : IdBranch

/-- What the operating system answers: whether "/dev/tty" and "/dev/null" can be opened for a
descriptor, and what happens in `use_helper`. -/
structure Answers where
  tty : Fd → Bool
  null : Fd → Bool
  helper : Outcome

variable (K : Kernel)

/-! ## The source functions -/

/-- `open`. -/
def openFile (ok : Bool) (s : Client) : Option Fd × Client :=
  if ok then
    let fd := K.pick s.opened s.fds
    (some fd, { s with fds := insert fd s.fds, opened := s.opened + 1 })
  else (none, s)

/-- One iteration of `sanitise_stdfd`. `fcntl (fd, F_GETFL)` fails with `EBADF` if `fd` is not
open. -/
def sanitiseFd (o : Answers) (fd : Fd) (s : Client) : Except String Unit × Client :=
  if fd ∈ s.fds then (.ok (), s)
  else
    let (fd2, s) := openFile K (o.tty fd) s
    let (fd2, s) := if fd2 = none then openFile K (o.null fd) s else (fd2, s)
    (if fd2 ≠ some fd then .error "unable to sanitise fds.\n" else .ok (), s)

/-- The loop of `sanitise_stdfd`, for `n` descriptors from `fd` on. -/
def sanitiseLoop (o : Answers) : ℕ → Fd → Client → Except String Unit × Client
  | 0, _, s => (.ok (), s)
  | n + 1, fd, s =>
    match sanitiseFd K o fd s with
    | (.error e, s) => (.error e, s)
    | (.ok (), s) => sanitiseLoop o n (fd + 1) s

/-- `ptytty::sanitise_stdfd`. -/
def sanitiseStdfd (o : Answers) (s : Client) : Except String Unit × Client :=
  sanitiseLoop K o 3 0 s

/-- The program is setuid or setgid. -/
def Elevated (c : Creds) : Prop := c.uid.real ≠ c.uid.eff ∨ c.gid.real ≠ c.gid.eff

instance (c : Creds) : Decidable (Elevated c) := inferInstanceAs (Decidable (_ ∨ _))

/-- The helper is started, if the build has one. -/
def startHelper (b : Build) (o : Answers) (s : Client) : Except String Unit × Client :=
  if b.helper then useHelper K b.reentrant o.helper s else (.ok (), s)

/-- `ptytty::init`. -/
def startup (R : PosixRules) (b : Build) (o : Answers) (s : Client) (c : Creds) :
    Except String Creds × Client :=
  match sanitiseStdfd K o s with
  | (.error e, s) => (.error e, s)
  | (.ok (), s) =>
    if Elevated c then
      match startHelper K b o s with
      | (.error e, s) => (.error e, s)
      | (.ok (), s) => (dropPrivileges R b.ids c, s)
    else (.ok c, s)

/-! ## What the steps do -/

variable {K}

/-- The ids are what `init` makes of them. -/
theorem startup_fst (R : PosixRules) (b : Build) (o : Answers) (s : Client) (c : Creds) :
    (startup K R b o s c).1 = init R b.ids (sanitiseStdfd K o s).1
      (startHelper K b o (sanitiseStdfd K o s).2).1 c := by
  unfold startup init
  rcases sanitiseStdfd K o s with ⟨_ | _, t⟩
  · rfl
  · by_cases hc : Elevated c
    · have hc' : c.uid.real ≠ c.uid.eff ∨ c.gid.real ≠ c.gid.eff := hc
      simp only [if_pos hc, bind, Except.bind, if_pos hc']
      rcases startHelper K b o t with ⟨_ | _, u⟩ <;> rfl
    · have hc' : ¬ (c.uid.real ≠ c.uid.eff ∨ c.gid.real ≠ c.gid.eff) := hc
      simp only [if_neg hc, bind, Except.bind, if_neg hc']
      rfl

/-- The lowest free descriptor, when all below `fd` are open. -/
theorem lowestFree_eq {s : Finset Fd} {fd : ℕ} (hlow : ∀ x < fd, x ∈ s) (hfd : fd ∉ s) :
    lowestFree s = fd := by
  refine le_antisymm (lowestFree_le hfd) ?_
  by_contra hlt
  exact lowestFree_notMem s (hlow _ (not_le.mp hlt))

/-- A descriptor is open, or something can be opened for it. -/
def Answers.fills (o : Answers) (fds : Finset Fd) (fd : Fd) : Prop :=
  fd ∈ fds ∨ o.tty fd = true ∨ o.null fd = true

/-- Two processes that differ in their descriptors only. -/
def SameButFds (s t : Client) : Prop := t = { s with fds := t.fds, opened := t.opened }

theorem sanitiseFd_posix (o : Answers) {fd : ℕ} {s : Client} (hlow : ∀ x < fd, x ∈ s.fds) :
    ∃ r t, sanitiseFd posix o fd s = (r, t) ∧ SameButFds s t ∧ s.fds ⊆ t.fds ∧
      (r = .ok () ↔ o.fills s.fds fd) ∧ (r = .ok () → t.fds = insert fd s.fds) := by
  unfold sanitiseFd
  by_cases hfd : fd ∈ s.fds
  · rw [if_pos hfd]
    exact ⟨_, s, rfl, rfl, Finset.Subset.rfl, iff_of_true rfl (Or.inl hfd),
      fun _ => (Finset.insert_eq_of_mem hfd).symm⟩
  · have hpick : posix.pick s.opened s.fds = fd := lowestFree_eq hlow hfd
    rw [if_neg hfd]
    unfold openFile Answers.fills
    cases htty : o.tty fd with
    | true => exact ⟨_, _, rfl, rfl, by simp, by simp [hpick], fun _ => by simp [hpick]⟩
    | false =>
      cases hnull : o.null fd with
      | true => exact ⟨_, _, rfl, rfl, by simp, by simp [hpick], fun _ => by simp [hpick]⟩
      | false => exact ⟨_, s, rfl, rfl, Finset.Subset.rfl, by simp [hfd], by simp⟩

/-- The loop fills the descriptors from `fd` on, as long as something can be opened for each. -/
theorem sanitiseLoop_posix (o : Answers) (n fd : ℕ) {s : Client}
    (hlow : ∀ x < fd, x ∈ s.fds) :
    ∃ r t, sanitiseLoop posix o n fd s = (r, t) ∧ SameButFds s t ∧ s.fds ⊆ t.fds ∧
      (r = .ok () ↔ ∀ x ∈ Finset.Ico fd (fd + n), o.fills s.fds x) ∧
      (r = .ok () → t.fds = s.fds ∪ Finset.Ico fd (fd + n)) := by
  induction n generalizing fd s with
  | zero => exact ⟨_, s, rfl, rfl, Finset.Subset.rfl, by simp, by simp⟩
  | succ n ih =>
    have hsplit : Finset.Ico fd (fd + (n + 1)) = insert fd (Finset.Ico (fd + 1) (fd + 1 + n)) := by
      ext x
      simp only [Finset.mem_Ico, Finset.mem_insert]
      omega
    obtain ⟨r, t, ht, hsame, hsub, hok, hfds⟩ := sanitiseFd_posix o hlow
    rw [hsplit]
    unfold sanitiseLoop
    rw [ht]
    cases r with
    | error e =>
      refine ⟨_, t, rfl, hsame, hsub, ?_, by simp⟩
      rw [Finset.forall_mem_insert, ← hok]
      simp
    | ok =>
      have hfds := hfds rfl
      obtain ⟨r', u, hu, hsame', hsub', hok', hfds'⟩ := ih (fd + 1) (s := t) fun x hx => by
        rw [hfds, Finset.mem_insert]
        exact (Nat.lt_succ_iff_lt_or_eq.mp hx).elim (fun hlt => Or.inr (hlow x hlt)) Or.inl
      refine ⟨r', u, hu, ?_, hsub.trans hsub', ?_, fun hr => ?_⟩
      · unfold SameButFds at hsame hsame' ⊢
        rw [hsame', hsame]
      · rw [Finset.forall_mem_insert, and_iff_right (hok.mp rfl), hok']
        refine forall₂_congr fun x hx => ?_
        have hne : x ≠ fd := by
          rintro rfl
          exact absurd (Finset.mem_Ico.mp hx).1 (Nat.not_succ_le_self x)
        rw [Answers.fills, Answers.fills, hfds, Finset.mem_insert, or_iff_right hne]
      · rw [hfds' hr, hfds, Finset.insert_union, Finset.union_insert]

/-! ## The helper -/

/-- `use_helper` has what it needs. -/
def HelperStarts (b : Build) (o : Answers) : Prop :=
  o.helper.sv = true ∧ (b.reentrant = true → o.helper.lv = true) ∧ o.helper.fork ≠ none

/-- The sockets to the helper. -/
def Client.sockets (s : Client) : Finset Fd := s.sockFd.toFinset ∪ s.lockFd.toFinset

/-- What a `use_helper` that starts a helper leaves: two sockets, in a `PTYTTY_REENTRANT` build, and
nothing else. -/
structure Serves (b : Build) (s t : Client) : Prop where
  pid : t.helperPid ≠ 0
  started : t.started = s.started + 1
  fds : t.fds = s.fds ∪ t.sockets
  new : Disjoint s.fds t.sockets
  card : t.sockets.card = if b.reentrant then 2 else 1

theorem forkHelper_spec {o : Outcome} {pid : ℕ+} (hf : o.fork = some pid) (sv : Fd × Fd)
    (lv : Option (Fd × Fd)) (s : Client) : ∃ t, forkHelper o sv lv s = (.ok (), t) ∧
      t.helperPid = pid ∧ t.started = s.started + 1 ∧ t.sockFd = some sv.1 ∧
      t.lockFd = (lv.map Prod.fst).or s.lockFd ∧
      t.fds = (s.fds.erase sv.2) \ (lv.map Prod.snd).toFinset := by
  unfold forkHelper
  rw [hf]
  cases lv with
  | none => exact ⟨_, rfl, rfl, rfl, rfl, rfl, by simp [close]⟩
  | some lv => exact ⟨_, rfl, rfl, rfl, rfl, rfl, by simp [close, Finset.sdiff_singleton_eq_erase]⟩

theorem socketpair_new (s : Client) : ∃ a b, socketpair K true s =
      (some (a, b), { s with fds := insert b (insert a s.fds), opened := s.opened + 2 }) ∧
    a ∉ s.fds ∧ b ∉ insert a s.fds :=
  ⟨_, _, rfl, K.pick_notMem _ _, K.pick_notMem _ _⟩

/-- The only socket pair. -/
theorem serves_one {b : Build} {s t : Client} {a a' : Fd} {pid : ℕ+} (hre : b.reentrant = false)
    (ha : a ∉ s.fds) (ha' : a' ∉ insert a s.fds) (hpid : t.helperPid = pid)
    (hst : t.started = s.started + 1) (hsock : t.sockFd = some a) (hlock : t.lockFd = none)
    (hfds : t.fds = (insert a' (insert a s.fds)).erase a') : Serves b s t := by
  have hsockets : t.sockets = {a} := by simp [Client.sockets, hsock, hlock]
  refine ⟨by simp [hpid], hst, ?_, ?_, ?_⟩
  · rw [hfds, hsockets, Finset.erase_insert ha', Finset.insert_eq, Finset.union_comm]
  · rw [hsockets, Finset.disjoint_singleton_right]
    exact ha
  · rw [hsockets, hre]
    rfl

/-- Two socket pairs. -/
theorem serves_two {b : Build} {s t : Client} {a a' l l' : Fd} {pid : ℕ+}
    (hre : b.reentrant = true) (ha : a ∉ s.fds) (ha' : a' ∉ insert a s.fds)
    (hl : l ∉ insert a' (insert a s.fds)) (hl' : l' ∉ insert l (insert a' (insert a s.fds)))
    (hpid : t.helperPid = pid) (hst : t.started = s.started + 1) (hsock : t.sockFd = some a)
    (hlock : t.lockFd = some l)
    (hfds : t.fds = ((insert l' (insert l (insert a' (insert a s.fds)))).erase a') \ {l'}) :
    Serves b s t := by
  simp only [Finset.mem_insert, not_or] at ha' hl hl'
  have hsockets : t.sockets = {a, l} := by simp [Client.sockets, hsock, hlock]
  refine ⟨by simp [hpid], hst, ?_, ?_, ?_⟩
  · rw [hfds, hsockets]
    ext x
    simp only [Finset.mem_sdiff, Finset.mem_erase, Finset.mem_insert, Finset.mem_singleton,
      Finset.mem_union]
    grind
  · rw [hsockets, Finset.disjoint_insert_right, Finset.disjoint_singleton_right]
    exact ⟨ha, hl.2.2⟩
  · rw [hsockets, hre, Finset.card_pair (Ne.symm hl.2.1)]
    rfl

theorem useHelper_spec {b : Build} {o : Answers} {s : Client} (hs : s.sockFd = none)
    (hl : s.lockFd = none) : ∃ r t, useHelper K b.reentrant o.helper s = (r, t) ∧ s.fds ⊆ t.fds ∧
      (r = .ok () ↔ HelperStarts b o) ∧ (r = .ok () → Serves b s t) ∧
      (r ≠ .ok () → t.started = s.started) := by
  unfold HelperStarts useHelper
  rw [if_neg (by simp [hs])]
  cases hsv : o.helper.sv with
  | false => exact ⟨_, s, rfl, Finset.Subset.rfl, by simp, by simp, fun _ => rfl⟩
  | true =>
    obtain ⟨a, a', hpair, ha, ha'⟩ := socketpair_new (K := K) s
    have hsub : s.fds ⊆ insert a' (insert a s.fds) := fun x hx => by simp [hx]
    rw [hpair]
    cases hre : b.reentrant with
    | false =>
      cases hf : o.helper.fork with
      | none =>
        simp only [Bool.false_eq_true, if_false]
        exact ⟨_, _, forkHelper_none hf _ _ _, hsub, by simp, by simp, fun _ => rfl⟩
      | some pid =>
        simp only [Bool.false_eq_true, if_false]
        obtain ⟨t, ht, hpid, hst, hsock, hlock, hfds⟩ := forkHelper_spec hf (a, a') none
          { s with fds := insert a' (insert a s.fds), opened := s.opened + 2 }
        have hserves : Serves b s t := serves_one hre ha ha' hpid hst hsock (by simp [hlock, hl])
          (by simpa using hfds)
        refine ⟨_, t, ht, ?_, by simp, fun _ => hserves, by simp⟩
        rw [hserves.fds]
        exact Finset.subset_union_left
    | true =>
      cases hlv : o.helper.lv with
      | false => exact ⟨_, _, rfl, hsub, by simp, by simp, fun _ => rfl⟩
      | true =>
        obtain ⟨l, l', hpair', hlnew, hlnew'⟩ := socketpair_new (K := K)
          { s with fds := insert a' (insert a s.fds), opened := s.opened + 2 }
        have hsub' : s.fds ⊆ insert l' (insert l (insert a' (insert a s.fds))) := fun x hx => by
          simp [hx]
        simp only [if_true, hpair']
        cases hf : o.helper.fork with
        | none => exact ⟨_, _, forkHelper_none hf _ _ _, hsub', by simp, by simp, fun _ => rfl⟩
        | some pid =>
          obtain ⟨t, ht, hpid, hst, hsock, hlock, hfds⟩ := forkHelper_spec hf (a, a')
            (some (l, l')) { s with
              fds := insert l' (insert l (insert a' (insert a s.fds)))
              opened := s.opened + 2 + 2 }
          have hserves : Serves b s t := serves_two hre ha ha' hlnew hlnew' hpid hst hsock
            (by simp [hlock]) (by simpa using hfds)
          refine ⟨_, t, ht, ?_, by simp, fun _ => hserves, by simp⟩
          rw [hserves.fds]
          exact Finset.subset_union_left

/-! ## `init` -/

/-- What `init` leaves: the standard descriptors and the sockets are open, the ids are dropped, and
`create` uses the helper, if the program is setuid or setgid. -/
structure StartedUp (b : Build) (fds : Finset Fd) (c c' : Creds) (t : Client) : Prop where
  creds : c' = if Elevated c then dropped b.ids c else c
  effective : c'.uid.eff = c.uid.real ∧ c'.gid.eff = c.gid.real
  create : create t = .proxy ↔ Elevated c ∧ b.helper = true
  started : t.started = if Elevated c ∧ b.helper = true then 1 else 0
  descs : t.fds = fds ∪ {0, 1, 2} ∪ t.sockets
  new : Disjoint (fds ∪ {0, 1, 2}) t.sockets
  card : t.sockets.card = if Elevated c ∧ b.helper = true then if b.reentrant then 2 else 1 else 0

/-- When `init` returns. -/
def CanStart (b : Build) (o : Answers) (fds : Finset Fd) (c : Creds) : Prop :=
  (∀ fd ∈ ({0, 1, 2} : Finset Fd), o.fills fds fd) ∧
    (Elevated c → b.helper = true → HelperStarts b o)

theorem dropped_eff (b : IdBranch) (c : Creds) :
    (dropped b c).uid.eff = c.uid.real ∧ (dropped b c).gid.eff = c.gid.real := by
  unfold dropped
  split_ifs <;> exact ⟨rfl, rfl⟩

theorem sanitiseStdfd_posix (o : Answers) (fds : Finset Fd) : ∃ r t,
    sanitiseStdfd posix o (initial fds) = (r, t) ∧ SameButFds (initial fds) t ∧ fds ⊆ t.fds ∧
      (r = .ok () ↔ ∀ fd ∈ ({0, 1, 2} : Finset Fd), o.fills fds fd) ∧
      (r = .ok () → t.fds = fds ∪ {0, 1, 2}) := by
  have hico : Finset.Ico 0 (0 + 3) = ({0, 1, 2} : Finset Fd) := by decide
  have h := sanitiseLoop_posix o 3 0 (s := initial fds) fun x hx => absurd hx (Nat.not_lt_zero x)
  rw [hico] at h
  exact h

/-- **Starting up.** `init` returns exactly if something can be opened for each standard descriptor
that is not open and, in a setuid or setgid program and a `PTYTTY_HELPER` build, the helper can be
started; then the standard descriptors are open, the effective ids are the real ones, one helper is
running and `create` uses it exactly in such a program and build, and no descriptor but these and
the sockets (two if reentrant), which are above the standard ones, has been added. A descriptor that
was open is never closed, and if `init` throws no helper has been started. -/
theorem startup_iff (R : PosixRules) (b : Build) (o : Answers) (fds : Finset Fd) (c : Creds) :
    ∃ r t, startup posix R b o (initial fds) c = (r, t) ∧ fds ⊆ t.fds ∧
      (r.isOk = true ↔ CanStart b o fds c) ∧ (∀ c', r = .ok c' → StartedUp b fds c c' t) ∧
      (∀ e, r = .error e → t.started = 0) := by
  obtain ⟨r, s, hstd, hsame, hsub, hok, hfds⟩ := sanitiseStdfd_posix o fds
  unfold startup CanStart
  rw [hstd, ← hok]
  cases r with
  | error e =>
    refine ⟨_, s, rfl, hsub, by simp [Except.isOk, Except.toBool], by simp, fun _ _ => ?_⟩
    rw [hsame]
    rfl
  | ok =>
    have hfds := hfds rfl
    have hstarted : s.started = 0 := by rw [hsame]; rfl
    have hpid : s.helperPid = 0 := by rw [hsame]; rfl
    have hsock : s.sockFd = none := by rw [hsame]; rfl
    have hlock : s.lockFd = none := by rw [hsame]; rfl
    have hnone : s.sockets = ∅ := by simp [Client.sockets, hsock, hlock]
    -- without a helper
    have plain : ∀ c', c' = (if Elevated c then dropped b.ids c else c) →
        c'.uid.eff = c.uid.real ∧ c'.gid.eff = c.gid.real → ¬ (Elevated c ∧ b.helper = true) →
        StartedUp b fds c c' s := by
      intro c' hc' heff hno
      refine ⟨hc', heff, iff_of_false (by simp [create, hpid]) hno, by rw [if_neg hno, hstarted],
        by rw [hfds, hnone, Finset.union_empty], by rw [hnone]; exact Finset.disjoint_empty_right _,
        by rw [if_neg hno, hnone]; rfl⟩
    by_cases hc : Elevated c
    · simp only [if_pos hc, startHelper]
      cases hb : b.helper with
      | false =>
        simp only [Bool.false_eq_true, if_false, dropPrivileges_eq]
        refine ⟨_, s, rfl, hsub, by simp [Except.isOk, Except.toBool], ?_, by simp⟩
        rintro c' ⟨⟩
        exact plain _ (if_pos hc).symm (dropped_eff _ _) (by simp [hb])
      | true =>
        obtain ⟨r', t, ht, hsub', hok', hserves, hst⟩ := useHelper_spec (K := posix) (b := b)
          (o := o) hsock hlock
        simp only [if_true, ht]
        cases r' with
        | error e =>
          refine ⟨_, t, rfl, hsub.trans hsub', ?_, by simp, fun _ _ => ?_⟩
          · simpa [Except.isOk, Except.toBool, hc] using hok'
          · rw [hst (by simp), hstarted]
        | ok =>
          have hserves := hserves rfl
          simp only [dropPrivileges_eq]
          refine ⟨_, t, rfl, hsub.trans hsub', ?_, ?_, by simp⟩
          · simpa [Except.isOk, Except.toBool, hc] using hok'
          · rintro c' ⟨⟩
            have hboth : Elevated c ∧ b.helper = true := ⟨hc, hb⟩
            refine ⟨(if_pos hc).symm, dropped_eff _ _, iff_of_true ?_ hboth, ?_, ?_, ?_, ?_⟩
            · simp [create, hserves.pid]
            · rw [if_pos hboth, hserves.started, hstarted]
            · rw [hserves.fds, hfds]
            · rw [← hfds]
              exact hserves.new
            · rw [if_pos hboth, hserves.card]
    · simp only [if_neg hc]
      refine ⟨_, s, rfl, hsub, by simp [Except.isOk, Except.toBool, hc], ?_, by simp⟩
      rintro c' ⟨⟩
      have heq : c.uid.real = c.uid.eff ∧ c.gid.real = c.gid.eff := by
        simpa [Elevated, not_or] using hc
      exact plain _ (if_neg hc).symm ⟨heq.1.symm, heq.2.symm⟩ fun h => hc h.1

end UseHelper

end Libptytty
