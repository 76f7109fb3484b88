import Libptytty.Kernel
import Libptytty.Lib.Machine

/-!
# Starting the helper

`ptytty::use_helper` and `ptytty::create` (proxy.C) as a process that may become a client runs
them: the globals `sock_fd`, `lock_fd` and `helper_pid`, and the open descriptors.

`use_helper` overwrites `helper_pid` with the result of a failed `fork`, and does not close what it
opened before a later call failed. These are the only ways in which it is not atomic
(`useHelper_atomic_iff`).
-/

namespace Libptytty

namespace UseHelper

/-- The process that calls `use_helper`. -/
structure Client where
  /-- `-1` is `none`. -/
  sockFd : Option Fd
  lockFd : Option Fd
  helperPid : ℤ
  fds : Finset Fd
  /-- How many descriptors the kernel has handed out. -/
  opened : ℕ
  /-- History: how many helper processes have been started. -/
  started : ℕ
  /-- History: a call of `use_helper` has returned. -/
  returned : Bool

/-- What the operating system answers during one call. -/
structure Outcome where
  /-- The `socketpair` for the commands succeeds. -/
  sv : Bool
  /-- The `socketpair` for the token succeeds. -/
  lv : Bool
  /-- The pid of the child, or `-1`. -/
  fork : Option ℕ+

variable (K : Kernel) (reentrant : Bool)

/-- `socketpair`: two new descriptors. -/
def socketpair (ok : Bool) (s : Client) : Option (Fd × Fd) × Client :=
  if ok then
    let a := K.pick s.opened s.fds
    let b := K.pick (s.opened + 1) (insert a s.fds)
    (some (a, b), { s with fds := insert b (insert a s.fds), opened := s.opened + 2 })
  else (none, s)

/-- `close`. -/
def close (fd : Fd) (s : Client) : Client := { s with fds := s.fds.erase fd }

/-- The part of `use_helper` behind the socket pairs. `lv` is present in a `PTYTTY_REENTRANT`
build. The child never returns from here, so that only the client process is left. -/
def forkHelper (o : Outcome) (sv : Fd × Fd) (lv : Option (Fd × Fd)) (s : Client) :
    Except String Unit × Client :=
  match o.fork with
  | none =>
    (.error "could not create pty/sessiondb helper process.\n", { s with helperPid := -1 })
  | some pid =>
    let s := { s with helperPid := pid, started := s.started + 1, sockFd := some sv.1 }
    let s := close sv.2 s
    match lv with
    | none => (.ok (), { s with returned := true })
    | some lv => (.ok (), { close lv.2 { s with lockFd := some lv.1 } with returned := true })

/-- `ptytty::use_helper`; an error is the text of the `ptytty_error` thrown. -/
def useHelper (o : Outcome) (s : Client) : Except String Unit × Client :=
  if s.sockFd.isSome then (.ok (), { s with returned := true })
  else
    match socketpair K o.sv s with
    | (none, s) => (.error "could not create socket to communicate with pty/sessiondb helper.\n", s)
    | (some sv, s) =>
      if reentrant then
        match socketpair K o.lv s with
        | (none, s) =>
          (.error "could not create socket to communicate with pty/sessiondb helper.\n", s)
        | (some lv, s) => forkHelper o sv (some lv) s
      else forkHelper o sv none s

/-- What `ptytty::create` makes. -/
inductive Made
  | proxy
  | unix
  deriving DecidableEq

/-- `ptytty::create`. -/
def create (s : Client) : Made := if s.helperPid ≠ 0 then .proxy else .unix

/-- A call of the client. -/
inductive Call
  | useHelper (o : Outcome)
  | create

/-- The state after a call. -/
def step (s : Client) : Call → Option Client
  | .useHelper o => some (useHelper K reentrant o s).2
  | .create => some s

/-- A process that has not called `use_helper` yet. -/
def initial (fds : Finset Fd) : Client := ⟨none, none, 0, fds, 0, 0, false⟩

/-! ## Atomicity -/

/-- The globals and the open descriptors are the same. -/
def Same (s t : Client) : Prop :=
  t.sockFd = s.sockFd ∧ t.lockFd = s.lockFd ∧ t.helperPid = s.helperPid ∧ t.fds = s.fds

/-- `create` makes a proxy exactly if a `use_helper` has returned, that is if `sock_fd` is set. -/
def CreateAgrees (s : Client) : Prop :=
  (create s = .proxy ↔ s.returned = true) ∧ (s.returned = true ↔ s.sockFd.isSome)

/-- A call of `use_helper` that throws changes nothing and may be retried, one that returns has
exactly one helper started over the whole run; before and after every call `create` agrees. -/
def AtomicCall (s : Client) : Call → Prop
  | .useHelper o =>
    CreateAgrees s ∧
    match useHelper K reentrant o s with
    | (.error _, t) => CreateAgrees t ∧ Same s t ∧
        ∀ o', o'.sv = true → o'.lv = true → o'.fork ≠ none → (useHelper K reentrant o' t).1 = .ok ()
    | (.ok (), t) => CreateAgrees t ∧ t.started = 1
  | .create => CreateAgrees s

/-- No call fails after an earlier one of the same `use_helper` has opened descriptors. -/
def FailsEarly (s : Client) : Call → Prop
  | .useHelper o =>
    s.sockFd = none → o.sv = true → (reentrant = true → o.lv = true) ∧ o.fork ≠ none
  | .create => True

/-- Before the first successful `use_helper`, and after it. -/
def Inv (s : Client) : Prop :=
  (s.sockFd = none ∧ s.returned = false ∧ s.helperPid = 0 ∧ s.started = 0) ∨
    (s.sockFd.isSome ∧ s.returned = true ∧ s.helperPid ≠ 0 ∧ s.started = 1)

variable {K reentrant}

theorem inv_initial (fds : Finset Fd) : Inv (initial fds) := Or.inl ⟨rfl, rfl, rfl, rfl⟩

theorem socketpair_true (s : Client) : ∃ sv t, socketpair K true s = (some sv, t) ∧
    t = { s with fds := t.fds, opened := t.opened } ∧ sv.1 ∉ s.fds ∧ s.fds ⊆ t.fds ∧
      sv.1 ∈ t.fds :=
  ⟨_, _, rfl, rfl, K.pick_notMem _ _, fun _ hx => by simp [hx], by simp⟩

theorem forkHelper_none {o : Outcome} (h : o.fork = none) (sv : Fd × Fd) (lv : Option (Fd × Fd))
    (s : Client) : forkHelper o sv lv s =
      (.error "could not create pty/sessiondb helper process.\n", { s with helperPid := -1 }) := by
  unfold forkHelper; rw [h]

theorem forkHelper_some {o : Outcome} {pid : ℕ+} (h : o.fork = some pid) (sv : Fd × Fd)
    (lv : Option (Fd × Fd)) (s : Client) : ∃ t, forkHelper o sv lv s = (.ok (), t) ∧
      t.sockFd = some sv.1 ∧ t.helperPid = pid ∧ t.started = s.started + 1 ∧ t.returned = true := by
  unfold forkHelper
  rw [h]
  cases lv <;> exact ⟨_, rfl, rfl, rfl, rfl, rfl⟩

/-- Once a helper runs, `use_helper` does nothing. -/
theorem useHelper_of_isSome {o : Outcome} {s : Client} (h : s.sockFd.isSome) :
    useHelper K reentrant o s = (.ok (), { s with returned := true }) := by
  unfold useHelper; rw [if_pos h]

/-- The first `socketpair` fails. -/
theorem useHelper_sv_false {o : Outcome} {s : Client} (h : s.sockFd = none) (hsv : o.sv = false) :
    useHelper K reentrant o s =
      (.error "could not create socket to communicate with pty/sessiondb helper.\n", s) := by
  unfold useHelper; rw [if_neg (by simp [h]), hsv]; rfl

/-- A failure after the first `socketpair`: the process keeps a new descriptor. -/
theorem useHelper_late {o : Outcome} {s : Client} (h : s.sockFd = none) (hsv : o.sv = true)
    (hlate : ¬ ((reentrant = true → o.lv = true) ∧ o.fork ≠ none)) :
    ∃ e t, useHelper K reentrant o s = (.error e, t) ∧ t.fds ≠ s.fds := by
  unfold useHelper
  rw [if_neg (by simp [h]), hsv]
  obtain ⟨sv, t, ht, -, hnew, -, hmem⟩ := socketpair_true (K := K) s
  have hne : ∀ f : Finset Fd, t.fds ⊆ f → f ≠ s.fds := fun f hf he => hnew (he ▸ hf hmem)
  rw [ht]
  cases reentrant with
  | false =>
    have hf : o.fork = none := by simpa using hlate
    simp only [Bool.false_eq_true, if_false]
    exact ⟨_, _, forkHelper_none hf _ _ _, hne _ Finset.Subset.rfl⟩
  | true =>
    cases hlv : o.lv with
    | false => exact ⟨_, t, rfl, hne _ Finset.Subset.rfl⟩
    | true =>
      have hf : o.fork = none := by simpa [hlv] using hlate
      obtain ⟨lv, u, hu, -, -, hsub, -⟩ := socketpair_true (K := K) t
      simp only [if_true, hu]
      exact ⟨_, _, forkHelper_none hf _ _ _, hne _ hsub⟩

/-- All calls succeed: a helper is started. -/
theorem useHelper_ok {o : Outcome} {s : Client} (h : s.sockFd = none) (hsv : o.sv = true)
    (hok : (reentrant = true → o.lv = true) ∧ o.fork ≠ none) :
    ∃ t, useHelper K reentrant o s = (.ok (), t) ∧ t.sockFd.isSome ∧ t.returned = true ∧
      t.helperPid ≠ 0 ∧ t.started = s.started + 1 := by
  obtain ⟨pid, hpid⟩ := Option.ne_none_iff_exists'.mp hok.2
  unfold useHelper
  rw [if_neg (by simp [h]), hsv]
  obtain ⟨sv, t, ht, hst, -⟩ := socketpair_true (K := K) s
  rw [ht]
  cases reentrant with
  | false =>
    obtain ⟨u, hu, hs, hp, hn, hr⟩ := forkHelper_some hpid sv none t
    exact ⟨u, hu, by simp [hs], hr, by simp [hp], by rw [hn, hst]⟩
  | true =>
    rw [hok.1 rfl]
    obtain ⟨lv, t', ht', hst', -⟩ := socketpair_true (K := K) t
    simp only [if_true, ht']
    obtain ⟨u, hu, hs, hp, hn, hr⟩ := forkHelper_some hpid sv (some lv) t'
    exact ⟨u, hu, by simp [hs], hr, by simp [hp], by rw [hn, hst', hst]⟩

/-- `use_helper` returns when the operating system refuses nothing. -/
theorem useHelper_retry {o : Outcome} (s : Client) (hsv : o.sv = true) (hlv : o.lv = true)
    (hf : o.fork ≠ none) : (useHelper K reentrant o s).1 = .ok () := by
  cases h : s.sockFd with
  | some fd => rw [useHelper_of_isSome (by simp [h])]
  | none =>
    obtain ⟨t, ht, -⟩ := useHelper_ok (K := K) h hsv ⟨fun _ => hlv, hf⟩
    rw [ht]

theorem createAgrees_of_inv {s : Client} (hI : Inv s) : CreateAgrees s := by
  unfold CreateAgrees create
  rcases hI with ⟨hs, hr, hp, -⟩ | ⟨hs, hr, hp, -⟩
  · simp [hs, hr, hp]
  · simp [hs, hr, hp]

theorem inv_step {s t : Client} {a : Call} (hI : Inv s) (hok : FailsEarly reentrant s a)
    (ht : step K reentrant s a = some t) : Inv t := by
  cases a with
  | create => cases ht; exact hI
  | useHelper o =>
    cases ht
    rcases hI with ⟨hs, hr, hp, hn⟩ | ⟨hs, hr, hp, hn⟩
    · cases hsv : o.sv with
      | false => rw [useHelper_sv_false hs hsv]; exact Or.inl ⟨hs, hr, hp, hn⟩
      | true =>
        obtain ⟨u, hu, hsome, hret, hpid, hst⟩ := useHelper_ok (K := K) hs hsv (hok hs hsv)
        rw [hu]
        exact Or.inr ⟨hsome, hret, hpid, by rw [hst, hn]⟩
    · rw [useHelper_of_isSome hs]
      exact Or.inr ⟨hs, rfl, hp, hn⟩

/-- In a state that `use_helper` has kept consistent, a call is atomic exactly if it fails
early. -/
theorem atomicCall_iff {s : Client} (hI : Inv s) (a : Call) :
    AtomicCall K reentrant s a ↔ FailsEarly reentrant s a := by
  have hagree := createAgrees_of_inv hI
  cases a with
  | create => exact iff_of_true hagree trivial
  | useHelper o =>
    by_cases hok : FailsEarly reentrant s (.useHelper o)
    · refine iff_of_true ?_ hok
      have hagree' := createAgrees_of_inv (inv_step (K := K) hI hok rfl)
      rcases hI with ⟨hs, -, -, hn⟩ | ⟨hs, -, -, hn⟩
      · cases hsv : o.sv with
        | false =>
          simp only [AtomicCall, useHelper_sv_false hs hsv]
          exact ⟨hagree, hagree, ⟨rfl, rfl, rfl, rfl⟩, fun _ => useHelper_retry s⟩
        | true =>
          obtain ⟨t, ht, -, -, -, hst⟩ := useHelper_ok (K := K) hs hsv (hok hs hsv)
          simp only [ht] at hagree'
          simp only [AtomicCall, ht]
          exact ⟨hagree, hagree', by rw [hst, hn]⟩
      · simp only [useHelper_of_isSome hs] at hagree'
        simp only [AtomicCall, useHelper_of_isSome hs]
        exact ⟨hagree, hagree', hn⟩
    · -- `use_helper` throws with a new descriptor open
      refine iff_of_false ?_ hok
      simp only [FailsEarly, Classical.not_imp] at hok
      obtain ⟨hs, hsv, hlate⟩ := hok
      obtain ⟨e, t, ht, hne⟩ := useHelper_late (K := K) hs hsv hlate
      simp only [AtomicCall, ht]
      exact fun h => hne h.2.2.1.2.2.2

/-- **Atomicity.** Over any sequence of calls, every `use_helper` is atomic and every `create`
agrees with it exactly if no `use_helper` fails after it has opened descriptors. -/
theorem useHelper_atomic_iff (K : Kernel) (reentrant : Bool) (fds : Finset Fd) (as : List Call) :
    Machine.Along (step K reentrant) (AtomicCall K reentrant) (initial fds) as ↔
      Machine.Along (step K reentrant) (FailsEarly reentrant) (initial fds) as :=
  Machine.along_congr (fun _ a hI => atomicCall_iff hI a)
    (fun _ a _ hI hok ht => inv_step hI ((atomicCall_iff hI a).mp hok) ht) (inv_initial fds) as

/-- A failed `fork`: four descriptors stay open, and `create` makes a proxy without a helper. -/
theorem useHelper_fork_fails :
    let calls : List Call := [.useHelper ⟨true, true, none⟩, .create]
    ¬ Machine.Along (step posix true) (AtomicCall posix true) (initial {0, 1, 2}) calls ∧
      ∃ s, Machine.run (step posix true) (initial {0, 1, 2}) calls = some s ∧
        s.fds = {0, 1, 2, 3, 4, 5, 6} ∧ s.sockFd = none ∧ s.helperPid = -1 ∧
        create s = .proxy := by
  refine ⟨fun h => ?_, _, rfl, by decide, rfl, rfl, rfl⟩
  have hfds := h.1.2.2.1.2.2.2
  revert hfds
  decide

end UseHelper

end Libptytty
