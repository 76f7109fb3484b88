import Libptytty.Registry
import Libptytty.UseHelper

/-!
# The helper without clients

`use_helper` in the child closes the descriptors below 1023, but for its own ends of the sockets,
and enters `serve`. It must not hold the clients' ends: a `read` gives end of file only when nobody
does.

1. `Child` is the helper when `serve` is entered, and `useHelperChild` what leads to it.
2. `System` is the helper and its sockets. Its clients send what they like, hand their ends on to
   other processes, and close them. The helper's writes do not block, and its allocations succeed.
3. The helper keeps nothing of its parent, and comes to the end of `serve` when its clients are
   gone, exactly if the loop has reached all descriptors (`leavesParent_iff`).
-/

namespace Libptytty

/-! ## The child in `use_helper` -/

namespace UseHelper

/-- The helper when `serve` is entered: the socket pairs, and the open descriptors. `lv` is present
in a `PTYTTY_REENTRANT` build. -/
structure Child where
  sv : Fd × Fd
  lv : Option (Fd × Fd)
  fds : Finset Fd

/-- `sock_fd`. -/
def Child.sockFd (c : Child) : Fd := c.sv.2

/-- `lock_fd`; `-1` is `none`. -/
def Child.lockFd (c : Child) : Option Fd := c.lv.map Prod.snd

/-- The loop that closes the descriptors below `n`. -/
def closeOthers (sockFd : Fd) (lockFd : Option Fd) (n : ℕ) (fds : Finset Fd) : Finset Fd :=
  (List.range n).foldl (fun fds fd => if fd ≠ sockFd ∧ some fd ≠ lockFd then fds.erase fd else fds)
    fds

/-- The child after `fork`. -/
def serverHelper (o : Outcome) (sv : Fd × Fd) (lv : Option (Fd × Fd)) (s : Client) : Option Child :=
  match o.fork with
  | none => none
  | some _ => some ⟨sv, lv, closeOthers sv.2 (lv.map Prod.snd) 1023 s.fds⟩

/-- `ptytty::use_helper` in the child, if it comes to that. -/
def useHelperChild (K : Kernel) (reentrant : Bool) (o : Outcome) (s : Client) : Option Child :=
  if s.sockFd.isSome then none
  else
    match socketpair K o.sv s with
    | (none, _) => none
    | (some sv, s) =>
      if reentrant then
        match socketpair K o.lv s with
        | (none, _) => none
        | (some lv, s) => serverHelper o sv (some lv) s
      else serverHelper o sv none s

/-- What the child has of its parent: the descriptors that were open before the call, and the
clients' ends of the sockets. -/
def Inherited (s : Client) (c : Child) (fd : Fd) : Prop :=
  fd ∈ s.fds ∨ fd = c.sv.1 ∨ ∃ l ∈ c.lv, fd = l.1

theorem mem_closeOthers {sockFd : Fd} {lockFd : Option Fd} {n : ℕ} {fds : Finset Fd} {fd : ℕ} :
    fd ∈ closeOthers sockFd lockFd n fds ↔
      fd ∈ fds ∧ (fd = sockFd ∨ some fd = lockFd ∨ n ≤ fd) := by
  unfold closeOthers
  induction n with
  | zero => simp
  | succ n ih =>
    rw [List.range_succ, List.foldl_append, List.foldl_cons, List.foldl_nil]
    split_ifs with hclose
    · rw [Finset.mem_erase, ih]
      constructor
      · rintro ⟨hne, hfd, hkept⟩
        exact ⟨hfd, hkept.imp_right (Or.imp_right fun hle => by omega)⟩
      · rintro ⟨hfd, rfl | hlock | hle⟩
        · exact ⟨fun he => hclose.1 he.symm, hfd, Or.inl rfl⟩
        · exact ⟨fun he => hclose.2 (he ▸ hlock), hfd, Or.inr (Or.inl hlock)⟩
        · exact ⟨by omega, hfd, Or.inr (Or.inr (by omega))⟩
    · rw [ih]
      refine and_congr_right fun _ => ⟨?_, Or.imp_right (Or.imp_right fun hle => by omega)⟩
      rintro (rfl | hlock | hle)
      · exact Or.inl rfl
      · exact Or.inr (Or.inl hlock)
      · by_cases he : fd = n
        · subst he
          by_cases hs : fd = sockFd
          · exact Or.inl hs
          · exact Or.inr (Or.inl (not_not.mp fun hl => hclose ⟨hs, hl⟩))
        · exact Or.inr (Or.inr (by omega))

/-- What the loop leaves open. -/
structure Forked (s : Client) (c : Child) : Prop where
  mem : ∀ fd, fd ∈ c.fds ↔ fd = c.sockFd ∨ some fd = c.lockFd ∨ (Inherited s c fd ∧ 1023 ≤ fd)
  fresh : ∀ fd, Inherited s c fd → fd ≠ c.sockFd ∧ some fd ≠ c.lockFd
  new : c.sv.1 ∉ s.fds

variable {K : Kernel} {reentrant : Bool} {o : Outcome} {s : Client} {c : Child}

theorem socketpair_some {ok : Bool} {p : Fd × Fd} {s t : Client}
    (h : socketpair K ok s = (some p, t)) : t.fds = insert p.2 (insert p.1 s.fds) ∧
      p.1 ∉ s.fds ∧ p.2 ∉ insert p.1 s.fds := by
  cases ok with
  | false => cases h
  | true =>
    cases h
    exact ⟨rfl, K.pick_notMem _ _, K.pick_notMem _ _⟩

theorem serverHelper_some {sv : Fd × Fd} {lv : Option (Fd × Fd)}
    (h : serverHelper o sv lv s = some c) :
    c = ⟨sv, lv, closeOthers sv.2 (lv.map Prod.snd) 1023 s.fds⟩ := by
  unfold serverHelper at h
  split at h
  · cases h
  · exact (Option.some.inj h).symm

theorem forked (h : useHelperChild K reentrant o s = some c) : Forked s c := by
  unfold useHelperChild at h
  split at h
  · cases h
  split at h
  · cases h
  · rename_i sv t hsv
    obtain ⟨hfds, h1, h2⟩ := socketpair_some hsv
    rw [Finset.mem_insert, not_or] at h2
    split_ifs at h with hre
    · split at h
      · cases h
      · rename_i lv u hlv
        obtain ⟨hfds', h3, h4⟩ := socketpair_some hlv
        obtain rfl := serverHelper_some h
        simp only [hfds, Finset.mem_insert, not_or] at h3 h4
        refine ⟨fun fd => ?_, fun fd => ?_, h1⟩
        · simp only [mem_closeOthers, hfds', hfds, Finset.mem_insert, Inherited, Child.sockFd,
            Child.lockFd, Option.map_some, Option.some.injEq, Option.mem_def]
          grind
        · simp only [Inherited, Child.sockFd, Child.lockFd, Option.map_some, Option.some.injEq,
            Option.mem_def, ne_eq]
          grind
    · obtain rfl := serverHelper_some h
      refine ⟨fun fd => ?_, fun fd => ?_, h1⟩
      · simp only [mem_closeOthers, hfds, Finset.mem_insert, Inherited, Child.sockFd,
          Child.lockFd, Option.map_none, Option.mem_def, reduceCtorEq, false_or, false_and,
          exists_false, or_false]
        grind
      · simp only [Inherited, Child.sockFd, Child.lockFd, Option.map_none, Option.mem_def,
          reduceCtorEq, false_and, exists_false, or_false, not_false_eq_true, and_true, ne_eq]
        grind

theorem forkHelper_of_child {sv : Fd × Fd} {lv : Option (Fd × Fd)}
    (h : serverHelper o sv lv s = some c) : ∃ t, forkHelper o sv lv s = (.ok (), t) ∧
      t.sockFd = some c.sv.1 ∧ (c.lv.isSome → t.lockFd = c.lv.map Prod.fst) := by
  obtain rfl := serverHelper_some h
  unfold serverHelper at h
  unfold forkHelper
  cases hf : o.fork with
  | none => rw [hf] at h; cases h
  | some pid => cases lv <;> exact ⟨_, rfl, rfl, by simp [close]⟩

/-- On the other side of the `fork`, the caller has the other ends. -/
theorem useHelper_of_child (h : useHelperChild K reentrant o s = some c) :
    ∃ t, useHelper K reentrant o s = (.ok (), t) ∧ t.sockFd = some c.sv.1 ∧
      (c.lv.isSome → t.lockFd = c.lv.map Prod.fst) := by
  unfold useHelperChild at h
  unfold useHelper
  by_cases hnone : s.sockFd.isSome = true
  · rw [if_pos hnone] at h
    cases h
  rw [if_neg hnone] at h ⊢
  rcases hsv : socketpair K o.sv s with ⟨_ | sv, t⟩
  · simp [hsv] at h
  · simp only [hsv] at h ⊢
    cases reentrant with
    | false => exact forkHelper_of_child h
    | true =>
      simp only [if_true] at h ⊢
      rcases hlv : socketpair K o.lv t with ⟨_ | lv, u⟩
      · simp [hlv] at h
      · simp only [hlv] at h ⊢
        exact forkHelper_of_child h

end UseHelper

/-! ## The helper and its clients -/

namespace Hangup

open UseHelper (Child Client Inherited Forked useHelperChild)
open Memory

/-- A process that may hold an end of a socket. -/
inductive Holder
  | helper
  | client (p : ℕ)
  deriving DecidableEq

/-- A stream socket at the helper's end: what it can read, and who holds the other end. -/
structure Socket (α : Type) where
  queue : List α
  holders : Finset Holder

/-- What `read` gives; it blocks as long as something may still be written. -/
inductive ReadResult (α : Type)
  | data (x : α)
  | eof
  | blocks
  deriving DecidableEq

namespace Socket

variable {α : Type}

/-- `read`. -/
def read (s : Socket α) : ReadResult α :=
  match s.queue with
  | x :: _ => .data x
  | [] => if s.holders = ∅ then .eof else .blocks

/-- What is left after a `read`. -/
def rest (s : Socket α) : Socket α := { s with queue := s.queue.tail }

/-- `write`, at the other end. -/
def write (x : α) (s : Socket α) : Socket α := { s with queue := s.queue ++ [x] }

/-- The client `q` gets a copy of what `p` has. -/
def share (p q : ℕ) (s : Socket α) : Socket α :=
  if .client p ∈ s.holders then { s with holders := insert (.client q) s.holders } else s

/-- The client `p` closes the other end. -/
def close (p : ℕ) (s : Socket α) : Socket α := { s with holders := s.holders.erase (.client p) }

/-- No client holds the other end. -/
def Abandoned (s : Socket α) : Prop := ∀ p, .client p ∉ s.holders

end Socket

/-- Where the helper is in its loop. -/
inductive Pc
  | giveToken
  | readCmd
  | needToken

/-- The helper and its sockets. -/
structure System (cfg : Config) where
  serve : Serve cfg
  pc : Pc
  sock : Socket Command
  lock : Socket Unit

/-- A step of a client. -/
inductive ClientAct
  | write (cmd : Command)
  /-- A byte is written to the lock socket. -/
  | give
  /-- The process `q` gets copies of the ends. -/
  | fork (q : ℕ)
  | closeSock
  | closeLock

/-- A step of the helper. -/
inductive HelperAct
  | give
  /-- A command is read and handled. -/
  | read (o : Outcome)
  | eof (log : ℕ → LogOutcome)
  /-- The `read` at the loop head fails, or gives less than a command. -/
  | fail (log : ℕ → LogOutcome)
  | need (interrupted : Bool)

/-- A step. -/
inductive Action
  | client (p : ℕ) (a : ClientAct)
  | helper (a : HelperAct)

variable {cfg : Config} (K : Kernel) (reentrant : Bool)

/-- The client `p` takes a step. -/
def clientStep (p : ℕ) (s : System cfg) : ClientAct → Option (System cfg)
  | .write cmd =>
    if .client p ∈ s.sock.holders then some { s with sock := s.sock.write cmd } else none
  | .give => if .client p ∈ s.lock.holders then some { s with lock := s.lock.write () } else none
  | .fork q => some { s with sock := s.sock.share p q, lock := s.lock.share p q }
  | .closeSock => some { s with sock := s.sock.close p }
  | .closeLock => some { s with lock := s.lock.close p }

/-- The helper takes a step, until `serve` returns. -/
def helperStep (s : System cfg) (a : HelperAct) : Option (System cfg) :=
  if s.serve.returned then none
  else
    match a with
    | .give =>
      match s.pc with
      | .giveToken => some { s with pc := .readCmd }
      | _ => none
    | .read o =>
      match s.pc, s.sock.read with
      | .readCmd, .data cmd => (Serve.step K s.serve (.command cmd o)).map fun serve =>
        { s with serve := serve, pc := .needToken, sock := s.sock.rest }
      | _, _ => none
    | .eof log =>
      match s.pc, s.sock.read with
      | .readCmd, .eof => (Serve.step K s.serve (.short log)).map fun serve =>
        { s with serve := serve }
      | _, _ => none
    | .fail log =>
      match s.pc with
      | .readCmd => (Serve.step K s.serve (.short log)).map fun serve => { s with serve := serve }
      | _ => none
    | .need interrupted =>
      match s.pc with
      | .needToken =>
        if reentrant then
          -- the result of `read` is ignored
          match s.lock.read with
          | .blocks => if interrupted then some { s with pc := .giveToken } else none
          | _ => some { s with pc := .giveToken, lock := s.lock.rest }
        else some { s with pc := .giveToken }
      | _ => none

/-- One step. -/
def step (s : System cfg) : Action → Option (System cfg)
  | .client p a => clientStep p s a
  | .helper a => helperStep K reentrant s a

/-- A step of the helper. -/
def IsHelper : Action → Prop
  | .client _ _ => False
  | .helper _ => True

/-- The processes that have the client's end `fd` of a socket when `serve` is entered. -/
def otherEnd (c : Child) (fd : Fd) : Finset Holder :=
  if fd ∈ c.fds then {.helper, .client 0} else {.client 0}

/-- `serve` is entered. -/
def initial (c : Child) (file : Fd → File) (db : SessionDb cfg) : System cfg where
  serve := .initial ⟨⟨c.fds, file, []⟩, [], db, false⟩
  pc := .giveToken
  sock := ⟨[], otherEnd c c.sv.1⟩
  lock := ⟨[], c.lv.elim ∅ fun lv => otherEnd c lv.1⟩

/-! ## The end of the clients -/

/-- The open descriptors are `sock_fd` and `lock_fd`, and no client's end. -/
structure KeepsNothing (c : Child) : Prop where
  fds : ∀ fd, fd ∈ c.fds ↔ fd = c.sockFd ∨ some fd = c.lockFd
  sv : c.sv.1 ∉ c.fds
  lv : ∀ l ∈ c.lv, l.1 ∉ c.fds

/-- All clients have closed their ends. -/
def System.Abandoned (s : System cfg) : Prop := s.sock.Abandoned ∧ s.lock.Abandoned

/-- `serve` has returned, and every object has been deleted once. -/
structure System.Ended (s : System cfg) : Prop where
  returned : s.serve.returned = true
  heap : ∀ a, s.serve.heap.cells a = none
  deleted : ∀ n, .new n ∈ s.serve.events → (deletions s.serve.events).count n = 1

/-- The reads of a helper whose clients are gone come to an end of file, and `serve` comes to its
end by its own steps. -/
structure ComesToEnd (s : System cfg) : Prop where
  sock : s.sock.queue = [] → s.sock.read = .eof
  lock : s.lock.queue = [] → s.lock.read = .eof
  ends : ∃ n, Machine.Inevitable (step K reentrant) IsHelper System.Ended n s

/-- In every run, a helper whose clients are gone comes to its end. -/
def Notices (s : System cfg) : Prop :=
  ∀ as u, Machine.run (step K reentrant) s as = some u → u.Abandoned → ComesToEnd K reentrant u

variable {K reentrant}

/-! ## What a step can do -/

/-- What a step of the helper can do. -/
inductive Moves (K : Kernel) (s : System cfg) : System cfg → Prop
  | give (pc : s.pc = .giveToken) : Moves K s { s with pc := .readCmd }
  | read {cmd rest o serve} (pc : s.pc = .readCmd) (queue : s.sock.queue = cmd :: rest)
    (handled : Serve.step K s.serve (.command cmd o) = some serve) :
    Moves K s { s with serve := serve, pc := .needToken, sock := { s.sock with queue := rest } }
  | finish {log serve} (pc : s.pc = .readCmd)
    (handled : Serve.step K s.serve (.short log) = some serve) : Moves K s { s with serve := serve }
  | need (bytes) (pc : s.pc = .needToken) :
    Moves K s { s with pc := .giveToken, lock := { s.lock with queue := bytes } }

theorem read_data {α : Type} {s : Socket α} {x : α} (h : s.read = .data x) :
    ∃ xs, s.queue = x :: xs := by
  unfold Socket.read at h
  split at h
  · rename_i xs hq
    cases h
    exact ⟨xs, hq⟩
  · split_ifs at h

theorem moves_of_step {s t : System cfg} {a : HelperAct} (h : helperStep K reentrant s a = some t) :
    s.serve.returned = false ∧ Moves K s t := by
  unfold helperStep at h
  by_cases hr : s.serve.returned = true
  · rw [if_pos hr] at h
    cases h
  rw [if_neg hr] at h
  refine ⟨by simpa using hr, ?_⟩
  cases a with
  | give =>
    cases hpc : s.pc <;> simp only [hpc, reduceCtorEq, Option.some.injEq] at h
    exact h ▸ .give hpc
  | read o =>
    dsimp only at h
    split at h
    · rename_i cmd hpc hread
      obtain ⟨xs, hq⟩ := read_data hread
      obtain ⟨serve, hs, rfl⟩ := Option.map_eq_some_iff.mp h
      have hrest : s.sock.rest = { s.sock with queue := xs } := by simp [Socket.rest, hq]
      rw [hrest]
      exact .read hpc hq hs
    · cases h
  | eof log =>
    dsimp only at h
    split at h
    · rename_i hpc _
      obtain ⟨serve, hs, rfl⟩ := Option.map_eq_some_iff.mp h
      exact .finish hpc hs
    · cases h
  | fail log =>
    dsimp only at h
    split at h
    · rename_i hpc
      obtain ⟨serve, hs, rfl⟩ := Option.map_eq_some_iff.mp h
      exact .finish hpc hs
    · cases h
  | need interrupted =>
    dsimp only at h
    split at h
    · rename_i hpc
      have hsame : Moves K s { s with pc := .giveToken } := .need s.lock.queue hpc
      have htaken : Moves K s { s with pc := .giveToken, lock := s.lock.rest } := .need _ hpc
      split at h
      · split at h
        · split_ifs at h
          exact Option.some.inj h ▸ hsame
        · exact Option.some.inj h ▸ htaken
      · exact Option.some.inj h ▸ hsame
    · cases h

/-! ## The helper's own copies -/

/-- The helper does not hold a client's end. -/
structure Inv (s : System cfg) : Prop where
  serve : s.serve.Inv
  sock : .helper ∉ s.sock.holders
  lock : .helper ∉ s.lock.holders

@[simp] theorem helper_mem_share {α : Type} (p q : ℕ) (s : Socket α) :
    .helper ∈ (s.share p q).holders ↔ .helper ∈ s.holders := by
  unfold Socket.share
  split_ifs <;> simp

@[simp] theorem helper_mem_close {α : Type} (p : ℕ) (s : Socket α) :
    .helper ∈ (s.close p).holders ↔ .helper ∈ s.holders := by simp [Socket.close]

theorem inv_moves {s t : System cfg} (h : Inv s) (hm : Moves K s t) : Inv t := by
  cases hm with
  | give | need => exact ⟨h.serve, h.sock, h.lock⟩
  | read _ _ handled | finish _ handled => exact ⟨Serve.inv_step h.serve handled, h.sock, h.lock⟩

theorem inv_step {s t : System cfg} {a : Action} (h : Inv s) (ht : step K reentrant s a = some t) :
    Inv t := by
  cases a with
  | helper a => exact inv_moves h (moves_of_step ht).2
  | client p a =>
    cases a with
    | write cmd =>
      simp only [step, clientStep] at ht
      split_ifs at ht
      cases ht
      exact ⟨h.serve, h.sock, h.lock⟩
    | give =>
      simp only [step, clientStep] at ht
      split_ifs at ht
      cases ht
      exact ⟨h.serve, h.sock, h.lock⟩
    | fork q => cases ht; exact ⟨h.serve, by simpa using h.sock, by simpa using h.lock⟩
    | closeSock => cases ht; exact ⟨h.serve, by simpa using h.sock, h.lock⟩
    | closeLock => cases ht; exact ⟨h.serve, h.sock, by simpa using h.lock⟩

theorem helper_mem_otherEnd {c : Child} {fd : Fd} : .helper ∈ otherEnd c fd ↔ fd ∈ c.fds := by
  unfold otherEnd
  split_ifs with h <;> simp [h]

/-! ## Coming to the end -/

theorem holders_eq_empty {α : Type} {s : Socket α} (h : .helper ∉ s.holders) (ha : s.Abandoned) :
    s.holders = ∅ := by
  rw [Finset.eq_empty_iff_forall_notMem]
  intro x
  cases x with
  | helper => exact h
  | client p => exact ha p

theorem read_of_holders {α : Type} {s : Socket α} (h : s.holders = ∅) : s.read ≠ .blocks := by
  unfold Socket.read
  split
  · simp
  · simp [h]

theorem read_eof {α : Type} {s : Socket α} (h : s.holders = ∅) (hq : s.queue = []) :
    s.read = .eof := by simp [Socket.read, hq, h]

theorem Inv.ended {s : System cfg} (h : Inv s) (hr : s.serve.returned = true) : s.Ended :=
  have hend := (Serve.safe_of_inv h.serve).ended hr
  ⟨hr, hend.1, hend.2⟩

/-- Every command can be handled. -/
theorem exists_serve_step {s : Serve cfg} (hr : s.returned = false) (cmd : Command) :
    ∃ o t, Serve.step K s (.command cmd o) = some t := by
  obtain ⟨a, ha, hfree⟩ := s.heap.exists_free
  refine ⟨⟨a, .pts7, true, true, fun _ => ⟨true, true, true⟩⟩, ?_⟩
  unfold Serve.step
  cases hty : cmd.type <;> simp [hr, hty, ha, hfree]

/-- How far the helper is from the end. -/
def distance (s : System cfg) : ℕ :=
  if s.serve.returned then 0
  else
    3 * s.sock.queue.length +
      match s.pc with
      | .readCmd => 1
      | .giveToken => 2
      | .needToken => 3

theorem distance_moves {s t : System cfg} (hr : s.serve.returned = false) (hm : Moves K s t) :
    distance t < distance s := by
  unfold distance
  cases hm with
  | give pc => simp [hr, pc]
  | need _ pc => simp [hr, pc]
  | read pc queue =>
    simp only [hr, pc, queue, List.length_cons]
    split_ifs <;> simp <;> omega
  | @finish log serve pc handled =>
    obtain ⟨-, hi⟩ := Serve.iterates_of_step handled
    cases hi
    simp [hr, pc, Serve.finish]

theorem abandoned_moves {s t : System cfg} (h : s.Abandoned) (hm : Moves K s t) : t.Abandoned := by
  cases hm <;> exact h

theorem exists_helper_step {s : System cfg} (hI : Inv s) (ha : s.Abandoned)
    (hr : s.serve.returned = false) : ∃ a t, IsHelper a ∧ step K reentrant s a = some t := by
  have hsock := holders_eq_empty hI.sock ha.1
  have hlock := holders_eq_empty hI.lock ha.2
  cases hpc : s.pc with
  | giveToken => exact ⟨.helper .give, _, trivial, by simp [step, helperStep, hr, hpc]; rfl⟩
  | readCmd =>
    cases hq : s.sock.queue with
    | nil =>
      have hread := read_eof hsock hq
      exact ⟨.helper (.eof fun _ => ⟨true, true, true⟩), _, trivial,
        by simp [step, helperStep, hr, hpc, hread, Serve.step]; rfl⟩
    | cons cmd rest =>
      have hread : s.sock.read = .data cmd := by simp [Socket.read, hq]
      obtain ⟨o, serve, hs⟩ := exists_serve_step (K := K) hr cmd
      exact ⟨.helper (.read o), _, trivial, by simp [step, helperStep, hr, hpc, hread, hs]; rfl⟩
  | needToken =>
    have hread := read_of_holders hlock
    refine ⟨.helper (.need true), ?_⟩
    cases reentrant with
    | false => exact ⟨_, trivial, by simp [step, helperStep, hr, hpc]; rfl⟩
    | true =>
      cases hb : s.lock.read with
      | blocks => exact absurd hb hread
      | data x => exact ⟨_, trivial, by simp [step, helperStep, hr, hpc, hb]; rfl⟩
      | eof => exact ⟨_, trivial, by simp [step, helperStep, hr, hpc, hb]; rfl⟩

/-- Without clients, a helper that does not hold their ends comes to its end. -/
theorem comesToEnd {s : System cfg} (hI : Inv s) (ha : s.Abandoned) : ComesToEnd K reentrant s := by
  have hcan : ∀ s : System cfg, Inv s ∧ s.Abandoned → ¬ s.Ended →
      0 < distance s + 1 ∧ ∃ a t, IsHelper a ∧ step K reentrant s a = some t := by
    rintro s ⟨hs, hgone⟩ hno
    exact ⟨Nat.succ_pos _,
      exists_helper_step hs hgone (by simpa using fun hr => hno (hs.ended hr))⟩
  have hdown : ∀ (s : System cfg) a t, Inv s ∧ s.Abandoned → ¬ s.Ended → IsHelper a →
      step K reentrant s a = some t →
      (Inv t ∧ t.Abandoned) ∧ distance t + 1 < distance s + 1 := by
    rintro s (_ | a) t ⟨hs, hgone⟩ - hown ht
    · exact hown.elim
    · obtain ⟨hr, hm⟩ := moves_of_step ht
      exact ⟨⟨inv_moves hs hm, abandoned_moves hgone hm⟩, Nat.succ_lt_succ (distance_moves hr hm)⟩
  exact ⟨read_eof (holders_eq_empty hI.sock ha.1), read_eof (holders_eq_empty hI.lock ha.2),
    _, Machine.inevitable_of_rank hcan hdown ⟨hI, ha⟩⟩

/-! ## The loop and its bound -/

variable {K' : Kernel} {o : UseHelper.Outcome} {s : Client} {c : Child}

/-- The loop has to reach everything that the child has of its parent. -/
theorem keepsNothing_iff (h : Forked s c) :
    KeepsNothing c ↔ ∀ fd, Inherited s c fd → fd < 1023 := by
  constructor
  · intro hkeeps fd hfd
    by_contra hle
    obtain ⟨hsock, hlock⟩ := h.fresh fd hfd
    have hmem : fd ∈ c.fds := (h.mem fd).mpr (Or.inr (Or.inr ⟨hfd, not_lt.mp hle⟩))
    exact ((hkeeps.fds fd).mp hmem).elim hsock hlock
  · intro hlow
    have hfds : ∀ fd, fd ∈ c.fds ↔ fd = c.sockFd ∨ some fd = c.lockFd := by
      intro fd
      rw [h.mem, or_congr_right (or_iff_left fun hfd => absurd (hlow fd hfd.1) (not_lt.mpr hfd.2))]
    have hno : ∀ fd, Inherited s c fd → fd ∉ c.fds := by
      intro fd hfd hmem
      obtain ⟨hsock, hlock⟩ := h.fresh fd hfd
      exact ((hfds fd).mp hmem).elim hsock hlock
    exact ⟨hfds, hno _ (Or.inr (Or.inl rfl)), fun l hl => hno _ (Or.inr (Or.inr ⟨l, hl, rfl⟩))⟩

theorem inv_initial (hsv : c.sv.1 ∉ c.fds) (hlv : ∀ l ∈ c.lv, l.1 ∉ c.fds) (file : Fd → File)
    (db : SessionDb cfg) : Inv (initial c file db) := by
  refine ⟨Serve.inv_initial _, fun h => hsv (helper_mem_otherEnd.mp h), ?_⟩
  unfold initial
  cases hl : c.lv with
  | none => exact Finset.notMem_empty _
  | some l => exact fun h => hlv l hl (helper_mem_otherEnd.mp h)

/-- The first client closes its ends at once. -/
theorem exists_abandoned (K : Kernel) (reentrant : Bool) (c : Child) (file : Fd → File)
    (db : SessionDb cfg) :
    ∃ u, Machine.run (step K reentrant) (initial c file db)
        [.client 0 .closeSock, .client 0 .closeLock] = some u ∧ u.Abandoned ∧
      u.sock.queue = [] ∧ u.lock.queue = [] ∧ (u.sock.holders = ∅ ↔ c.sv.1 ∉ c.fds) ∧
      (u.lock.holders = ∅ ↔ ∀ l ∈ c.lv, l.1 ∉ c.fds) := by
  have hend : ∀ fd, (otherEnd c fd).erase (.client 0) = if fd ∈ c.fds then {.helper} else ∅ := by
    intro fd
    unfold otherEnd
    split_ifs <;> decide
  have hlock : (c.lv.elim ∅ fun lv => otherEnd c lv.1).erase (.client 0) =
      if ∃ l ∈ c.lv, l.1 ∈ c.fds then {.helper} else ∅ := by
    cases hl : c.lv with
    | none => simp
    | some l => simpa using hend l.1
  refine ⟨_, rfl, ⟨fun p => ?_, fun p => ?_⟩, rfl, rfl, ?_, ?_⟩
  · show _ ∉ (otherEnd c c.sv.1).erase _
    rw [hend]
    split_ifs <;> simp
  · show _ ∉ (c.lv.elim ∅ fun lv => otherEnd c lv.1).erase _
    rw [hlock]
    split_ifs <;> simp
  · show (otherEnd c c.sv.1).erase _ = ∅ ↔ _
    rw [hend]
    split_ifs with h <;> simp [h]
  · show (c.lv.elim ∅ fun lv => otherEnd c lv.1).erase _ = ∅ ↔ _
    rw [hlock]
    split_ifs with h <;> simpa using h

/-- The helper comes to its end without clients exactly if it does not hold their ends itself. -/
theorem notices_iff (K : Kernel) (reentrant : Bool) (c : Child) (file : Fd → File)
    (db : SessionDb cfg) : Notices K reentrant (initial c file db) ↔
      c.sv.1 ∉ c.fds ∧ ∀ l ∈ c.lv, l.1 ∉ c.fds := by
  constructor
  · intro h
    obtain ⟨u, hu, hgone, hsock, hlock, hsv, hlv⟩ := exists_abandoned K reentrant c file db
    have hend := h _ u hu hgone
    have hread := hend.sock hsock
    have hread' := hend.lock hlock
    unfold Socket.read at hread hread'
    rw [hsock] at hread
    rw [hlock] at hread'
    exact ⟨hsv.mp (by simpa using hread), hlv.mp (by simpa using hread')⟩
  · rintro ⟨hsv, hlv⟩ as u hu hgone
    have hI : Inv u := Machine.inv_of_run (fun _ _ _ h ht => inv_step h ht)
      (inv_initial hsv hlv file db) hu
    exact comesToEnd hI hgone

/-- **Descriptors of the helper.** The helper has nothing of its parent and notices when all of its
clients are gone, exactly if all that it has to close is below the bound of its loop. -/
theorem leavesParent_iff (K : Kernel) (reentrant : Bool)
    (h : useHelperChild K' reentrant o s = some c) (file : Fd → File) (db : SessionDb cfg) :
    KeepsNothing c ∧ Notices K reentrant (initial c file db) ↔
      ∀ fd, Inherited s c fd → fd < 1023 := by
  rw [← keepsNothing_iff (UseHelper.forked h), notices_iff]
  exact and_iff_left_of_imp fun hkeeps => ⟨hkeeps.sv, hkeeps.lv⟩

/-- A caller with the standard descriptors. -/
theorem leavesParent_iff_three : ∃ c, useHelperChild posix true ⟨true, true, some 1⟩
      (UseHelper.initial {0, 1, 2}) = some c ∧
    KeepsNothing c ∧ Notices posix true (initial c Os.start.descs.file Os.start.db) := by
  obtain ⟨c, hc⟩ : ∃ c, useHelperChild posix true ⟨true, true, some 1⟩
      (UseHelper.initial {0, 1, 2}) = some c := ⟨_, rfl⟩
  refine ⟨c, hc, (leavesParent_iff posix true hc _ _).mpr ?_⟩
  rintro fd (hfd | rfl | ⟨l, hl, rfl⟩)
  · have hlow : ∀ fd ∈ ({0, 1, 2} : Finset Fd), fd < 1023 := by decide
    exact hlow fd hfd
  · cases hc
    decide
  · cases hc
    cases hl
    decide

/-- A helper that holds the clients' end of the commands waits for one when nobody can send it. -/
theorem exists_waiting (K : Kernel) (reentrant : Bool) (hsv : c.sv.1 ∈ c.fds) (file : Fd → File)
    (db : SessionDb cfg) : ∃ as u, Machine.run (step K reentrant) (initial c file db) as = some u ∧
      u.Abandoned ∧ ∀ a t, helperStep K reentrant u a = some t → ∃ log, a = .fail log := by
  obtain ⟨u, hu, hgone, hsock, -, hheld, -⟩ := exists_abandoned K reentrant c file db
  have hu' : Machine.run (step K reentrant) (initial c file db)
      [.client 0 .closeSock, .client 0 .closeLock, .helper .give] =
        some { u with pc := .readCmd } := by cases hu; rfl
  have hread : u.sock.read = .blocks := by
    have hne : u.sock.holders ≠ ∅ := fun he => hheld.mp he hsv
    simp [Socket.read, hsock, hne]
  refine ⟨_, _, hu', hgone, fun a t ht => ?_⟩
  cases a with
  | fail log => exact ⟨log, rfl⟩
  | give | read | eof | need => simp [helperStep, hread] at ht

/-- The caller has the descriptors 0 to 1022 open, so that the sockets are above them. The helper
keeps the clients' ends, and waits for a command when they are gone. -/
theorem not_leavesParent : ∃ c, useHelperChild posix true ⟨true, true, some 1⟩
      (UseHelper.initial (Finset.range 1023)) = some c ∧ ¬ KeepsNothing c ∧
    ∃ as u, Machine.run (step posix true) (initial c Os.start.descs.file Os.start.db) as = some u ∧
      u.Abandoned ∧ ∀ a t, helperStep posix true u a = some t → ∃ log, a = .fail log := by
  obtain ⟨c, hc⟩ : ∃ c, useHelperChild posix true ⟨true, true, some 1⟩
      (UseHelper.initial (Finset.range 1023)) = some c := ⟨_, rfl⟩
  have hf := UseHelper.forked hc
  have hinherited : Inherited (UseHelper.initial (Finset.range 1023)) c c.sv.1 :=
    Or.inr (Or.inl rfl)
  have hnew : c.sv.1 ∉ Finset.range 1023 := hf.new
  have hhigh : 1023 ≤ c.sv.1 := by simpa using hnew
  have hmem : c.sv.1 ∈ c.fds := (hf.mem _).mpr (Or.inr (Or.inr ⟨hinherited, hhigh⟩))
  exact ⟨c, hc, fun hkeeps => hkeeps.sv hmem, exists_waiting posix true hmem _ _⟩

end Hangup

end Libptytty
