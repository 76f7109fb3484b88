import Libptytty.PtyttyUnix
import Libptytty.Lib.Memory

/-!
# The helper

`serve` (proxy.C) handles one command after another, as `step` does: `ptys` and the heap are the
objects it manages, `replies` is what it has sent, and `events` records the calls it makes on
objects, with the allocation that was live at the address used. What a client sends is arbitrary.
The token is left out here; it is the subject of `Libptytty.Shared`. So are failed allocations,
which end the helper and are the subject of `Libptytty.Ptys`.
-/

namespace Libptytty

open CString Memory

/-! ## `vector<ptytty *>` -/

namespace Estl

variable {α : Type*} [DecidableEq α]

/-- `find`: the offset of the first element that equals `value`, or that of `end ()`. -/
def find (value : α) : List α → ℕ
  | [] => 0
  | x :: xs => if x ≠ value then find value xs + 1 else 0

/-- `simplevec::erase`: the elements behind `pos` move one place to the front. -/
def erase (v : List α) (pos : ℕ) : List α :=
  if pos ≠ v.length then v.take pos ++ v.drop (pos + 1) else v

theorem find_ne_length {v : List α} {value : α} : find value v ≠ v.length ↔ value ∈ v := by
  induction v with
  | nil => simp [find]
  | cons x xs ih =>
    unfold find
    by_cases hx : x = value
    · simp [hx]
    · rw [if_pos hx, List.length_cons, List.mem_cons]
      simp [ih, Ne.symm hx]

theorem getD_find {v : List α} {value d : α} (h : value ∈ v) :
    v.getD (find value v) d = value := by
  induction v with
  | nil => cases h
  | cons x xs ih =>
    unfold find
    by_cases hx : x = value
    · simp [hx]
    · rw [if_pos hx, List.getD_cons_succ]
      exact ih ((List.mem_cons.mp h).resolve_left (Ne.symm hx))

/-- Erasing what `find` has found removes the first occurrence. -/
theorem erase_find {v : List α} {value : α} (h : value ∈ v) :
    erase v (find value v) = v.erase value := by
  have hne := find_ne_length.mpr h
  unfold erase
  rw [if_pos hne]
  clear hne
  induction v with
  | nil => cases h
  | cons x xs ih =>
    unfold find
    by_cases hx : x = value
    · simp [hx]
    · rw [if_pos hx, List.erase_cons_tail (by simpa using hx)]
      rw [List.take_succ_cons, List.drop_succ_cons, List.cons_append]
      rw [ih ((List.mem_cons.mp h).resolve_left (Ne.symm hx))]

end Estl

/-! ## Commands -/

/-- `command::type`, as a client may send it. -/
inductive CommandType
  | get
  | login
  | destroy
  | other (value : ℕ)
  deriving DecidableEq

/-- `struct command`. -/
structure Command where
  type : CommandType
  id : Addr
  loginShell : Bool
  cmdPid : ℤ
  hostname : CharArray 512
  deriving DecidableEq

namespace Command

/-- The command of `ptytty_proxy::get`; `junk` is what was on the stack. -/
def ofGet (junk : Command) : Command := { junk with type := .get }

/-- The command of `ptytty_proxy::login`. -/
def ofLogin (id : Addr) (pid : ℤ) (shell : Bool) (hostname : CStr) : Command :=
  ⟨.login, id, shell, pid, strncpy 512 hostname⟩

/-- The command of `~ptytty_proxy`. -/
def ofDestroy (junk : Command) (id : Addr) : Command := { junk with type := .destroy, id := id }

end Command

/-- What the helper sends: an id, or an open file in a control message. -/
inductive Reply
  | id (a : Addr)
  | fd (f : File)
  deriving DecidableEq

/-- A call made by `serve`. `target` is the allocation that is live at the address, `listed` tells
whether the address is in `ptys`. -/
inductive Event
  | new (n : ℕ)
  | got (n : ℕ) (ok : Bool)
  | login (target : Option ℕ) (listed : Bool) (hostname : CharArray 512)
  | delete (target : Option ℕ) (listed : Bool)
  deriving DecidableEq

/-- What happens outside `serve` while it handles one command. -/
structure Outcome where
  /-- The result of `operator new`. -/
  addr : Addr
  get : PtyttyUnix.GetOutcome
  /-- The `sendmsg` of the master and of the slave. -/
  sendPty : Bool
  sendTty : Bool
  /-- The files of the session databases, at each call. -/
  log : ℕ → LogOutcome

/-- The state of the helper. -/
structure Serve (cfg : Config) where
  ptys : List Addr
  heap : Heap PtyttyUnix
  os : Os cfg
  replies : List Reply
  events : List Event
  /-- `serve` has returned. -/
  returned : Bool

namespace Serve

variable {cfg : Config} (K : Kernel)

/-- When `serve` is entered. -/
def initial (os : Os cfg) : Serve cfg := ⟨[], .empty, os, [], [], false⟩

/-! ## Handling a command -/

/-- `delete` of a pointer. -/
def delete (o : LogOutcome) (a : Addr) (s : Serve cfg) : Serve cfg :=
  match s.heap.cells a with
  | none =>
    { s with
      os := { s.os with fault := true }
      events := s.events ++ [.delete none (a ∈ s.ptys)] }
  | some c =>
    { s with
      heap := s.heap.free a
      os := c.obj.delete K o s.os
      events := s.events ++ [.delete (some c.serial) (a ∈ s.ptys)] }

/-- `write` of a reply. -/
def reply (a : Addr) (s : Serve cfg) : Serve cfg := { s with replies := s.replies ++ [.id a] }

/-- The message that `ptytty::send_fd` sends, if its `sendmsg` succeeds. -/
def fdMessage (ok : Bool) (fd : Option Fd) (d : Descs) : List Reply :=
  match ok, fd with
  | true, some fd => [.fd (d.file fd)]
  | _, _ => []

/-- `ptytty::send_fd`; the result is ignored. -/
def sendFd (ok : Bool) (fd : Option Fd) (s : Serve cfg) : Serve cfg :=
  { s with replies := s.replies ++ fdMessage ok fd s.os.descs }

/-- `command::get`: a new object is registered under its address, or deleted again. -/
def handleGet (o : Outcome) (s : Serve cfg) : Serve cfg :=
  let n := s.heap.created
  let (ok, x, os) := PtyttyUnix.new.get K o.get s.os
  let s := { s with
    heap := s.heap.alloc o.addr x
    os := os
    events := s.events ++ [Event.new n, Event.got n ok] }
  if ok then
    let s := s.reply o.addr
    let s := { s with ptys := s.ptys ++ [o.addr] }
    let s := s.sendFd o.sendPty x.pty
    let s := s.sendFd o.sendTty x.tty
    let (x, os) := x.closeTty s.os
    { s with heap := s.heap.modify o.addr fun _ => x, os := os }
  else (s.delete K (o.log 0) o.addr).reply 0

/-- `login` through a pointer. -/
def login (o : LogOutcome) (cmd : Command) (s : Serve cfg) : Serve cfg :=
  let hostname : CharArray 512 := terminate cmd.hostname
  match s.heap.cells cmd.id with
  | none =>
    { s with
      os := { s.os with fault := true }
      events := s.events ++ [.login none (cmd.id ∈ s.ptys) hostname] }
  | some c =>
    let (x, os) := c.obj.login K o cmd.cmdPid cmd.loginShell (ofArray hostname) s.os
    { s with
      heap := s.heap.modify cmd.id fun _ => x
      os := os
      events := s.events ++ [.login (some c.serial) (cmd.id ∈ s.ptys) hostname] }

/-- `command::login`. -/
def handleLogin (o : LogOutcome) (cmd : Command) (s : Serve cfg) : Serve cfg :=
  if cfg.utmp = .none then s
  else if Estl.find cmd.id s.ptys ≠ s.ptys.length then s.login K o cmd
  else s

/-- `command::destroy`. -/
def handleDestroy (o : LogOutcome) (cmd : Command) (s : Serve cfg) : Serve cfg :=
  let pty := Estl.find cmd.id s.ptys
  if pty ≠ s.ptys.length then
    let s := s.delete K o (s.ptys.getD pty 0)
    { s with ptys := Estl.erase s.ptys pty }
  else s

/-- The loop behind the main loop: the elements below `i` are deleted from the last one on. -/
def destroyAll (o : ℕ → LogOutcome) : ℕ → Serve cfg → Serve cfg
  | 0, s => s
  | i + 1, s => destroyAll o i (s.delete K (o i) (s.ptys.getD i 0))

/-- The end of `serve`. -/
def finish (o : ℕ → LogOutcome) (s : Serve cfg) : Serve cfg :=
  { destroyAll K o s.ptys.length s with returned := true }

/-- What the `read` at the loop head gives: a command, or less than one. -/
inductive Input
  | command (cmd : Command) (o : Outcome)
  | short (log : ℕ → LogOutcome)

/-- One iteration of the loop. `operator new` does not return the address of a live object. -/
def step (s : Serve cfg) : Input → Option (Serve cfg)
  | .short log => if s.returned then none else some (s.finish K log)
  | .command cmd o =>
    if s.returned then none
    else
      match cmd.type with
      | .get =>
        if o.addr = 0 ∨ (s.heap.cells o.addr).isSome then none else some (s.handleGet K o)
      | .login => some (s.handleLogin K (o.log 0) cmd)
      | .destroy => some (s.handleDestroy K (o.log 0) cmd)
      | .other _ => some (s.finish K o.log)

/-- What one iteration can do. -/
inductive Iterates (s : Serve cfg) : Input → Serve cfg → Prop
  | short {log} : Iterates s (.short log) (s.finish K log)
  | get {cmd o} (type : cmd.type = .get) (nonnull : o.addr ≠ 0)
    (free : s.heap.cells o.addr = none) : Iterates s (.command cmd o) (s.handleGet K o)
  | login {cmd o} (type : cmd.type = .login) :
    Iterates s (.command cmd o) (s.handleLogin K (o.log 0) cmd)
  | destroy {cmd o} (type : cmd.type = .destroy) :
    Iterates s (.command cmd o) (s.handleDestroy K (o.log 0) cmd)
  | other {cmd o v} (type : cmd.type = .other v) :
    Iterates s (.command cmd o) (s.finish K o.log)

variable {K}

theorem iterates_of_step {s t : Serve cfg} {i : Input} (h : step K s i = some t) :
    s.returned = false ∧ Iterates K s i t := by
  cases hr : s.returned with
  | true => cases i <;> simp [step, hr] at h
  | false =>
    refine ⟨rfl, ?_⟩
    cases i with
    | short log =>
      simp only [step, hr, Bool.false_eq_true, if_false, Option.some.injEq] at h
      exact h ▸ .short
    | command cmd o =>
      simp only [step, hr, Bool.false_eq_true, if_false] at h
      cases hty : cmd.type with
      | get =>
        simp only [hty] at h
        split_ifs at h with hnew
        push Not at hnew
        cases h
        exact .get hty hnew.1 (by simpa using hnew.2)
      | login =>
        simp only [hty, Option.some.injEq] at h
        exact h ▸ .login hty
      | destroy =>
        simp only [hty, Option.some.injEq] at h
        exact h ▸ .destroy hty
      | other v =>
        simp only [hty, Option.some.injEq] at h
        exact h ▸ .other hty

end Serve

end Libptytty
