import Libptytty.Serve
import Libptytty.Lib.Machine

/-!
# Processes that share a helper

The system of proxy.C in a `PTYTTY_REENTRANT` build: any number of processes, forked from the one
that called `use_helper`, run the methods of their `ptytty_proxy` objects, and the helper runs
`serve`. They share two sockets: the commands and the answers, and the lock socket, whose bytes are
the token. Every system call is a step of its own, with its outcome as part of the action.

A `read` of the lock socket may be interrupted. A command, an id and a descriptor are read whole;
a failed read of an answer may have taken some of them from the socket. The helper stays alive.

Calls are numbered in the order in which they pass `NEED_TOKEN`. These numbers and the other fields
called history are not seen by the program.
-/

namespace Libptytty.Shared

open CString Memory Machine

/-- A process. -/
abbrev Pid := ℕ

/-- An end of a pseudo terminal, by the number of the allocation that opened it. -/
inductive Endpoint
  | master (n : ℕ)
  | slave (n : ℕ)
  deriving DecidableEq

/-- `ptytty_proxy`. -/
structure Proxy where
  id : Addr
  pty : Option Endpoint
  tty : Option Endpoint
  /-- History: the call of `get` that has read `id`. -/
  origin : Option ℕ
  deriving DecidableEq

/-- The constructor of `ptytty_proxy`. -/
def Proxy.new : Proxy := ⟨0, none, none, none⟩

/-- A command in the socket. All but `cmd` is history: the number of the call, its process, and the
`origin` of its proxy. -/
structure Request where
  cmd : Command
  ticket : ℕ
  sender : Pid
  via : Option ℕ

/-- What the helper writes to the socket. -/
inductive Answer
  | id (a : Addr)
  | fd (e : Endpoint)
  deriving DecidableEq

/-- The descriptors of a `ptytty_unix` of the helper. -/
structure Object where
  pty : Option Endpoint
  tty : Option Endpoint

/-! ## The processes -/

/-- A method of the proxy `i` of a process. -/
inductive Call
  | get (i : ℕ)
  | login (i : ℕ) (pid : ℤ) (shell : Bool) (hostname : CStr)
  | destroy (i : ℕ)

/-- The proxy of a call. -/
def Call.index : Call → ℕ
  | .get i | .login i _ _ _ | .destroy i => i

/-- The command of a call. -/
def Call.command (q : Proxy) (junk : Command) : Call → Command
  | .get _ => junk.ofGet
  | .login _ pid shell hostname => Command.ofLogin q.id pid shell hostname
  | .destroy _ => junk.ofDestroy q.id

/-- `~ptytty_proxy` of a proxy without an id does nothing. -/
def Call.skips (q : Proxy) : Call → Bool
  | .destroy _ => q.id = 0
  | _ => false

/-- Where a process is. `ret` is the result that a `get` is going to return. -/
inductive Pc
  | idle
  | needToken (c : Call)
  | write (c : Call)
  | readId (i : ℕ)
  | recvPty (i : ℕ)
  | recvTty (i : ℕ)
  | giveToken (ret : Option (ℕ × Bool))

/-- Between `NEED_TOKEN` and `GIVE_TOKEN`. -/
def Pc.inside : Pc → Bool
  | .idle | .needToken _ => false
  | _ => true

/-- Where a process is after it has written its command. -/
def Call.written : Call → Pc
  | .get i => .readId i
  | _ => .giveToken none

/-- A process with its proxies. `ticket` and `took` are history: the number of its call, and how
many bytes that has read from the lock socket. -/
structure Process where
  pc : Pc
  objs : ℕ → Option Proxy
  ticket : ℕ
  took : ℕ

/-- Another proxy `i`. -/
def Process.put (i : ℕ) (q : Option Proxy) (x : Process) : Process :=
  { x with objs := Function.update x.objs i q }

/-- The proxies after the command of a call has been written. -/
def Process.written (c : Call) (x : Process) : Process :=
  match c with
  | .destroy i => x.put i none
  | _ => x

/-! ## The system -/

/-- Where the helper is in its loop. -/
inductive HelperPc
  | giveToken
  | readCmd
  | handle (r : Request)
  | writeId (a : Addr)
  | sendPty (a : Addr)
  | sendTty (a : Addr)
  | needToken

/-- History: an object made for the call `ticket`, and whether its `get` has succeeded. -/
structure Made where
  ticket : ℕ
  serial : ℕ
  addr : Addr
  ok : Bool
  deriving DecidableEq

/-- History: a `login` or `delete` on the allocation `serial`, by a command of a proxy with the
origin `via`. -/
structure Effect where
  via : Option ℕ
  serial : ℕ
  deletes : Bool
  deriving DecidableEq

/-- History: how a method has been left, with the bytes that it has read from the lock socket and
written to it. -/
structure Exit where
  proc : Pid
  took : ℕ
  gave : ℕ
  deriving DecidableEq

/-- History: a return from `get`, with the proxy. -/
structure Returned where
  proc : Pid
  ticket : ℕ
  ok : Bool
  proxy : Proxy
  deriving DecidableEq

/-- The processes, the sockets and the helper. -/
structure System where
  procs : Finset Pid
  proc : Pid → Process
  requests : List Request
  answers : List Answer
  /-- The bytes in the lock socket that a client can read. -/
  clientBytes : ℕ
  /-- The bytes in the lock socket that the helper can read. -/
  serverBytes : ℕ
  pc : HelperPc
  ptys : List Addr
  heap : Heap Object
  /-- History: the processes in the order in which they have passed `NEED_TOKEN`. -/
  takes : List Pid
  /-- History: the commands in the order in which they have been handled. -/
  handled : List Request
  made : List Made
  effects : List Effect
  exits : List Exit
  returned : List Returned

/-- The helper has just been forked from a process without proxies. -/
def initial : System where
  procs := {0}
  proc _ := ⟨.idle, fun _ => none, 0, 0⟩
  requests := []
  answers := []
  clientBytes := 0
  serverBytes := 0
  pc := .giveToken
  ptys := []
  heap := .empty
  takes := []
  handled := []
  made := []
  effects := []
  exits := []
  returned := []

namespace System

/-- The process `p` is now `x`. -/
def set (p : Pid) (x : Process) (s : System) : System :=
  { s with proc := Function.update s.proc p x }

/-- The processes that are at a point of their program where `P` holds. -/
def within (P : Pc → Bool) (s : System) : Finset Pid := s.procs.filter fun p => P (s.proc p).pc

/-- The processes between `NEED_TOKEN` and `GIVE_TOKEN`. -/
def insiders (s : System) : Finset Pid := s.within Pc.inside

/-- The bytes in the lock socket, the clients inside, and one if the helper is about to give the
token. -/
def tokens (s : System) : ℕ :=
  s.clientBytes + s.serverBytes + s.insiders.card +
    match s.pc with
    | .giveToken => 1
    | _ => 0

/-! ## Steps of a process -/

/-- `NEED_TOKEN` of a client is over, after `n` bytes. -/
def enter (p : Pid) (x : Process) (c : Call) (n : ℕ) (s : System) : System :=
  { s with
    proc := Function.update s.proc p { x with pc := .write c, ticket := s.takes.length, took := n }
    takes := s.takes ++ [p] }

/-- `get` throws: it is left without `GIVE_TOKEN`. -/
def throw (p : Pid) (x : Process) (i : ℕ) (q : Proxy) (taken : ℕ) (s : System) : System :=
  { s with
    proc := Function.update s.proc p { x.put i (some q) with pc := .idle }
    answers := s.answers.drop taken
    exits := s.exits ++ [⟨p, x.took, 0⟩] }

end System

/-- What a return from `get` adds to the history. -/
def Process.result (p : Pid) (x : Process) : Option (ℕ × Bool) → List Returned
  | none => []
  | some (i, ok) => (x.objs i).toList.map fun q => ⟨p, x.ticket, ok, q⟩

/-- A step of a process. -/
inductive ClientAct
  /-- `ptytty::create`. -/
  | create (i : ℕ)
  | fork (q : Pid)
  /-- A method is called. -/
  | call (c : Call)
  /-- `NEED_TOKEN`. -/
  | take (interrupted : Bool)
  | write (junk : Command)
  | readId
  /-- The `read` of the id fails, after it has taken some answers and filled in some of the id. -/
  | failId (garbage : Addr) (taken : ℕ)
  | recvFd
  /-- `recv_fd` gives -1, after it has taken some answers. -/
  | failFd (taken : ℕ)
  /-- `GIVE_TOKEN`, and the method returns. -/
  | give

/-- The process `p`, which is `x`, takes a step. -/
def clientStep (p : Pid) (x : Process) (s : System) : ClientAct → Option System
  | .create i =>
    match x.pc, x.objs i with
    | .idle, none => some (s.set p (x.put i (some .new)))
    | _, _ => none
  | .fork q =>
    match x.pc with
    | .idle =>
      if q ∈ s.procs then none
      else some { s with procs := insert q s.procs, proc := Function.update s.proc q x }
    | _ => none
  | .call c =>
    match x.pc, x.objs c.index with
    | .idle, some q =>
      if c.skips q then some { s.set p (x.put c.index none) with exits := s.exits ++ [⟨p, 0, 0⟩] }
      else some (s.set p { x with pc := .needToken c })
    | _, _ => none
  | .take interrupted =>
    match x.pc with
    | .needToken c =>
      -- the result of `read` is ignored
      if interrupted then some (s.enter p x c 0)
      else if s.clientBytes = 0 then none
      else some { s.enter p x c 1 with clientBytes := s.clientBytes - 1 }
    | _ => none
  | .write junk =>
    match x.pc with
    | .write c => (x.objs c.index).map fun q =>
      { s.set p { x.written c with pc := c.written } with
        requests := s.requests ++ [⟨c.command q junk, x.ticket, p, q.origin⟩] }
    | _ => none
  | .readId =>
    match x.pc, s.answers with
    | .readId i, .id a :: rest => (x.objs i).map fun q =>
      let x := x.put i (some { q with id := a, origin := some x.ticket })
      { s.set p { x with pc := if a = 0 then .giveToken (some (i, false)) else .recvPty i } with
        answers := rest }
    | _, _ => none
  | .failId garbage taken =>
    match x.pc with
    | .readId i => (x.objs i).map fun q => s.throw p x i { q with id := garbage } taken
    | _ => none
  | .recvFd =>
    match x.pc, s.answers with
    | .recvPty i, .fd e :: rest => (x.objs i).map fun q =>
      { s.set p { x.put i (some { q with pty := some e }) with pc := .recvTty i } with
        answers := rest }
    | .recvTty i, .fd e :: rest => (x.objs i).map fun q =>
      { s.set p { x.put i (some { q with tty := some e }) with
          pc := .giveToken (some (i, true)) } with
        answers := rest }
    | _, _ => none
  | .failFd taken =>
    match x.pc with
    | .recvPty i => (x.objs i).map fun q => s.throw p x i { q with pty := none } taken
    | .recvTty i => (x.objs i).map fun q => s.throw p x i { q with tty := none } taken
    | _ => none
  | .give =>
    match x.pc with
    | .giveToken ret => some
      { s.set p { x with pc := .idle } with
        serverBytes := s.serverBytes + 1
        exits := s.exits ++ [⟨p, x.took, 1⟩]
        returned := s.returned ++ x.result p ret }
    | _ => none

/-! ## Steps of the helper -/

namespace System

/-- `command::get`: the object at `a` gets its descriptors, or is deleted again. -/
def handleGet (r : Request) (a : Addr) (ok : Bool) (s : System) : System :=
  let n := s.heap.created
  let s : System := { s with
    made := s.made ++ [⟨r.ticket, n, a, ok⟩]
    handled := s.handled ++ [r] }
  if ok then
    { s with heap := s.heap.alloc a ⟨some (.master n), some (.slave n)⟩, pc := .writeId a }
  else { s with heap := (s.heap.alloc a ⟨none, none⟩).free a, pc := .writeId 0 }

/-- The object at `cmd.id` is used. -/
def effect (r : Request) (deletes : Bool) (s : System) : List Effect :=
  (s.heap.cells r.cmd.id).toList.map fun c => ⟨r.via, c.serial, deletes⟩

/-- `command::login`, in a build with `UTMP_SUPPORT`. -/
def handleLogin (r : Request) (s : System) : System :=
  let s' : System := { s with handled := s.handled ++ [r], pc := .needToken }
  if Estl.find r.cmd.id s.ptys ≠ s.ptys.length then
    { s' with effects := s.effects ++ s.effect r false }
  else s'

/-- `command::destroy`. -/
def handleDestroy (r : Request) (s : System) : System :=
  let s' : System := { s with handled := s.handled ++ [r], pc := .needToken }
  let pty := Estl.find r.cmd.id s.ptys
  if pty ≠ s.ptys.length then
    { s' with
      heap := s.heap.free (s.ptys.getD pty 0)
      ptys := Estl.erase s.ptys pty
      effects := s.effects ++ s.effect r true }
  else s'

/-- The message of `ptytty::send_fd`, if it is sent. -/
def fdMessage (ok : Bool) (e : Option Endpoint) : List Answer :=
  match ok, e with
  | true, some e => [.fd e]
  | _, _ => []

end System

/-- A step of the helper. -/
inductive HelperAct
  | give
  | read
  /-- `a` is the result of `operator new`, `ok` that of `ptytty_unix::get`. -/
  | handle (a : Addr) (ok : Bool)
  | writeId
  | send (ok : Bool)
  | need (interrupted : Bool)

/-- The helper takes a step. -/
def helperStep (s : System) : HelperAct → Option System
  | .give =>
    match s.pc with
    | .giveToken => some { s with pc := .readCmd, clientBytes := s.clientBytes + 1 }
    | _ => none
  | .read =>
    match s.pc, s.requests with
    | .readCmd, r :: rest => some { s with pc := .handle r, requests := rest }
    | _, _ => none
  | .handle a ok =>
    match s.pc with
    | .handle r =>
      match r.cmd.type with
      | .get => if a = 0 ∨ (s.heap.cells a).isSome then none else some (s.handleGet r a ok)
      | .login => some (s.handleLogin r)
      | .destroy => some (s.handleDestroy r)
      | .other _ => none
    | _ => none
  | .writeId =>
    match s.pc with
    | .writeId a =>
      let s : System := { s with answers := s.answers ++ [.id a] }
      if a = 0 then some { s with pc := .needToken }
      else some { s with ptys := s.ptys ++ [a], pc := .sendPty a }
    | _ => none
  | .send ok =>
    match s.pc with
    | .sendPty a => (s.heap.cells a).map fun c =>
      { s with answers := s.answers ++ System.fdMessage ok c.obj.pty, pc := .sendTty a }
    | .sendTty a => (s.heap.cells a).map fun c =>
      { s with
        answers := s.answers ++ System.fdMessage ok c.obj.tty
        heap := s.heap.modify a fun x => { x with tty := none }
        pc := .needToken }
    | _ => none
  | .need interrupted =>
    match s.pc with
    | .needToken =>
      -- the result of `read` is ignored
      if interrupted then some { s with pc := .giveToken }
      else if s.serverBytes = 0 then none
      else some { s with pc := .giveToken, serverBytes := s.serverBytes - 1 }
    | _ => none

/-- A step of the system. -/
inductive Action
  | client (p : Pid) (a : ClientAct)
  | helper (a : HelperAct)

/-- One step, of a process or of the helper. -/
def step (s : System) : Action → Option System
  | .client p a => if p ∈ s.procs then clientStep p (s.proc p) s a else none
  | .helper a => helperStep s a

/-! ## Kinds of steps -/

/-- No `read` of the lock socket is interrupted. -/
def Action.Uninterrupted : Action → Prop
  | .client _ (.take interrupted) => interrupted = false
  | .helper (.need interrupted) => interrupted = false
  | _ => True

/-- No client's `read` of the lock socket is interrupted. -/
def Action.TakesByte : Action → Prop
  | .client _ (.take interrupted) => interrupted = false
  | _ => True

/-- No `get` throws. -/
def Action.NoThrow : Action → Prop
  | .client _ (.failId _ _) | .client _ (.failFd _) => False
  | _ => True

/-! ## Runs of one call -/

/-- A `struct command` that happens to be zero. -/
def blank : Command := ⟨.get, 0, false, 0, zeroed _⟩

/-- `get` on the proxy `i` of `p` succeeds, with an object at `a`. -/
def getRun (p : Pid) (i : ℕ) (a : Addr) : List Action :=
  [.client p (.call (.get i)), .client p (.take false), .client p (.write blank), .helper .read,
    .helper (.handle a true), .helper .writeId, .client p .readId, .helper (.send true),
    .client p .recvFd, .helper (.send true), .client p .recvFd, .client p .give,
    .helper (.need false), .helper .give]

/-- The destructor of the proxy `i` of `p`. -/
def destroyRun (p : Pid) (i : ℕ) : List Action :=
  [.client p (.call (.destroy i)), .client p (.take false), .client p (.write blank),
    .client p .give, .helper .read, .helper (.handle 0 false), .helper (.need false), .helper .give]

/-- A process gets a proxy and forks. The child gets another one while the parent waits for the
token to destroy the first, and then it destroys its copy of the first. -/
def twoProcesses : List Action :=
  [.client 0 (.create 0), .client 0 (.create 1), .helper .give] ++ getRun 0 0 8 ++
    [.client 0 (.fork 1), .client 0 (.call (.destroy 0))] ++ getRun 1 1 16 ++
    (destroyRun 0 0).tail ++ destroyRun 1 0

theorem twoProcesses_runs : ∃ s, run step initial twoProcesses = some s ∧ s.procs = {1, 0} :=
  ⟨_, rfl, rfl⟩

end Libptytty.Shared
