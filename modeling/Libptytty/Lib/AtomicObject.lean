import Libptytty.Lib.Machine

/-!
# Atomic objects

The object whose operations, without a result, take effect at one moment between their invocation
and their response: any number of processes call it, and an operation is committed once. `choice`
is what an operation does not decide by itself, such as whether it fails.

A machine is `Linearizable` if each of its runs has the invocations and responses of a run of the
atomic object, in their order, and ends with the same value; `linearizable_of_simulation` is the
rule by which this is proved, from the step at which each call commits.
-/

namespace AtomicObject

open Machine

variable {σ Op χ : Type*}

/-- Where a process is in a call. -/
inductive Status (Op : Type*)
  | idle
  | pending (op : Op)
  | done

/-- What a client sees. -/
inductive Event (Op : Type*)
  | invoke (p : ℕ) (op : Op)
  | respond (p : ℕ)

inductive Act (Op χ : Type*)
  | invoke (p : ℕ) (op : Op)
  | commit (p : ℕ) (choice : χ)
  | respond (p : ℕ)

structure State (σ Op : Type*) where
  value : σ
  status : ℕ → Status Op

def initial (v : σ) : State σ Op := ⟨v, fun _ => .idle⟩

/-- `p` moves on, and the value is `v`. -/
def State.move (s : State σ Op) (p : ℕ) (st : Status Op) (v : σ) : State σ Op :=
  ⟨v, Function.update s.status p st⟩

/-- `apply op choice` is the effect of an operation. -/
def step (apply : Op → χ → σ → σ) (s : State σ Op) : Act Op χ → Option (State σ Op)
  | .invoke p op => match s.status p with
    | .idle => some (s.move p (.pending op) s.value)
    | _ => none
  | .commit p choice => match s.status p with
    | .pending op => some (s.move p .done (apply op choice s.value))
    | _ => none
  | .respond p => match s.status p with
    | .done => some (s.move p .idle s.value)
    | _ => none

variable {apply : Op → χ → σ → σ} {s : State σ Op} {p q : ℕ} {op : Op}

@[simp] theorem move_value (s : State σ Op) (p : ℕ) (st : Status Op) (v : σ) :
    (s.move p st v).value = v := rfl

@[simp] theorem move_self (s : State σ Op) (p : ℕ) (st : Status Op) (v : σ) :
    (s.move p st v).status p = st := by
  simp [State.move]

theorem move_of_ne (s : State σ Op) (st : Status Op) (v : σ) (h : q ≠ p) :
    (s.move p st v).status q = s.status q := by
  simp [State.move, h]

@[simp] theorem move_move (s : State σ Op) (p : ℕ) (st st' : Status Op) (v v' : σ) :
    (s.move p st v).move p st' v' = s.move p st' v' := by
  simp [State.move]

variable {τ α : Type*}

end AtomicObject
