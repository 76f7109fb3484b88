import Mathlib
import Libptytty.Lib.Cells

/-!
# `simplevec` of `estl.h`

A vector is its three members. `buf` names the block that `operator new` returned and carries the
cells of that block; on the slow path a cell is raw until it is constructed and raw again once it
is destroyed, on the fast path every cell holds whatever its bytes mean.

An operation is a state transformer that may stop: with `badAlloc`, the state being what the
exception leaves behind, or with `fault`, for any access the C++ program may not make (outside the
buffer, into a released block, an assignment to a raw cell, a construction over a live one, a
release of a block whose elements are still alive). What `operator new` answers is an argument of
the operation; no operation calls it twice.
-/

namespace Libptytty.Simplevec

open Cells

/-! ## Platform and element type -/

/-- The widths of the integer types in `estl.h`, and `ecb_ld32` of `ecb.h`, which is unspecified
at 0. -/
structure Target where
  /-- Bits of `size_type`. -/
  sizeType : ℕ
  /-- Bits of `unsigned long`. -/
  long : ℕ
  /-- Bits of `size_t`. -/
  size : ℕ
  ld32 : ℕ → ℕ
  ld32_eq : ∀ n, n ≠ 0 → n < 2 ^ 32 → ld32 n = Nat.log2 n

/-- What `simplevec<T>` uses of `T`: `sizeof (T)`, `is_simple_enough ()` and `T ()`. -/
structure ElemType (α : Type) where
  sizeof : ℕ
  sizeof_pos : 0 < sizeof
  simple : Bool
  dflt : α

namespace Target

variable (P : Target)

/-- Conversion to `size_type`. -/
def wrap (n : ℕ) : ℕ := n % 2 ^ P.sizeType

def maxSize : ℕ := (2 ^ P.sizeType - 1) / 2

def goodSize (n : ℕ) : ℕ :=
  P.wrap (if n = 0 then 5 else (2 <<< P.ld32 (n % 2 ^ 32)) % 2 ^ P.long)

/-- The cells in a block of `(size_t) (sizeof (T) * n)` bytes. -/
def cells {α : Type} (T : ElemType α) (n : ℕ) : ℕ := T.sizeof * n % 2 ^ P.size / T.sizeof

end Target

/-! ## Vectors -/

structure Buf (α : Type) where
  block : ℕ
  cells : List (Option α)

/-- The null pointer, and what a released pointer may be used for. -/
def Buf.null {α : Type} : Buf α := ⟨0, []⟩

structure Vec (α : Type) where
  sze : ℕ
  res : ℕ
  buf : Buf α

inductive Stop
  | badAlloc
  | fault
  deriving DecidableEq

abbrev VecM (α : Type) := EStateM Stop (Vec α)

/-- A block from `operator new`, and what its bytes hold. -/
structure Fresh (α : Type) where
  block : ℕ
  fill : ℕ → α

/-- The first `n` cells of the block. -/
def Fresh.cells {α : Type} (f : Fresh α) (T : ElemType α) (n : ℕ) : List (Option α) :=
  (List.range n).map fun i => if T.simple then some (f.fill i) else none

/-- A `const T &`: to an object outside every vector, or to a cell of a block. -/
inductive Ref (α : Type)
  | outside (x : α)
  | own (block i : ℕ)

variable {α β : Type}

/-- An access that the memory does not allow is a fault. -/
def access : Option β → Except Stop β
  | some b => .ok b
  | none => .error .fault

instance : MonadLift (Except Stop) (VecM α) where
  monadLift
    | .ok b => pure b
    | .error s => throw s

/-- Reading the object a reference denotes, for a vector whose buffer is `b`. -/
def Ref.read (b : Buf α) : Ref α → Option α
  | .outside x => some x
  | .own block i => if b.block = block then Cells.read b.cells i else none

/-! ## Private members -/

variable (P : Target) (T : ElemType α)

/-- The cells on which `new (a) T (..)` is allowed. -/
def newable (c : Option α) : Bool := T.simple || c.isNone

def construct (b : List (Option α)) (i n : ℕ) : Option (List (Option α)) :=
  if T.simple then some b else fillUp Option.isNone T.dflt b i n

def destruct (b : List (Option α)) (i n : ℕ) : Option (List (Option α)) :=
  if T.simple then some b else destroyUp b i n

/-- `copy (nbuf, buf, n, cop_new)`. -/
def copyNew (nbuf buf : List (Option α)) (n : ℕ) : Option (List (Option α)) :=
  if T.simple then memcpy nbuf 0 buf 0 n else copyFrom (newable T) buf nbuf 0 0 n

/-- `operator delete` after the destructors have run. -/
def release (b : List (Option α)) : Option Unit :=
  if T.simple ∨ ∀ c ∈ b, c.isNone then some () else none

def alloc (a : Option (Fresh α)) (n : ℕ) : Except Stop (Buf α) :=
  match a with
  | none => .error .badAlloc
  | some f => .ok ⟨f.block, f.cells T (P.cells T n)⟩

def dealloc : VecM α Unit := do
  let v ← get
  let b ← access (destruct T v.buf.cells 0 v.sze)
  access (release T b)
  modify fun w => { w with buf := Buf.null }

/-- The part of `ins` that grows the buffer. -/
def insGrow (a : Option (Fresh α)) (n : ℕ) : VecM α Unit := do
  let v ← get
  if v.res < P.wrap (v.sze + n) then
    let res := P.goodSize (P.wrap (v.sze + n))
    set { v with res := res }
    let nbuf ← alloc P T a res
    let c ← access (copyNew T nbuf.cells v.buf.cells v.sze)
    dealloc T
    modify fun w => { w with buf := ⟨nbuf.block, c⟩ }

/-- The part of `ins` that opens the gap. -/
def insShift (pos n : ℕ) : VecM α Unit := do
  let v ← get
  let c ← access (construct T v.buf.cells v.sze n)
  let c ← access (if T.simple then memmove c (pos + n) pos (v.sze - pos)
    else copyBackward Option.isSome (pos + n) pos c (v.sze - pos))
  set { v with sze := P.wrap (v.sze + n), buf := { v.buf with cells := c } }

def ins (a : Option (Fresh α)) (pos n : ℕ) : VecM α Unit := do
  insGrow P T a n
  insShift P T pos n

/-! ## Capacity -/

def reserve (a : Option (Fresh α)) (sz : ℕ) : VecM α Unit := do
  let v ← get
  if v.res < sz then
    let res := P.goodSize sz
    let nbuf ← alloc P T a res
    let c ← access (copyNew T nbuf.cells v.buf.cells v.sze)
    dealloc T
    modify fun w => { w with res := res, buf := ⟨nbuf.block, c⟩ }

def resize (a : Option (Fresh α)) (sz : ℕ) : VecM α Unit := do
  reserve P T a sz
  let v ← get
  if T.simple then
    set { v with sze := sz }
  else
    -- one of the two loops does not run
    let c ← access (fillUp Option.isNone T.dflt v.buf.cells v.sze (sz - v.sze))
    let c ← access (destroyDown c sz (v.sze - sz))
    set { v with sze := sz, buf := { v.buf with cells := c } }

/-! ## Construction and destruction -/

/-- The default constructor. -/
def empty : Vec α := ⟨0, 0, Buf.null⟩

def ofFill (a : Option (Fresh α)) (n : ℕ) (t : α) : Except Stop (Vec α) := do
  let buf ← alloc P T a n
  let c ← access (fillDown (newable T) t buf.cells n)
  return ⟨n, n, ⟨buf.block, c⟩⟩

/-- From `n` elements of an array, from index `s` on; also the copy constructor. The pointers are
`const`, so the elements are copied one by one on both paths. -/
def ofRange (a : Option (Fresh α)) (src : List (Option α)) (s n : ℕ) : Except Stop (Vec α) := do
  let n := P.wrap n
  let buf ← alloc P T a n
  let c ← access (copyFrom (newable T) src buf.cells 0 s n)
  return ⟨n, n, ⟨buf.block, c⟩⟩

/-! ## Elements -/

def clear : VecM α Unit := do
  let v ← get
  let c ← access (destruct T v.buf.cells 0 v.sze)
  set { v with sze := 0, buf := { v.buf with cells := c } }

def pushBack (a : Option (Fresh α)) (t : Ref α) : VecM α Unit := do
  reserve P T a (P.wrap ((← get).sze + 1))
  let v ← get
  let x ← access (t.read v.buf)
  let c ← access (store (newable T) v.buf.cells v.sze x)
  set { v with sze := P.wrap (v.sze + 1), buf := { v.buf with cells := c } }

def popBack : VecM α Unit := do
  let v ← get
  let sze := P.wrap (v.sze + (2 ^ P.sizeType - 1))
  let c ← access (destruct T v.buf.cells sze 1)
  set { v with sze := sze, buf := { v.buf with cells := c } }

/-- Swap with a temporary, which takes the old buffer along when it is destroyed. -/
def swapIn (w : Vec α) : VecM α Unit := do
  dealloc T
  set w

def assignRange (a : Option (Fresh α)) (src : List (Option α)) (s n : ℕ) : VecM α Unit := do
  let w ← ofRange P T a src s n
  swapIn T w

def assignFill (a : Option (Fresh α)) (n : ℕ) (t : Ref α) : VecM α Unit := do
  let x ← access (t.read (← get).buf)
  let w ← ofFill P T a n x
  swapIn T w

/-- `operator=`. -/
def assignVec (a : Option (Fresh α)) (w : Vec α) : VecM α Unit :=
  assignRange P T a w.buf.cells 0 w.sze

def insert (a : Option (Fresh α)) (pos : ℕ) (t : Ref α) : VecM α ℕ := do
  ins P T a pos 1
  let v ← get
  let x ← access (t.read v.buf)
  let c ← access (store Option.isSome v.buf.cells pos x)
  set { v with buf := { v.buf with cells := c } }
  return pos

def insertRange (a : Option (Fresh α)) (pos : ℕ) (xs : List α) : VecM α ℕ := do
  let n := P.wrap xs.length
  ins P T a pos n
  let v ← get
  let c ← access (copyFrom Option.isSome (xs.map some) v.buf.cells pos 0 n)
  set { v with buf := { v.buf with cells := c } }
  return pos

/-- `for (iterator i = buf + at; n--; ) *i++ = t;` -/
def assignLoop (t : Ref α) : Buf α → ℕ → ℕ → Option (Buf α)
  | b, _, 0 => some b
  | b, i, n + 1 => do
    let x ← t.read b
    let c ← store Option.isSome b.cells i x
    assignLoop t { b with cells := c } (i + 1) n

def insertFill (a : Option (Fresh α)) (pos n : ℕ) (t : Ref α) : VecM α ℕ := do
  ins P T a pos n
  let v ← get
  let b ← access (assignLoop t v.buf pos n)
  set { v with buf := b }
  return pos

def eraseRange (first last : ℕ) : VecM α ℕ := do
  let v ← get
  let n := last - first
  let c := v.sze - last
  let b ← access (if T.simple then memmove v.buf.cells first last c
    else copyForward Option.isSome v.buf.cells first last c)
  let sze := P.wrap (v.sze + 2 ^ P.sizeType - n)
  let b ← access (destruct T b sze n)
  set { v with sze := sze, buf := { v.buf with cells := b } }
  return first

def erase (pos : ℕ) : VecM α ℕ := do
  if pos ≠ (← get).sze then
    let _ ← eraseRange P T pos (pos + 1)
  return pos

end Libptytty.Simplevec
