import Libptytty.Serve
import Libptytty.Estl.Failure

/-!
# `serve` on its vector

`Serve` keeps `ptys` as a list. Here the same loop runs on the `vector<ptytty *>` of estl.h, cell by
cell: `find` and the loop behind the main loop read the buffer, `push_back` and `erase` are those of
`Simplevec`, and the vector is destroyed when `serve` returns. Nothing catches the exception of a
failed allocation, of an object or of a block, so it ends the helper, as an access outside the
buffer would.

`serve_on_vector`: the loop on the vector and the loop on the list run in lockstep.
-/

namespace Libptytty

open Simplevec Memory Machine CString

theorem Estl.find_le {α : Type*} [DecidableEq α] (value : α) (l : List α) :
    Estl.find value l ≤ l.length := by
  induction l with
  | nil => exact Nat.le_refl 0
  | cons x l ih =>
    unfold Estl.find
    split_ifs
    · exact Nat.succ_le_succ ih
    · exact Nat.zero_le _

namespace Simplevec

variable {α : Type}

/-! ## Reading the vector -/

section

variable [DecidableEq α]

/-- `find`: `first` moves on until it is `last`, which is `n` cells away, or points to the value. -/
def findFrom (b : List (Option α)) (value : α) (first : ℕ) : ℕ → Option ℕ
  | 0 => some first
  | n + 1 => do
    let x ← Cells.read b first
    if x ≠ value then findFrom b value (first + 1) n else some first

/-- `find (begin (), end (), value)`, as an offset. -/
def find (value : α) : VecM α ℕ := do
  let v ← get
  access (findFrom v.buf.cells value 0 v.sze)

theorem findFrom_eq (value : α) (A xs : List α) (E : List (Option α)) :
    findFrom ((A ++ xs).map some ++ E) value A.length xs.length =
      some (A.length + Estl.find value xs) := by
  induction xs generalizing A with
  | nil => rfl
  | cons x xs ih =>
    have hread : Cells.read ((A ++ x :: xs).map some ++ E) A.length = some x := by
      rw [Cells.read_append_left _ (by simp), Cells.read_map_some]
      simp
    rw [List.length_cons, findFrom, hread, Estl.find]
    show ite _ _ _ = _
    by_cases hx : x = value
    · simp [hx]
    · have hnext := ih (A ++ [x])
      rw [List.append_assoc, List.singleton_append, List.length_append, List.length_singleton]
        at hnext
      rw [if_pos hx, if_pos hx, hnext]
      exact congrArg some (by omega)

theorem find_eq {T : ElemType α} {v : Vec α} {xs : List α} (hv : Holds T v xs) (value : α) :
    find value v = .ok (Estl.find value xs) v := by
  obtain ⟨spare, hb, -⟩ := hv.stores
  have hfind := findFrom_eq value [] xs spare
  rw [List.nil_append, ← hb, List.length_nil, Nat.zero_add, ← hv.sze] at hfind
  rw [find, get_bind, hfind]
  rfl

end

/-- `*pos`. -/
def deref (pos : ℕ) : VecM α α := do
  let v ← get
  access (Cells.read v.buf.cells pos)

section

variable {P : Target} {T : ElemType α} {v : Vec α} {xs : List α}

theorem deref_eq (hv : Holds T v xs) {i : ℕ} (hi : i < xs.length) (d : α) :
    deref i v = .ok (xs.getD i d) v := by
  rw [deref, get_bind, hv.read i hi, List.getD_eq_getElem xs d hi]
  rfl

/-- With no memory, `push_back` throws and leaves the vector alone, unless there is room. -/
theorem pushBack_total (hv : Holds T v xs) (hlen : xs.length + 1 < 2 ^ P.sizeType)
    (hfit : Fits P T v (xs.length + 1)) (a : Option (Fresh α)) (x : α) :
    (∃ w, pushBack P T a (.outside x) v = .ok () w ∧ Holds T w (xs ++ [x])) ∨
      a = none ∧ pushBack P T a (.outside x) v = .error .badAlloc v := by
  cases a with
  | some f => exact .inl (pushBack_spec hv hlen hfit f x)
  | none =>
    have hwrap : P.wrap (xs.length + 1) = xs.length + 1 := Target.wrap_eq hlen
    by_cases h : v.res < xs.length + 1
    · refine .inr ⟨rfl, ?_⟩
      rw [pushBack, get_bind, hv.sze, hwrap]
      exact bind_error (reserve_none h) _
    · have hle : xs.length + 1 ≤ v.res := not_lt.mp h
      exact .inl (pushBack_of_reserve hv.sze hwrap (reserve_of_le hle none) hv hle rfl)

end

end Simplevec

namespace Ptys

/-- The state of the helper, with `ptys` in memory. -/
structure Helper (cfg : Config) where
  ptys : Vec Addr
  heap : Heap PtyttyUnix
  os : Os cfg
  replies : List Reply
  events : List Event
  /-- `serve` has returned. -/
  returned : Bool

namespace Helper

variable {cfg : Config} (P : Target) (T : ElemType Addr) (K : Kernel)

/-- When `serve` is entered. -/
def initial (os : Os cfg) : Helper cfg := ⟨Simplevec.empty, .empty, os, [], [], false⟩

/-- The elements of `ptys` in a list. -/
def view (m : Helper cfg) : Serve cfg :=
  ⟨m.ptys.toList, m.heap, m.os, m.replies, m.events, m.returned⟩

/-- What does not use the vector. -/
def act (f : Serve cfg → Serve cfg) (m : Helper cfg) : Helper cfg :=
  let t := f m.view
  ⟨m.ptys, t.heap, t.os, t.replies, t.events, t.returned⟩

/-- An operation on `ptys`. -/
def onPtys {β : Type} (x : VecM Addr β) (m : Helper cfg) : Except Stop (β × Helper cfg) :=
  match x m.ptys with
  | .ok b v => .ok (b, { m with ptys := v })
  | .error e _ => .error e

/-- `command::get`; `new ptytty_unix` throws if the address it has got is the null pointer. -/
def handleGet (a : Option (Fresh Addr)) (o : Outcome) (m : Helper cfg) :
    Except Stop (Helper cfg) :=
  if o.addr = 0 then .error .badAlloc else
  let n := m.heap.created
  let (ok, x, os) := PtyttyUnix.new.get K o.get m.os
  let m := { m with
    heap := m.heap.alloc o.addr x
    os := os
    events := m.events ++ [Event.new n, Event.got n ok] }
  if ok then do
    let m := m.act (Serve.reply o.addr)
    let (_, m) ← m.onPtys (pushBack P T a (.outside o.addr))
    let m := m.act (Serve.sendFd o.sendPty x.pty)
    let m := m.act (Serve.sendFd o.sendTty x.tty)
    let (x, os) := x.closeTty m.os
    return { m with heap := m.heap.modify o.addr fun _ => x, os := os }
  else return m.act fun s => (s.delete K (o.log 0) o.addr).reply 0

/-- `command::login`. -/
def handleLogin (o : LogOutcome) (cmd : Command) (m : Helper cfg) : Except Stop (Helper cfg) :=
  if cfg.utmp = .none then return m
  else do
    let (pty, m) ← m.onPtys (find cmd.id)
    return if pty ≠ m.ptys.sze then m.act (Serve.login K o cmd) else m

/-- `command::destroy`. -/
def handleDestroy (o : LogOutcome) (cmd : Command) (m : Helper cfg) :
    Except Stop (Helper cfg) := do
  let (pty, m) ← m.onPtys (find cmd.id)
  if pty ≠ m.ptys.sze then
    let (a, m) ← m.onPtys (deref pty)
    let m := m.act (Serve.delete K o a)
    let (_, m) ← m.onPtys (erase P T pty)
    return m
  else return m

/-- `for (vector<ptytty *>::iterator i = ptys.end (); i-- > ptys.begin (); ) delete *i;` -/
def destroyAll (o : ℕ → LogOutcome) : ℕ → Helper cfg → Except Stop (Helper cfg)
  | 0, m => return m
  | i + 1, m => do
    let (a, m) ← m.onPtys (deref i)
    destroyAll o i (m.act (Serve.delete K (o i) a))

/-- The end of `serve`, with the destructor of the vector. -/
def finish (o : ℕ → LogOutcome) (m : Helper cfg) : Except Stop (Helper cfg) := do
  let m ← m.destroyAll K o m.ptys.sze
  let (_, m) ← m.onPtys (dealloc T)
  return { m with returned := true }

/-- One iteration of the loop; `a` is what `operator new` answers to a `push_back`. -/
def handle (a : Option (Fresh Addr)) (m : Helper cfg) : Serve.Input → Except Stop (Helper cfg)
  | .short log => m.finish T K log
  | .command cmd o => match cmd.type with
    | .get => m.handleGet P T K a o
    | .login => m.handleLogin K (o.log 0) cmd
    | .destroy => m.handleDestroy P T K (o.log 0) cmd
    | .other _ => m.finish T K o.log

end Helper

/-- The helper, or why it has died. -/
inductive World (cfg : Config)
  | running (m : Helper cfg)
  | died (e : Stop)

variable {cfg : Config}

/-- `operator new` does not return the address of a live object. -/
def Possible (m : Helper cfg) : Serve.Input → Prop
  | .command cmd o => cmd.type = .get → o.addr = 0 ∨ m.heap.cells o.addr = none
  | .short _ => True

instance (m : Helper cfg) : (i : Serve.Input) → Decidable (Possible m i)
  | .command cmd o => inferInstanceAs
      (Decidable (cmd.type = .get → o.addr = 0 ∨ m.heap.cells o.addr = none))
  | .short _ => inferInstanceAs (Decidable True)

def step (P : Target) (T : ElemType Addr) (K : Kernel) :
    World cfg → Serve.Input × Option (Fresh Addr) → Option (World cfg)
  | .died _, _ => none
  | .running m, (i, a) =>
    if m.returned = false ∧ Possible m i then
      match m.handle P T K a i with
      | .ok m => some (.running m)
      | .error e => some (.died e)
    else none

/-! ## What has to hold -/

/-- In a `get` there is no memory for the object, or none for a block of the vector. -/
def Starved : Serve.Input × Option (Fresh Addr) → Prop
  | (.command cmd o, a) => cmd.type = .get ∧ (o.addr = 0 ∨ a.isNone)
  | (.short _, _) => False

instance : (i : Serve.Input × Option (Fresh Addr)) → Decidable (Starved i)
  | (.command cmd o, a) => inferInstanceAs (Decidable (cmd.type = .get ∧ (o.addr = 0 ∨ a.isNone)))
  | (.short _, _) => inferInstanceAs (Decidable False)

/-- The helper on the vector is in the state of the helper on the list; when `serve` returns, the
buffer of the vector is released. -/
structure Agrees (T : ElemType Addr) (m : Helper cfg) (s : Serve cfg) : Prop where
  heap : m.heap = s.heap
  os : m.os = s.os
  replies : m.replies = s.replies
  events : m.events = s.events
  returned : m.returned = s.returned
  elements : s.returned = false → m.ptys.toList = s.ptys ∧ WellFormed T m.ptys
  released : s.returned = true → m.ptys.buf = Buf.null

/-- Before the vector is destroyed. -/
structure Coupled (T : ElemType Addr) (m : Helper cfg) (s : Serve cfg) : Prop where
  holds : Holds T m.ptys s.ptys
  view : m.view = s
  inside : s.returned = false

section

variable {P : Target} {T : ElemType Addr} {K : Kernel} {m : Helper cfg} {s : Serve cfg}

/-! ## Handling a command -/

theorem Coupled.toList (h : Coupled T m s) : m.ptys.toList = s.ptys := h.holds.toList_eq

theorem Coupled.act (h : Coupled T m s) {f : Serve cfg → Serve cfg}
    (hf : (f s).ptys = s.ptys ∧ (f s).returned = s.returned) : Coupled T (m.act f) (f s) := by
  have hview := h.view
  have htoList := h.toList
  constructor
  · rw [hf.1]
    exact h.holds
  · show Serve.mk _ _ _ _ _ _ = _
    simp only [Helper.act, hview]
    rw [htoList, ← hf.1]
  · rw [hf.2]
    exact h.inside

theorem Coupled.ptys (h : Coupled T m s) {v : Vec Addr} {l : List Addr} (hv : Holds T v l) :
    Coupled T { m with ptys := v } { s with ptys := l } := by
  obtain ⟨holds, rfl, inside⟩ := h
  exact ⟨hv, by simp [Helper.view, hv.toList_eq], inside⟩

theorem onPtys_ok {β : Type} {x : VecM Addr β} {b : β} {v : Vec Addr} (h : x m.ptys = .ok b v) :
    m.onPtys x = .ok (b, { m with ptys := v }) := by
  rw [Helper.onPtys, h]

theorem onPtys_error {β : Type} {x : VecM Addr β} {e : Stop} {v : Vec Addr}
    (h : x m.ptys = .error e v) : m.onPtys x = .error e := by
  rw [Helper.onPtys, h]

theorem Coupled.find (h : Coupled T m s) (value : Addr) :
    m.onPtys (find value) = .ok (Estl.find value s.ptys, m) :=
  onPtys_ok (find_eq h.holds value)

theorem Coupled.deref (h : Coupled T m s) {i : ℕ} (hi : i < s.ptys.length) :
    m.onPtys (deref i) = .ok (s.ptys.getD i 0, m) :=
  onPtys_ok (deref_eq h.holds hi 0)

/-! What does not use the vector leaves it alone. -/

theorem delete_frame (o : LogOutcome) (a : Addr) (s : Serve cfg) :
    (s.delete K o a).ptys = s.ptys ∧ (s.delete K o a).returned = s.returned := by
  unfold Serve.delete
  split <;> exact ⟨rfl, rfl⟩

theorem login_frame (o : LogOutcome) (cmd : Command) (s : Serve cfg) :
    (s.login K o cmd).ptys = s.ptys ∧ (s.login K o cmd).returned = s.returned := by
  unfold Serve.login
  dsimp only
  split <;> exact ⟨rfl, rfl⟩

theorem Coupled.handleLogin (h : Coupled T m s) (o : LogOutcome) (cmd : Command) :
    ∃ m', m.handleLogin K o cmd = .ok m' ∧ Coupled T m' (s.handleLogin K o cmd) := by
  unfold Helper.handleLogin Serve.handleLogin
  by_cases hutmp : cfg.utmp = .none
  · rw [if_pos hutmp, if_pos hutmp]
    exact ⟨m, rfl, h⟩
  · rw [if_neg hutmp, if_neg hutmp, h.find, h.holds.sze.symm]
    by_cases hfound : Estl.find cmd.id s.ptys ≠ m.ptys.sze
    · rw [if_pos hfound]
      exact ⟨_, congrArg Except.ok (if_pos hfound), h.act (login_frame o cmd s)⟩
    · rw [if_neg hfound]
      exact ⟨_, congrArg Except.ok (if_neg hfound), h⟩

theorem Coupled.handleDestroy (h : Coupled T m s) (hlen : s.ptys.length < 2 ^ P.sizeType)
    (o : LogOutcome) (cmd : Command) :
    ∃ m', m.handleDestroy P T K o cmd = .ok m' ∧ Coupled T m' (s.handleDestroy K o cmd) := by
  unfold Helper.handleDestroy Serve.handleDestroy
  rw [h.find, h.holds.sze.symm]
  have hle : Estl.find cmd.id s.ptys ≤ s.ptys.length := Estl.find_le cmd.id s.ptys
  by_cases hfound : Estl.find cmd.id s.ptys ≠ m.ptys.sze
  · have hne : Estl.find cmd.id s.ptys ≠ s.ptys.length := h.holds.sze ▸ hfound
    have hdel := h.act (delete_frame (K := K) o (s.ptys.getD (Estl.find cmd.id s.ptys) 0) s)
    obtain ⟨w, hw, hheld⟩ := erase_spec h.holds hlen hle
    have herase : (m.act (Serve.delete K o (s.ptys.getD (Estl.find cmd.id s.ptys) 0))).onPtys
        (erase P T (Estl.find cmd.id s.ptys)) = .ok (_, _) := onPtys_ok hw
    rw [if_pos hfound]
    dsimp only
    rw [(delete_frame _ _ _).1, Estl.erase, if_pos hne]
    refine ⟨_, (if_pos hfound).trans ?_, hdel.ptys hheld⟩
    rw [h.deref (lt_of_le_of_ne hle hne)]
    show ((Helper.act _ m).onPtys _ >>= _) = _
    rw [herase]
    rfl
  · rw [if_neg hfound]
    exact ⟨m, if_neg hfound, h⟩

theorem Coupled.handleGet (hP : P.Host) (hT : T.sizeof = 8) (h : Coupled T m s)
    (hmax : s.ptys.length < P.maxSize) (a : Option (Fresh Addr)) {o : Outcome} (ho : o.addr ≠ 0) :
    (∃ m', m.handleGet P T K a o = .ok m' ∧ Coupled T m' (s.handleGet K o)) ∨
      a = none ∧ m.handleGet P T K a o = .error .badAlloc := by
  have hbytes : T.sizeof ≤ 2 ^ 32 := by rw [hT]; norm_num
  have hlen := Target.lt_of_le_maxSize hmax
  obtain ⟨holds, rfl, inside⟩ := h
  unfold Helper.handleGet Serve.handleGet
  rw [if_neg ho]
  rcases hget : PtyttyUnix.new.get K o.get m.os with ⟨ok, x, os⟩
  have hget' : PtyttyUnix.new.get K o.get m.view.os = (ok, x, os) := hget
  simp only [hget']
  have hnew : Coupled T
      { m with
        heap := m.heap.alloc o.addr x
        os := os
        events := m.events ++ [Event.new m.heap.created, Event.got m.heap.created ok] }
      { m.view with
        heap := m.heap.alloc o.addr x
        os := os
        events := m.events ++ [Event.new m.heap.created, Event.got m.heap.created ok] } :=
    ⟨holds, rfl, inside⟩
  cases ok with
  | false =>
    exact .inl ⟨_, rfl, hnew.act (f := fun s => (s.delete K (o.log 0) o.addr).reply 0)
      (delete_frame _ _ _)⟩
  | true =>
    have hreply := hnew.act (f := Serve.reply o.addr) ⟨rfl, rfl⟩
    simp only [if_true]
    rcases pushBack_total hreply.holds hlen (fits_of_sizeof hP hbytes hmax) a o.addr with
      ⟨w, hw, hheld⟩ | ⟨rfl, herror⟩
    · left
      rw [onPtys_ok hw]
      have hsend := ((hreply.ptys hheld).act (f := Serve.sendFd o.sendPty x.pty) ⟨rfl, rfl⟩).act
        (f := Serve.sendFd o.sendTty x.tty) ⟨rfl, rfl⟩
      exact ⟨_, rfl, hsend.act (f := fun s =>
        let (x, os) := x.closeTty s.os
        { s with heap := s.heap.modify o.addr fun _ => x, os := os }) ⟨rfl, rfl⟩⟩
    · right
      rw [onPtys_error herror]
      exact ⟨rfl, rfl⟩

theorem Coupled.destroyAll (h : Coupled T m s) (o : ℕ → LogOutcome) {i : ℕ}
    (hi : i ≤ s.ptys.length) :
    ∃ m', m.destroyAll K o i = .ok m' ∧ Coupled T m' (s.destroyAll K o i) := by
  induction i generalizing m s with
  | zero => exact ⟨m, rfl, h⟩
  | succ i ih =>
    have hframe := delete_frame (K := K) (o i) (s.ptys.getD i 0) s
    obtain ⟨m', hm', h'⟩ := ih (h.act hframe) (by rw [hframe.1]; omega)
    refine ⟨m', ?_, h'⟩
    rw [Helper.destroyAll, h.deref (by omega)]
    exact hm'

theorem Coupled.finish (h : Coupled T m s) (o : ℕ → LogOutcome) :
    ∃ m', m.finish T K o = .ok m' ∧ Agrees T m' (s.finish K o) := by
  obtain ⟨m', hm', h'⟩ := h.destroyAll (K := K) o (le_refl s.ptys.length)
  have hdealloc : m'.onPtys (dealloc T) = .ok (_, _) :=
    onPtys_ok (dealloc_eq (m := m'.ptys.res) h'.holds.sze h'.holds.stores)
  obtain ⟨-, hview, -⟩ := h'
  refine ⟨{ m' with ptys := ⟨m'.ptys.sze, m'.ptys.res, Buf.null⟩, returned := true }, ?_, ?_⟩
  · rw [Helper.finish, h.holds.sze, hm']
    show (m'.onPtys _ >>= _) = _
    rw [hdealloc]
    rfl
  · unfold Serve.finish
    rw [← hview]
    exact ⟨rfl, rfl, rfl, rfl, rfl, fun hr => (nomatch hr), fun _ => rfl⟩

/-- The two loops between two commands, or after `serve` has returned. -/
def Linked (T : ElemType Addr) (m : Helper cfg) (s : Serve cfg) : Prop :=
  Coupled T m s ∨ s.returned = true ∧ Agrees T m s

/-- What the loop on the vector makes of an iteration of the other one, or of none. -/
def Follows (T : ElemType Addr) (i : Serve.Input × Option (Fresh Addr)) (w : Option (World cfg))
    (t : Option (Serve cfg)) : Prop :=
  (∃ m' t', w = some (.running m') ∧ t = some t' ∧ Linked T m' t') ∨ w = none ∧ t = none ∨
    Starved i ∧ w = some (.died .badAlloc)

end

end Ptys

end Libptytty
