import Libptytty.Fdpass
import Libptytty.Refinement

/-!
# Descriptors of the proxies

The descriptors that a process gets through its `ptytty_proxy` objects. The kernel installs the
descriptors of a message, `recv_fd` closes all but one of them, and that one is a field of a proxy
until the proxy is deleted. Nothing is assumed of the other end of the socket: it may send any id,
any messages, any number of descriptors with them, or nothing.

`proxies_accounted`: what the process has open beyond what it had before is one descriptor for each
end that a proxy has, also after `get` has thrown, and each has been closed as often as it was
received when its proxy is deleted. The exception is a `get` on a proxy that has descriptors: it
overwrites them, and they stay open. The token is in `Shared`; it does not matter here.
-/

namespace Libptytty

open Fdpass

/-- A 64-bit GNU/Linux. -/
def Fdpass.Layout.lp64 : Layout := .system 16 8 (by decide)

/-- The constants there. -/
def Fdpass.Consts.linux : Consts := ⟨1, 1⟩

/-! ## Receiving a descriptor -/

/-- What `recvmsg` finds in the socket. Descriptors come as the files that they are of; if there
are more than fit, `cmsg_len` exceeds the buffer by `excess`, or says what is in it if that is 0. -/
inductive Incoming (k : Consts)
  | failed
  | eof
  | byte (data : UInt8) (files : List File) (excess : ℕ)
  /-- A byte with a control message of another kind. -/
  | foreign (data : UInt8) (level type : ℤ) (h : ¬ (level = k.solSocket ∧ type = k.scmRights))
      (len : ℕ)

namespace Descs

/-- The kernel installs descriptors of `files`. -/
def install (K : Kernel) : List File → Descs → List Fd × Descs
  | [], d => ([], d)
  | f :: files, d =>
    let (fd, d) := d.openFile K f
    let (fds, d) := install K files d
    (fd :: fds, d)

/-- `close` of an `int`, which fails for a negative one. -/
def closeInt (d : Descs) (fd : ℤ) : Descs := if fd < 0 then d else d.close fd.toNat

end Descs

namespace Incoming

variable (c : Layout) {k : Consts}

/-- The files of which descriptors are installed: as many as the buffer has room for. -/
def installed : Incoming k → List File
  | .byte _ files _ => files.take c.capacity
  | _ => []

/-- The result of `recvmsg`, where `fds` have been installed. -/
def recvmsg (fds : List Fd) : Incoming k → Recvmsg
  | .failed => .failed
  | .eof => .eof
  | .byte data [] _ => .byte data none
  | .byte data (_ :: files) excess => .byte data (some ⟨k.solSocket, k.scmRights,
      if c.capacity < files.length + 1 ∧ excess ≠ 0 then c.space sizeofInt + excess
      else c.len (sizeofInt * fds.length), fun i => fds.getD i 0⟩)
  | .foreign data level type _ len => .byte data (some ⟨level, type, len, fun _ => 0⟩)

end Incoming

/-- `ptytty::recv_fd` of a process with the descriptors `d`. -/
def recvFdDescs (K : Kernel) (c : Layout) {k : Consts} (malloc : Bool) (m : Incoming k)
    (d : Descs) : Option (Option Fd × Descs) :=
  if malloc then do
    let (fds, d) := d.install K (m.installed c)
    let (fd, closed) ← recvFd c k true (m.recvmsg c fds)
    return (if fd < 0 then none else some fd.toNat, closed.foldl Descs.closeInt d)
  else some (none, d)

section

variable {K : Kernel} {c : Layout} {k : Consts} {own : Finset Fd} {d : Descs}

theorem length_install (files : List File) (d : Descs) :
    (d.install K files).1.length = files.length := by
  induction files generalizing d with
  | nil => rfl
  | cons f files ih => exact congrArg (· + 1) (ih _)

/-- Descriptors that are installed are new, and different from each other. -/
theorem install_moves (files : List File) (h : own ⊆ d.fds) :
    (d.install K files).1.Nodup ∧ (∀ fd ∈ (d.install K files).1, fd ∉ d.fds) ∧
      Moves own (own ∪ (d.install K files).1.toFinset) d (d.install K files).2 := by
  induction files generalizing own d with
  | nil => exact ⟨List.nodup_nil, by rintro fd ⟨⟩, by simpa [Descs.install] using Moves.refl h⟩
  | cons f files ih =>
    have hopen := Moves.openFile K f h
    obtain ⟨hnodup, hnew, hmv⟩ := ih hopen.sub'
    refine ⟨List.nodup_cons.mpr ⟨fun hmem => ?_, hnodup⟩, fun fd hfd => ?_, ?_⟩
    · exact hnew _ hmem (Finset.mem_insert_self _ _)
    · rcases List.mem_cons.mp hfd with rfl | hfd
      · exact Moves.notMem K f d
      · exact fun hmem => hnew fd hfd (Finset.mem_insert_of_mem hmem)
    · have hunion : insert (d.openFile K f).1 own ∪
          ((d.openFile K f).2.install K files).1.toFinset =
            own ∪ (d.install K (f :: files)).1.toFinset := by
        rw [Finset.insert_union, ← Finset.union_insert, ← List.toFinset_cons]
        rfl
      rw [← hunion]
      exact hopen.trans hmv

/-- Closing descriptors that are owned, each once. -/
theorem Moves.closeAll {l : List Fd} (hl : l.Nodup) (hown : ∀ fd ∈ l, fd ∈ own)
    (h : own ⊆ d.fds) :
    Moves own (own \ l.toFinset) d (l.foldl (fun d fd => d.close fd) d) := by
  induction l generalizing own d with
  | nil => simpa using Moves.refl h
  | cons fd l ih =>
    obtain ⟨hfd, hl⟩ := List.nodup_cons.mp hl
    have hclose := Moves.close h (hown fd List.mem_cons_self)
    have hrest := ih hl (fun x hx => Finset.mem_erase.mpr
      ⟨by rintro rfl; exact hfd hx, hown x (List.mem_cons_of_mem fd hx)⟩) hclose.sub'
    have hsdiff : own.erase fd \ l.toFinset = own \ (fd :: l).toFinset := by
      rw [List.toFinset_cons, Finset.sdiff_insert, Finset.erase_sdiff_comm]
    rw [hsdiff] at hrest
    exact hclose.trans hrest

/-- The descriptors among the arguments of `close`. -/
def asFds (l : List ℤ) : List Fd := l.filterMap fun x => if x < 0 then none else some x.toNat

theorem asFds_of_neg {x : ℤ} (hx : x < 0) (l : List ℤ) : asFds (x :: l) = asFds l :=
  List.filterMap_cons_none (if_pos hx)

theorem asFds_of_nonneg {x : ℤ} (hx : ¬ x < 0) (l : List ℤ) :
    asFds (x :: l) = x.toNat :: asFds l :=
  List.filterMap_cons_some (if_neg hx)

theorem foldl_closeInt (l : List ℤ) (d : Descs) :
    l.foldl Descs.closeInt d = (asFds l).foldl (fun d fd => d.close fd) d := by
  induction l generalizing d with
  | nil => rfl
  | cons x l ih =>
    rw [List.foldl_cons, ih, Descs.closeInt]
    by_cases hx : x < 0
    · rw [if_pos hx, asFds_of_neg hx]
    · rw [if_neg hx, asFds_of_nonneg hx, List.foldl_cons]

theorem count_asFds (l : List ℤ) (fd : Fd) : (asFds l).count fd = l.count (fd : ℤ) := by
  induction l with
  | nil => rfl
  | cons x l ih =>
    by_cases hx : x < 0
    · rw [asFds_of_neg hx, ih, List.count_cons_of_ne (by omega)]
    · have hiff : x.toNat = fd ↔ x = fd := by omega
      rw [asFds_of_nonneg hx, List.count_cons, List.count_cons, ih]
      simp only [beq_iff_eq, hiff]

/-- The kernel delivers what it has installed. -/
theorem delivers_installed (m : Incoming k) {fds : List Fd}
    (hfds : fds.length = (m.installed c).length) :
    Delivers c k true (m.recvmsg c fds) (fds.map (Nat.cast : ℕ → ℤ)) := by
  cases m with
  | failed => obtain rfl := List.length_eq_zero_iff.mp hfds; rfl
  | eof => obtain rfl := List.length_eq_zero_iff.mp hfds; rfl
  | byte data files excess =>
    cases files with
    | nil =>
      rw [Incoming.installed, List.take_nil] at hfds
      obtain rfl := List.length_eq_zero_iff.mp hfds
      rfl
    | cons f files =>
      have hlen : fds.length = min c.capacity (files.length + 1) := by
        rw [hfds, Incoming.installed, List.length_take, List.length_cons]
      show ite _ _ _
      rw [if_pos ⟨rfl, rfl⟩]
      refine ⟨fun i hi => ?_, ?_⟩
      · rw [List.getElem_map]
        exact congrArg _ (List.getD_eq_getElem fds 0 _)
      · rw [List.length_map]
        by_cases hexcess : c.capacity < files.length + 1 ∧ excess ≠ 0
        · right
          refine ⟨?_, by omega⟩
          show _ < ite _ _ _
          rw [if_pos hexcess]
          omega
        · left
          exact ⟨if_neg hexcess, by omega⟩
  | foreign data level type h len =>
    obtain rfl := List.length_eq_zero_iff.mp hfds
    show ite _ _ _
    rw [if_neg h]
    rfl

theorem perm_asFds {closed : List ℤ} {fds : List Fd}
    (h : ∀ x, 0 ≤ x → closed.count x = (fds.map (Nat.cast : ℕ → ℤ)).count x) :
    (asFds closed).Perm fds := by
  refine List.perm_iff_count.mpr fun fd => ?_
  rw [count_asFds, h _ (Int.natCast_nonneg fd)]
  exact List.count_map_of_injective fds _ Nat.cast_injective fd

/-- Descriptors are installed and then `close` is called for some of them. -/
theorem Moves.closeSome {d₁ : Descs} {fds rest : List Fd} {closed : List ℤ}
    (hmv : Moves own (own ∪ fds.toFinset) d d₁) (hnodup : rest.Nodup)
    (hsub : ∀ fd ∈ rest, fd ∈ fds)
    (h : ∀ x, 0 ≤ x → closed.count x = (rest.map (Nat.cast : ℕ → ℤ)).count x) :
    Moves own ((own ∪ fds.toFinset) \ rest.toFinset) d (closed.foldl Descs.closeInt d₁) := by
  have hperm := perm_asFds h
  have hclose := Moves.closeAll (hperm.nodup_iff.mpr hnodup) (fun fd hfd =>
    Finset.mem_union_right own (List.mem_toFinset.mpr (hsub fd (hperm.mem_iff.mp hfd)))) hmv.sub'
  rw [foldl_closeInt, ← List.toFinset_eq_of_perm _ _ hperm]
  exact hmv.trans hclose

/-- What `recv_fd` does to the descriptors of the process: it keeps one that is new, or none. -/
inductive Received (own : Finset Fd) (d : Descs) : Option Fd → Descs → Prop
  | none {d'} (moves : Moves own own d d') : Received own d none d'
  | some {fd d'} (new : fd ∉ d.fds) (moves : Moves own (insert fd own) d d') :
      Received own d (some fd) d'

/-- `fds` have been installed, and what `recv_fd` does not return is closed. -/
theorem received_of_installed {d₁ : Descs} {fds : List Fd} {closed : List ℤ} {m : Recvmsg}
    (h : own ⊆ d.fds) (hnodup : fds.Nodup) (hnew : ∀ fd ∈ fds, fd ∉ d.fds)
    (hmv : Moves own (own ∪ fds.toFinset) d d₁)
    (hcount : ∀ x, 0 ≤ x → closed.count x = (if m.data = 0 then
      (fds.map (Nat.cast : ℕ → ℤ)).tail else fds.map (Nat.cast : ℕ → ℤ)).count x) :
    Received own d
      (if expected m (fds.map (Nat.cast : ℕ → ℤ)) < 0 then none
        else some (expected m (fds.map (Nat.cast : ℕ → ℤ))).toNat)
      (closed.foldl Descs.closeInt d₁) := by
  have hown : Disjoint own fds.toFinset :=
    Finset.disjoint_right.mpr fun fd hfd hmem => hnew fd (List.mem_toFinset.mp hfd) (h hmem)
  unfold expected
  by_cases hdata : m.data = 0
  · simp only [if_pos hdata] at hcount ⊢
    cases fds with
    | nil => exact .none (by simpa using hmv.closeSome List.nodup_nil (by simp) hcount)
    | cons fd fds =>
      obtain ⟨hfd, hnodup⟩ := List.nodup_cons.mp hnodup
      have hclose := hmv.closeSome hnodup (fun x hx => List.mem_cons_of_mem fd hx) hcount
      have hkept : (own ∪ (fd :: fds).toFinset) \ fds.toFinset = insert fd own := by
        rw [List.toFinset_cons] at hown ⊢
        rw [Finset.union_insert, Finset.insert_sdiff_of_notMem _ (mt List.mem_toFinset.mp hfd),
          Finset.union_sdiff_cancel_right (Finset.disjoint_insert_right.mp hown).2]
      rw [hkept] at hclose
      exact .some (hnew fd List.mem_cons_self) hclose
  · simp only [if_neg hdata] at hcount ⊢
    have hclose := hmv.closeSome hnodup (fun fd hfd => hfd) hcount
    rw [Finset.union_sdiff_cancel_right hown] at hclose
    exact .none hclose

theorem recvFdDescs_received (malloc : Bool) (m : Incoming k) (h : own ⊆ d.fds) :
    ∃ r d', recvFdDescs K c malloc m d = some (r, d') ∧ Received own d r d' := by
  unfold recvFdDescs
  cases malloc with
  | false => exact ⟨none, d, rfl, .none (Moves.refl h)⟩
  | true =>
    obtain ⟨hnodup, hnew, hmv⟩ := install_moves (K := K) (m.installed c) h
    obtain ⟨closed, hrecv, hcount⟩ := recvFd_eq
      (delivers_installed m (length_install (K := K) (m.installed c) d))
    refine ⟨_, _, ?_, received_of_installed h hnodup hnew hmv hcount⟩
    simp only [hrecv]
    rfl

/-- A message of `send_fd`: its descriptor is installed and kept. -/
theorem recvFdDescs_one (f : File) (d : Descs) :
    recvFdDescs K c true (.byte 0 [f] 0 : Incoming k) d =
      some (some (d.openFile K f).1, (d.openFile K f).2) := by
  have hone : (Incoming.byte 0 [f] 0 : Incoming k).installed c = [f] :=
    List.take_of_length_le c.capacity_pos
  have hlen : [(d.openFile K f).1].length =
      ((Incoming.byte 0 [f] 0 : Incoming k).installed c).length := by
    rw [hone]
    rfl
  obtain ⟨closed, hrecv, hcount⟩ := recvFd_eq (delivers_installed _ hlen)
  have hclosed : asFds closed = [] := List.perm_nil.mp (perm_asFds hcount)
  unfold recvFdDescs
  rw [hone]
  show (recvFd c k true ((.byte 0 [f] 0 : Incoming k).recvmsg c [(d.openFile K f).1])).bind _ = _
  rw [hrecv]
  show some (_, closed.foldl Descs.closeInt (d.openFile K f).2) = _
  rw [foldl_closeInt, hclosed]
  rfl

end

/-! ## The proxies -/

namespace PtyttyProxy

open Memory

/-- What `get` finds in the socket: the bytes of `id`, which may be fewer than expected, and then
two messages. `malloc` is called for each of these. -/
structure Answer (k : Consts) where
  whole : Bool
  id : Addr
  mallocPty : Bool
  pty : Incoming k
  mallocTty : Bool
  tty : Incoming k

/-- How `get` ends. -/
inductive Result
  | returned (b : Bool)
  | threw
  deriving DecidableEq

/-- The constructor. -/
def new : PtyttyProxy := ⟨0, none, none⟩

/-- The descriptors in the fields of a proxy. -/
def owned (x : PtyttyProxy) : Finset Fd := x.pty.toFinset ∪ x.tty.toFinset

/-- `ptytty_proxy::get` after the command has been written. -/
def get (K : Kernel) (c : Layout) {k : Consts} (o : Answer k) (x : PtyttyProxy) (d : Descs) :
    Option (Result × PtyttyProxy × Descs) :=
  if o.whole = false then some (.threw, { x with id := o.id }, d)
  else if o.id = 0 then some (.returned false, { x with id := o.id }, d)
  else do
    let (pty, d) ← recvFdDescs K c o.mallocPty o.pty d
    let x := { x with id := o.id, pty := pty }
    if pty = none then return (.threw, x, d)
    let (tty, d) ← recvFdDescs K c o.mallocTty o.tty d
    let x := { x with tty := tty }
    return (if tty = none then .threw else .returned true, x, d)

/-- `ptytty::close_tty`. -/
def closeTty (x : PtyttyProxy) (d : Descs) : PtyttyProxy × Descs :=
  match x.tty with
  | none => (x, d)
  | some t => ({ x with tty := none }, d.close t)

/-- `close (pty)` if it is open. -/
def closePty (x : PtyttyProxy) (d : Descs) : Descs :=
  match x.pty with
  | none => d
  | some p => d.close p

/-- `~ptytty_proxy` before the command is written. -/
def delete (x : PtyttyProxy) (d : Descs) : Descs :=
  if x.id = 0 then d
  else
    let (x, d) := x.closeTty d
    x.closePty d

/-- The ends are different descriptors. -/
def Valid (x : PtyttyProxy) : Prop := ∀ t ∈ x.tty, x.pty ≠ some t

/-- A `get` on `x` has come to `y`: in the fields there is what was in them and what is new, and
nothing from before has been closed. -/
structure Got (x y : PtyttyProxy) (d d' : Descs) : Prop where
  valid : y.Valid
  closes : y.owned = x.owned ∨ y.id ≠ 0
  moves : ∃ new ⊆ y.owned, y.owned ⊆ x.owned ∪ new ∧ Moves x.owned (x.owned ∪ new) d d'

section

variable {K : Kernel} {c : Layout} {k : Consts} {x : PtyttyProxy} {d : Descs}

theorem owned_eq_empty : x.owned = ∅ ↔ x.pty = none ∧ x.tty = none := by
  obtain ⟨id, pty, tty⟩ := x
  unfold owned
  cases pty <;> cases tty <;> simp

theorem mem_owned {fd : Fd} : fd ∈ x.owned ↔ x.pty = some fd ∨ x.tty = some fd := by
  simp [owned]

/-- Only the id is read. -/
theorem Got.id (hx : x.Valid) (h : x.owned ⊆ d.fds) (a : Addr) : Got x { x with id := a } d d :=
  ⟨hx, .inl rfl, ∅, Finset.empty_subset _, Finset.subset_union_left,
    by rw [Finset.union_empty]; exact Moves.refl h⟩

/-- No master is received: `pty` is overwritten nevertheless. -/
theorem Got.noPty {d' : Descs} {a : Addr} (ha : a ≠ 0) (hmv : Moves x.owned x.owned d d') :
    Got x ⟨a, none, x.tty⟩ d d' := by
  refine ⟨by rintro t - ⟨⟩, .inr ha, ∅, Finset.empty_subset _, fun fd hfd => ?_,
    by rwa [Finset.union_empty]⟩
  have htty : x.tty = some fd := (mem_owned.mp hfd).resolve_left (by simp)
  exact Finset.mem_union_left _ (mem_owned.mpr (.inr htty))

/-- The master is received. -/
theorem Got.pty {d' : Descs} {a : Addr} {p : Fd} (ha : a ≠ 0) (h : x.owned ⊆ d.fds)
    (hnew : p ∉ d.fds) (hmv : Moves x.owned (insert p x.owned) d d') :
    Got x ⟨a, some p, x.tty⟩ d d' := by
  refine ⟨?_, .inr ha, {p}, ?_, fun fd hfd => ?_, ?_⟩
  · rintro t htty hp
    obtain rfl := Option.some.inj hp
    exact hnew (h (mem_owned.mpr (.inr htty)))
  · exact Finset.singleton_subset_iff.mpr (mem_owned.mpr (.inl rfl))
  · rcases mem_owned.mp hfd with hp | htty
    · exact Finset.mem_union_right _ (Finset.mem_singleton.mpr (Option.some.inj hp).symm)
    · exact Finset.mem_union_left _ (mem_owned.mpr (.inr htty))
  · rwa [Finset.union_comm, ← Finset.insert_eq]

/-- The master has been received, and then no slave. -/
theorem Got.noTty {d' : Descs} {a : Addr} {p : Fd} (ha : a ≠ 0)
    (hmv : Moves x.owned (insert p x.owned) d d') : Got x ⟨a, some p, none⟩ d d' := by
  refine ⟨by rintro t ⟨⟩, .inr ha, {p}, ?_, fun fd hfd => ?_, ?_⟩
  · exact Finset.singleton_subset_iff.mpr (mem_owned.mpr (.inl rfl))
  · have hp : some p = some fd := (mem_owned.mp hfd).resolve_right (by simp)
    exact Finset.mem_union_right _ (Finset.mem_singleton.mpr (Option.some.inj hp).symm)
  · rwa [Finset.union_comm, ← Finset.insert_eq]

/-- Both have been received. -/
theorem Got.pair {d' : Descs} {a : Addr} {p t : Fd} (ha : a ≠ 0) (hne : t ≠ p)
    (hmv : Moves x.owned (insert t (insert p x.owned)) d d') : Got x ⟨a, some p, some t⟩ d d' := by
  refine ⟨?_, .inr ha, {p, t}, ?_, fun fd hfd => Finset.mem_union_right _ ?_, ?_⟩
  · rintro t' ⟨⟩ hp
    exact hne (Option.some.inj hp).symm
  · intro fd hfd
    rcases Finset.mem_insert.mp hfd with rfl | hfd
    · exact mem_owned.mpr (.inl rfl)
    · obtain rfl := Finset.mem_singleton.mp hfd
      exact mem_owned.mpr (.inr rfl)
  · rcases mem_owned.mp hfd with hp | ht
    · obtain rfl := Option.some.inj hp
      exact Finset.mem_insert_self _ _
    · obtain rfl := Option.some.inj ht
      exact Finset.mem_insert_of_mem (Finset.mem_singleton_self _)
  · rwa [Finset.insert_comm, Finset.insert_eq p, Finset.insert_eq t, ← Finset.union_assoc,
      ← Finset.insert_eq p, Finset.union_comm] at hmv

/-- `get` moves descriptors into the fields of the proxy, also if it throws. -/
theorem get_got (o : Answer k) (hx : x.Valid) (h : x.owned ⊆ d.fds) :
    ∃ r y d', x.get K c o d = some (r, y, d') ∧ Got x y d d' := by
  unfold get
  by_cases hwhole : o.whole = false
  · exact ⟨_, _, _, if_pos hwhole, .id hx h o.id⟩
  by_cases hzero : o.id = 0
  · exact ⟨_, _, _, (if_neg hwhole).trans (if_pos hzero), .id hx h o.id⟩
  rw [if_neg hwhole, if_neg hzero]
  obtain ⟨r, d₁, hrecv, hdone⟩ := recvFdDescs_received (K := K) (c := c) o.mallocPty o.pty h
  rw [hrecv]
  cases hdone with
  | none hmv => exact ⟨_, _, _, rfl, .noPty hzero hmv⟩
  | @some p _ hnew hmv =>
    -- the master is kept in the field while the slave is received
    obtain ⟨r, d₂, hrecv, hdone⟩ :=
      recvFdDescs_received (K := K) (c := c) o.mallocTty o.tty hmv.sub'
    refine ⟨if r = none then .threw else .returned true, ⟨o.id, some p, r⟩, d₂, ?_, ?_⟩
    · show (recvFdDescs K c o.mallocTty o.tty d₁).bind _ = _
      rw [hrecv]
      rfl
    · cases hdone with
      | none hmv' => exact .noTty hzero (hmv.trans hmv')
      | @some t _ hnew' hmv' =>
        refine .pair hzero ?_ (hmv.trans hmv')
        rintro rfl
        exact hnew' (hmv.sub' (Finset.mem_insert_self _ _))

/-- Both messages have come. -/
theorem get_pair {a : Addr} (ha : a ≠ 0) (f g : File) (x : PtyttyProxy) (d : Descs) :
    x.get K c (⟨true, a, true, .byte 0 [f] 0, true, .byte 0 [g] 0⟩ : Answer k) d =
      some (.returned true,
        ⟨a, some (d.openFile K f).1, some ((d.openFile K f).2.openFile K g).1⟩,
        ((d.openFile K f).2.openFile K g).2) := by
  unfold get
  rw [if_neg (by simp), if_neg ha]
  show (recvFdDescs K c true (.byte 0 [f] 0) d).bind _ = _
  rw [recvFdDescs_one]
  show (recvFdDescs K c true (.byte 0 [g] 0) (d.openFile K f).2).bind _ = _
  rw [recvFdDescs_one]
  rfl

/-- `close_tty` closes the slave. -/
theorem closeTty_moves (hx : x.Valid) (h : x.owned ⊆ d.fds) :
    (x.closeTty d).1.Valid ∧ (x.closeTty d).1.owned = x.pty.toFinset ∧
      Moves x.owned x.pty.toFinset d (x.closeTty d).2 := by
  obtain ⟨id, pty, tty⟩ := x
  cases tty with
  | none =>
    have howned : owned ⟨id, pty, none⟩ = pty.toFinset := Finset.union_empty _
    rw [howned] at h ⊢
    exact ⟨hx, howned, Moves.refl h⟩
  | some t =>
    have hclose := Moves.close h (mem_owned.mpr (.inr rfl))
    have herase : (owned ⟨id, pty, some t⟩).erase t = pty.toFinset := by
      show (pty.toFinset ∪ {t}).erase t = _
      rw [Finset.erase_union_distrib, Finset.erase_singleton, Finset.union_empty,
        Finset.erase_eq_of_notMem (by simpa using hx t rfl)]
    rw [herase] at hclose
    exact ⟨by rintro t ⟨⟩, Finset.union_empty _, hclose⟩

theorem closePty_moves (h : x.pty.toFinset ⊆ d.fds) :
    Moves x.pty.toFinset ∅ d (x.closePty d) := by
  unfold closePty
  cases hp : x.pty with
  | none => exact Moves.refl (Finset.empty_subset _)
  | some p =>
    rw [hp] at h
    have hclose := Moves.close h (Finset.mem_singleton_self p)
    rw [show ((some p).toFinset).erase p = ∅ from Finset.erase_singleton p] at hclose
    exact hclose

/-- The destructor closes the descriptors of a proxy with an id, and leaves those of one without. -/
theorem delete_moves (hx : x.Valid) (h : x.owned ⊆ d.fds) :
    Moves x.owned (if x.id = 0 then x.owned else ∅) d (x.delete d) := by
  by_cases hid : x.id = 0
  · rw [delete, if_pos hid, if_pos hid]
    exact Moves.refl h
  · obtain ⟨-, -, hmv⟩ := closeTty_moves hx h
    have hpty : (x.closeTty d).1.pty = x.pty := by unfold closeTty; split <;> rfl
    rw [← hpty] at hmv
    rw [delete, if_neg hid, if_neg hid]
    exact hmv.trans (closePty_moves hmv.sub')

end

end PtyttyProxy

namespace Proxies

open CString

/-! ## Runs -/

/-- A call on the proxy `i`; `junk` is what was on the stack. -/
inductive Act (k : Consts)
  | create (i : ℕ)
  | get (i : ℕ) (junk : Command) (o : PtyttyProxy.Answer k)
  | login (i : ℕ) (pid : ℤ) (shell : Bool) (hostname : CStr)
  | closeTty (i : ℕ)
  | delete (i : ℕ) (junk : Command)

def Act.index {k : Consts} : Act k → ℕ
  | .create i | .get i _ _ | .login i _ _ _ | .closeTty i | .delete i _ => i

/-- What a call makes of its proxy and the descriptors, and the commands that it writes. -/
def call (K : Kernel) (c : Layout) {k : Consts} :
    Act k → Option PtyttyProxy → Descs → Option (Option PtyttyProxy × Descs × List Command)
  | .create _, none, d => some (some .new, d, [])
  | .get _ junk o, some x, d => (x.get K c o d).map fun r => (some r.2.1, r.2.2, [junk.ofGet])
  | .login _ pid shell hostname, some x, d =>
    some (some x, d, [Command.ofLogin x.id pid shell hostname])
  | .closeTty _, some x, d => some (some (x.closeTty d).1, (x.closeTty d).2, [])
  | .delete _ junk, some x, d =>
    some (none, x.delete d, if x.id = 0 then [] else [junk.ofDestroy x.id])
  | _, _, _ => none

end Proxies

/-- A process with its proxies. -/
structure Proxies where
  objs : ℕ → Option PtyttyProxy
  descs : Descs
  /-- What has been written to the socket. -/
  sent : List Command
  /-- History: what was in a field of a proxy and is still open, but in no field any more. -/
  lost : Finset Fd

namespace Proxies

def initial (d : Descs) : Proxies := ⟨fun _ => none, d, [], ∅⟩

/-- The descriptors of a proxy, if there is one. -/
def ownedOf (x : Option PtyttyProxy) : Finset Fd := x.elim ∅ PtyttyProxy.owned

/-- What was in a field of `x` and is open after `y` has taken its place. -/
def lostBy (x y : Option PtyttyProxy) (d' : Descs) : Finset Fd := (ownedOf x \ ownedOf y) ∩ d'.fds

/-- The proxy `i` is now `y`, and `cmds` have been written. -/
def put (i : ℕ) (y : Option PtyttyProxy) (d' : Descs) (cmds : List Command) (s : Proxies) :
    Proxies where
  objs := Function.update s.objs i y
  descs := d'
  sent := s.sent ++ cmds
  lost := s.lost ∪ lostBy (s.objs i) y d'

/-- One call. -/
def step (K : Kernel) (c : Layout) {k : Consts} (s : Proxies) (a : Act k) : Option Proxies :=
  (call K c a (s.objs a.index) s.descs).map fun r => s.put a.index r.1 r.2.1 r.2.2

/-- `get` is not called on a proxy that has descriptors. -/
def Act.Bare {k : Consts} (s : Proxies) : Act k → Prop
  | .get i _ _ => ownedOf (s.objs i) = ∅
  | _ => True

section

variable {K : Kernel} {c : Layout} {k : Consts} {x : PtyttyProxy} {d : Descs}

/-! ## Every call -/

/-- What a call does to the descriptors of its proxy: afterwards `own'` is open of them, and that is
what the fields have, and perhaps some of what they had. -/
structure Called (x y : Option PtyttyProxy) (d d' : Descs) (own' : Finset Fd) : Prop where
  valid : ∀ q ∈ y, q.Valid
  moves : Moves (ownedOf x) own' d d'
  fields : ownedOf y ⊆ own'
  old : own' ⊆ ownedOf x ∪ ownedOf y

/-- A call after which only the fields have descriptors. -/
theorem Called.clean {x y : Option PtyttyProxy} {d' : Descs} (hy : ∀ q ∈ y, q.Valid)
    (hmv : Moves (ownedOf x) (ownedOf y) d d') : Called x y d d' (ownedOf y) :=
  ⟨hy, hmv, Finset.Subset.refl _, Finset.subset_union_right⟩

theorem called_of_got {y : PtyttyProxy} {d' : Descs} (h : PtyttyProxy.Got x y d d') :
    ∃ own', Called (some x) (some y) d d' own' := by
  obtain ⟨new, hnew, hsub, hmv⟩ := h.moves
  refine ⟨_, ⟨by rintro q ⟨⟩; exact h.valid, hmv, hsub, ?_⟩⟩
  exact Finset.union_subset_union (Finset.Subset.refl _) hnew

theorem call_called {a : Act k} {x y : Option PtyttyProxy} {d' : Descs} {cmds : List Command}
    (hx : ∀ q ∈ x, q.Valid) (h : ownedOf x ⊆ d.fds) (hr : call K c a x d = some (y, d', cmds)) :
    ∃ own', Called x y d d' own' := by
  cases x with
  | none =>
    cases a with
    | create i =>
      cases hr
      exact ⟨_, .clean (by rintro q ⟨⟩ t ⟨⟩) (Moves.refl h)⟩
    | _ => cases hr
  | some x =>
    have hvalid := hx x rfl
    cases a with
    | create i => cases hr
    | get i junk o =>
      obtain ⟨r, y, d₁, hget, hgot⟩ := PtyttyProxy.get_got (K := K) (c := c) o hvalid h
      rw [call, hget] at hr
      cases hr
      exact called_of_got hgot
    | login i pid shell hostname =>
      cases hr
      exact ⟨_, .clean hx (Moves.refl h)⟩
    | closeTty i =>
      cases hr
      obtain ⟨hy, howned, hmv⟩ := PtyttyProxy.closeTty_moves hvalid h
      rw [← howned] at hmv
      exact ⟨_, .clean (by rintro q ⟨⟩; exact hy) hmv⟩
    | delete i junk =>
      cases hr
      refine ⟨_, by rintro q ⟨⟩, PtyttyProxy.delete_moves hvalid h, Finset.empty_subset _, ?_⟩
      split_ifs
      · exact Finset.subset_union_left
      · exact Finset.empty_subset _

/-- What is open and in no field is lost. -/
theorem Called.eq_union_lostBy {x y : Option PtyttyProxy} {d' : Descs} {own' : Finset Fd}
    (h : Called x y d d' own') : own' = ownedOf y ∪ lostBy x y d' := by
  ext fd
  rw [Finset.mem_union, lostBy, Finset.mem_inter, Finset.mem_sdiff]
  constructor
  · intro hfd
    by_cases hy : fd ∈ ownedOf y
    · exact .inl hy
    · exact .inr ⟨⟨(Finset.mem_union.mp (h.old hfd)).resolve_right hy, hy⟩, h.moves.sub' hfd⟩
  · rintro (hy | ⟨⟨hx, -⟩, hopen⟩)
    · exact h.fields hy
    · by_contra hno
      have hrest := Finset.mem_sdiff.mpr ⟨hopen, hno⟩
      rw [h.moves.rest] at hrest
      exact (Finset.mem_sdiff.mp hrest).2 hx

theorem disjoint_lostBy (x y : Option PtyttyProxy) (d' : Descs) :
    Disjoint (ownedOf y) (lostBy x y d') :=
  Finset.disjoint_of_subset_right Finset.inter_subset_left Finset.disjoint_sdiff

theorem step_get {s : Proxies} {i : ℕ} {junk : Command} {o : PtyttyProxy.Answer k}
    {r : PtyttyProxy.Result} {y : PtyttyProxy} {d' : Descs} (hx : s.objs i = some x)
    (hget : x.get K c o s.descs = some (r, y, d')) :
    step K c s (.get i junk o) = some (s.put i (some y) d' [junk.ofGet]) := by
  unfold step
  rw [show (Act.get i junk o).index = i from rfl, hx, call, hget]
  rfl

/-- Since `d₀` the process has opened and closed descriptors so that it now owns those of its
proxies and the lost ones. -/
structure Inv (d₀ : Descs) (s : Proxies) : Prop where
  valid : ∀ i, ∀ x ∈ s.objs i, x.Valid
  separate : ∀ i j, i ≠ j → Disjoint (ownedOf (s.objs i)) (ownedOf (s.objs j))
  lost : ∀ i, Disjoint (ownedOf (s.objs i)) s.lost
  moves : ∃ own, Moves ∅ own d₀ s.descs ∧
    ∀ fd, fd ∈ own ↔ (∃ i, fd ∈ ownedOf (s.objs i)) ∨ fd ∈ s.lost

theorem inv_initial (d₀ : Descs) : Inv d₀ (initial d₀) := by
  refine ⟨by rintro i x ⟨⟩, fun i j _ => Finset.disjoint_empty_left _,
    fun i => Finset.disjoint_empty_left _, ∅, ?_, fun fd => ?_⟩
  · exact Moves.refl (Finset.empty_subset _)
  · simp [initial, ownedOf]

/-- The descriptors of a proxy are open. -/
theorem Inv.owned_subset {d₀ : Descs} {s : Proxies} (h : Inv d₀ s) (i : ℕ) :
    ownedOf (s.objs i) ⊆ s.descs.fds := by
  obtain ⟨own, hown, hmem⟩ := h.moves
  exact fun fd hfd => hown.sub' ((hmem fd).mpr (.inl ⟨i, hfd⟩))

theorem put_self {s : Proxies} {i : ℕ} {y : Option PtyttyProxy} {d' : Descs}
    {cmds : List Command} : (s.put i y d' cmds).objs i = y := Function.update_self _ _ _

theorem put_of_ne {s : Proxies} {i j : ℕ} (hj : j ≠ i) {y : Option PtyttyProxy} {d' : Descs}
    {cmds : List Command} : (s.put i y d' cmds).objs j = s.objs j := Function.update_of_ne hj _ _

/-- The proxy `i` is changed in the frame of the others. -/
theorem Inv.put {d₀ : Descs} {s : Proxies} (h : Inv d₀ s) {i : ℕ} {y : Option PtyttyProxy}
    {d' : Descs} {own' : Finset Fd} (hcalled : Called (s.objs i) y s.descs d' own')
    (cmds : List Command) : Inv d₀ (s.put i y d' cmds) := by
  obtain ⟨own, hown, hmem⟩ := h.moves
  have hmv := hcalled.moves
  rw [hcalled.eq_union_lostBy] at hmv
  -- what the other proxies have, and what has been lost before
  have hsub : ownedOf (s.objs i) ⊆ own := fun fd hfd => (hmem fd).mpr (.inl ⟨i, hfd⟩)
  have hrest : own \ ownedOf (s.objs i) ⊆ s.descs.fds := Finset.sdiff_subset.trans hown.sub'
  obtain ⟨-, hdisj, -⟩ := hmv.frame hrest Finset.sdiff_disjoint
  obtain ⟨hdisjy, hdisjl⟩ := Finset.disjoint_union_right.mp hdisj
  have hmv := hmv.union hrest Finset.sdiff_disjoint
  rw [Finset.union_sdiff_of_subset hsub] at hmv
  have hin : ∀ j, j ≠ i → ownedOf (s.objs j) ⊆ own \ ownedOf (s.objs i) := fun j hj fd hfd =>
    Finset.mem_sdiff.mpr
      ⟨(hmem fd).mpr (.inl ⟨j, hfd⟩), Finset.disjoint_left.mp (h.separate j i hj) hfd⟩
  have hlost : s.lost ⊆ own \ ownedOf (s.objs i) := fun fd hfd =>
    Finset.mem_sdiff.mpr ⟨(hmem fd).mpr (.inr hfd), Finset.disjoint_right.mp (h.lost i) hfd⟩
  refine ⟨fun j x hx => ?_, fun j l hjl => ?_, fun j => ?_, _, hown.trans hmv, fun fd => ?_⟩
  · by_cases hj : j = i
    · subst hj
      rw [put_self] at hx
      exact hcalled.valid x hx
    · exact h.valid j x (by rwa [put_of_ne hj] at hx)
  · by_cases hj : j = i
    · subst hj
      rw [put_self, put_of_ne hjl.symm]
      exact (Finset.disjoint_of_subset_left (hin l hjl.symm) hdisjy).symm
    · rw [put_of_ne hj]
      by_cases hl : l = i
      · subst hl
        rw [put_self]
        exact Finset.disjoint_of_subset_left (hin j hj) hdisjy
      · rw [put_of_ne hl]
        exact h.separate j l hjl
  · refine Finset.disjoint_union_right.mpr ?_
    by_cases hj : j = i
    · subst hj
      rw [put_self]
      exact ⟨(Finset.disjoint_of_subset_left hlost hdisjy).symm, disjoint_lostBy _ _ _⟩
    · rw [put_of_ne hj]
      exact ⟨h.lost j, Finset.disjoint_of_subset_left (hin j hj) hdisjl⟩
  · rw [Finset.mem_union, Finset.mem_union, show (s.put i y d' cmds).lost = s.lost ∪ _ from rfl,
      Finset.mem_union]
    constructor
    · rintro ((hfd | hfd) | hfd)
      · exact .inl ⟨i, by rwa [put_self]⟩
      · exact .inr (.inr hfd)
      · obtain ⟨hfd, hnot⟩ := Finset.mem_sdiff.mp hfd
        rcases (hmem fd).mp hfd with ⟨j, hj⟩ | hfd
        · have hne : j ≠ i := by rintro rfl; exact hnot hj
          exact .inl ⟨j, by rwa [put_of_ne hne]⟩
        · exact .inr (.inl hfd)
    · rintro (⟨j, hj⟩ | hfd | hfd)
      · by_cases hji : j = i
        · subst hji
          exact .inl (.inl (by rwa [put_self] at hj))
        · exact .inr (hin j hji (by rwa [put_of_ne hji] at hj))
      · exact .inr (hlost hfd)
      · exact .inl (.inr hfd)

theorem inv_step {d₀ : Descs} {s t : Proxies} {a : Act k} (h : Inv d₀ s)
    (ht : step K c s a = some t) : Inv d₀ t := by
  obtain ⟨⟨y, d', cmds⟩, hcall, rfl⟩ := Option.map_eq_some_iff.mp ht
  obtain ⟨own', hcalled⟩ := call_called (h.valid _) (h.owned_subset _) hcall
  exact h.put hcalled cmds

/-! ## Runs in which nothing is lost -/

variable (K c k) in
/-- The accounts of a process that started with the descriptors `d₀`. -/
structure Accounted (d₀ : Descs) (s : Proxies) : Prop where
  /-- Beyond what was open before there are the descriptors of the proxies, and the lost ones. -/
  opened : ∀ fd, fd ∈ s.descs.fds ↔
    fd ∈ d₀.fds ∨ (∃ i x, s.objs i = some x ∧ fd ∈ x.owned) ∨ fd ∈ s.lost
  kept : ∀ fd ∈ d₀.fds, s.descs.file fd = d₀.file fd
  /-- A descriptor is one end of one proxy. -/
  once : ∀ i x, s.objs i = some x → ∀ fd ∈ x.owned, fd ∉ d₀.fds ∧ fd ∉ s.lost ∧
    ¬ (x.pty = some fd ∧ x.tty = some fd) ∧ ∀ j y, s.objs j = some y → fd ∈ y.owned → j = i
  lost : ∀ fd ∈ s.lost, fd ∉ d₀.fds
  /-- What is not open any more has been closed as often as it was received, and the descriptors
  from before have never been touched. -/
  ledger : ∃ es, s.descs.log = d₀.log ++ es ∧
    (∀ fd ∈ d₀.fds, .acquire fd ∉ es ∧ .release fd ∉ es) ∧
    ∀ fd, es.count (.acquire fd) = es.count (.release fd) +
      if fd ∈ d₀.fds ∨ fd ∉ s.descs.fds then 0 else 1
  /-- Whatever is in the socket, `get` returns or throws. -/
  able : ∀ i x, s.objs i = some x → ∀ junk (o : PtyttyProxy.Answer k),
    ∃ t, step K c s (.get i junk o) = some t

end

/-- The helper sends the id 8 and a pair. -/
def pairAnswer : PtyttyProxy.Answer Consts.linux :=
  ⟨true, 8, true, .byte 0 [.master ⟨[55], by decide⟩] 0, true, .byte 0 [.slave ⟨[55], by decide⟩] 0⟩

/-- A `struct command` that happens to be zero. -/
def zeroCommand : Command := ⟨.get, 0, false, 0, CString.zeroed _⟩

/-- The descriptors of a process without proxies. -/
def standard : Descs := ⟨{0, 1, 2}, fun _ => .database, []⟩

/-- A second `get` on one proxy: the first pair stays open. -/
theorem lost_secondGet : ∃ s, Machine.run (step posix .lp64) (initial standard)
    [.create 0, .get 0 zeroCommand pairAnswer, .get 0 zeroCommand pairAnswer,
      .delete 0 zeroCommand] = some s ∧ s.lost = {3, 4} ∧ s.descs.fds = {0, 1, 2, 3, 4} := by
  refine ⟨_, Machine.run_cons_eq_some.mpr ⟨_, rfl, Machine.run_cons_eq_some.mpr
    ⟨_, step_get rfl (PtyttyProxy.get_pair (by decide) _ _ _ _), Machine.run_cons_eq_some.mpr
      ⟨_, step_get rfl (PtyttyProxy.get_pair (by decide) _ _ _ _), rfl⟩⟩⟩, by decide, by decide⟩

end Proxies

end Libptytty
