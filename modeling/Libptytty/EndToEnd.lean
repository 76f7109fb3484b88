import Libptytty.Accounting
import Libptytty.ProxyDescs

/-!
# Both ends of the socket

A process with its proxies and the helper that it has started, each with its own descriptors. What
one writes the other reads: the commands in the order in which they are written, and for a `get` the
id and the two messages. The helper may be any number of commands behind, but for a `get` the
process waits until it has read them all, so that `get` is one step, taken when there are none.
Where the helper fails to send a descriptor, `get` waits for it forever. No read is interrupted and
`malloc` succeeds in `recv_fd`; what happens otherwise is in `ProxyDescs`. The helper is `Serve`,
whose allocations succeed; a failed one, which ends it, is in `Ptys`.

`proxies_have_pairs`: the descriptors of a proxy are the ends of one pseudo terminal, that of the
object which the helper keeps under the id of the proxy, and the helper has no objects but those of
the proxies and those it has yet to delete.
-/

namespace Libptytty

open CString Fdpass Memory

variable {cfg : Config}

/-- A process and its helper, which has read the first `handled` of the commands sent. -/
structure Connected (cfg : Config) where
  proxies : Proxies
  helper : Serve cfg
  handled : ℕ
  /-- The proxy whose `get` waits for a message that has not been sent. -/
  waiting : Option ℕ

/-- `ptytty_proxy::get` up to where it waits for a message: it has read the id and perhaps one
message. -/
def PtyttyProxy.getWaits (K : Kernel) (c : Layout) (k : Consts) :
    List Reply → PtyttyProxy → Descs → Option (PtyttyProxy × Descs)
  | [.id a], x, d => some ({ x with id := a }, d)
  | [.id a, .fd f], x, d => (recvFdDescs K c true (.byte 0 [f] 0 : Incoming k) d).map fun r =>
      ({ x with id := a, pty := r.1 }, r.2)
  | _, _, _ => none

namespace Connected

/-- A call of `get`, another call, or the helper handling the next command. -/
inductive Act (k : Consts)
  | get (i : ℕ) (junk : Command) (o : Outcome)
  | call (a : Proxies.Act k)
  | serve (o : Outcome)

def initial (d : Descs) (os : Os cfg) : Connected cfg := ⟨.initial d, .initial os, 0, none⟩

/-- The commands that the helper has not read yet. -/
def pending (s : Connected cfg) : List Command := s.proxies.sent.drop s.handled

/-- What `get` finds in the socket, if no message is missing. -/
def answer (k : Consts) : List Reply → Option (PtyttyProxy.Answer k)
  | [.id a] => if a = 0 then some ⟨true, 0, true, .failed, true, .failed⟩ else none
  | [.id a, .fd f, .fd g] => some ⟨true, a, true, .byte 0 [f] 0, true, .byte 0 [g] 0⟩
  | _ => none

/-- `get` of the proxy `i`, to which the helper has sent `replies` and is now `h`. -/
def received (K : Kernel) (c : Layout) (k : Consts) (i : ℕ) (junk : Command) (replies : List Reply)
    (h : Serve cfg) (s : Connected cfg) : Option (Connected cfg) :=
  match answer k replies with
  | some o => (s.proxies.step K c (.get i junk o)).map fun p => ⟨p, h, s.handled + 1, none⟩
  | none => (s.proxies.objs i).bind fun x =>
      (x.getWaits K c k replies s.proxies.descs).map fun r =>
        ⟨s.proxies.put i (some r.1) r.2 [junk.ofGet], h, s.handled + 1, some i⟩

/-- One step; `K` is the kernel for the process and `K'` the one for the helper. -/
def step (K K' : Kernel) (c : Layout) {k : Consts} (s : Connected cfg) :
    Act k → Option (Connected cfg)
  | .get i junk o =>
    if s.waiting = none ∧ s.pending = [] then
      (s.helper.step K' (.command junk.ofGet o)).bind fun h =>
        s.received K c k i junk (h.replies.drop s.helper.replies.length) h
    else none
  | .call a =>
    if s.waiting = none then
      match a with
      | .get _ _ _ => none
      | a => (s.proxies.step K c a).map fun p => { s with proxies := p }
    else none
  | .serve o =>
    match s.pending with
    | [] => none
    | cmd :: _ =>
      (s.helper.step K' (.command cmd o)).map fun h =>
        { s with helper := h, handled := s.handled + 1 }

/-- `get` is not called on a proxy that has descriptors. -/
def Act.Bare {k : Consts} (s : Connected cfg) : Act k → Prop
  | .get i _ _ => Proxies.ownedOf (s.proxies.objs i) = ∅
  | _ => True

end Connected

/-! ## `get` -/

namespace PtyttyProxy

variable {K : Kernel} {c : Layout} {k : Consts} {x : PtyttyProxy} {d : Descs}

/-- `close_tty` leaves no slave, and the other members alone. -/
theorem closeTty_fst (x : PtyttyProxy) (d : Descs) : (x.closeTty d).1 = { x with tty := none } := by
  obtain ⟨id, pty, tty⟩ := x
  cases tty <;> rfl

theorem closeTty_file (x : PtyttyProxy) (d : Descs) : (x.closeTty d).2.file = d.file := by
  obtain ⟨id, pty, tty⟩ := x
  cases tty <;> rfl

theorem delete_file (x : PtyttyProxy) (d : Descs) : (x.delete d).file = d.file := by
  obtain ⟨id, pty, tty⟩ := x
  unfold delete
  split_ifs
  · rfl
  · cases pty <;> cases tty <;> rfl

theorem get_null {o : Answer k} (h : Connected.answer k [.id 0] = some o) (x : PtyttyProxy)
    (d : Descs) : x.get K c o d = some (.returned false, { x with id := 0 }, d) := by
  obtain rfl := Option.some.inj h
  rfl

/-- The descriptors received are of the files sent. -/
theorem get_files {a : Addr} (ha : a ≠ 0) {f g : File} {o : Answer k}
    (h : Connected.answer k [.id a, .fd f, .fd g] = some o) (x : PtyttyProxy) (d : Descs) :
    ∃ p t d', x.get K c o d = some (.returned true, ⟨a, some p, some t⟩, d') ∧
      d'.file p = f ∧ d'.file t = g := by
  obtain rfl := Option.some.inj h
  have hne : (d.openFile K f).1 ≠ ((d.openFile K f).2.openFile K g).1 := by
    intro he
    refine Moves.notMem K g (d.openFile K f).2 ?_
    rw [← he]
    exact Finset.mem_insert_self _ _
  refine ⟨_, _, _, get_pair ha f g x d, ?_, Function.update_self _ _ _⟩
  exact (Function.update_of_ne hne _ _).trans (Function.update_self _ _ _)

/-- Up to the message that is missing, the proxy has got its id, and perhaps a descriptor. -/
theorem getWaits_got {a : Addr} (ha : a ≠ 0) {rs : List Reply} {x y : PtyttyProxy} {d d' : Descs}
    (hx : x.Valid) (h : x.owned ⊆ d.fds) (hget : x.getWaits K c k (.id a :: rs) d = some (y, d')) :
    Got x y d d' ∧ y.id = a ∧ y.tty = x.tty ∧ ∀ fd ∈ d.fds, d'.file fd = d.file fd := by
  match rs with
  | [] =>
    rw [getWaits] at hget
    cases hget
    exact ⟨.id hx h a, rfl, rfl, fun _ _ => rfl⟩
  | [.fd f] =>
    rw [getWaits, recvFdDescs_one] at hget
    cases hget
    refine ⟨.pty ha h (Moves.notMem K f d) (Moves.openFile K f h), rfl, rfl,
      fun fd hfd => Function.update_of_ne ?_ _ _⟩
    rintro rfl
    exact Moves.notMem K f d hfd
  | .id _ :: _ | .fd _ :: _ :: _ => cases hget

end PtyttyProxy

/-! ## The helper -/

namespace Serve

variable {K : Kernel}

/-- The device of the object at `a`. -/
def deviceAt (s : Serve cfg) (a : Addr) : Option CStr := (s.heap.cells a).bind fun c => c.obj.name

/-- The messages of a `get` that are sent. -/
def messages (o : Outcome) (dev : CStr) : List Reply :=
  (if o.sendPty then [.fd (.master dev)] else []) ++ if o.sendTty then [.fd (.slave dev)] else []

/-- What the helper answers to a `get`, with an object that it keeps or without. -/
inductive Answered (s : Serve cfg) (o : Outcome) : Serve cfg → Prop
  | null {t} (ptys : t.ptys = s.ptys) (replies : t.replies = s.replies ++ [.id 0])
    (others : ∀ b ∈ s.ptys, t.deviceAt b = s.deviceAt b) : Answered s o t
  | pair {t dev} (ptys : t.ptys = s.ptys ++ [o.addr])
    (replies : t.replies = s.replies ++ .id o.addr :: messages o dev)
    (device : t.deviceAt o.addr = some dev) (others : ∀ b ∈ s.ptys, t.deviceAt b = s.deviceAt b) :
    Answered s o t

theorem answered_handleGet {s : Serve cfg} (hs : AtHead s) {o : Outcome}
    (ha : s.heap.cells o.addr = none) : Answered s o (s.handleGet K o) := by
  have hne : ∀ b ∈ s.ptys, b ≠ o.addr := by
    rintro b hb rfl
    have := (hs.reg.live _).mp hb
    rw [ha] at this
    cases this
  rcases PtyttyUnix.get_moves (K := K) (o := o.get) PtyttyUnix.initial_new s.os with
    ⟨os, he, -⟩ | ⟨x, os, he, ⟨p, dev, hpty, hname, hfile, hslave⟩, htty, -⟩
  · rw [handleGet_false he]
    refine .null rfl rfl fun b hb => ?_
    unfold deviceAt
    rw [Heap.cells_free, if_neg (hne b hb), Heap.cells_alloc, if_neg (hne b hb)]
  · obtain ⟨t, htty⟩ := Option.isSome_iff_exists.mp htty
    have hclosed : (x.closeTty os).1.name = some dev := by
      rw [PtyttyUnix.closeTty_fst]
      exact hname
    have hcell : ((s.heap.alloc o.addr x).modify o.addr fun _ => (x.closeTty os).1).cells o.addr =
        some ⟨s.heap.created, (x.closeTty os).1⟩ := by
      rw [Heap.cells_modify, if_pos rfl, Heap.cells_alloc, if_pos rfl]
      rfl
    rw [handleGet_true he]
    refine .pair rfl ?_ ((congrArg (Option.bind · _) hcell).trans hclosed) fun b hb => ?_
    · rw [hpty, htty, messages]
      cases o.sendPty <;> cases o.sendTty <;>
        simp [fdMessage, hfile, (hslave t htty).2]
    · unfold deviceAt
      rw [Heap.cells_modify, if_neg (hne b hb), Heap.cells_alloc, if_neg (hne b hb)]

/-- The command destroys the object at `a`. -/
def Destroys (cmd : Command) (a : Addr) : Prop := cmd.type = .destroy ∧ cmd.id = a

/-- The helper handles a `login` or `destroy` command: it keeps the other objects, with their
devices, and makes none. -/
theorem ptys_of_command {s t : Serve cfg} (hs : AtHead s) (hr : s.returned = false) {cmd : Command}
    (hty : cmd.type = .login ∨ cmd.type = .destroy) {o : Outcome}
    (ht : s.step K (.command cmd o) = some t) :
    (∀ b ∈ s.ptys, ¬ Destroys cmd b → b ∈ t.ptys ∧ t.deviceAt b = s.deviceAt b) ∧
      ∀ b ∈ t.ptys, b ∈ s.ptys ∧ ¬ Destroys cmd b := by
  rcases hty with hty | hty
  · have hno : ∀ b, ¬ Destroys cmd b := fun b h => by
      rw [Destroys, hty] at h
      cases h.1
    simp only [step, hr, Bool.false_eq_true, if_false, hty, Option.some.injEq] at ht
    subst ht
    rcases handleLogin_cases (K := K) hs.reg (o.log 0) cmd with ⟨he, -⟩ | ⟨c, -, -, hc, he⟩
    · rw [he]
      exact ⟨fun b hb _ => ⟨hb, rfl⟩, fun b hb => ⟨hb, hno b⟩⟩
    · rw [he]
      refine ⟨fun b hb _ => ⟨hb, ?_⟩, fun b hb => ⟨hb, hno b⟩⟩
      unfold deviceAt
      rw [Heap.cells_modify]
      by_cases hbc : b = cmd.id
      · obtain ⟨-, -, hname⟩ := PtyttyUnix.login_fields (K := K) (o.log 0) cmd.cmdPid
          cmd.loginShell (ofArray (terminate (n := 511) cmd.hostname)) c.obj s.os
        rw [if_pos hbc, hbc, hc]
        exact hname
      · rw [if_neg hbc]
  · simp only [step, hr, Bool.false_eq_true, if_false, hty, Option.some.injEq] at ht
    subst ht
    rcases handleDestroy_cases (K := K) hs.reg (o.log 0) cmd with ⟨he, hno⟩ | ⟨c, hmem, hc, he⟩
    · rw [he]
      exact ⟨fun b hb _ => ⟨hb, rfl⟩, fun b hb => ⟨hb, fun h => hno (h.2 ▸ hb)⟩⟩
    · rw [he]
      refine ⟨fun b hb hd => ?_, fun b hb => ⟨List.mem_of_mem_erase hb, fun h => ?_⟩⟩
      · have hne : b ≠ cmd.id := fun h => hd ⟨hty, h.symm⟩
        refine ⟨(List.mem_erase_of_ne hne).mpr hb, ?_⟩
        unfold deviceAt
        rw [Heap.cells_free, if_neg hne]
      · exact ((List.Nodup.mem_erase_iff hs.reg.nodup).mp hb).1 h.2.symm

end Serve

namespace Connected

open Serve (Destroys)

variable {K K' : Kernel} {c : Layout} {k : Consts} {d₀ h₀ : Descs}

/-! ## Pairs -/

/-- The proxy has the pair of the object with its id, which the helper keeps. -/
structure Paired (s : Connected cfg) (x : PtyttyProxy) (p : Fd) : Prop where
  listed : x.id ∈ s.helper.ptys
  kept : ∀ cmd ∈ s.pending, ¬ Destroys cmd x.id
  device : ∃ dev, s.helper.deviceAt x.id = some dev ∧ s.proxies.descs.file p = .master dev ∧
    ∀ t ∈ x.tty, s.proxies.descs.file t = .slave dev

/-- What holds between the two. A proxy whose `get` waits may lack descriptors. -/
structure Inv (d₀ h₀ : Descs) (s : Connected cfg) : Prop where
  proxies : Proxies.Inv d₀ s.proxies
  helper : Serve.FdInv h₀ s.helper
  running : s.helper.returned = false
  handled : s.handled ≤ s.proxies.sent.length
  sends : ∀ cmd ∈ s.pending, cmd.type = .login ∨ cmd.type = .destroy
  ends : ∀ i x, s.proxies.objs i = some x → x.pty = none → x.tty = none
  got : ∀ i x, s.proxies.objs i = some x → s.waiting ≠ some i → x.id ≠ 0 → x.pty.isSome
  pairs : ∀ i x, s.proxies.objs i = some x → s.waiting ≠ some i → ∀ p ∈ x.pty, Paired s x p
  distinct : ∀ i j x y, s.proxies.objs i = some x → s.proxies.objs j = some y → x.id ≠ 0 →
    x.id = y.id → i = j
  covered : ∀ a ∈ s.helper.ptys, (∃ i x, s.proxies.objs i = some x ∧ x.id = a) ∨
    ∃ cmd ∈ s.pending, Destroys cmd a

theorem Inv.head {s : Connected cfg} (h : Inv d₀ h₀ s) : Serve.AtHead s.helper := by
  have := h.helper.1
  rwa [Serve.Inv, if_neg (by simp [h.running])] at this

theorem inv_initial (d : Descs) (os : Os cfg) : Inv d os.descs (initial d os) where
  proxies := Proxies.inv_initial d
  helper := Serve.fdInv_initial os
  running := rfl
  handled := le_rfl
  sends := by rintro cmd ⟨⟩
  ends := by rintro i x ⟨⟩
  got := by rintro i x ⟨⟩
  pairs := by rintro i x ⟨⟩
  distinct := by rintro i j x y ⟨⟩
  covered := by rintro a ⟨⟩

/-- What a call but `get` does to its proxy, and what it sends. -/
structure Quiet (old y : Option PtyttyProxy) (cmds : List Command) : Prop where
  new : ∀ x', y = some x' → x' = .new ∧ old = none ∨
    ∃ x, old = some x ∧ x'.id = x.id ∧ x'.pty = x.pty ∧ ∀ t ∈ x'.tty, t ∈ x.tty
  sends : ∀ cmd ∈ cmds, cmd.type = .login ∨ y = none ∧ ∃ x, old = some x ∧ x.id ≠ 0 ∧
    Destroys cmd x.id
  gone : ∀ x, old = some x → (∃ x', y = some x' ∧ x'.id = x.id) ∨ x.id = 0 ∨
    ∃ cmd ∈ cmds, Destroys cmd x.id

theorem quiet_call {a : Proxies.Act k} (ha : ∀ i junk o, a ≠ .get i junk o)
    {old y : Option PtyttyProxy} {d d' : Descs} {cmds : List Command}
    (h : Proxies.call K c a old d = some (y, d', cmds)) :
    Quiet old y cmds ∧ d'.file = d.file := by
  cases old with
  | none =>
    cases a with
    | create i =>
      cases h
      exact ⟨⟨by rintro x' ⟨⟩; exact .inl ⟨rfl, rfl⟩, by rintro cmd ⟨⟩, by rintro x ⟨⟩⟩, rfl⟩
    | _ => cases h
  | some x =>
    have kept : ∀ x', x'.id = x.id → x'.pty = x.pty → (∀ t ∈ x'.tty, t ∈ x.tty) → ∀ cmds,
        (∀ cmd ∈ cmds, cmd.type = .login) → Quiet (some x) (some x') cmds := by
      intro x' hid hpty htty cmds hcmds
      refine ⟨?_, fun cmd hcmd => .inl (hcmds cmd hcmd), ?_⟩
      · rintro x'' ⟨⟩
        exact .inr ⟨x, rfl, hid, hpty, htty⟩
      · rintro x'' ⟨⟩
        exact .inl ⟨x', rfl, hid⟩
    cases a with
    | create i => cases h
    | get i junk o => exact absurd rfl (ha i junk o)
    | login i pid shell hostname =>
      cases h
      refine ⟨kept x rfl rfl (fun t ht => ht) _ fun cmd hcmd => ?_, rfl⟩
      rw [List.mem_singleton.mp hcmd]
      rfl
    | closeTty i =>
      cases h
      refine ⟨?_, PtyttyProxy.closeTty_file x d⟩
      rw [PtyttyProxy.closeTty_fst]
      exact kept { x with tty := none } rfl rfl (by rintro t ⟨⟩) [] (by rintro cmd ⟨⟩)
    | delete i junk =>
      cases h
      refine ⟨⟨by rintro x' ⟨⟩, fun cmd hcmd => ?_, ?_⟩, PtyttyProxy.delete_file x d⟩
      · split_ifs at hcmd with hid
        · cases hcmd
        · obtain rfl := List.mem_singleton.mp hcmd
          exact .inr ⟨rfl, x, rfl, hid, rfl, rfl⟩
      · rintro x' ⟨⟩
        by_cases hid : x.id = 0
        · exact .inr (.inl hid)
        · rw [if_neg hid]
          exact .inr (.inr ⟨_, List.mem_singleton_self _, rfl, rfl⟩)

/-- A call but `get`. -/
theorem Inv.call {s : Connected cfg} (h : Inv d₀ h₀ s) (hwait : s.waiting = none) {i : ℕ}
    {y : Option PtyttyProxy} {p : Proxies} {cmds : List Command}
    (hq : Quiet (s.proxies.objs i) y cmds) (hself : p.objs i = y)
    (hothers : ∀ j, j ≠ i → p.objs j = s.proxies.objs j)
    (hfile : p.descs.file = s.proxies.descs.file) (hsent : p.sent = s.proxies.sent ++ cmds)
    (hproxies : Proxies.Inv d₀ p) : Inv d₀ h₀ { s with proxies := p } := by
  have hpending : ({ s with proxies := p } : Connected cfg).pending = s.pending ++ cmds := by
    unfold pending
    rw [hsent, List.drop_append_of_le_length h.handled]
  -- a proxy after the call is new, or it was there with its id and descriptors
  have hold : ∀ j x', p.objs j = some x' → x' = .new ∨ ∃ x, s.proxies.objs j = some x ∧
      x'.id = x.id ∧ x'.pty = x.pty ∧ ∀ t ∈ x'.tty, t ∈ x.tty := by
    intro j x' hx'
    by_cases hj : j = i
    · subst hj
      exact (hq.new x' (hself ▸ hx')).imp_left And.left
    · exact .inr ⟨x', hothers j hj ▸ hx', rfl, rfl, fun t ht => ht⟩
  have hfree : ∀ j, s.waiting ≠ some j := fun j => by simp [hwait]
  refine ⟨hproxies, h.helper, h.running, ?_, fun cmd hcmd => ?_, fun j x' hx' hnone => ?_,
    fun j x' hx' _ hid => ?_, fun j x' hx' _ p' hp' => ?_, fun j l x' y' hx' hy' hid he => ?_,
    fun a ha => ?_⟩
  · rw [hsent, List.length_append]
    exact h.handled.trans (Nat.le_add_right _ _)
  · rw [hpending] at hcmd
    rcases List.mem_append.mp hcmd with hcmd | hcmd
    · exact h.sends cmd hcmd
    · exact (hq.sends cmd hcmd).imp_right fun ⟨_, _, _, _, hd⟩ => hd.1
  · rcases hold j x' hx' with rfl | ⟨x, hx, -, hpty, htty⟩
    · rfl
    · have hno := h.ends j x hx (hpty ▸ hnone)
      exact Option.eq_none_iff_forall_not_mem.mpr fun t ht => by
        simpa [hno] using htty t ht
  · rcases hold j x' hx' with rfl | ⟨x, hx, hid', hpty, -⟩
    · exact absurd rfl hid
    · rw [hpty]
      exact h.got j x hx (hfree j) (hid' ▸ hid)
  · rcases hold j x' hx' with rfl | ⟨x, hx, hid, hpty, htty⟩
    · cases hp'
    · obtain ⟨hlisted, hkept, dev, hdev, hmaster, hslave⟩ :=
        h.pairs j x hx (hfree j) p' (hpty ▸ hp')
      rw [← hid] at hlisted hkept hdev
      refine ⟨hlisted, fun cmd hcmd => ?_, dev, hdev, ?_, fun t ht => ?_⟩
      · rw [hpending] at hcmd
        rcases List.mem_append.mp hcmd with hcmd | hcmd
        · exact hkept cmd hcmd
        · rcases hq.sends cmd hcmd with hlogin | ⟨hy, x₀, hx₀, hid₀, hd₀⟩
          · rintro ⟨hd, -⟩
            rw [hlogin] at hd
            cases hd
          · -- the proxy that is deleted has another id
            intro hd
            have hji : j = i := h.distinct j i x x₀ hx hx₀
              (fun h0 => hid₀ (hd₀.2.symm.trans (hd.2.trans (hid.trans h0))))
              (hid.symm.trans (hd.2.symm.trans hd₀.2))
            rw [hji, hself, hy] at hx'
            cases hx'
      · rw [hfile]
        exact hmaster
      · rw [hfile]
        exact hslave t (htty t ht)
  · rcases hold j x' hx' with rfl | ⟨x, hx, hidx, -⟩
    · exact absurd rfl hid
    rcases hold l y' hy' with rfl | ⟨y, hy, hidy, -⟩
    · exact absurd he hid
    exact h.distinct j l x y hx hy (hidx ▸ hid) (hidx.symm.trans (he.trans hidy))
  · rw [hpending]
    rcases h.covered a ha with ⟨j, x, hx, rfl⟩ | ⟨cmd, hcmd, hd⟩
    · by_cases hj : j = i
      · subst hj
        rcases hq.gone x hx with ⟨x', hx', hid⟩ | hzero | ⟨cmd, hcmd, hd⟩
        · exact .inl ⟨j, x', hself.trans hx', hid⟩
        · exact absurd (hzero ▸ ha) h.head.reg.null
        · exact .inr ⟨cmd, List.mem_append_right _ hcmd, hd⟩
      · exact .inl ⟨j, x, (hothers j hj).trans hx, rfl⟩
    · exact .inr ⟨cmd, List.mem_append_left _ hcmd, hd⟩

/-- The helper handles a command. -/
theorem Inv.serve {s : Connected cfg} (h : Inv d₀ h₀ s) {cmd : Command} {rest : List Command}
    (hcmd : s.pending = cmd :: rest) {o : Outcome} {t : Serve cfg}
    (ht : s.helper.step K' (.command cmd o) = some t) :
    Inv d₀ h₀ { s with helper := t, handled := s.handled + 1 } := by
  have hpending : ({ s with helper := t, handled := s.handled + 1 } : Connected cfg).pending =
      rest := by
    show s.proxies.sent.drop (s.handled + 1) = rest
    rw [← List.tail_drop]
    exact congrArg List.tail hcmd
  have hmem : ∀ cmd' ∈ rest, cmd' ∈ s.pending := fun cmd' hcmd' =>
    hcmd ▸ List.mem_cons_of_mem cmd hcmd'
  have hfirst : cmd ∈ s.pending := hcmd ▸ List.mem_cons_self
  have hty := h.sends cmd hfirst
  obtain ⟨hkeeps, honly⟩ := Serve.ptys_of_command h.head h.running hty ht
  obtain ⟨-, hr, -⟩ := Proxied.serve_step h.head h.running hty ht
  refine ⟨h.proxies, Serve.fdInv_step h.helper ht, hr, ?_, fun cmd' hcmd' => ?_, h.ends, h.got,
    fun i x hx hi p hp => ?_, h.distinct, fun a ha => ?_⟩
  · have hlt : s.handled < s.proxies.sent.length := by
      by_contra hge
      have hnil : s.pending = [] := List.drop_eq_nil_of_le (not_lt.mp hge)
      rw [hnil] at hcmd
      cases hcmd
    exact hlt
  · rw [hpending] at hcmd'
    exact h.sends cmd' (hmem cmd' hcmd')
  · obtain ⟨hlisted, hkept, dev, hdev, hends⟩ := h.pairs i x hx hi p hp
    obtain ⟨hlisted', hdev'⟩ := hkeeps x.id hlisted (hkept cmd hfirst)
    refine ⟨hlisted', fun cmd' hcmd' => ?_, dev, hdev'.trans hdev, hends⟩
    rw [hpending] at hcmd'
    exact hkept cmd' (hmem cmd' hcmd')
  · obtain ⟨ha, hno⟩ := honly a ha
    refine (h.covered a ha).imp_right ?_
    rintro ⟨cmd', hcmd', hd⟩
    rw [hpending]
    rw [hcmd] at hcmd'
    rcases List.mem_cons.mp hcmd' with rfl | hcmd'
    · exact absurd hd hno
    · exact ⟨cmd', hcmd', hd⟩

/-- What a proxy has is open. -/
theorem Inv.owned_subset {s : Connected cfg} (h : Inv d₀ h₀ s) {i : ℕ} {x : PtyttyProxy}
    (hx : s.proxies.objs i = some x) : x.owned ⊆ s.proxies.descs.fds := by
  have := h.proxies.owned_subset i
  rwa [hx] at this

/-- A call of `get`, which returns or waits: the proxy `x` becomes `x'`, and the helper makes its
object or none. -/
theorem Inv.get {s : Connected cfg} (h : Inv d₀ h₀ s) (hwait : s.waiting = none)
    (hidle : s.pending = []) {i : ℕ} {w : Option ℕ} (hw : w = none ∨ w = some i)
    {x x' : PtyttyProxy} (hx : s.proxies.objs i = some x) (howned : x.owned = ∅) {p : Proxies}
    {t : Serve cfg} (hself : p.objs i = some x')
    (hothers : ∀ j, j ≠ i → p.objs j = s.proxies.objs j)
    (hfile : ∀ fd ∈ s.proxies.descs.fds, p.descs.file fd = s.proxies.descs.file fd)
    (hsent : p.sent.length = s.proxies.sent.length + 1) (hproxies : Proxies.Inv d₀ p)
    (hhelper : Serve.FdInv h₀ t) (hr : t.returned = false) (hfresh : x'.id ∉ s.helper.ptys)
    (hptys : ∀ a, a ∈ t.ptys ↔ a ∈ s.helper.ptys ∨ x'.id ≠ 0 ∧ a = x'.id)
    (hdev : ∀ b ∈ s.helper.ptys, t.deviceAt b = s.helper.deviceAt b)
    (hends : x'.pty = none → x'.tty = none) (hgot : w = none → x'.id ≠ 0 → x'.pty.isSome)
    (hpair : w = none → ∀ q ∈ x'.pty, x'.id ≠ 0 ∧ ∃ dev, t.deviceAt x'.id = some dev ∧
      p.descs.file q = .master dev ∧ ∀ r ∈ x'.tty, p.descs.file r = .slave dev) :
    Inv d₀ h₀ ⟨p, t, s.handled + 1, w⟩ := by
  have hlength : s.handled = s.proxies.sent.length :=
    le_antisymm h.handled (List.drop_eq_nil_iff.mp hidle)
  have hpending : (⟨p, t, s.handled + 1, w⟩ : Connected cfg).pending = [] :=
    List.drop_eq_nil_of_le (by rw [hsent, hlength])
  have hfree : ∀ j, s.waiting ≠ some j := fun j => by simp [hwait]
  have hreturned : w ≠ some i → w = none := hw.resolve_right
  have hzero : x.id = 0 := by
    by_contra hne
    have := h.got i x hx (hfree i) hne
    rw [(PtyttyProxy.owned_eq_empty.mp howned).1] at this
    cases this
  have hlisted : ∀ j y, s.proxies.objs j = some y → y.id ≠ 0 → y.id ∈ s.helper.ptys := by
    intro j y hy hid
    obtain ⟨q, hq⟩ := Option.isSome_iff_exists.mp (h.got j y hy (hfree j) hid)
    exact (h.pairs j y hy (hfree j) q hq).listed
  refine ⟨hproxies, hhelper, hr, ?_, by rw [hpending]; rintro cmd ⟨⟩, fun j y hy => ?_,
    fun j y hy hjw hid => ?_, fun j y hy hjw q hq => ?_, fun j l y z hy hz hid he => ?_,
    fun a ha => .inl ?_⟩
  · show s.handled + 1 ≤ p.sent.length
    rw [hsent, hlength]
  · by_cases hj : j = i
    · subst hj
      obtain rfl := Option.some.inj (hself.symm.trans hy)
      exact hends
    · exact h.ends j y ((hothers j hj).symm.trans hy)
  · by_cases hj : j = i
    · subst hj
      obtain rfl := Option.some.inj (hself.symm.trans hy)
      exact hgot (hreturned hjw) hid
    · exact h.got j y ((hothers j hj).symm.trans hy) (hfree j) hid
  · by_cases hj : j = i
    · subst hj
      obtain rfl := Option.some.inj (hself.symm.trans hy)
      obtain ⟨hid, hends⟩ := hpair (hreturned hjw) q hq
      exact ⟨(hptys _).mpr (.inr ⟨hid, rfl⟩), by rw [hpending]; rintro cmd ⟨⟩, hends⟩
    · have hy := (hothers j hj).symm.trans hy
      obtain ⟨hmem, -, dev, hd, hmaster, hslave⟩ := h.pairs j y hy (hfree j) q hq
      have hopen := h.owned_subset hy
      refine ⟨(hptys _).mpr (.inl hmem), by rw [hpending]; rintro cmd ⟨⟩, dev,
        (hdev _ hmem).trans hd, ?_, fun r hr => ?_⟩
      · rw [hfile q (hopen (Finset.mem_union_left _ (Option.mem_toFinset.mpr hq)))]
        exact hmaster
      · rw [hfile r (hopen (Finset.mem_union_right _ (Option.mem_toFinset.mpr hr)))]
        exact hslave r hr
  · by_cases hj : j = i <;> by_cases hl : l = i
    · rw [hj, hl]
    · subst hj
      obtain rfl := Option.some.inj (hself.symm.trans hy)
      exact absurd (hlisted l z ((hothers l hl).symm.trans hz) (he ▸ hid)) (he ▸ hfresh)
    · subst hl
      obtain rfl := Option.some.inj (hself.symm.trans hz)
      exact absurd (hlisted j y ((hothers j hj).symm.trans hy) hid) (he ▸ hfresh)
    · exact h.distinct j l y z ((hothers j hj).symm.trans hy) ((hothers l hl).symm.trans hz) hid he
  · rcases (hptys a).mp ha with hmem | ⟨-, rfl⟩
    · rcases h.covered a hmem with ⟨j, y, hy, rfl⟩ | ⟨cmd, hcmd, -⟩
      · have hj : j ≠ i := by
          rintro rfl
          obtain rfl := Option.some.inj (hx.symm.trans hy)
          exact h.head.reg.null (hzero ▸ hmem)
        exact ⟨j, y, (hothers j hj).trans hy, rfl⟩
      · rw [hidle] at hcmd
        cases hcmd
    · exact ⟨i, x', hself, rfl⟩

theorem inv_step_call {s t : Connected cfg} {a : Proxies.Act k} (h : Inv d₀ h₀ s)
    (ht : step K K' c s (.call a) = some t) : Inv d₀ h₀ t := by
  obtain ⟨hwait, ha, p, hp, rfl⟩ : s.waiting = none ∧ (∀ i junk o, a ≠ .get i junk o) ∧
      ∃ p, s.proxies.step K c a = some p ∧ t = { s with proxies := p } := by
    unfold step at ht
    dsimp only at ht
    split_ifs at ht with hwait
    cases a with
    | get => cases ht
    | _ =>
      obtain ⟨p, hp, rfl⟩ := Option.map_eq_some_iff.mp ht
      exact ⟨hwait, by rintro i junk o ⟨⟩, p, hp, rfl⟩
  have hproxies := Proxies.inv_step h.proxies hp
  obtain ⟨⟨y, d', cmds⟩, hcall, rfl⟩ := Option.map_eq_some_iff.mp hp
  obtain ⟨hq, hfile⟩ := quiet_call ha hcall
  exact h.call hwait hq Proxies.put_self (fun j hj => Proxies.put_of_ne hj) hfile rfl hproxies

theorem of_step_get {p t : Proxies} {i : ℕ} {junk : Command} {o : PtyttyProxy.Answer k}
    (h : p.step K c (.get i junk o) = some t) : ∃ x r x' d', p.objs i = some x ∧
      x.get K c o p.descs = some (r, x', d') ∧ t = p.put i (some x') d' [junk.ofGet] := by
  obtain ⟨⟨y, d', cmds⟩, hcall, rfl⟩ := Option.map_eq_some_iff.mp h
  rw [show (Proxies.Act.get i junk o).index = i from rfl] at hcall ⊢
  cases hx : p.objs i with
  | none =>
    rw [hx] at hcall
    cases hcall
  | some x =>
    rw [hx] at hcall
    obtain ⟨⟨r, x', d₁⟩, hget, he⟩ := Option.map_eq_some_iff.mp hcall
    cases he
    exact ⟨x, r, x', _, rfl, hget, rfl⟩

/-- What the helper does with the command of a `get`. -/
theorem answered_step {s t : Serve cfg} (hs : Serve.AtHead s) {junk : Command} {o : Outcome}
    (ht : s.step K' (.command junk.ofGet o) = some t) :
    o.addr ≠ 0 ∧ o.addr ∉ s.ptys ∧ t.returned = false ∧ Serve.Answered s o t := by
  obtain ⟨hr, hiter⟩ := Serve.iterates_of_step ht
  cases hiter with
  | get type nonnull free =>
    refine ⟨nonnull, fun hmem => ?_, (Serve.atHead_get hs nonnull free).2.trans hr,
      Serve.answered_handleGet hs free⟩
    have := (hs.reg.live _).mp hmem
    rw [show s.heap.cells o.addr = none from free] at this
    cases this
  | login type => cases type
  | destroy type => cases type
  | other type => cases type

/-- If nothing is missing, there is an id of zero or both messages. -/
theorem answer_eq_some {rs : List Reply} {o : PtyttyProxy.Answer k} (h : answer k rs = some o) :
    rs = [.id 0] ∨ ∃ a f g, rs = [.id a, .fd f, .fd g] := by
  unfold answer at h
  split at h
  · split_ifs at h with ha
    exact .inl (by rw [ha])
  · exact .inr ⟨_, _, _, rfl⟩
  · cases h

/-- `get` returns: the proxy has no id, or it has a pair. -/
theorem inv_returned {s : Connected cfg} (h : Inv d₀ h₀ s) (hwait : s.waiting = none)
    (hidle : s.pending = []) {i : ℕ} {junk : Command} {o : Outcome} {u : Serve cfg}
    (hbare : Proxies.ownedOf (s.proxies.objs i) = ∅)
    (hu : s.helper.step K' (.command junk.ofGet o) = some u) {a : PtyttyProxy.Answer k}
    (ha : answer k (u.replies.drop s.helper.replies.length) = some a) {p : Proxies}
    (hp : s.proxies.step K c (.get i junk a) = some p) :
    Inv d₀ h₀ ⟨p, u, s.handled + 1, none⟩ := by
  have hhelper := Serve.fdInv_step h.helper hu
  have hproxies := Proxies.inv_step h.proxies hp
  obtain ⟨hnonnull, hfree, hr, hans⟩ := answered_step h.head hu
  obtain ⟨x, r, x', d', hx, hget, rfl⟩ := of_step_get hp
  have howned : x.owned = ∅ := by rwa [hx] at hbare
  obtain ⟨hpty, htty⟩ := PtyttyProxy.owned_eq_empty.mp howned
  have hsent : (s.proxies.sent ++ [junk.ofGet]).length = s.proxies.sent.length + 1 := by simp
  cases hans with
  | null ptys replies others =>
    rw [replies, List.drop_left] at ha
    rw [PtyttyProxy.get_null ha] at hget
    cases hget
    refine h.get hwait hidle (.inl rfl) hx howned Proxies.put_self
      (fun j hj => Proxies.put_of_ne hj) (fun _ _ => rfl) hsent hproxies hhelper hr
      h.head.reg.null (fun a => by simp [ptys]) others (fun _ => htty) (fun _ => absurd rfl) ?_
    intro _ q hq
    rw [hpty] at hq
    cases hq
  | @pair dev ptys replies device others =>
    rw [replies, List.drop_left] at ha
    have hboth : Serve.messages o dev = [.fd (.master dev), .fd (.slave dev)] := by
      rcases answer_eq_some ha with he | ⟨_, _, _, he⟩
      · exact absurd (Reply.id.inj (List.cons.inj he).1) hnonnull
      · revert he
        unfold Serve.messages
        cases o.sendPty <;> cases o.sendTty <;> simp
    rw [hboth] at ha
    obtain ⟨r₁, y, d₁, hgot, hdone⟩ := PtyttyProxy.get_got (K := K) (c := c) a
      (h.proxies.valid i x hx) (h.owned_subset hx)
    obtain ⟨p, q, d₂, hget', hmaster, hslave⟩ := PtyttyProxy.get_files (K := K) (c := c) (k := k)
      hnonnull ha x s.proxies.descs
    cases hget.symm.trans hget'
    cases hget.symm.trans hgot
    obtain ⟨new, -, -, hmv⟩ := hdone.moves
    refine h.get hwait hidle (.inl rfl) hx howned Proxies.put_self
      (fun j hj => Proxies.put_of_ne hj)
      (fun fd hfd => hmv.file fd (by rwa [howned, Finset.sdiff_empty])) hsent hproxies hhelper hr
      hfree (fun a => ?_) others (by rintro ⟨⟩) (fun _ _ => rfl) ?_
    · rw [ptys, List.mem_append, List.mem_singleton]
      exact or_congr_right (and_iff_right hnonnull).symm
    · rintro - q' ⟨⟩
      refine ⟨hnonnull, dev, device, hmaster, ?_⟩
      rintro r' ⟨⟩
      exact hslave

/-- `get` waits: the proxy has the id of an object that the helper keeps. -/
theorem inv_waits {s : Connected cfg} (h : Inv d₀ h₀ s) (hwait : s.waiting = none)
    (hidle : s.pending = []) {i : ℕ} {junk : Command} {o : Outcome} {u : Serve cfg}
    (hbare : Proxies.ownedOf (s.proxies.objs i) = ∅)
    (hu : s.helper.step K' (.command junk.ofGet o) = some u)
    (ha : answer k (u.replies.drop s.helper.replies.length) = none) {x y : PtyttyProxy}
    {d' : Descs} (hx : s.proxies.objs i = some x)
    (hget : x.getWaits K c k (u.replies.drop s.helper.replies.length) s.proxies.descs =
      some (y, d')) :
    Inv d₀ h₀ ⟨s.proxies.put i (some y) d' [junk.ofGet], u, s.handled + 1, some i⟩ := by
  have hhelper := Serve.fdInv_step h.helper hu
  obtain ⟨hnonnull, hfree, hr, hans⟩ := answered_step h.head hu
  have howned : x.owned = ∅ := by rwa [hx] at hbare
  obtain ⟨hpty, htty⟩ := PtyttyProxy.owned_eq_empty.mp howned
  have hsent : (s.proxies.sent ++ [junk.ofGet]).length = s.proxies.sent.length + 1 := by simp
  cases hans with
  | null ptys replies others =>
    rw [replies, List.drop_left] at ha
    cases ha
  | @pair dev ptys replies device others =>
    rw [replies, List.drop_left] at hget
    obtain ⟨hgot, hid, htty', hfile⟩ := PtyttyProxy.getWaits_got hnonnull
      (h.proxies.valid i x hx) (h.owned_subset hx) hget
    obtain ⟨own', hcalled⟩ := Proxies.called_of_got hgot
    rw [← hx] at hcalled
    refine h.get hwait hidle (.inr rfl) hx howned Proxies.put_self
      (fun j hj => Proxies.put_of_ne hj) hfile hsent (h.proxies.put hcalled _) hhelper hr
      (hid ▸ hfree) (fun a => ?_) others (fun _ => htty'.trans htty) (by rintro ⟨⟩) (by rintro ⟨⟩)
    rw [ptys, List.mem_append, List.mem_singleton, hid]
    exact or_congr_right (and_iff_right hnonnull).symm

theorem inv_step {s t : Connected cfg} {a : Act k} (h : Inv d₀ h₀ s) (hbare : a.Bare s)
    (ht : step K K' c s a = some t) : Inv d₀ h₀ t := by
  cases a with
  | get i junk o =>
    rw [step] at ht
    split_ifs at ht with hready
    obtain ⟨u, hu, ht⟩ := Option.bind_eq_some_iff.mp ht
    unfold received at ht
    split at ht
    · next a ha =>
      obtain ⟨p, hp, rfl⟩ := Option.map_eq_some_iff.mp ht
      exact inv_returned h hready.1 hready.2 hbare hu ha hp
    · next ha =>
      obtain ⟨x, hx, ht⟩ := Option.bind_eq_some_iff.mp ht
      obtain ⟨⟨y, d'⟩, hget, rfl⟩ := Option.map_eq_some_iff.mp ht
      exact inv_waits h hready.1 hready.2 hbare hu ha hx hget
  | call => exact inv_step_call h ht
  | serve o =>
    cases hpending : s.pending with
    | nil =>
      rw [step, hpending] at ht
      cases ht
    | cons cmd rest =>
      rw [step, hpending] at ht
      obtain ⟨u, hu, rfl⟩ := Option.map_eq_some_iff.mp ht
      exact h.serve hpending hu

/-- The object under the id of a proxy, and its master. -/
theorem Inv.master {s : Connected cfg} (h : Inv d₀ h₀ s) {a : Addr} (ha : a ∈ s.helper.ptys)
    {dev : CStr} (hdev : s.helper.deviceAt a = some dev) : ∃ cell m,
      s.helper.heap.cells a = some cell ∧ cell.obj.name = some dev ∧ cell.obj.pty = some m ∧
      m ∈ s.helper.os.descs.fds ∧ s.helper.os.descs.file m = .master dev := by
  have hacc := h.helper.2
  rw [if_neg (by simp [h.running])] at hacc
  obtain ⟨cell, hcell, ⟨m, dev', hpty, hname, hfile, -⟩, -⟩ := hacc.holding a ha
  have hsame : s.helper.deviceAt a = cell.obj.name := by
    unfold Serve.deviceAt
    rw [hcell]
    rfl
  obtain rfl : dev = dev' := Option.some.inj (hdev.symm.trans (hsame.trans hname))
  refine ⟨cell, m, hcell, hname, hpty, hacc.moves.sub' ?_, hfile⟩
  exact List.mem_toFinset.mpr
    (Serve.mem_masters.mpr ⟨a, ha, (Serve.masterOf_eq hcell).trans hpty⟩)

end Connected

end Libptytty
