import Libptytty.Shared.Steps

/-!
# The phases of a call

In a run without interrupted `NEED_TOKEN` the token is at one place, and with it go the contents of
both sockets: `Phase` lists the situations that occur. Either no client is inside (`Outside`), or
exactly one is (`Inside`), and then its place in the call, the place of the helper and the answers
under way fit together: what the helper has sent is what the client has received, followed by what
is in the socket. A `get` that throws takes the token with it (`lostCall`, `lost`).
-/

namespace Libptytty.Shared

open CString Memory

/-! ## Situations -/

/-- One client is inside, and has the token. -/
structure Held (s : System) (p : Pid) : Prop where
  insiders : s.insiders = {p}
  clientBytes : s.clientBytes = 0
  serverBytes : s.serverBytes = 0

/-- No client is inside, and the lock socket holds the token for the helper. -/
structure Given (s : System) : Prop where
  insiders : s.insiders = ∅
  clientBytes : s.clientBytes = 0
  serverBytes : s.serverBytes = 1

/-- The lock socket is empty and no client is inside. -/
structure Gone (s : System) : Prop where
  insiders : s.insiders = ∅
  clientBytes : s.clientBytes = 0
  serverBytes : s.serverBytes = 0

/-- All commands have been handled. -/
structure Settled (s : System) : Prop where
  requests : s.requests = []
  takes : s.takes.length = s.handled.length

/-- The command `r` has been written but not handled. -/
structure Pending (s : System) (r : Request) : Prop where
  place : (s.pc = .readCmd ∧ s.requests = [r]) ∨ (s.pc = .handle r ∧ s.requests = [])
  answers : s.answers = []
  ticket : r.ticket = s.handled.length
  takes : s.takes.length = s.handled.length + 1
  sender : s.takes[r.ticket]? = some r.sender

/-- The answers that a process has received in its `get`. -/
inductive Received (x : Process) : List Answer → Prop
  | nothing {i} (pc : x.pc = .readId i) : Received x []
  | null {i q} (pc : x.pc = .giveToken (some (i, false))) (proxy : x.objs i = some q) :
    Received x [.id 0]
  | id {i q} (pc : x.pc = .recvPty i) (proxy : x.objs i = some q) :
    Received x [.id q.id]
  | pty {i q e} (pc : x.pc = .recvTty i) (proxy : x.objs i = some q) (pty : q.pty = some e) :
    Received x [.id q.id, .fd e]
  | tty {i q e f} (pc : x.pc = .giveToken (some (i, true))) (proxy : x.objs i = some q)
    (pty : q.pty = some e) (tty : q.tty = some f) :
    Received x [.id q.id, .fd e, .fd f]

/-- The object of `m` at `m.addr`, before `close_tty`. -/
def Made.Open (m : Made) (heap : Heap Object) : Prop :=
  ∀ c, heap.cells m.addr = some c →
    c.obj.pty = some (.master m.serial) ∧ c.obj.tty = some (.slave m.serial)

/-- The answers that the helper has sent for `m`. A descriptor may be missing. -/
inductive Sent (pc : HelperPc) (heap : Heap Object) (m : Made) : List Answer → Prop
  | failed (ok : m.ok = false) (at_ : pc = .writeId 0) : Sent pc heap m []
  | null (ok : m.ok = false) (at_ : pc = .needToken) : Sent pc heap m [.id 0]
  | got (ok : m.ok = true) (at_ : pc = .writeId m.addr) (obj : m.Open heap) : Sent pc heap m []
  | id (ok : m.ok = true) (at_ : pc = .sendPty m.addr) (obj : m.Open heap) :
    Sent pc heap m [.id m.addr]
  | pty {fds : List Answer} (ok : m.ok = true) (at_ : pc = .sendTty m.addr) (obj : m.Open heap)
    (sub : fds.Sublist [.fd (.master m.serial)]) : Sent pc heap m (.id m.addr :: fds)
  | tty {fds : List Answer} (ok : m.ok = true) (at_ : pc = .needToken)
    (sub : fds.Sublist [.fd (.master m.serial), .fd (.slave m.serial)]) :
    Sent pc heap m (.id m.addr :: fds)

/-- The helper handles the call of `p`, which has made `m`. -/
structure Answering (s : System) (p : Pid) (m : Made) : Prop where
  mem : m ∈ s.made
  ticket : m.ticket = (s.proc p).ticket
  nonnull : m.addr ≠ 0
  cell : m.ok = true → ∃ c, s.heap.cells m.addr = some c ∧ c.serial = m.serial
  answers : ∃ received, Received (s.proc p) received ∧
    Sent s.pc s.heap m (received ++ s.answers)

/-- The client `p` is inside. -/
inductive Inside (s : System) (p : Pid) : Prop
  | taken {c} (at_ : (s.proc p).pc = .write c) (pc : s.pc = .readCmd) (requests : s.requests = [])
    (answers : s.answers = []) (ticket : (s.proc p).ticket = s.handled.length)
    (takes : s.takes.length = s.handled.length + 1)
    (sender : s.takes[(s.proc p).ticket]? = some p)
  | sent {r} (at_ : (s.proc p).pc = .giveToken none) (pending : Pending s r)
    (type : r.cmd.type = .login ∨ r.cmd.type = .destroy)
  | handled (at_ : (s.proc p).pc = .giveToken none) (pc : s.pc = .needToken) (settled : Settled s)
    (answers : s.answers = [])
  | asked {r i} (at_ : (s.proc p).pc = .readId i) (pending : Pending s r)
    (type : r.cmd.type = .get) (ticket : r.ticket = (s.proc p).ticket)
  | answered {m} (settled : Settled s) (answering : Answering s p m)

/-- The helper is behind the handling of a command. -/
def HelperPc.Serving : HelperPc → Prop
  | .writeId _ | .sendPty _ | .sendTty _ | .needToken => True
  | _ => False

/-- No client is inside. -/
inductive Outside (s : System) : Prop
  | giving (gone : Gone s) (pc : s.pc = .giveToken) (settled : Settled s)
    (answers : s.answers = [])
  | offered (free : s.insiders = ∅) (clientBytes : s.clientBytes = 1)
    (serverBytes : s.serverBytes = 0) (pc : s.pc = .readCmd) (settled : Settled s)
    (answers : s.answers = [])
  | sent {r} (given : Given s) (pending : Pending s r)
    (type : r.cmd.type = .login ∨ r.cmd.type = .destroy)
  | done (given : Given s) (pc : s.pc = .needToken) (settled : Settled s)
    (answers : s.answers = [])
  | lostCall {r} (gone : Gone s) (pending : Pending s r) (type : r.cmd.type = .get)
  | lost (gone : Gone s) (pc : s.pc.Serving) (settled : Settled s)

/-- The situations that occur. -/
inductive Phase (s : System) : Prop
  | outside (h : Outside s)
  | inside {p} (held : Held s p) (h : Inside s p)

theorem phase_initial : Phase initial :=
  .outside (.giving ⟨rfl, rfl, rfl⟩ rfl ⟨rfl, rfl⟩ rfl)

/-! ## The client inside -/

theorem Held.eq {s : System} {p q : Pid} (h : Held s q) (hp : p ∈ s.insiders) : p = q := by
  rw [h.insiders] at hp
  exact Finset.mem_singleton.mp hp

theorem Outside.insiders {s : System} (h : Outside s) : s.insiders = ∅ := by
  cases h with
  | giving gone => exact gone.insiders
  | offered free => exact free
  | sent given => exact given.insiders
  | done given => exact given.insiders
  | lostCall gone => exact gone.insiders
  | lost gone => exact gone.insiders

theorem Phase.of_mem {s : System} {p : Pid} (h : Phase s) (hp : p ∈ s.insiders) :
    Held s p ∧ Inside s p := by
  cases h with
  | outside h =>
    rw [h.insiders] at hp
    exact absurd hp (Finset.notMem_empty p)
  | inside held h =>
    obtain rfl := held.eq hp
    exact ⟨held, h⟩

/-- The token can be taken only if the helper has offered it. -/
theorem Phase.offered {s : System} (h : Phase s) (hb : s.clientBytes ≠ 0) :
    s.insiders = ∅ ∧ s.clientBytes = 1 ∧ s.serverBytes = 0 ∧ s.pc = .readCmd ∧ Settled s ∧
      s.answers = [] := by
  cases h with
  | outside h =>
    cases h with
    | giving gone => exact absurd gone.clientBytes hb
    | offered free one zero pc settled answers => exact ⟨free, one, zero, pc, settled, answers⟩
    | sent given => exact absurd given.clientBytes hb
    | done given => exact absurd given.clientBytes hb
    | lostCall gone => exact absurd gone.clientBytes hb
    | lost gone => exact absurd gone.clientBytes hb
  | inside held h => exact absurd held.clientBytes hb

/-! ## Answers -/

theorem Sent.serving {pc : HelperPc} {heap : Heap Object} {m : Made} {out : List Answer}
    (h : Sent pc heap m out) : pc.Serving := by
  cases h <;> subst pc <;> trivial

/-- A null id is all that is sent for a `get` that fails. -/
theorem Sent.of_null {pc : HelperPc} {heap : Heap Object} {m : Made} {rest : List Answer}
    (h : Sent pc heap m (.id 0 :: rest)) (hm : m.addr ≠ 0) :
    m.ok = false ∧ pc = .needToken ∧ rest = [] := by
  generalize hout : Answer.id 0 :: rest = out at h
  cases h with
  | failed | got => cases hout
  | null ok at_ =>
    cases hout
    exact ⟨ok, at_, rfl⟩
  | id | pty | tty =>
    obtain ⟨hid, -⟩ := List.cons.inj hout
    exact absurd (Answer.id.inj hid).symm hm

/-- If three answers have been sent, they are the address and both descriptors. -/
theorem Sent.of_three {pc : HelperPc} {heap : Heap Object} {m : Made} {a : Addr}
    {e f : Endpoint} {rest : List Answer} (h : Sent pc heap m (.id a :: .fd e :: .fd f :: rest)) :
    m.ok = true ∧ pc = .needToken ∧ rest = [] ∧ a = m.addr ∧ e = .master m.serial ∧
      f = .slave m.serial := by
  generalize hout : Answer.id a :: Answer.fd e :: .fd f :: rest = out at h
  cases h with
  | failed | got | null | id => cases hout
  | pty ok at_ obj sub =>
    obtain ⟨-, rfl⟩ := List.cons.inj hout
    have := sub.length_le
    simp at this
  | tty ok at_ sub =>
    obtain ⟨ha, rfl⟩ := List.cons.inj hout
    have heq := sub.eq_of_length_le (by simp)
    simp only [List.cons.injEq, Answer.fd.injEq] at heq
    exact ⟨ok, at_, heq.2.2, Answer.id.inj ha, heq.1, heq.2.1⟩

/-! ## Places inside -/

section Places

variable {s : System} {p : Pid} {x : Process} {i : ℕ} {q : Proxy} {received : List Answer}

theorem Received.of_readId (h : Received x received) (hpc : x.pc = .readId i) : received = [] := by
  cases h <;> simp_all

theorem Received.of_recvPty (h : Received x received) (hpc : x.pc = .recvPty i)
    (hq : x.objs i = some q) : received = [.id q.id] := by
  cases h <;> simp_all

theorem Received.of_recvTty (h : Received x received) (hpc : x.pc = .recvTty i)
    (hq : x.objs i = some q) : ∃ e, q.pty = some e ∧ received = [.id q.id, .fd e] := by
  cases h <;> simp_all

theorem Received.of_false (h : Received x received) (hpc : x.pc = .giveToken (some (i, false))) :
    ∃ q, x.objs i = some q ∧ received = [.id 0] := by
  cases h <;> simp_all

theorem Received.of_true (h : Received x received) (hpc : x.pc = .giveToken (some (i, true))) :
    ∃ q e f, x.objs i = some q ∧ q.pty = some e ∧ q.tty = some f ∧
      received = [.id q.id, .fd e, .fd f] := by
  cases h <;> simp_all

theorem Received.not_none (h : Received x received) (hpc : x.pc = .giveToken none) : False := by
  cases h <;> simp_all

theorem Inside.of_readId (h : Inside s p) (hpc : (s.proc p).pc = .readId i) :
    (∃ r, Pending s r ∧ r.cmd.type = .get ∧ r.ticket = (s.proc p).ticket) ∨
      ∃ m, Settled s ∧ Answering s p m := by
  cases h with
  | asked at_ pending type ticket => exact Or.inl ⟨_, pending, type, ticket⟩
  | answered settled answering => exact Or.inr ⟨_, settled, answering⟩
  | taken at_ | sent at_ | handled at_ => rw [hpc] at at_; cases at_

/-- An answer to `get` can only be there once the command has been handled. -/
theorem Inside.of_answers (h : Inside s p) (hpc : (s.proc p).pc = .readId i)
    (hans : s.answers ≠ []) : ∃ m, Settled s ∧ Answering s p m := by
  rcases h.of_readId hpc with ⟨r, pending, -⟩ | h
  · exact absurd pending.answers hans
  · exact h

/-- After the id only answers can be awaited. -/
theorem Inside.of_recv (h : Inside s p)
    (hpc : (s.proc p).pc = .recvPty i ∨ (s.proc p).pc = .recvTty i) :
    ∃ m, Settled s ∧ Answering s p m := by
  cases h with
  | answered settled answering => exact ⟨_, settled, answering⟩
  | taken at_ | sent at_ | handled at_ | asked at_ =>
    rw [at_] at hpc
    rcases hpc with hpc | hpc <;> cases hpc

theorem Inside.of_give {ret : ℕ × Bool} (h : Inside s p)
    (hpc : (s.proc p).pc = .giveToken (some ret)) : ∃ m, Settled s ∧ Answering s p m := by
  cases h with
  | answered settled answering => exact ⟨_, settled, answering⟩
  | taken at_ | sent at_ | handled at_ | asked at_ => rw [hpc] at at_; cases at_

end Places

/-! ## A step of a client -/

/-- Processes outside move, or are forked. -/
theorem Phase.away {s : System} (h : Phase s) {procs : Finset Pid} {proc : Pid → Process}
    {exits : List Exit}
    (hins : { s with procs := procs, proc := proc, exits := exits }.insiders = s.insiders)
    (hproc : ∀ p ∈ s.insiders, proc p = s.proc p) :
    Phase { s with procs := procs, proc := proc, exits := exits } := by
  have hpend : ∀ {r}, Pending s r →
      Pending { s with procs := procs, proc := proc, exits := exits } r :=
    fun h => ⟨h.place, h.answers, h.ticket, h.takes, h.sender⟩
  have hgone : Gone s → Gone { s with procs := procs, proc := proc, exits := exits } :=
    fun h => ⟨hins.trans h.insiders, h.clientBytes, h.serverBytes⟩
  have hgiven : Given s → Given { s with procs := procs, proc := proc, exits := exits } :=
    fun h => ⟨hins.trans h.insiders, h.clientBytes, h.serverBytes⟩
  have hset : Settled s → Settled { s with procs := procs, proc := proc, exits := exits } :=
    fun h => ⟨h.requests, h.takes⟩
  cases h with
  | outside h =>
    refine .outside ?_
    cases h with
    | giving gone pc settled answers => exact .giving (hgone gone) pc (hset settled) answers
    | offered free one zero pc settled answers =>
      exact .offered (hins.trans free) one zero pc (hset settled) answers
    | sent given pending type => exact .sent (hgiven given) (hpend pending) type
    | done given pc settled answers => exact .done (hgiven given) pc (hset settled) answers
    | lostCall gone pending type => exact .lostCall (hgone gone) (hpend pending) type
    | lost gone pc settled => exact .lost (hgone gone) pc (hset settled)
  | @inside p held h =>
    have hp : proc p = s.proc p :=
      hproc p (by rw [held.insiders]; exact Finset.mem_singleton_self p)
    refine .inside (p := p) ⟨hins.trans held.insiders, held.clientBytes, held.serverBytes⟩ ?_
    cases h with
    | taken at_ pc requests answers ticket takes sender =>
      rw [← hp] at at_ ticket sender
      exact .taken at_ pc requests answers ticket takes sender
    | sent at_ pending type => exact .sent ((congrArg Process.pc hp).trans at_) (hpend pending) type
    | handled at_ pc settled answers =>
      exact .handled ((congrArg Process.pc hp).trans at_) pc (hset settled) answers
    | asked at_ pending type ticket =>
      rw [← hp] at at_ ticket
      exact .asked at_ (hpend pending) type ticket
    | answered settled answering =>
      obtain ⟨mem, ticket, nonnull, cell, received, hrec, hsent⟩ := answering
      rw [← hp] at ticket hrec
      exact .answered (hset settled) ⟨mem, ticket, nonnull, cell, received, hrec, hsent⟩

theorem update_of_insider {s : System} {p : Pid} {x : Process}
    (hx : (s.proc p).pc.inside = false) :
    ∀ q ∈ s.insiders, Function.update s.proc p x q = s.proc q := by
  intro q hq
  refine Function.update_of_ne ?_ _ _
  rintro rfl
  exact not_mem_insiders hx hq

/-- The client of a call that the helper answers takes an answer. -/
theorem phase_receive {s : System} {p : Pid} {m : Made} {x : Process} {rest : List Answer}
    (held : Held s p) (settled : Settled s) (answering : Answering s p m)
    (hins : { s.set p x with answers := rest }.insiders = s.insiders)
    (hticket : x.ticket = (s.proc p).ticket) (received : List Answer) (hrec : Received x received)
    (hsent : Sent s.pc s.heap m (received ++ rest)) : Phase { s.set p x with answers := rest } := by
  have hp : { s.set p x with answers := rest }.proc p = x := Function.update_self _ _ _
  refine .inside ⟨hins.trans held.insiders, held.clientBytes, held.serverBytes⟩
    (.answered ⟨settled.requests, settled.takes⟩
      ⟨answering.mem, ?_, answering.nonnull, answering.cell, received, ?_, hsent⟩)
  · rw [hp, hticket, answering.ticket]
  · rw [hp]; exact hrec

/-- A `get` that is about to return has received all there is, and its proxy holds the address and
the descriptors of the object made for it. -/
theorem Answering.complete {s : System} {p : Pid} {m : Made} {i : ℕ} {ok : Bool}
    (h : Answering s p m) (hpc : (s.proc p).pc = .giveToken (some (i, ok))) :
    s.pc = .needToken ∧ s.answers = [] ∧ m.ok = ok ∧ ∃ q, (s.proc p).objs i = some q ∧
      (ok = true → q.id = m.addr ∧ q.pty = some (.master m.serial) ∧
        q.tty = some (.slave m.serial)) := by
  obtain ⟨received, hrec, hsent⟩ := h.answers
  cases ok with
  | false =>
    obtain ⟨q, hq, rfl⟩ := hrec.of_false hpc
    obtain ⟨hok, hneed, hrest⟩ := hsent.of_null h.nonnull
    exact ⟨hneed, hrest, hok, q, hq, fun hc => by cases hc⟩
  | true =>
    obtain ⟨q, e, f, hq, hpty, htty, rfl⟩ := hrec.of_true hpc
    obtain ⟨hok, hneed, hrest, hid, rfl, rfl⟩ := hsent.of_three
    exact ⟨hneed, hrest, hok, q, hq, fun _ => ⟨hid, hpty, htty⟩⟩

theorem phase_take {s t : System} {p : Pid} {interrupted : Bool} (h : Phase s) (hp : p ∈ s.procs)
    (ht : ClientTrans s p (s.proc p) (.take interrupted) t) (hu : interrupted = false) :
    Phase t := by
  have hins := ht.insiders hp
  cases ht with
  | interrupted pc => cases hu
  | @take c pc byte =>
    obtain ⟨free, one, zero, hpc, settled, answers⟩ := h.offered byte
    refine .inside (p := p) ⟨?_, ?_, zero⟩
      (.taken (c := c) ?_ hpc settled.requests answers ?_ ?_ ?_)
    · rw [hins]
      show insert p s.insiders = {p}
      rw [free, insert_empty_eq]
    · show s.clientBytes - 1 = 0
      omega
    · simp [System.enter]
    · simp [System.enter, settled.takes]
    · simp [System.enter, settled.takes]
    · simp [System.enter]

theorem phase_write {s t : System} {p : Pid} {junk : Command} (h : Phase s) (hp : p ∈ s.procs)
    (ht : ClientTrans s p (s.proc p) (.write junk) t) : Phase t := by
  have hins := ht.insiders hp
  cases ht with
  | @write c q junk pc proxy =>
    obtain ⟨held, hin⟩ := h.of_mem (mem_insiders_of_pc hp pc rfl)
    cases hin with
    | taken at_ hpc requests answers ticket takes sender =>
      have hpend : Pending { s.set p { (s.proc p).written c with pc := c.written } with
          requests := s.requests ++ [⟨c.command q junk, (s.proc p).ticket, p, q.origin⟩] }
          ⟨c.command q junk, (s.proc p).ticket, p, q.origin⟩ := by
        refine ⟨Or.inl ⟨hpc, ?_⟩, answers, ticket, takes, sender⟩
        show s.requests ++ [_] = [_]
        rw [requests, List.nil_append]
      refine .inside ⟨hins.trans held.insiders, held.clientBytes, held.serverBytes⟩ ?_
      cases c with
      | get i =>
        refine .asked (i := i) ?_ hpend rfl ?_ <;> simp [System.set, Call.written, Process.written]
      | login i pid shell hostname =>
        exact .sent (by simp [System.set, Call.written]) hpend (Or.inl rfl)
      | destroy i => exact .sent (by simp [System.set, Call.written]) hpend (Or.inr rfl)
    | sent at_ | handled at_ | asked at_ => rw [pc] at at_; cases at_
    | answered settled answering =>
      obtain ⟨received, hrec, -⟩ := answering.answers
      cases hrec <;> simp_all

/-- Where the id is awaited, all answers that have been sent are still there. -/
theorem Phase.reads {s : System} {p : Pid} {i : ℕ} (h : Phase s) (hp : p ∈ s.procs)
    (hpc : (s.proc p).pc = .readId i) (hans : s.answers ≠ []) :
    Held s p ∧ ∃ m, Settled s ∧ Answering s p m ∧ Sent s.pc s.heap m s.answers := by
  obtain ⟨held, hin⟩ := h.of_mem (mem_insiders_of_pc hp hpc rfl)
  obtain ⟨m, settled, answering⟩ := hin.of_answers hpc hans
  obtain ⟨received, hrec, hsent⟩ := answering.answers
  rw [hrec.of_readId hpc, List.nil_append] at hsent
  exact ⟨held, m, settled, answering, hsent⟩

theorem phase_readId {s t : System} {p : Pid} (h : Phase s) (hp : p ∈ s.procs)
    (ht : ClientTrans s p (s.proc p) .readId t) : Phase t := by
  have hins := ht.insiders hp
  cases ht with
  | @readNull i q rest pc proxy answers =>
    obtain ⟨held, m, settled, answering, hsent⟩ := h.reads hp pc (by simp [answers])
    rw [answers] at hsent
    exact phase_receive held settled answering hins rfl [.id 0]
      (.null rfl (Function.update_self _ _ _)) hsent
  | @readId i q a rest pc proxy answers nonnull =>
    obtain ⟨held, m, settled, answering, hsent⟩ := h.reads hp pc (by simp [answers])
    rw [answers] at hsent
    exact phase_receive held settled answering hins rfl [.id a]
      (.id (q := { q with id := a, origin := some (s.proc p).ticket }) rfl
        (Function.update_self _ _ _)) hsent

theorem phase_recvFd {s t : System} {p : Pid} (h : Phase s) (hp : p ∈ s.procs)
    (ht : ClientTrans s p (s.proc p) .recvFd t) : Phase t := by
  have hins := ht.insiders hp
  cases ht with
  | @recvPty i q e rest pc proxy answers =>
    obtain ⟨held, hin⟩ := h.of_mem (mem_insiders_of_pc hp pc rfl)
    obtain ⟨m, settled, answering⟩ := hin.of_recv (Or.inl pc)
    obtain ⟨received, hrec, hsent⟩ := answering.answers
    rw [hrec.of_recvPty pc proxy, answers] at hsent
    exact phase_receive held settled answering hins rfl [.id q.id, .fd e]
      (.pty (q := { q with pty := some e }) rfl (Function.update_self _ _ _) rfl) hsent
  | @recvTty i q f rest pc proxy answers =>
    obtain ⟨held, hin⟩ := h.of_mem (mem_insiders_of_pc hp pc rfl)
    obtain ⟨m, settled, answering⟩ := hin.of_recv (Or.inr pc)
    obtain ⟨received, hrec, hsent⟩ := answering.answers
    obtain ⟨e, hpty, hreceived⟩ := hrec.of_recvTty pc proxy
    rw [hreceived, answers] at hsent
    exact phase_receive held settled answering hins rfl [.id q.id, .fd e, .fd f]
      (.tty (q := { q with tty := some f }) rfl (Function.update_self _ _ _) hpty rfl) hsent

/-- `get` throws. -/
theorem phase_throw {s : System} {p : Pid} (h : Phase s) (hp : p ∈ s.insiders) {i : ℕ} {q : Proxy}
    {taken : ℕ} (hins : (s.throw p (s.proc p) i q taken).insiders = s.insiders.erase p)
    (hcall : (∃ r, Pending s r ∧ r.cmd.type = .get) ∨ ∃ m, Settled s ∧ Answering s p m) :
    Phase (s.throw p (s.proc p) i q taken) := by
  obtain ⟨held, -⟩ := h.of_mem hp
  have hgone : Gone (s.throw p (s.proc p) i q taken) := by
    refine ⟨?_, held.clientBytes, held.serverBytes⟩
    rw [hins, held.insiders, Finset.erase_singleton]
  rcases hcall with ⟨r, pending, type⟩ | ⟨m, settled, answering⟩
  · refine .outside (.lostCall hgone ⟨pending.place, ?_, pending.ticket, pending.takes,
      pending.sender⟩ type)
    show s.answers.drop taken = []
    rw [pending.answers, List.drop_nil]
  · obtain ⟨received, -, hsent⟩ := answering.answers
    exact .outside (.lost hgone hsent.serving ⟨settled.requests, settled.takes⟩)

theorem phase_give {s t : System} {p : Pid} (h : Phase s) (hp : p ∈ s.procs)
    (ht : ClientTrans s p (s.proc p) .give t) : Phase t := by
  have hins := ht.insiders hp
  cases ht with
  | @give ret pc =>
    obtain ⟨held, hin⟩ := h.of_mem (mem_insiders_of_pc hp pc rfl)
    have hgiven : Given { s.set p { s.proc p with pc := .idle } with
        serverBytes := s.serverBytes + 1
        exits := s.exits ++ [⟨p, (s.proc p).took, 1⟩]
        returned := s.returned ++ (s.proc p).result p ret } := by
      refine ⟨hins.trans ?_, held.clientBytes, ?_⟩
      · show s.insiders.erase p = ∅
        rw [held.insiders, Finset.erase_singleton]
      · show s.serverBytes + 1 = 1
        rw [held.serverBytes]
    refine .outside ?_
    cases hin with
    | sent at_ pending type =>
      exact .sent hgiven ⟨pending.place, pending.answers, pending.ticket, pending.takes,
        pending.sender⟩ type
    | handled at_ hpc settled answers =>
      exact .done hgiven hpc ⟨settled.requests, settled.takes⟩ answers
    | answered settled answering =>
      cases ret with
      | none =>
        obtain ⟨received, hrec, -⟩ := answering.answers
        exact (hrec.not_none pc).elim
      | some ret =>
        obtain ⟨hneed, hrest, -⟩ := answering.complete pc
        exact .done hgiven hneed ⟨settled.requests, settled.takes⟩ hrest
    | taken at_ | asked at_ => rw [pc] at at_; cases at_

theorem phase_client {s t : System} {p : Pid} {a : ClientAct} (h : Phase s) (hp : p ∈ s.procs)
    (ht : ClientTrans s p (s.proc p) a t) (hu : (Action.client p a).Uninterrupted) : Phase t := by
  have hins := ht.insiders hp
  have outside : ∀ {pc}, (s.proc p).pc = pc → pc.inside = false →
      (s.proc p).pc.inside = false := fun hpc hin => by rw [hpc, hin]
  have whole := ht
  cases ht with
  | create pc free => exact h.away hins (update_of_insider (outside pc rfl))
  | @fork q pc unused =>
    refine h.away hins fun p' hp' => Function.update_of_ne ?_ _ _
    rintro rfl
    exact unused (mem_insiders.mp hp').1
  | skip pc proxy skips => exact h.away hins (update_of_insider (outside pc rfl))
  | call pc proxy skips => exact h.away hins (update_of_insider (outside pc rfl))
  | interrupted | take => exact phase_take h hp whole hu
  | write => exact phase_write h hp whole
  | readNull | readId => exact phase_readId h hp whole
  | recvPty | recvTty => exact phase_recvFd h hp whole
  | give => exact phase_give h hp whole
  | failId pc proxy =>
    have hmem := mem_insiders_of_pc hp pc rfl
    refine phase_throw h hmem hins (((h.of_mem hmem).2.of_readId pc).imp_left ?_)
    rintro ⟨r, pending, type, -⟩
    exact ⟨r, pending, type⟩
  | failPty pc proxy =>
    have hmem := mem_insiders_of_pc hp pc rfl
    exact phase_throw h hmem hins (Or.inr ((h.of_mem hmem).2.of_recv (Or.inl pc)))
  | failTty pc proxy =>
    have hmem := mem_insiders_of_pc hp pc rfl
    exact phase_throw h hmem hins (Or.inr ((h.of_mem hmem).2.of_recv (Or.inr pc)))

/-! ## A step of the helper -/

theorem Phase.of_giveToken {s : System} (h : Phase s) (hpc : s.pc = .giveToken) :
    Gone s ∧ Settled s ∧ s.answers = [] := by
  have hpend : ∀ {r}, ¬ Pending s r := by
    intro r hp
    rcases hp.place with ⟨hp, -⟩ | ⟨hp, -⟩ <;> rw [hpc] at hp <;> cases hp
  cases h with
  | outside h =>
    cases h with
    | giving gone pc settled answers => exact ⟨gone, settled, answers⟩
    | offered free one zero pc | done given pc => rw [hpc] at pc; cases pc
    | sent given pending | lostCall gone pending => exact absurd pending hpend
    | lost gone pc => rw [hpc] at pc; exact pc.elim
  | inside held h =>
    cases h with
    | taken at_ pc | handled at_ pc => rw [hpc] at pc; cases pc
    | sent at_ pending | asked at_ pending => exact absurd pending hpend
    | answered settled answering =>
      obtain ⟨received, -, hsent⟩ := answering.answers
      have := hsent.serving
      rw [hpc] at this
      exact this.elim

/-- A call whose command has been written, and where its token is. -/
theorem Phase.of_pending {s : System} (h : Phase s)
    (hpc : (∃ r, s.pc = .handle r) ∨ s.requests ≠ []) : ∃ r, Pending s r ∧
      ((r.cmd.type = .get ∧ (Gone s ∨ ∃ p i, Held s p ∧ (s.proc p).pc = .readId i ∧
          r.ticket = (s.proc p).ticket)) ∨
        ((r.cmd.type = .login ∨ r.cmd.type = .destroy) ∧
          (Given s ∨ ∃ p, Held s p ∧ (s.proc p).pc = .giveToken none))) := by
  have busy : ∀ {pc}, s.pc = pc → (∀ r, pc ≠ .handle r) → s.requests = [] → False := by
    rintro pc rfl hne hreq
    rcases hpc with ⟨r, hr⟩ | hr
    · exact hne r hr
    · exact hr hreq
  have serving : s.pc.Serving → s.requests = [] → False := by
    intro hs
    refine busy rfl ?_
    rintro r hr
    rw [hr] at hs
    exact hs
  cases h with
  | outside h =>
    cases h with
    | sent given pending type => exact ⟨_, pending, Or.inr ⟨type, Or.inl given⟩⟩
    | lostCall gone pending type => exact ⟨_, pending, Or.inl ⟨type, Or.inl gone⟩⟩
    | giving gone pc settled => exact (busy pc (by rintro r ⟨⟩) settled.requests).elim
    | offered free one zero pc settled => exact (busy pc (by rintro r ⟨⟩) settled.requests).elim
    | done given pc settled => exact (busy pc (by rintro r ⟨⟩) settled.requests).elim
    | lost gone pc settled => exact (serving pc settled.requests).elim
  | @inside p held h =>
    cases h with
    | sent at_ pending type => exact ⟨_, pending, Or.inr ⟨type, Or.inr ⟨p, held, at_⟩⟩⟩
    | asked at_ pending type ticket =>
      exact ⟨_, pending, Or.inl ⟨type, Or.inr ⟨p, _, held, at_, ticket⟩⟩⟩
    | taken at_ pc requests => exact (busy pc (by rintro r ⟨⟩) requests).elim
    | handled at_ pc settled => exact (busy pc (by rintro r ⟨⟩) settled.requests).elim
    | answered settled answering =>
      obtain ⟨received, -, hsent⟩ := answering.answers
      exact (serving hsent.serving settled.requests).elim

theorem Pending.eq_of_handle {s : System} {r r' : Request} (h : Pending s r)
    (hpc : s.pc = .handle r') : r = r' := by
  rcases h.place with ⟨hp, -⟩ | ⟨hp, -⟩
  · rw [hpc] at hp; cases hp
  · rw [hpc] at hp; cases hp; rfl

/-- The helper is behind the handling of a command, and has not come to `NEED_TOKEN` yet. -/
theorem Phase.of_serving {s : System} (h : Phase s) (hpc : s.pc.Serving)
    (hne : s.pc ≠ .needToken) :
    Settled s ∧ (Gone s ∨ ∃ p m, Held s p ∧ Answering s p m) := by
  have hpend : ∀ {r}, ¬ Pending s r := by
    intro r hp
    rcases hp.place with ⟨hp, -⟩ | ⟨hp, -⟩ <;> rw [hp] at hpc <;> exact hpc
  cases h with
  | outside h =>
    cases h with
    | lost gone pc settled => exact ⟨settled, Or.inl gone⟩
    | giving gone pc | offered free one zero pc => rw [pc] at hpc; exact hpc.elim
    | done given pc => exact absurd pc hne
    | sent given pending | lostCall gone pending => exact absurd pending hpend
  | @inside p held h =>
    cases h with
    | answered settled answering => exact ⟨settled, Or.inr ⟨p, _, held, answering⟩⟩
    | taken at_ pc => rw [pc] at hpc; exact hpc.elim
    | handled at_ pc => exact absurd pc hne
    | sent at_ pending | asked at_ pending => exact absurd pending hpend

theorem Phase.of_needToken {s : System} (h : Phase s) (hpc : s.pc = .needToken)
    (hb : s.serverBytes ≠ 0) : Given s ∧ Settled s ∧ s.answers = [] := by
  cases h with
  | outside h =>
    cases h with
    | done given pc settled answers => exact ⟨given, settled, answers⟩
    | offered free one zero => exact absurd zero hb
    | giving gone | lostCall gone | lost gone => exact absurd gone.serverBytes hb
    | sent given pending =>
      rcases pending.place with ⟨hp, -⟩ | ⟨hp, -⟩ <;> rw [hpc] at hp <;> cases hp
  | inside held h => exact absurd held.serverBytes hb

/-! ### Sending -/

section Sending

variable {pc : HelperPc} {heap : Heap Object} {m : Made} {out : List Answer} {a : Addr}
  {c : Cell Object}

theorem Sent.writeNull (h : Sent pc heap m out) (hpc : pc = .writeId 0) (hm : m.addr ≠ 0) :
    Sent .needToken heap m (out ++ [.id 0]) := by
  cases h with
  | failed ok => exact .null ok rfl
  | got ok at_ =>
    rw [hpc] at at_
    exact absurd (HelperPc.writeId.inj at_).symm hm
  | null ok at_ | id ok at_ | pty ok at_ | tty ok at_ => rw [hpc] at at_; cases at_

theorem Sent.writeId (h : Sent pc heap m out) (hpc : pc = .writeId a) (ha : a ≠ 0) :
    Sent (.sendPty a) heap m (out ++ [.id a]) := by
  cases h with
  | failed ok at_ =>
    rw [hpc] at at_
    exact absurd (HelperPc.writeId.inj at_) ha
  | got ok at_ obj =>
    rw [hpc] at at_
    obtain rfl := HelperPc.writeId.inj at_
    exact .id ok rfl obj
  | null ok at_ | id ok at_ | pty ok at_ | tty ok at_ => rw [hpc] at at_; cases at_

theorem fdMessage_sublist (ok : Bool) (e : Endpoint) :
    (System.fdMessage ok (some e)).Sublist [.fd e] := by
  cases ok
  · exact List.nil_sublist _
  · exact List.Sublist.refl _

theorem Sent.sendPty (h : Sent pc heap m out) (hpc : pc = .sendPty a)
    (hc : heap.cells a = some c) (ok : Bool) :
    Sent (.sendTty a) heap m (out ++ System.fdMessage ok c.obj.pty) := by
  cases h with
  | id hok at_ obj =>
    rw [hpc] at at_
    obtain rfl := HelperPc.sendPty.inj at_
    rw [(obj c hc).1]
    exact .pty hok rfl obj (fdMessage_sublist ok _)
  | failed hok at_ | null hok at_ | got hok at_ | pty hok at_ | tty hok at_ =>
    rw [hpc] at at_; cases at_

theorem Sent.sendTty (h : Sent pc heap m out) (hpc : pc = .sendTty a)
    (hc : heap.cells a = some c) (ok : Bool) (heap' : Heap Object) :
    Sent .needToken heap' m (out ++ System.fdMessage ok c.obj.tty) := by
  cases h with
  | pty hok at_ obj sub =>
    rw [hpc] at at_
    obtain rfl := HelperPc.sendTty.inj at_
    rw [(obj c hc).2]
    exact .tty hok rfl (sub.append (fdMessage_sublist ok _))
  | failed hok at_ | null hok at_ | got hok at_ | id hok at_ | tty hok at_ =>
    rw [hpc] at at_; cases at_

end Sending

/-- The helper sends another answer. -/
theorem Phase.send {s : System} (h : Phase s) {answers : List Answer} {ptys : List Addr}
    {heap : Heap Object} {pc : HelperPc} (hpc : s.pc.Serving) (hne : s.pc ≠ .needToken)
    (hserv : pc.Serving)
    (hcell : ∀ b c, s.heap.cells b = some c → ∃ d, heap.cells b = some d ∧ d.serial = c.serial)
    (hans : ∀ m received, m.addr ≠ 0 → Sent s.pc s.heap m (received ++ s.answers) →
      Sent pc heap m (received ++ answers)) :
    Phase { s with answers := answers, ptys := ptys, heap := heap, pc := pc } := by
  obtain ⟨settled, gone | ⟨p, m, held, answering⟩⟩ := h.of_serving hpc hne
  · exact .outside (.lost ⟨gone.insiders, gone.clientBytes, gone.serverBytes⟩ hserv
      ⟨settled.requests, settled.takes⟩)
  · obtain ⟨mem, ticket, nonnull, cell, received, hrec, hsent⟩ := answering
    refine .inside (p := p) ⟨held.insiders, held.clientBytes, held.serverBytes⟩
      (.answered (m := m) ⟨settled.requests, settled.takes⟩
        ⟨mem, ticket, nonnull, fun hok => ?_, received, hrec, hans m received nonnull hsent⟩)
    obtain ⟨c, hcell', hserial⟩ := cell hok
    obtain ⟨d, hd, hd'⟩ := hcell _ c hcell'
    exact ⟨d, hd, hd'.trans hserial⟩

/-- A command that has been handled is no longer pending. -/
theorem Pending.settled {s t : System} {r : Request} (h : Pending s r) (hpc : s.pc = .handle r)
    (hreq : t.requests = s.requests) (htakes : t.takes = s.takes)
    (hhandled : t.handled = s.handled ++ [r]) : Settled t := by
  constructor
  · rcases h.place with ⟨hp, -⟩ | ⟨-, hreq'⟩
    · rw [hpc] at hp; cases hp
    · rw [hreq, hreq']
  · rw [htakes, hhandled, h.takes, List.length_append, List.length_singleton]

/-- The helper has handled a `get`. -/
theorem Phase.get {s : System} {r : Request} {m : Made} (h : Phase s) {heap : Heap Object}
    {pc : HelperPc} (hpc : s.pc = .handle r) (htype : r.cmd.type = .get) (hserv : pc.Serving)
    (hticket : m.ticket = r.ticket) (hm : m.addr ≠ 0)
    (hcell : m.ok = true → ∃ c, heap.cells m.addr = some c ∧ c.serial = m.serial)
    (hsent : Sent pc heap m []) :
    Phase { s with
      made := s.made ++ [m], handled := s.handled ++ [r], heap := heap, pc := pc } := by
  obtain ⟨r', pending, hholder⟩ := h.of_pending (Or.inl ⟨r, hpc⟩)
  obtain rfl := pending.eq_of_handle hpc
  have hset : Settled { s with
      made := s.made ++ [m], handled := s.handled ++ [r'], heap := heap, pc := pc } :=
    pending.settled hpc rfl rfl rfl
  rcases hholder with ⟨-, gone | ⟨p, i, held, at_, ticket⟩⟩ | ⟨htype', -⟩
  · exact .outside (.lost ⟨gone.insiders, gone.clientBytes, gone.serverBytes⟩ hserv hset)
  · refine .inside (p := p) ⟨held.insiders, held.clientBytes, held.serverBytes⟩
      (.answered (m := m) hset ⟨?_, hticket.trans ticket, hm, hcell, [], .nothing at_, ?_⟩)
    · exact List.mem_append_right _ (List.mem_singleton_self m)
    · show Sent pc heap m s.answers
      rw [pending.answers]
      exact hsent
  · rw [htype] at htype'
    rcases htype' with htype' | htype' <;> cases htype'

/-- The helper has handled a `login` or `destroy`. -/
theorem Phase.command {s : System} {r : Request} (h : Phase s) {ptys : List Addr}
    {heap : Heap Object} {effects : List Effect} (hpc : s.pc = .handle r)
    (htype : r.cmd.type = .login ∨ r.cmd.type = .destroy) :
    Phase { s with
      handled := s.handled ++ [r], pc := .needToken
      ptys := ptys, heap := heap, effects := effects } := by
  obtain ⟨r', pending, hholder⟩ := h.of_pending (Or.inl ⟨r, hpc⟩)
  obtain rfl := pending.eq_of_handle hpc
  have hset : Settled { s with
      handled := s.handled ++ [r'], pc := .needToken
      ptys := ptys, heap := heap, effects := effects } := pending.settled hpc rfl rfl rfl
  rcases hholder with ⟨htype', -⟩ | ⟨-, given | ⟨p, held, at_⟩⟩
  · rw [htype'] at htype
    rcases htype with htype | htype <;> cases htype
  · exact .outside (.done ⟨given.insiders, given.clientBytes, given.serverBytes⟩ rfl hset
      pending.answers)
  · exact .inside (p := p) ⟨held.insiders, held.clientBytes, held.serverBytes⟩
      (.handled at_ rfl hset pending.answers)

theorem phase_helper {s t : System} {a : HelperAct} (h : Phase s) (ht : HelperTrans s a t)
    (hu : (Action.helper a).Uninterrupted) : Phase t := by
  cases ht with
  | give pc =>
    obtain ⟨gone, settled, answers⟩ := h.of_giveToken pc
    refine .outside (.offered gone.insiders ?_ gone.serverBytes rfl
      ⟨settled.requests, settled.takes⟩ answers)
    show s.clientBytes + 1 = 1
    rw [gone.clientBytes]
  | @read r rest pc requests =>
    obtain ⟨r', pending, hholder⟩ := h.of_pending (Or.inr (by rw [requests]; simp))
    have hreq : s.requests = [r'] := by
      rcases pending.place with ⟨-, hreq⟩ | ⟨hp, -⟩
      · exact hreq
      · rw [pc] at hp; cases hp
    rw [requests] at hreq
    obtain ⟨rfl, rfl⟩ := List.cons.inj hreq
    have hpend : Pending { s with pc := .handle r, requests := [] } r :=
      ⟨Or.inr ⟨rfl, rfl⟩, pending.answers, pending.ticket, pending.takes, pending.sender⟩
    rcases hholder with ⟨type, gone | ⟨p, i, held, at_, ticket⟩⟩ | ⟨type, given | ⟨p, held, at_⟩⟩
    · exact .outside (.lostCall ⟨gone.insiders, gone.clientBytes, gone.serverBytes⟩ hpend type)
    · exact .inside (p := p) ⟨held.insiders, held.clientBytes, held.serverBytes⟩
        (.asked at_ hpend type ticket)
    · exact .outside (.sent ⟨given.insiders, given.clientBytes, given.serverBytes⟩ hpend type)
    · exact .inside (p := p) ⟨held.insiders, held.clientBytes, held.serverBytes⟩
        (.sent at_ hpend type)
  | @got r a pc type nonnull free =>
    let obj : Object := ⟨some (.master s.heap.created), some (.slave s.heap.created)⟩
    have hcell : (s.heap.alloc a obj).cells a = some ⟨s.heap.created, obj⟩ := by
      rw [Heap.cells_alloc, if_pos rfl]
    refine h.get (m := ⟨r.ticket, s.heap.created, a, true⟩) pc type trivial rfl nonnull
      (fun _ => ⟨_, hcell, rfl⟩) (.got rfl rfl fun c hc => ?_)
    obtain rfl := Option.some.inj (hcell.symm.trans hc)
    exact ⟨rfl, rfl⟩
  | @notGot r a pc type nonnull free =>
    exact h.get (m := ⟨r.ticket, s.heap.created, a, false⟩) pc type trivial rfl nonnull
      (fun hok => by cases hok) (.failed rfl rfl)
  | login pc type listed => exact h.command pc (Or.inl type)
  | destroy pc type listed => exact h.command pc (Or.inr type)
  | ignore pc type listed => exact h.command pc type
  | writeNull pc =>
    refine h.send (by rw [pc]; trivial) (by rw [pc]; rintro ⟨⟩) trivial
      (fun b c hc => ⟨c, hc, rfl⟩) fun m received hm hsent => ?_
    rw [← List.append_assoc]
    exact hsent.writeNull pc hm
  | writeId pc nonnull =>
    refine h.send (by rw [pc]; trivial) (by rw [pc]; rintro ⟨⟩) trivial
      (fun b c hc => ⟨c, hc, rfl⟩) fun m received hm hsent => ?_
    rw [← List.append_assoc]
    exact hsent.writeId pc nonnull
  | sendPty pc cell =>
    refine h.send (by rw [pc]; trivial) (by rw [pc]; rintro ⟨⟩) trivial
      (fun b c hc => ⟨c, hc, rfl⟩) fun m received hm hsent => ?_
    rw [← List.append_assoc]
    exact hsent.sendPty pc cell _
  | @sendTty a c ok pc cell =>
    refine h.send (by rw [pc]; trivial) (by rw [pc]; rintro ⟨⟩) trivial
      (fun b d hd => ?_) fun m received hm hsent => ?_
    · rw [Heap.cells_modify, hd]
      split_ifs
      · exact ⟨_, rfl, rfl⟩
      · exact ⟨d, rfl, rfl⟩
    · rw [← List.append_assoc]
      exact hsent.sendTty pc cell _ _
  | interrupted pc => cases hu
  | need pc byte =>
    obtain ⟨given, settled, answers⟩ := h.of_needToken pc byte
    refine .outside (.giving ⟨given.insiders, given.clientBytes, ?_⟩ rfl
      ⟨settled.requests, settled.takes⟩ answers)
    show s.serverBytes - 1 = 0
    rw [given.serverBytes]

/-- Without interruptions one of the situations is always the case. -/
theorem phase_step {s t : System} {a : Action} (h : Phase s) (hu : a.Uninterrupted)
    (ht : step s a = some t) : Phase t := by
  cases trans_of_step ht with
  | client mem trans => exact phase_client h mem trans hu
  | helper trans => exact phase_helper h trans hu

end Libptytty.Shared
