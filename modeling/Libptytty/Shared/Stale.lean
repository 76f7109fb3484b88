import Libptytty.Shared.Agreement
import Libptytty.Shared.Flow
import Libptytty.Shared.Token

/-!
# Stale ids

The copies of a proxy that `fork` makes hold the same id, and `serve` knows an object by its
address only. As long as `operator new` does not hand out an address that some copy still holds, a
command acts on the object of its own proxy, and on none once that has been deleted
(`own_object`).
-/

namespace Libptytty.Shared

open Memory Machine

/-- Commands act on the object made for the `get` of their proxy, until it has been deleted. -/
structure OwnObject (s : System) : Prop where
  origin : ∀ e ∈ s.effects, ∃ m ∈ s.made, some m.ticket = e.via ∧ m.ok = true ∧ m.serial = e.serial
  deleted : s.effects.Pairwise fun e e' => e.deletes = true → e'.via ≠ e.via

/-- Some process has the proxy. -/
def System.HasProxy (s : System) (q : Proxy) : Prop :=
  ∃ p ∈ s.procs, ∃ i, (s.proc p).objs i = some q

/-- An object that is going to be registered gets an address that no proxy holds. -/
def Action.Fresh (s : System) : Action → Prop
  | .helper (.handle a true) =>
    ∀ r, s.pc = .handle r → r.cmd.type = .get → ∀ q, s.HasProxy q → q.id ≠ a
  | _ => True

/-! ## Owners of ids -/

/-- The object at `a`, if there is one, was made for the call `via`. -/
def Owner (s : System) (a : Addr) (via : Option ℕ) : Prop :=
  ∃ m ∈ s.made, some m.ticket = via ∧ m.ok = true ∧ ∀ n ∈ s.heap.serialAt a, n = m.serial

theorem Owner.mono {s t : System} {a : Addr} {via : Option ℕ} (h : Owner s a via)
    (hmade : ∀ m ∈ s.made, m ∈ t.made)
    (hheap : ∀ n ∈ t.heap.serialAt a, n ∈ s.heap.serialAt a) : Owner t a via := by
  obtain ⟨m, hm, hticket, hok, hserial⟩ := h
  exact ⟨m, hmade m hm, hticket, hok, fun n hn => hserial n (hheap n hn)⟩

/-- The ids that proxies and commands carry are those of their own objects. Once the token has been
lost, no proxy is used any more. -/
structure Owned (s : System) : Prop where
  null : 0 ∉ s.ptys
  proxies : s.tokens ≠ 0 → ∀ q, s.HasProxy q → q.id ≠ 0 → Owner s q.id q.origin
  requests : ∀ r, s.HasRequest r → r.cmd.type = .login ∨ r.cmd.type = .destroy → r.cmd.id ≠ 0 →
    Owner s r.cmd.id r.via
  effects : ∀ e ∈ s.effects, ∃ m ∈ s.made, some m.ticket = e.via ∧ m.ok = true ∧
    m.serial = e.serial
  dead : ∀ e ∈ s.effects, e.deletes = true → ∀ a, s.heap.serialAt a ≠ some e.serial
  created : ∀ e ∈ s.effects, e.serial < s.heap.created
  deleted : s.effects.Pairwise fun e e' => e.deletes = true → e'.serial ≠ e.serial

theorem owned_initial : Owned initial := by
  refine ⟨by rintro ⟨⟩, fun _ q hq => ?_, fun r hr => ?_, by rintro e ⟨⟩, by rintro e ⟨⟩,
    by rintro e ⟨⟩, List.Pairwise.nil⟩
  · obtain ⟨p, -, i, hi⟩ := hq
    cases hi
  · rcases hr with hr | hr <;> cases hr

/-! ## The proxies after a step -/

theorem hasProxy_update {s t : System} {p : Pid} {x : Process} (hprocs : t.procs = s.procs)
    (hproc : t.proc = Function.update s.proc p x) {q : Proxy} (h : t.HasProxy q) :
    s.HasProxy q ∨ ∃ i, x.objs i = some q := by
  obtain ⟨p', hp', i, hi⟩ := h
  rw [hprocs] at hp'
  rw [hproc] at hi
  by_cases hpp : p' = p
  · subst hpp
    rw [Function.update_self] at hi
    exact Or.inr ⟨i, hi⟩
  · rw [Function.update_of_ne hpp] at hi
    exact Or.inl ⟨p', hp', i, hi⟩

theorem objs_put {x : Process} {i j : ℕ} {v : Option Proxy} {q : Proxy}
    (h : (x.put i v).objs j = some q) : v = some q ∨ x.objs j = some q := by
  have h' : Function.update x.objs i v j = some q := h
  by_cases hj : j = i
  · subst hj
    rw [Function.update_self] at h'
    exact Or.inl h'
  · rw [Function.update_of_ne hj] at h'
    exact Or.inr h'

/-- Where the id of a proxy comes from, after a step of `p` in `s`. -/
inductive Source (s : System) (p : Pid) (q : Proxy) : Prop
  | null (id : q.id = 0)
  | old {q'} (proxy : s.HasProxy q') (id : q'.id = q.id) (origin : q'.origin = q.origin)
  | read {i rest} (pc : (s.proc p).pc = .readId i) (answers : s.answers = .id q.id :: rest)
    (origin : q.origin = some (s.proc p).ticket)

theorem ClientTrans.source {s t : System} {p : Pid} {a : ClientAct} (hp : p ∈ s.procs)
    (h : ClientTrans s p (s.proc p) a t) (hn : (Action.client p a).NoThrow) {q : Proxy}
    (hq : t.HasProxy q) : Source s p q := by
  have own : ∀ {i q'}, (s.proc p).objs i = some q' → s.HasProxy q' := fun hi => ⟨p, hp, _, hi⟩
  have same : ∀ {i}, (s.proc p).objs i = some q → Source s p q := fun hi => .old (own hi) rfl rfl
  have update : ∀ {x : Process}, t.procs = s.procs → t.proc = Function.update s.proc p x →
      (∀ i, x.objs i = some q → Source s p q) → Source s p q := by
    intro x hprocs hproc hx
    rcases hasProxy_update hprocs hproc hq with hq | ⟨i, hi⟩
    · exact .old hq rfl rfl
    · exact hx i hi
  have put : ∀ {x : Process} {i v}, t.procs = s.procs → t.proc = Function.update s.proc p x →
      x.objs = ((s.proc p).put i v).objs → (v = some q → Source s p q) → Source s p q := by
    intro x i v hprocs hproc hx hv
    refine update hprocs hproc fun j hj => ?_
    rw [hx] at hj
    exact (objs_put hj).elim hv same
  cases h with
  | create pc free => exact put rfl rfl rfl fun hv => .null (by cases hv; rfl)
  | @fork p' pc unused =>
    obtain ⟨p₁, hp₁, i, hi⟩ := hq
    dsimp only at hp₁ hi
    by_cases hpp : p₁ = p'
    · subst hpp
      rw [Function.update_self] at hi
      exact same hi
    · rw [Function.update_of_ne hpp] at hi
      exact .old ⟨p₁, Finset.mem_of_mem_insert_of_ne hp₁ hpp, i, hi⟩ rfl rfl
  | skip pc proxy skips => exact put rfl rfl rfl fun hv => by cases hv
  | @write c q' junk pc proxy =>
    cases c with
    | get i => exact update rfl rfl fun j hj => same hj
    | login i pid shell hostname => exact update rfl rfl fun j hj => same hj
    | destroy i => exact put rfl rfl rfl fun hv => by cases hv
  | readNull pc proxy answers => exact put rfl rfl rfl fun hv => .null (by cases hv; rfl)
  | readId pc proxy answers nonnull =>
    refine put rfl rfl rfl fun hv => ?_
    cases hv
    exact .read pc answers rfl
  | recvPty pc proxy answers =>
    refine put rfl rfl rfl fun hv => ?_
    cases hv
    exact .old (own proxy) rfl rfl
  | recvTty pc proxy answers =>
    refine put rfl rfl rfl fun hv => ?_
    cases hv
    exact .old (own proxy) rfl rfl
  | call | interrupted | take | give => exact update rfl rfl fun j hj => same hj
  | failId | failPty | failTty => exact hn.elim

/-! ## Steps -/

/-- An id that has been sent is the address of the object made for the call. -/
theorem Sent.of_id {pc : HelperPc} {heap : Heap Object} {m : Made} {a : Addr} {rest : List Answer}
    (h : Sent pc heap m (.id a :: rest)) (ha : a ≠ 0) : m.ok = true ∧ m.addr = a := by
  generalize hout : Answer.id a :: rest = out at h
  cases h with
  | failed | got => cases hout
  | null =>
    obtain ⟨hid, -⟩ := List.cons.inj hout
    exact absurd (Answer.id.inj hid) ha
  | id ok | pty ok | tty ok =>
    obtain ⟨hid, -⟩ := List.cons.inj hout
    exact ⟨ok, (Answer.id.inj hid).symm⟩

/-- A process reads an id. -/
theorem owner_of_read {s : System} {p : Pid} {q : Proxy} {i : ℕ} {rest : List Answer}
    (hphase : Phase s) (hp : p ∈ s.procs) (pc : (s.proc p).pc = .readId i)
    (answers : s.answers = .id q.id :: rest) (origin : q.origin = some (s.proc p).ticket)
    (hne : q.id ≠ 0) : Owner s q.id q.origin := by
  obtain ⟨-, hin⟩ := hphase.of_mem (mem_insiders_of_pc hp pc rfl)
  rcases hin.of_readId pc with ⟨r, pending, -⟩ | ⟨m, -, answering⟩
  · rw [pending.answers] at answers; cases answers
  · obtain ⟨received, hrec, hsent⟩ := answering.answers
    rw [hrec.of_readId pc, List.nil_append, answers] at hsent
    obtain ⟨hok, haddr⟩ := hsent.of_id hne
    obtain ⟨c, hc, hserial⟩ := answering.cell hok
    refine ⟨m, answering.mem, by rw [origin, answering.ticket], hok, fun n hn => ?_⟩
    obtain ⟨d, hd, rfl⟩ := Option.map_eq_some_iff.mp hn
    rw [← haddr, hc] at hd
    cases hd
    exact hserial

/-- A command is written by the owner of its id. -/
theorem owner_of_write {s : System} {p : Pid} {c : Call} {q : Proxy} {junk : Command}
    (h : Owned s) (htokens : s.tokens ≠ 0) (hp : p ∈ s.procs)
    (proxy : (s.proc p).objs c.index = some q) (hne : (c.command q junk).id ≠ 0)
    (htype : (c.command q junk).type = .login ∨ (c.command q junk).type = .destroy) :
    Owner s (c.command q junk).id q.origin := by
  have hq : s.HasProxy q := ⟨p, hp, _, proxy⟩
  cases c with
  | get i => rcases htype with htype | htype <;> cases htype
  | login i pid shell hostname => exact h.proxies htokens q hq hne
  | destroy i => exact h.proxies htokens q hq hne

theorem tokens_of_insider {s : System} {p : Pid} (hp : p ∈ s.insiders) : s.tokens ≠ 0 := by
  have := Finset.card_pos.mpr ⟨p, hp⟩
  rw [System.tokens_eq]
  omega

theorem owned_client {s t : System} {p : Pid} {a : ClientAct} (hphase : Phase s) (h : Owned s)
    (hp : p ∈ s.procs) (ht : ClientTrans s p (s.proc p) a t)
    (htokens : t.tokens ≠ 0 → s.tokens ≠ 0 ∧ (Action.client p a).NoThrow) : Owned t := by
  obtain ⟨hptys, heffects, hmade, hheap, hpc⟩ : t.ptys = s.ptys ∧ t.effects = s.effects ∧
      t.made = s.made ∧ t.heap = s.heap ∧ t.pc = s.pc := by
    cases ht <;> exact ⟨rfl, rfl, rfl, rfl, rfl⟩
  have howner : ∀ {a via}, Owner s a via → Owner t a via := fun ho =>
    ho.mono (fun m hm => hmade ▸ hm) fun n hn => hheap ▸ hn
  refine ⟨hptys ▸ h.null, fun hne q hq hid => howner ?_, fun r hr htype hid => howner ?_,
    ?_, ?_, ?_, ?_⟩
  · obtain ⟨hne', hn⟩ := htokens hne
    cases ht.source hp hn hq with
    | null hid' => exact absurd hid' hid
    | old hq' hid' horigin =>
      rw [← hid', ← horigin]
      exact h.proxies hne' _ hq' (by rw [hid']; exact hid)
    | read pc answers origin => exact owner_of_read hphase hp pc answers origin hid
  · rcases hr with hr | hr
    · cases ht with
      | write pc proxy =>
        rcases List.mem_append.mp hr with hr | hr
        · exact h.requests r (Or.inl hr) htype hid
        · obtain rfl := List.mem_singleton.mp hr
          have hmem := mem_insiders_of_pc hp pc rfl
          exact owner_of_write h (tokens_of_insider hmem) hp proxy hid htype
      | create | fork | skip | call | interrupted | take | readNull | readId | failId | recvPty
      | recvTty | failPty | failTty | give => exact h.requests r (Or.inl hr) htype hid
    · exact h.requests r (Or.inr (hpc ▸ hr)) htype hid
  · rw [heffects, hmade]; exact h.effects
  · rw [heffects, hheap]; exact h.dead
  · rw [heffects, hheap]; exact h.created
  · rw [heffects]; exact h.deleted

/-- The helper does something that changes no object. -/
theorem Owned.quiet {s : System} (h : Owned s) {requests handled : List Request}
    {answers : List Answer} {clientBytes serverBytes : ℕ} {pc : HelperPc} {ptys : List Addr}
    {heap : Heap Object} {t : System}
    (ht : t = { s with
      requests := requests, handled := handled, answers := answers, clientBytes := clientBytes
      serverBytes := serverBytes, pc := pc, ptys := ptys, heap := heap })
    (htokens : t.tokens ≠ 0 → s.tokens ≠ 0) (hnull : 0 ∉ ptys)
    (hcreated : heap.created = s.heap.created)
    (hserials : ∀ a, heap.serialAt a = s.heap.serialAt a)
    (hreqs : ∀ r, r ∈ requests ∨ pc = .handle r → s.HasRequest r) : Owned t := by
  have howner : ∀ {a via}, Owner s a via → Owner t a via := by
    intro a via ho
    subst ht
    exact ho.mono (fun m hm => hm) fun n hn => hserials a ▸ hn
  subst ht
  exact ⟨hnull, fun hne q hq hid => howner (h.proxies (htokens hne) q hq hid),
    fun r hr htype hid => howner (h.requests r (hreqs r hr) htype hid), h.effects,
    fun e he hdel a => hserials a ▸ h.dead e he hdel a, fun e he => hcreated ▸ h.created e he,
    h.deleted⟩

/-- The helper makes an object, at an address that no proxy holds. -/
theorem Owned.make {s : System} (h : Owned s) {m : Made} {r : Request} {heap : Heap Object}
    {pc : HelperPc} {t : System}
    (ht : t = { s with
      made := s.made ++ [m], handled := s.handled ++ [r], heap := heap, pc := pc })
    (htokens : t.tokens ≠ 0 → s.tokens ≠ 0) (hreqs : s.requests = []) (hpc : ∀ r, pc ≠ .handle r)
    (hcreated : heap.created = s.heap.created + 1)
    (hserials : ∀ b, ∀ n ∈ heap.serialAt b, n = s.heap.created ∨ n ∈ s.heap.serialAt b)
    (hproxy : ∀ q, s.HasProxy q → ∀ n ∈ heap.serialAt q.id, n ∈ s.heap.serialAt q.id) :
    Owned t := by
  subst ht
  have hmade : ∀ m' ∈ s.made, m' ∈ s.made ++ [m] := fun m' => List.mem_append_left _
  refine ⟨h.null, fun hne q hq hid => ?_, fun r' hr' => ?_, fun e he => ?_,
    fun e he hdel a ha => ?_, fun e he => ?_, h.deleted⟩
  · exact (h.proxies (htokens hne) q hq hid).mono hmade (hproxy q hq)
  · rcases hr' with hr' | hr'
    · rw [show r' ∈ s.requests ↔ False by rw [hreqs]; simp] at hr'
      exact hr'.elim
    · exact absurd hr' (hpc r')
  · obtain ⟨m', hm', hrest⟩ := h.effects e he
    exact ⟨m', hmade m' hm', hrest⟩
  · rcases hserials a _ ha with hnew | hold
    · exact (h.created e he).ne hnew
    · exact h.dead e he hdel a hold
  · show e.serial < heap.created
    rw [hcreated]
    exact (h.created e he).trans (Nat.lt_succ_self _)

theorem mem_effect {s : System} {r : Request} {b : Bool} {e : Effect} (he : e ∈ s.effect r b) :
    e.via = r.via ∧ e.deletes = b ∧ s.heap.serialAt r.cmd.id = some e.serial := by
  obtain ⟨c, hc, rfl⟩ := List.mem_map.mp he
  refine ⟨rfl, rfl, ?_⟩
  unfold Heap.serialAt
  rw [Option.mem_toList.mp hc]
  rfl

/-- The helper uses the object of a command. -/
theorem Owned.affect {s : System} {r : Request} {b : Bool} (h : Owned s) {ptys : List Addr}
    {heap : Heap Object} {t : System}
    (ht : t = { s with
      handled := s.handled ++ [r], pc := .needToken
      ptys := ptys, heap := heap, effects := s.effects ++ s.effect r b })
    (htokens : t.tokens ≠ 0 → s.tokens ≠ 0) (hpc : s.pc = .handle r)
    (htype : r.cmd.type = .login ∨ r.cmd.type = .destroy) (hlisted : r.cmd.id ∈ s.ptys)
    (hnull : 0 ∉ ptys) (hcreated : heap.created = s.heap.created)
    (hserials : ∀ a, ∀ n ∈ heap.serialAt a, n ∈ s.heap.serialAt a ∧ (b = true → a ≠ r.cmd.id)) :
    Owned t := by
  have howner : ∀ {a via}, Owner s a via → Owner t a via := by
    intro a via ho
    subst ht
    exact ho.mono (fun m hm => hm) fun n hn => (hserials a n hn).1
  subst ht
  have hne : r.cmd.id ≠ 0 := fun h0 => h.null (h0 ▸ hlisted)
  obtain ⟨m, hm, hticket, hok, hcell⟩ := h.requests r (Or.inr hpc) htype hne
  refine ⟨hnull, fun hne q hq hid => howner (h.proxies (htokens hne) q hq hid),
    fun r' hr' htype' hid => ?_, fun e he => ?_, fun e he hdel a ha => ?_, fun e he => ?_, ?_⟩
  · exact howner (h.requests r' (Or.inl (hr'.resolve_right (by rintro ⟨⟩))) htype' hid)
  · rcases List.mem_append.mp he with he | he
    · exact h.effects e he
    · obtain ⟨hvia, -, hserial⟩ := mem_effect he
      exact ⟨m, hm, by rw [hticket, hvia], hok, (hcell _ hserial).symm⟩
  · obtain ⟨ha', hfreed⟩ := hserials a _ ha
    rcases List.mem_append.mp he with he | he
    · exact h.dead e he hdel a ha'
    · obtain ⟨-, hb, hserial⟩ := mem_effect he
      exact hfreed (hb ▸ hdel) (Heap.serialAt_inj ha' hserial)
  · show e.serial < heap.created
    rw [hcreated]
    rcases List.mem_append.mp he with he | he
    · exact h.created e he
    · exact Heap.serialAt_lt (mem_effect he).2.2
  · rw [List.pairwise_append]
    refine ⟨h.deleted, ?_, fun e he e' he' hdel heq => ?_⟩
    · unfold System.effect
      cases s.heap.cells r.cmd.id <;> simp
    · exact h.dead e he hdel _ (heq ▸ (mem_effect he').2.2)

theorem owned_helper {s t : System} {a : HelperAct} (hphase : Phase s) (h : Owned s)
    (ht : HelperTrans s a t) (hfresh : (Action.helper a).Fresh s)
    (htokens : t.tokens ≠ 0 → s.tokens ≠ 0) : Owned t := by
  have requests : ∀ {r}, s.pc = .handle r → s.requests = [] := by
    intro r hpc
    obtain ⟨r', pending, -⟩ := hphase.of_pending (Or.inl ⟨r, hpc⟩)
    rcases pending.place with ⟨hp, -⟩ | ⟨-, hreq⟩
    · rw [hpc] at hp; cases hp
    · exact hreq
  have queued : ∀ {pc : HelperPc}, (∀ r, pc ≠ .handle r) →
      ∀ r, r ∈ s.requests ∨ pc = .handle r → s.HasRequest r :=
    fun hpc r hr => Or.inl (hr.resolve_right (hpc r))
  cases ht with
  | @read r rest pc reqs =>
    refine h.quiet rfl htokens h.null rfl (fun _ => rfl) fun r' hr' => Or.inl ?_
    rw [reqs]
    rcases hr' with hr' | hr'
    · exact List.mem_cons_of_mem r hr'
    · cases hr'; exact List.mem_cons_self
  | @got r a pc type nonnull free =>
    refine h.make rfl htokens (requests pc) (by rintro r ⟨⟩) rfl (fun b n hn => ?_)
      fun q hq n hn => ?_
    · rw [Heap.serialAt_alloc] at hn
      split_ifs at hn with hb
      · exact Or.inl (Option.some.inj hn).symm
      · exact Or.inr hn
    · rwa [Heap.serialAt_alloc, if_neg (hfresh r pc type q hq)] at hn
  | @notGot r a pc type nonnull free =>
    have hsub : ∀ b, ∀ n ∈ ((s.heap.alloc a ⟨none, none⟩).free a).serialAt b,
        n ∈ s.heap.serialAt b := by
      intro b n hn
      rw [Heap.serialAt_free, Heap.serialAt_alloc] at hn
      split_ifs at hn with hb
      · cases hn
      · exact hn
    exact h.make rfl htokens (requests pc) (by rintro r ⟨⟩) rfl
      (fun b n hn => Or.inr (hsub b n hn)) fun q _ => hsub q.id
  | @login r a ok pc type listed =>
    exact h.affect rfl htokens pc (Or.inl type) listed h.null rfl fun a n hn =>
      ⟨hn, by rintro ⟨⟩⟩
  | @destroy r a ok pc type listed =>
    refine h.affect rfl htokens pc (Or.inr type) listed
      (fun h0 => h.null (List.mem_of_mem_erase h0)) rfl fun b n hn => ?_
    rw [Heap.serialAt_free] at hn
    split_ifs at hn with hb
    · cases hn
    · exact ⟨hn, fun _ => hb⟩
  | writeId pc nonnull =>
    refine h.quiet rfl htokens (fun h0 => ?_) rfl (fun _ => rfl) (queued (by rintro r ⟨⟩))
    rcases List.mem_append.mp h0 with h0 | h0
    · exact h.null h0
    · exact nonnull (List.mem_singleton.mp h0).symm
  | sendTty pc cell =>
    exact h.quiet rfl htokens h.null rfl (fun b => Heap.serialAt_modify _ _ _ b)
      (queued (by rintro r ⟨⟩))
  | give | ignore | writeNull | sendPty | interrupted | need =>
    exact h.quiet rfl htokens h.null rfl (fun _ => rfl) (queued (by rintro r ⟨⟩))

/-! ## Runs -/

theorem Owned.ownObject {s : System} (h : Owned s) (hagree : Agreement s) : OwnObject s := by
  refine ⟨h.effects, h.deleted.imp_of_mem fun {e e'} he he' hdel hd hvia => hdel hd ?_⟩
  obtain ⟨m, hm, hticket, -, hserial⟩ := h.effects e he
  obtain ⟨m', hm', hticket', -, hserial'⟩ := h.effects e' he'
  have hmm : m' = m := by
    refine hagree.eq_of_ticket hm' hm (Option.some.inj ?_)
    rw [hticket', hticket, hvia]
  rw [← hserial, ← hserial', hmm]

/-- **A command acts on its own object.** If no `read` of the lock socket is interrupted and no
address is reused while a proxy holds it, then `login` and `destroy` commands act on the object
that the `get` of their proxy has made, and on none once that has been deleted. -/
theorem own_object {as : List Action}
    (h : Along step (fun s a => a.Uninterrupted ∧ a.Fresh s) initial as) :
    Always step OwnObject initial as := by
  have hstep : ∀ s a t, ((Phase s ∧ Recorded s) ∧ s.tokens ≤ 1 ∧ Owned s) →
      (a.Uninterrupted ∧ a.Fresh s) → step s a = some t →
      (Phase t ∧ Recorded t) ∧ t.tokens ≤ 1 ∧ Owned t := by
    rintro s a t ⟨hrec, hle, howned⟩ ⟨hu, hfresh⟩ ht
    obtain ⟨hle', htokens⟩ := tokens_uninterrupted hle hu ht
    refine ⟨recorded_step hrec hu ht, hle', ?_⟩
    cases trans_of_step ht with
    | client mem trans => exact owned_client hrec.1 howned mem trans htokens
    | helper trans => exact owned_helper hrec.1 howned trans hfresh fun hne => (htokens hne).1
  have hinv := always_of_along hstep
    ⟨⟨phase_initial, recorded_initial⟩, tokens_initial.le, owned_initial⟩ h
  exact hinv.mono fun s hs => hs.2.2.ownObject hs.1.2.agreement

/-- Where the actions do not make an object, all that is to be seen is that they are
uninterrupted. -/
theorem along_calm {as : List Action} (h : ∀ a ∈ as, a.Uninterrupted ∧ ∀ s, a.Fresh s)
    (s : System) :
    Along step (fun s a => a.Uninterrupted ∧ a.Fresh s) s as :=
  (along_of_forall h s).mono fun s _ ha => ⟨ha.1, ha.2 s⟩

theorem own_object_twoProcesses : ∃ s, run step initial twoProcesses = some s ∧
    Always step OwnObject initial twoProcesses := by
  obtain ⟨s, hs, -⟩ := twoProcesses_runs
  refine ⟨s, hs, own_object ?_⟩
  have hsplit : twoProcesses = (twoProcesses.take 7 ++ [.helper (.handle 8 true)]) ++
      ((twoProcesses.drop 8).take 15 ++
        ([.helper (.handle 16 true)] ++ twoProcesses.drop 24)) := rfl
  rw [hsplit, along_append, along_append]
  refine ⟨⟨along_calm ?_ _, fun t ht => ⟨⟨trivial, fun r _ _ q hq => ?_⟩, fun _ _ => trivial⟩⟩,
    fun u hu => along_append.mpr ⟨along_calm ?_ _, fun t ht => along_append.mpr
      ⟨⟨⟨trivial, fun r _ _ q hq => ?_⟩, fun _ _ => trivial⟩, fun _ _ => along_calm ?_ _⟩⟩⟩
  · simp [twoProcesses, getRun, Action.Uninterrupted, Action.Fresh]
  · -- no proxy has an id
    cases ht
    obtain ⟨p, hp, i, hi⟩ := hq
    obtain rfl := Finset.mem_singleton.mp hp
    rcases i with _ | _ | i <;> cases hi <;> decide
  · simp [twoProcesses, getRun, destroyRun, Action.Uninterrupted, Action.Fresh]
  · -- the two copies of the first proxy have the id 8
    cases hu
    cases ht
    obtain ⟨p, hp, i, hi⟩ := hq
    rcases Finset.mem_insert.mp hp with rfl | hp
    · rcases i with _ | _ | i <;> cases hi <;> decide
    · obtain rfl := Finset.mem_singleton.mp hp
      rcases i with _ | _ | i <;> cases hi <;> decide
  · simp [twoProcesses, getRun, destroyRun, Action.Uninterrupted, Action.Fresh]

/-- A process and its child each have a copy of a proxy. After the first has been destroyed, a new
object gets its address, and then the second is destroyed. -/
def reusedAddress : List Action :=
  [.client 0 (.create 0), .client 0 (.create 1), .helper .give] ++ getRun 0 0 8 ++
    [.client 0 (.fork 1)] ++ destroyRun 0 0 ++ getRun 0 1 8 ++ destroyRun 1 0

theorem not_ownObject_reusedAddress : ¬ Always step OwnObject initial reusedAddress := by
  intro h
  obtain ⟨s, hs⟩ : ∃ s, run step initial reusedAddress = some s := ⟨_, rfl⟩
  obtain ⟨m, hm, hvia, -, hserial⟩ := (h reusedAddress List.prefix_rfl s hs).origin
    ⟨some 0, 1, true⟩ (by cases hs; exact List.mem_cons_of_mem _ (List.mem_singleton_self _))
  cases hs
  have hmade : m ∈ [(⟨0, 0, 8, true⟩ : Made), ⟨2, 1, 8, true⟩] := hm
  rcases List.mem_cons.mp hmade with rfl | hmade
  · cases hserial
  · obtain rfl := List.mem_singleton.mp hmade
    cases hvia

end Libptytty.Shared
