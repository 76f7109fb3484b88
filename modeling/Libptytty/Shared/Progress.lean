import Libptytty.Shared.Phases
import Libptytty.Shared.Token
import Libptytty.Shared.Flow

/-!
# Calls return

As long as no `read` of the lock socket is interrupted, no `get` throws and every descriptor is
sent, every call that has begun returns: until all processes are idle, some process or the helper
can take a step (`exists_step`), and each step brings the end nearer (`rank_step`). This is so for
any number of processes, whatever step is taken.

The phases leave open how many descriptors of a `get` have been sent. `Complete` counts them.
-/

namespace Libptytty.Shared

open Machine Memory

/-! ## Well-behaved steps -/

/-- Every descriptor is sent. -/
def Action.Sends : Action → Prop
  | .helper (.send ok) => ok = true
  | _ => True

/-- Nothing goes wrong in the step. -/
structure Action.Smooth (a : Action) : Prop where
  uninterrupted : a.Uninterrupted
  noThrow : a.NoThrow
  sends : a.Sends

/-- The step is one of the helper, or of a call that has begun. -/
def Action.Continues : Action → Prop
  | .client _ (.create _) | .client _ (.fork _) | .client _ (.call _) => False
  | _ => True

/-! ## The proxy of a call -/

/-- The proxy that a call is going to use. -/
def Pc.proxy : Pc → Option ℕ
  | .needToken c | .write c => some c.index
  | .readId i | .recvPty i | .recvTty i => some i
  | .idle | .giveToken _ => none

/-- Every process has the proxy of its call. -/
def Equipped (s : System) : Prop := ∀ p, ∀ i ∈ (s.proc p).pc.proxy, ((s.proc p).objs i).isSome

theorem equipped_initial : Equipped initial := by rintro p i ⟨⟩

theorem equipped_update {s : System} (h : Equipped s) {p : Pid} {x : Process}
    (hx : ∀ i ∈ x.pc.proxy, (x.objs i).isSome) :
    ∀ q, ∀ i ∈ (Function.update s.proc p x q).pc.proxy,
      ((Function.update s.proc p x q).objs i).isSome := by
  intro q
  by_cases hq : q = p
  · subst hq
    rw [Function.update_self]
    exact hx
  · rw [Function.update_of_ne hq]
    exact h q

theorem isSome_put {x : Process} {i : ℕ} {q : Proxy} : ((x.put i (some q)).objs i).isSome := by
  simp [Process.put]

theorem equipped_step {s t : System} {a : Action} (h : Equipped s) (ht : step s a = some t) :
    Equipped t := by
  cases trans_of_step ht with
  | helper trans => cases trans <;> exact h
  | @client p a t mem trans =>
    have hp := h p
    cases trans with
    | create pc | fork pc | skip pc | readNull | failId | recvTty | failPty | failTty | give =>
      refine equipped_update h ?_
      simp_all [Process.put, Pc.proxy]
    | call pc proxy =>
      refine equipped_update h ?_
      rintro i ⟨⟩
      simp [proxy]
    | interrupted pc | take pc =>
      refine equipped_update h ?_
      rw [pc] at hp
      exact hp
    | @write c q junk pc proxy =>
      refine equipped_update h ?_
      cases c with
      | get i =>
        rintro j ⟨⟩
        exact Option.isSome_iff_exists.mpr ⟨q, proxy⟩
      | login | destroy => rintro j ⟨⟩
    | readId | recvPty =>
      refine equipped_update h ?_
      rintro j ⟨⟩
      exact isSome_put

/-! ## The answers to a `get` -/

/-- How many answers a `get` that succeeds still awaits. -/
def Pc.due : Pc → ℕ
  | .readId _ => 3
  | .recvPty _ => 2
  | .recvTty _ => 1
  | _ => 0

/-- How many answers the helper still sends for an object. -/
def HelperPc.unsent : HelperPc → ℕ
  | .writeId _ => 3
  | .sendPty _ => 2
  | .sendTty _ => 1
  | _ => 0

/-- The answers that have been sent and will be sent are those awaited, unless the `get` fails. -/
def Complete (s : System) : Prop :=
  ∀ p ∈ s.insiders, 0 < (s.proc p).pc.due → s.pc.Serving → s.pc ≠ .writeId 0 →
    .id 0 ∉ s.answers → s.answers.length + s.pc.unsent = (s.proc p).pc.due

theorem complete_initial : Complete initial := by
  intro p hp hdue
  exact absurd hdue (lt_irrefl 0)

theorem complete_client {s t : System} {p : Pid} {a : ClientAct} (hphase : Phase s)
    (h : Complete s) (hp : p ∈ s.procs) (hs : (Action.client p a).Smooth)
    (ht : ClientTrans s p (s.proc p) a t) : Complete t := by
  have hins := ht.insiders hp
  -- a process outside has no part in the answers
  have away : t.insiders = s.insiders → (∀ q ∈ s.insiders, t.proc q = s.proc q) →
      t.answers = s.answers → t.pc = s.pc → Complete t := by
    intro hins hproc hans hpc q hq
    rw [hins] at hq
    rw [hproc q hq, hans, hpc]
    exact h q hq
  -- the one inside
  have alone : ∀ {x : Process}, p ∈ s.insiders → t.insiders ⊆ s.insiders →
      t.proc = Function.update s.proc p x →
      (0 < x.pc.due → t.pc.Serving → t.pc ≠ .writeId 0 → .id 0 ∉ t.answers →
        t.answers.length + t.pc.unsent = x.pc.due) → Complete t := by
    intro x hin hsub hproc hx q hq
    obtain rfl : q = p := (hphase.of_mem hin).1.eq (hsub hq)
    rw [hproc, Function.update_self]
    exact hx
  cases ht with
  | create pc | skip pc | call pc =>
    exact away hins (update_of_insider (by rw [pc]; rfl)) rfl rfl
  | @fork q pc unused =>
    refine away hins (fun q' hq' => Function.update_of_ne ?_ _ _) rfl rfl
    rintro rfl
    exact unused (mem_insiders.mp hq').1
  | interrupted => cases hs.uninterrupted
  | take pc byte =>
    obtain ⟨free, -⟩ := hphase.offered byte
    intro q hq hdue
    rw [hins, System.insidersAfter, free, Finset.mem_insert] at hq
    obtain rfl := hq.resolve_right (Finset.notMem_empty q)
    simp [System.enter, Pc.due] at hdue
  | @write c q junk pc proxy =>
    have hin := mem_insiders_of_pc hp pc rfl
    refine alone hin hins.subset rfl fun _ hserv => ?_
    -- the helper is waiting for the command
    obtain ⟨-, hinside⟩ := hphase.of_mem hin
    cases hinside with
    | taken at_ hpc =>
      change s.pc.Serving at hserv
      rw [hpc] at hserv
      exact hserv.elim
    | sent at_ | handled at_ | asked at_ => rw [pc] at at_; cases at_
    | answered settled answering =>
      obtain ⟨received, hrec, -⟩ := answering.answers
      cases hrec <;> simp_all
  | readNull pc | recvTty pc =>
    exact alone (mem_insiders_of_pc hp pc rfl) hins.subset rfl fun hdue =>
      absurd hdue (lt_irrefl 0)
  | @readId i q a rest pc proxy answers nonnull =>
    have hin := mem_insiders_of_pc hp pc rfl
    refine alone hin hins.subset rfl fun _ hserv hne hnull => ?_
    have hold := h p hin (by rw [pc]; exact Nat.succ_pos 2) hserv hne ?_
    · rw [answers, pc, List.length_cons] at hold
      simp only [Pc.due] at hold ⊢
      show rest.length + s.pc.unsent = 2
      omega
    · rw [answers, List.mem_cons, not_or]
      exact ⟨fun he => nonnull (Answer.id.inj he).symm, hnull⟩
  | @recvPty i q e rest pc proxy answers =>
    have hin := mem_insiders_of_pc hp pc rfl
    refine alone hin hins.subset rfl fun _ hserv hne hnull => ?_
    have hold := h p hin (by rw [pc]; exact Nat.succ_pos 1) hserv hne ?_
    · rw [answers, pc, List.length_cons] at hold
      simp only [Pc.due] at hold ⊢
      show rest.length + s.pc.unsent = 1
      omega
    · rw [answers, List.mem_cons, not_or]
      exact ⟨by rintro ⟨⟩, hnull⟩
  | failId | failPty | failTty => exact hs.noThrow.elim
  | give pc =>
    refine alone (mem_insiders_of_pc hp pc rfl) ?_ rfl fun hdue => absurd hdue (lt_irrefl 0)
    rw [hins]
    exact Finset.erase_subset p s.insiders

/-- The helper does not send to anybody. -/
theorem complete_of_idle {s t : System} (hproc : t.proc = s.proc) (hins : t.insiders = s.insiders)
    (hdue : ∀ p ∈ s.insiders, t.pc.Serving → t.pc ≠ .writeId 0 → .id 0 ∉ t.answers →
      0 < (s.proc p).pc.due → t.answers.length + t.pc.unsent = (s.proc p).pc.due) : Complete t := by
  intro p hp hpos hserv hne hnull
  rw [hins] at hp
  rw [hproc] at hpos ⊢
  exact hdue p hp hserv hne hnull hpos

/-- What the helper has sent to the client inside. -/
theorem Phase.sent {s : System} (h : Phase s) (hpc : s.pc.Serving) (hne : s.pc ≠ .needToken)
    (hin : s.insiders ≠ ∅) : ∃ m out, Sent s.pc s.heap m out := by
  obtain ⟨-, gone | ⟨p, m, -, answering⟩⟩ := h.of_serving hpc hne
  · exact absurd gone.insiders hin
  · obtain ⟨received, -, hsent⟩ := answering.answers
    exact ⟨m, _, hsent⟩

theorem Sent.pty_of_sendPty {pc : HelperPc} {heap : Heap Object} {m : Made} {out : List Answer}
    {a : Addr} {c : Cell Object} (h : Sent pc heap m out) (hpc : pc = .sendPty a)
    (hc : heap.cells a = some c) : c.obj.pty = some (.master m.serial) := by
  cases h with
  | id ok at_ obj =>
    rw [hpc] at at_
    obtain rfl := HelperPc.sendPty.inj at_
    exact (obj c hc).1
  | failed ok at_ | null ok at_ | got ok at_ | pty ok at_ | tty ok at_ => rw [hpc] at at_; cases at_

theorem Sent.tty_of_sendTty {pc : HelperPc} {heap : Heap Object} {m : Made} {out : List Answer}
    {a : Addr} {c : Cell Object} (h : Sent pc heap m out) (hpc : pc = .sendTty a)
    (hc : heap.cells a = some c) : c.obj.tty = some (.slave m.serial) := by
  cases h with
  | pty ok at_ obj =>
    rw [hpc] at at_
    obtain rfl := HelperPc.sendTty.inj at_
    exact (obj c hc).2
  | failed ok at_ | null ok at_ | got ok at_ | id ok at_ | tty ok at_ => rw [hpc] at at_; cases at_

theorem complete_helper {s t : System} {a : HelperAct} (hphase : Phase s) (h : Complete s)
    (hs : (Action.helper a).Smooth) (ht : HelperTrans s a t) : Complete t := by
  have hins := ht.insiders
  -- nobody waits for answers while a command is handled that has none
  have command : ∀ {r : Request}, s.pc = .handle r → r.cmd.type = .login ∨ r.cmd.type = .destroy →
      ∀ p ∈ s.insiders, (s.proc p).pc.due = 0 := by
    intro r hpc htype p hp
    obtain ⟨r', pending, hholder⟩ := hphase.of_pending (Or.inl ⟨r, hpc⟩)
    obtain rfl := pending.eq_of_handle hpc
    rcases hholder with ⟨htype', -⟩ | ⟨-, given | ⟨q, held, at_⟩⟩
    · rw [htype'] at htype
      rcases htype with htype | htype <;> cases htype
    · rw [given.insiders] at hp
      exact absurd hp (Finset.notMem_empty p)
    · obtain rfl := held.eq hp
      rw [at_]
      rfl
  -- one more answer is sent
  have send : ∀ {m : Answer}, s.pc.Serving → s.pc ≠ .writeId 0 → t.proc = s.proc →
      t.answers = s.answers ++ [m] → t.pc.unsent + 1 = s.pc.unsent → Complete t := by
    intro m hserv hne hproc hans hunsent
    refine complete_of_idle hproc hins fun p hp _ _ hnull hdue => ?_
    rw [hans, List.mem_append, not_or] at hnull
    have hold := h p hp hdue hserv hne hnull.1
    rw [hans, List.length_append, List.length_singleton]
    omega
  cases ht with
  | give | read | interrupted | need =>
    exact complete_of_idle (s := s) rfl hins fun p _ hserv => hserv.elim
  | @got r a pc type nonnull free =>
    refine complete_of_idle (s := s) rfl hins fun p hp _ _ _ hdue => ?_
    obtain ⟨r', pending, hholder⟩ := hphase.of_pending (Or.inl ⟨r, pc⟩)
    obtain rfl := pending.eq_of_handle pc
    rcases hholder with ⟨-, gone | ⟨q, i, held, at_, -⟩⟩ | ⟨htype, -⟩
    · rw [gone.insiders] at hp
      exact absurd hp (Finset.notMem_empty p)
    · obtain rfl := held.eq hp
      show s.answers.length + 3 = (s.proc p).pc.due
      rw [pending.answers, at_]
      rfl
    · rw [type] at htype
      rcases htype with htype | htype <;> cases htype
  | notGot => exact complete_of_idle (s := s) rfl hins fun p _ _ hne => absurd rfl hne
  | login pc type | destroy pc type =>
    refine complete_of_idle (s := s) rfl hins fun p hp _ _ _ hdue => ?_
    have hzero := command pc (by simp [type]) p hp
    omega
  | ignore pc type =>
    refine complete_of_idle (s := s) rfl hins fun p hp _ _ _ hdue => ?_
    have hzero := command pc type p hp
    omega
  | writeNull =>
    exact complete_of_idle (s := s) rfl hins fun p _ _ _ hnull => absurd (by simp) hnull
  | writeId pc nonnull =>
    refine send (by rw [pc]; trivial) ?_ rfl rfl (by rw [pc]; rfl)
    rw [pc]
    exact fun he => nonnull (HelperPc.writeId.inj he)
  | @sendPty a c ok pc cell =>
    obtain rfl : ok = true := hs.sends
    by_cases hnone : s.insiders = ∅
    · exact complete_of_idle (s := s) rfl hins fun p hp => by simp [hnone] at hp
    obtain ⟨m, out, hsent⟩ := hphase.sent (by rw [pc]; trivial) (by rw [pc]; rintro ⟨⟩) hnone
    have hopen := hsent.pty_of_sendPty pc cell
    exact send (by rw [pc]; trivial) (by rw [pc]; rintro ⟨⟩) rfl (by rw [hopen]; rfl)
      (by rw [pc]; rfl)
  | @sendTty a c ok pc cell =>
    obtain rfl : ok = true := hs.sends
    by_cases hnone : s.insiders = ∅
    · exact complete_of_idle (s := s) rfl hins fun p hp => by simp [hnone] at hp
    obtain ⟨m, out, hsent⟩ := hphase.sent (by rw [pc]; trivial) (by rw [pc]; rintro ⟨⟩) hnone
    have hopen := hsent.tty_of_sendTty pc cell
    exact send (by rw [pc]; trivial) (by rw [pc]; rintro ⟨⟩) rfl (by rw [hopen]; rfl)
      (by rw [pc]; rfl)

theorem complete_step {s t : System} {a : Action} (hphase : Phase s) (h : Complete s)
    (hs : a.Smooth) (ht : step s a = some t) : Complete t := by
  cases trans_of_step ht with
  | client mem trans => exact complete_client hphase h mem hs trans
  | helper trans => exact complete_helper hphase h hs trans

/-! ## A step is possible -/

/-- What holds in every state of a run in which nothing goes wrong. -/
structure Steady (s : System) : Prop where
  phase : Phase s
  token : s.tokens = 1
  flow : Flow s
  served : Served s
  equipped : Equipped s
  complete : Complete s

theorem steady_initial : Steady initial :=
  ⟨phase_initial, tokens_initial, flow_initial, served_initial, equipped_initial, complete_initial⟩

theorem Action.Uninterrupted.takesByte {a : Action} (h : a.Uninterrupted) : a.TakesByte := by
  cases a with
  | client p a => cases a <;> exact h
  | helper a => trivial

theorem steady_step {s t : System} {a : Action} (h : Steady s) (hs : a.Smooth)
    (ht : step s a = some t) : Steady t := by
  refine ⟨phase_step h.phase hs.uninterrupted ht, ?_,
    flow_step h.flow hs.uninterrupted.takesByte ht, served_step h.served ht,
    equipped_step h.equipped ht, complete_step h.phase h.complete hs ht⟩
  have htokens := tokens_step ht
  rw [(a.gain_eq_zero).mpr ⟨hs.uninterrupted, hs.noThrow⟩, h.token] at htokens
  omega

theorem steady_run {as : List Action} {s : System} (h : run step initial as = some s)
    (hs : ∀ a ∈ as, a.Smooth) : Steady s :=
  inv_of_along (fun _ _ _ hI hs ht => steady_step hI hs ht) steady_initial
    (along_of_forall hs initial) h

/-- The helper can take a step if it does not wait for a client. -/
theorem exists_smooth_serve_step {s : System} (h : Served s)
    (hread : s.pc = .readCmd → s.requests ≠ []) (hneed : s.pc = .needToken → s.serverBytes ≠ 0) :
    ∃ a t, (Action.helper a).Smooth ∧ helperStep s a = some t := by
  obtain ⟨a, t, hu, ht⟩ := exists_serve_step h hread hneed
  cases a with
  | send ok =>
    -- the message can be sent
    have hsome : (helperStep s (.send true)).isSome := by
      have hold : (helperStep s (.send ok)).isSome := by rw [ht]; rfl
      unfold helperStep at hold ⊢
      dsimp only at hold ⊢
      split at hold <;> simp_all
    obtain ⟨t', ht'⟩ := Option.isSome_iff_exists.mp hsome
    exact ⟨.send true, t', ⟨trivial, trivial, rfl⟩, ht'⟩
  | give | read | handle | writeId | need => exact ⟨_, t, ⟨hu, trivial, trivial⟩, ht⟩

/-- The clients' own steps. -/
theorem exists_client_step {s : System} {p : Pid} {a : ClientAct} (hp : p ∈ s.procs)
    (hs : (Action.client p a).Smooth) (hc : (Action.client p a).Continues)
    (ht : (clientStep p (s.proc p) s a).isSome) :
    ∃ b t, (b.Smooth ∧ b.Continues) ∧ step s b = some t := by
  obtain ⟨t, ht⟩ := Option.isSome_iff_exists.mp ht
  refine ⟨.client p a, t, ⟨hs, hc⟩, ?_⟩
  rw [step, if_pos hp]
  exact ht

/-- After the id only descriptors are sent. -/
theorem Sent.descriptors {heap : Heap Object} {m : Made} {received answers : List Answer}
    (h : Sent .needToken heap m (received ++ answers)) (hrec : received ≠ []) :
    ∀ x ∈ answers, ∃ e, x = .fd e := by
  obtain ⟨y, received, rfl⟩ := List.exists_cons_of_ne_nil hrec
  rw [List.cons_append] at h
  generalize hout : y :: (received ++ answers) = out at h
  intro x hx
  cases h with
  | failed ok at_ | got ok at_ | id ok at_ | pty ok at_ => cases at_
  | null =>
    obtain ⟨-, hnil⟩ := List.cons.inj hout
    rw [(List.append_eq_nil_iff.mp hnil).2] at hx
    cases hx
  | tty ok at_ sub =>
    obtain ⟨-, rfl⟩ := List.cons.inj hout
    have hmem := sub.subset (List.mem_append_right received hx)
    simp only [List.mem_cons, List.not_mem_nil, or_false] at hmem
    rcases hmem with rfl | rfl <;> exact ⟨_, rfl⟩

/-- The client inside that the helper has answered can take a step when the helper waits for it. -/
theorem exists_answered_step {s : System} {p : Pid} {m : Made} (h : Steady s)
    (hp : p ∈ s.insiders) (hpc : s.pc = .needToken) (hm : Answering s p m) :
    ∃ a t, (a.Smooth ∧ a.Continues) ∧ step s a = some t := by
  have hmem := (mem_insiders.mp hp).1
  have hequipped := h.equipped p
  obtain ⟨received, hrec, hsent⟩ := hm.answers
  rw [hpc] at hsent
  -- a descriptor that is awaited is there
  have awaited : received ≠ [] → 0 < (s.proc p).pc.due →
      ∃ e rest, s.answers = .fd e :: rest := by
    intro hne hdue
    have hfds := hsent.descriptors hne
    have hall := h.complete p hp hdue (by rw [hpc]; trivial) (by rw [hpc]; rintro ⟨⟩)
      fun hnull => by obtain ⟨e, he⟩ := hfds _ hnull; cases he
    rw [hpc] at hall
    cases hans : s.answers with
    | nil =>
      rw [hans] at hall
      exact absurd hall hdue.ne
    | cons x rest =>
      obtain ⟨e, rfl⟩ := hfds x (by rw [hans]; exact List.mem_cons_self)
      exact ⟨e, rest, rfl⟩
  cases hrec with
  | @nothing i pc =>
    rw [List.nil_append] at hsent
    obtain ⟨q, hq⟩ := Option.isSome_iff_exists.mp (hequipped i (by rw [pc]; rfl))
    have hid : ∃ a rest, s.answers = .id a :: rest := by
      generalize s.answers = out at hsent
      cases hsent with
      | failed ok at_ | got ok at_ | id ok at_ | pty ok at_ => cases at_
      | null | tty => exact ⟨_, _, rfl⟩
    obtain ⟨a, rest, hans⟩ := hid
    exact exists_client_step (a := .readId) hmem ⟨trivial, trivial, trivial⟩ trivial
      (by simp [clientStep, pc, hans, hq])
  | null pc | tty pc =>
    exact exists_client_step (a := .give) hmem ⟨trivial, trivial, trivial⟩ trivial
      (by simp [clientStep, pc])
  | id pc proxy =>
    obtain ⟨e, rest, hans⟩ := awaited (List.cons_ne_nil _ _) (by rw [pc]; exact Nat.succ_pos 1)
    exact exists_client_step (a := .recvFd) hmem ⟨trivial, trivial, trivial⟩ trivial
      (by simp [clientStep, pc, hans, proxy])
  | pty pc proxy =>
    obtain ⟨e, rest, hans⟩ := awaited (List.cons_ne_nil _ _) (by rw [pc]; exact Nat.succ_pos 0)
    exact exists_client_step (a := .recvFd) hmem ⟨trivial, trivial, trivial⟩ trivial
      (by simp [clientStep, pc, hans, proxy])

/-- The token is not lost. -/
theorem Steady.not_gone {s : System} (h : Steady s) (hpc : s.pc ≠ .giveToken) : ¬ Gone s := by
  intro gone
  have htokens := h.token
  rw [System.tokens_eq, gone.insiders, gone.clientBytes, gone.serverBytes] at htokens
  cases hs : s.pc <;> simp_all [System.helperToken]

/-- When the helper waits for a command, somebody can bring it one. -/
theorem exists_step_of_readCmd {s : System} (h : Steady s) (hpc : s.pc = .readCmd)
    (hreq : s.requests = []) (hbusy : ∃ p ∈ s.procs, (s.proc p).pc ≠ .idle) :
    ∃ a t, (a.Smooth ∧ a.Continues) ∧ step s a = some t := by
  have hpend : ∀ {r}, ¬ Pending s r := by
    intro r hp
    rcases hp.place with ⟨-, hr⟩ | ⟨hr, -⟩
    · rw [hreq] at hr
      cases hr
    · rw [hpc] at hr
      cases hr
  cases h.phase with
  | outside hout =>
    cases hout with
    | giving gone pc | done given pc => rw [hpc] at pc; cases pc
    | sent given pending | lostCall gone pending => exact absurd pending hpend
    | lost gone pc => rw [hpc] at pc; exact pc.elim
    | offered free clientBytes =>
      -- a process that is not idle waits for the token
      obtain ⟨p, hp, hne⟩ := hbusy
      have hout : p ∉ s.insiders := by simp [free]
      rw [mem_insiders, not_and] at hout
      cases hx : (s.proc p).pc with
      | idle => exact absurd hx hne
      | needToken c =>
        exact exists_client_step (a := .take false) hp ⟨rfl, trivial, trivial⟩ trivial
          (by simp [clientStep, hx, clientBytes])
      | write | readId | recvPty | recvTty | giveToken => exact absurd (by rw [hx]; rfl) (hout hp)
  | @inside p held hin =>
    have hp : p ∈ s.insiders := by simp [held.insiders]
    cases hin with
    | @taken c at_ =>
      obtain ⟨q, hq⟩ := Option.isSome_iff_exists.mp (h.equipped p c.index (by rw [at_]; rfl))
      exact exists_client_step (a := .write blank) (mem_insiders.mp hp).1
        ⟨trivial, trivial, trivial⟩ trivial (by simp [clientStep, at_, hq])
    | sent at_ pending | asked at_ pending => exact absurd pending hpend
    | handled at_ pc => rw [hpc] at pc; cases pc
    | answered settled answering =>
      obtain ⟨received, -, hsent⟩ := answering.answers
      have hserv := hsent.serving
      rw [hpc] at hserv
      exact hserv.elim

/-- When the helper waits for the token, the client inside can take a step. -/
theorem exists_step_of_needToken {s : System} (h : Steady s) (hpc : s.pc = .needToken)
    (hbyte : s.serverBytes = 0) : ∃ a t, (a.Smooth ∧ a.Continues) ∧ step s a = some t := by
  have hgone := h.not_gone (by rw [hpc]; rintro ⟨⟩)
  have hpend : ∀ {r}, ¬ Pending s r := by
    intro r hp
    rcases hp.place with ⟨hr, -⟩ | ⟨hr, -⟩ <;> rw [hpc] at hr <;> cases hr
  cases h.phase with
  | outside hout =>
    cases hout with
    | giving gone | lostCall gone | lost gone => exact absurd gone hgone
    | offered free clientBytes serverBytes pc => rw [hpc] at pc; cases pc
    | sent given pending => exact absurd pending hpend
    | done given => exact absurd (given.serverBytes.symm.trans hbyte) one_ne_zero
  | @inside p held hin =>
    have hp : p ∈ s.insiders := by simp [held.insiders]
    cases hin with
    | taken at_ pc => rw [hpc] at pc; cases pc
    | sent at_ pending | asked at_ pending => exact absurd pending hpend
    | handled at_ =>
      exact exists_client_step (a := .give) (mem_insiders.mp hp).1 ⟨trivial, trivial, trivial⟩
        trivial (by simp [clientStep, at_])
    | answered settled answering => exact exists_answered_step h hp hpc answering

/-- Until all processes are idle, a call or the helper can go on. -/
theorem exists_step {s : System} (h : Steady s) (hbusy : ∃ p ∈ s.procs, (s.proc p).pc ≠ .idle) :
    ∃ a t, (a.Smooth ∧ a.Continues) ∧ step s a = some t := by
  by_cases hread : s.pc = .readCmd ∧ s.requests = []
  · exact exists_step_of_readCmd h hread.1 hread.2 hbusy
  by_cases hneed : s.pc = .needToken ∧ s.serverBytes = 0
  · exact exists_step_of_needToken h hneed.1 hneed.2
  obtain ⟨a, t, hs, ht⟩ := exists_smooth_serve_step h.served (fun hpc hr => hread ⟨hpc, hr⟩)
    fun hpc hb => hneed ⟨hpc, hb⟩
  exact ⟨.helper a, t, ⟨hs, trivial⟩, ht⟩

/-! ## The end is near -/

/-- The distance of a call from its return. -/
def Pc.weight : Pc → ℕ
  | .idle => 0
  | .needToken _ => 14
  | .write _ => 13
  | .readId _ => 4
  | .recvPty _ => 3
  | .recvTty _ => 2
  | .giveToken _ => 1

/-- The distance of the helper from its next `read` of a command. -/
def HelperPc.weight : HelperPc → ℕ
  | .readCmd => 0
  | .giveToken => 1
  | .needToken => 2
  | .sendTty _ => 3
  | .sendPty _ => 4
  | .writeId _ => 5
  | .handle _ => 6

/-- The distance of the system from the return of all calls. -/
def rank (s : System) : ℕ :=
  ∑ p ∈ s.procs, (s.proc p).pc.weight + 8 * s.requests.length + s.pc.weight

theorem sum_weight {s t : System} {p : Pid} {x : Process} (hp : p ∈ s.procs)
    (hprocs : t.procs = s.procs) (hproc : t.proc = Function.update s.proc p x) :
    ∑ q ∈ t.procs, (t.proc q).pc.weight + (s.proc p).pc.weight =
      ∑ q ∈ s.procs, (s.proc q).pc.weight + x.pc.weight := by
  rw [hprocs, ← Finset.add_sum_erase _ _ hp, ← Finset.add_sum_erase s.procs _ hp, hproc,
    Function.update_self]
  have hrest : ∑ q ∈ s.procs.erase p, (Function.update s.proc p x q).pc.weight =
      ∑ q ∈ s.procs.erase p, (s.proc q).pc.weight := by
    refine Finset.sum_congr rfl fun q hq => ?_
    rw [Function.update_of_ne (Finset.ne_of_mem_erase hq)]
  rw [hrest]
  omega

/-- A step of a process. -/
theorem rank_lt_of_client {s t : System} {p : Pid} {x : Process} (hp : p ∈ s.procs)
    (hprocs : t.procs = s.procs) (hproc : t.proc = Function.update s.proc p x)
    (hpc : t.pc = s.pc) (hlt : x.pc.weight + 8 * t.requests.length <
      (s.proc p).pc.weight + 8 * s.requests.length) : rank t < rank s := by
  have hsum := sum_weight hp hprocs hproc
  unfold rank
  rw [hpc]
  omega

/-- Every step of a call or of the helper brings the end nearer. -/
theorem rank_step {s t : System} {a : Action} (hs : a.Smooth) (hc : a.Continues)
    (ht : step s a = some t) : rank t < rank s := by
  cases trans_of_step ht with
  | helper trans =>
    unfold rank
    cases trans with
    | read pc requests =>
      simp only [pc, requests, List.length_cons, HelperPc.weight]
      omega
    | interrupted => cases hs.uninterrupted
    | give pc | got pc | notGot pc | login pc | destroy pc | ignore pc | writeNull pc
    | writeId pc | sendPty pc | sendTty pc | need pc => simp [pc, HelperPc.weight]
  | @client p a t mem trans =>
    cases trans with
    | create | fork | skip | call => exact hc.elim
    | interrupted => cases hs.uninterrupted
    | failId | failPty | failTty => exact hs.noThrow.elim
    | @write c q junk pc proxy =>
      refine rank_lt_of_client mem rfl rfl rfl ?_
      rw [pc, List.length_append, List.length_singleton]
      cases c <;> simp only [Call.written, Pc.weight] <;> omega
    | take pc | readNull pc | readId pc | recvPty pc | recvTty pc | give pc =>
      refine rank_lt_of_client mem rfl rfl rfl ?_
      rw [pc]
      exact Nat.add_lt_add_right (by simp [Pc.weight]) _

/-- A call that has not returned is at a distance from its return. -/
theorem rank_pos {s : System} (hbusy : ∃ p ∈ s.procs, (s.proc p).pc ≠ .idle) : 0 < rank s := by
  obtain ⟨p, hp, hne⟩ := hbusy
  have hweight : 0 < (s.proc p).pc.weight := by
    cases hpc : (s.proc p).pc with
    | idle => exact absurd hpc hne
    | _ => simp [Pc.weight]
  have hle := Finset.single_le_sum (f := fun q => (s.proc q).pc.weight)
    (fun _ _ => Nat.zero_le _) hp
  unfold rank
  omega

theorem weight_le (pc : Pc) : pc.weight ≤ 14 := by
  cases pc <;> simp [Pc.weight]

theorem rank_le {s : System} (h : Flow s) : rank s ≤ 14 * s.procs.card + 14 := by
  have hsum : ∑ p ∈ s.procs, (s.proc p).pc.weight ≤ s.procs.card * 14 :=
    Finset.sum_le_card_nsmul _ _ _ fun p _ => weight_le _
  have hpc : 8 * s.reading + s.pc.weight ≤ 14 := by
    unfold System.reading
    cases s.pc <;> simp [HelperPc.weight]
  unfold Flow at h
  unfold rank
  omega

/-- **Calls return.** After any run in which nothing has gone wrong, the calls in progress return,
whatever the order in which the processes and the helper are scheduled: as long as nothing goes
wrong and no new call begins, a step is possible until all processes are idle, and that is so after
at most 14 steps for each process and 14 more. -/
theorem calls_return {as : List Action} {s : System} (h : run step initial as = some s)
    (hs : ∀ a ∈ as, a.Smooth) :
    Inevitable step (fun a => a.Smooth ∧ a.Continues)
      (fun t => ∀ p ∈ t.procs, (t.proc p).pc = .idle) (14 * s.procs.card + 14) s := by
  have hsteady := steady_run h hs
  have hrank : Inevitable step (fun a => a.Smooth ∧ a.Continues)
      (fun t => ∀ p ∈ t.procs, (t.proc p).pc = .idle) (rank s) s := by
    refine inevitable_of_rank (I := Steady) (fun t ht hno => ?_)
      (fun t a u ht _ ha hu => ?_) hsteady
    · push Not at hno
      exact ⟨rank_pos hno, exists_step ht hno⟩
    · exact ⟨steady_step ht ha.1 hu, rank_step ha.1 ha.2 hu⟩
  intro bs u hbs hu hno
  obtain ⟨hlen, hnext⟩ := hrank bs u hbs hu hno
  exact ⟨hlen.trans_le (rank_le hsteady.flow), hnext⟩

/-- One process is in `get`, and another waits for the token. -/
def twoCalls : List Action :=
  [.client 0 (.create 0), .client 0 (.fork 1), .helper .give, .client 0 (.call (.get 0)),
    .client 1 (.call (.get 0)), .client 0 (.take false), .client 0 (.write blank), .helper .read,
    .helper (.handle 8 true), .helper .writeId]

theorem calls_return_twoCalls : ∃ s, run step initial twoCalls = some s ∧ s.procs.card = 2 ∧
    Inevitable step (fun a => a.Smooth ∧ a.Continues)
      (fun t => ∀ p ∈ t.procs, (t.proc p).pc = .idle) (14 * s.procs.card + 14) s := by
  obtain ⟨s, hs, hcard⟩ : ∃ s, run step initial twoCalls = some s ∧ s.procs.card = 2 :=
    ⟨_, rfl, rfl⟩
  refine ⟨s, hs, hcard, calls_return hs ?_⟩
  simp only [twoCalls, List.mem_cons, List.not_mem_nil, or_false]
  rintro a (rfl | rfl | rfl | rfl | rfl | rfl | rfl | rfl | rfl | rfl) <;>
    exact ⟨by trivial, trivial, trivial⟩

end Libptytty.Shared
