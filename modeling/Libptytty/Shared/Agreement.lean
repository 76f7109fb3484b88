import Libptytty.Shared.Phases

/-!
# Calls and answers agree

A `get` that returns true holds the address and the descriptors of the object that the helper has
made for that very call, one that returns false was refused by the helper's own `get`, and the
helper handles the commands in the order in which their senders have passed `NEED_TOKEN`
(`answers_agree`). Failed sends and receives, and `get` throwing, are included.
-/

namespace Libptytty.Shared

open Memory Machine

/-- What the returns from `get`, the objects made and the commands handled have to do with each
other. -/
structure Agreement (s : System) : Prop where
  /-- The result and the proxy are those of the object made for the call. -/
  returned : ∀ r ∈ s.returned, ∃ m ∈ s.made, m.ticket = r.ticket ∧ m.ok = r.ok ∧
    (r.ok = true → r.proxy.id = m.addr ∧ r.proxy.pty = some (.master m.serial) ∧
      r.proxy.tty = some (.slave m.serial))
  caller : ∀ r ∈ s.returned, s.takes[r.ticket]? = some r.proc
  /-- No two calls return the same allocation. -/
  exclusive : ∀ r ∈ s.returned, ∀ r' ∈ s.returned, r.ok = true → r'.ok = true →
    r.proxy.pty = r'.proxy.pty → r = r'
  /-- Objects are made for the `get` commands handled, one for each. -/
  made : ∀ m ∈ s.made, ∃ r ∈ s.handled, r.ticket = m.ticket ∧ r.cmd.type = .get
  once : (s.made.map Made.ticket).Nodup
  serials : (s.made.map Made.serial).Nodup
  /-- The commands handled are those of the first calls, in the order of `NEED_TOKEN`. -/
  order : s.handled.map Request.ticket = List.range s.handled.length
  senders : ∀ r ∈ s.handled, s.takes[r.ticket]? = some r.sender

/-- The invariant of the history. -/
structure Recorded (s : System) : Prop where
  agreement : Agreement s
  made_lt : ∀ m ∈ s.made, m.ticket < s.handled.length ∧ m.serial < s.heap.created
  returned_once : (s.returned.map Returned.ticket).Nodup
  insider : ∀ p ∈ s.insiders, s.takes[(s.proc p).ticket]? = some p ∧
    ∀ r ∈ s.returned, r.ticket ≠ (s.proc p).ticket

theorem recorded_initial : Recorded initial := by
  refine ⟨⟨?_, ?_, ?_, ?_, List.nodup_nil, List.nodup_nil, rfl, ?_⟩, ?_, List.nodup_nil, ?_⟩
  · rintro r ⟨⟩
  · rintro r ⟨⟩
  · rintro r ⟨⟩
  · rintro m ⟨⟩
  · rintro r ⟨⟩
  · rintro m ⟨⟩
  · intro p hp
    rw [show initial.insiders = ∅ from rfl] at hp
    exact absurd hp (Finset.notMem_empty p)

theorem getElem?_append_of_some {α : Type*} {l : List α} {i : ℕ} {a : α} (h : l[i]? = some a)
    (l' : List α) : (l ++ l')[i]? = some a := by
  rw [List.getElem?_append_left (List.getElem?_eq_some_iff.mp h).1, h]

/-- Objects are told apart by their allocation. -/
theorem Agreement.eq_of_serial {s : System} (h : Agreement s) {m m' : Made} (hm : m ∈ s.made)
    (hm' : m' ∈ s.made) (hs : m.serial = m'.serial) : m = m' :=
  List.inj_on_of_nodup_map h.serials hm hm' hs

/-- Objects are told apart by the call they are made for. -/
theorem Agreement.eq_of_ticket {s : System} (h : Agreement s) {m m' : Made} (hm : m ∈ s.made)
    (hm' : m' ∈ s.made) (ht : m.ticket = m'.ticket) : m = m' :=
  List.inj_on_of_nodup_map h.once hm hm' ht

/-! ## Steps that record nothing -/

theorem Recorded.frame {s t : System} (h : Recorded s) (htakes : t.takes = s.takes)
    (hhandled : t.handled = s.handled) (hmade : t.made = s.made)
    (hreturned : t.returned = s.returned) (hcreated : t.heap.created = s.heap.created)
    (hins : ∀ p ∈ t.insiders, p ∈ s.insiders ∧ (t.proc p).ticket = (s.proc p).ticket ∧
      (t.proc p).took = (s.proc p).took) : Recorded t := by
  obtain ⟨⟨returned, caller, exclusive, made, once, serials, order, senders⟩, made_lt,
    returned_once, insider⟩ := h
  refine ⟨⟨?_, ?_, ?_, ?_, ?_, ?_, ?_, ?_⟩, ?_, ?_, fun p hp => ?_⟩
  · rw [hreturned, hmade]; exact returned
  · rw [hreturned, htakes]; exact caller
  · rw [hreturned]; exact exclusive
  · rw [hmade, hhandled]; exact made
  · rw [hmade]; exact once
  · rw [hmade]; exact serials
  · rw [hhandled]; exact order
  · rw [hhandled, htakes]; exact senders
  · rw [hmade, hhandled, hcreated]; exact made_lt
  · rw [hreturned]; exact returned_once
  · obtain ⟨hp', hticket, -⟩ := hins p hp
    rw [htakes, hreturned, hticket]
    exact insider p hp'

/-! ## Steps that do -/

/-- A client passes `NEED_TOKEN`. -/
theorem Recorded.take {s t : System} {p : Pid} (h : Recorded s) (hfree : s.insiders = ∅)
    (hins : t.insiders = insert p s.insiders) (hp : (t.proc p).ticket = s.takes.length)
    (htakes : t.takes = s.takes ++ [p]) (hhandled : t.handled = s.handled)
    (hmade : t.made = s.made) (hreturned : t.returned = s.returned)
    (hheap : t.heap = s.heap) : Recorded t := by
  obtain ⟨⟨returned, caller, exclusive, made, once, serials, order, senders⟩, made_lt,
    returned_once, insider⟩ := h
  refine ⟨⟨?_, fun r hr => ?_, ?_, ?_, ?_, ?_, ?_, fun r hr => ?_⟩, ?_, ?_, fun q hq => ?_⟩
  · rw [hreturned, hmade]; exact returned
  · rw [htakes]
    exact getElem?_append_of_some (caller r (hreturned ▸ hr)) [p]
  · rw [hreturned]; exact exclusive
  · rw [hmade, hhandled]; exact made
  · rw [hmade]; exact once
  · rw [hmade]; exact serials
  · rw [hhandled]; exact order
  · rw [htakes]
    exact getElem?_append_of_some (senders r (hhandled ▸ hr)) [p]
  · rw [hmade, hhandled, hheap]; exact made_lt
  · rw [hreturned]; exact returned_once
  · rw [hins, hfree, insert_empty_eq, Finset.mem_singleton] at hq
    subst hq
    rw [hp, htakes]
    refine ⟨by simp, fun r hr => ?_⟩
    -- the calls that have returned have smaller numbers
    have hlt := (List.getElem?_eq_some_iff.mp (caller r (hreturned ▸ hr))).1
    omega

/-- A `get` returns. -/
theorem Recorded.returns {s t : System} {p : Pid} {m : Made} {r : Returned} (h : Recorded s)
    (hp : p ∈ s.insiders) (hticket : r.ticket = (s.proc p).ticket) (hproc : r.proc = p)
    (hm : m ∈ s.made) (hmr : m.ticket = r.ticket) (hok : m.ok = r.ok)
    (hq : r.ok = true → r.proxy.id = m.addr ∧ r.proxy.pty = some (.master m.serial) ∧
      r.proxy.tty = some (.slave m.serial)) (hins : t.insiders = ∅) (htakes : t.takes = s.takes)
    (hhandled : t.handled = s.handled) (hmade : t.made = s.made)
    (hreturned : t.returned = s.returned ++ [r]) (hheap : t.heap = s.heap) : Recorded t := by
  have hagree := h.agreement
  obtain ⟨⟨returned, caller, exclusive, made, once, serials, order, senders⟩, made_lt,
    returned_once, insider⟩ := h
  obtain ⟨hsender, hnew⟩ := insider p hp
  have hreturned' : ∀ r' ∈ s.returned ++ [r], r' ∈ s.returned ∨ r' = r := fun r' hr' =>
    (List.mem_append.mp hr').imp_right List.mem_singleton.mp
  -- an object that an earlier call has returned was made for that call
  have hother : ∀ r' ∈ s.returned, r.ok = true → r'.ok = true → r.proxy.pty ≠ r'.proxy.pty := by
    intro r' hr' hrok hrok' hpty
    obtain ⟨m', hm', hmr', -, hq'⟩ := returned r' hr'
    rw [(hq hrok).2.1, (hq' hrok').2.1] at hpty
    have hserial : m.serial = m'.serial := by simpa using hpty
    obtain rfl := hagree.eq_of_serial hm hm' hserial
    exact hnew r' hr' (by rw [← hmr', hmr, hticket])
  refine ⟨⟨?_, ?_, ?_, ?_, ?_, ?_, ?_, ?_⟩, ?_, ?_, fun q hq => ?_⟩
  · rw [hreturned, hmade]
    intro r' hr'
    rcases hreturned' r' hr' with hr' | rfl
    · exact returned r' hr'
    · exact ⟨m, hm, hmr, hok, hq⟩
  · rw [hreturned, htakes]
    intro r' hr'
    rcases hreturned' r' hr' with hr' | rfl
    · exact caller r' hr'
    · rw [hticket, hproc]; exact hsender
  · rw [hreturned]
    intro r₁ h₁ r₂ h₂ hok₁ hok₂ hpty
    rcases hreturned' r₁ h₁ with old₁ | rfl <;> rcases hreturned' r₂ h₂ with old₂ | rfl
    · exact exclusive r₁ old₁ r₂ old₂ hok₁ hok₂ hpty
    · exact absurd hpty.symm (hother r₁ old₁ hok₂ hok₁)
    · exact absurd hpty (hother r₂ old₂ hok₁ hok₂)
    · rfl
  · rw [hmade, hhandled]; exact made
  · rw [hmade]; exact once
  · rw [hmade]; exact serials
  · rw [hhandled]; exact order
  · rw [hhandled, htakes]; exact senders
  · rw [hmade, hhandled, hheap]; exact made_lt
  · rw [hreturned, List.map_append]
    refine List.Nodup.append returned_once (List.nodup_singleton _)
      (List.disjoint_singleton.mpr fun hmem => ?_)
    obtain ⟨r', hr', hr''⟩ := List.mem_map.mp hmem
    exact hnew r' hr' (hr''.trans hticket)
  · rw [hins] at hq
    exact absurd hq (Finset.notMem_empty q)

/-- The helper handles a command, which may make an object. -/
theorem Recorded.handle {s t : System} {r : Request} {ms : List Made} (h : Recorded s)
    (pending : Pending s r) (hms : ∀ m ∈ ms, ms = [m] ∧ m.ticket = r.ticket ∧
      m.serial = s.heap.created ∧ s.heap.created < t.heap.created ∧ r.cmd.type = .get)
    (hins : t.insiders = s.insiders) (hproc : t.proc = s.proc) (htakes : t.takes = s.takes)
    (hhandled : t.handled = s.handled ++ [r]) (hmade : t.made = s.made ++ ms)
    (hreturned : t.returned = s.returned) (hheap : s.heap.created ≤ t.heap.created) :
    Recorded t := by
  obtain ⟨⟨returned, caller, exclusive, made, once, serials, order, senders⟩, made_lt,
    returned_once, insider⟩ := h
  have hnodup : ∀ {β : Type} (f : Made → β) (b : β), (s.made.map f).Nodup →
      (∀ m ∈ ms, f m = b) → (∀ m ∈ s.made, f m ≠ b) → (t.made.map f).Nodup := by
    intro β f b hnd hb hne
    rw [hmade]
    cases ms with
    | nil => rwa [List.append_nil]
    | cons m ms =>
      obtain ⟨hm, -⟩ := hms m List.mem_cons_self
      rw [hm, List.map_append]
      refine List.Nodup.append hnd (List.nodup_singleton _)
        (List.disjoint_singleton.mpr fun hmem => ?_)
      obtain ⟨m', hm', heq⟩ := List.mem_map.mp hmem
      exact hne m' hm' (heq.trans (hb m List.mem_cons_self))
  refine ⟨⟨?_, ?_, ?_, ?_, ?_, ?_, ?_, ?_⟩, ?_, ?_, fun q hq => ?_⟩
  · rw [hreturned, hmade]
    intro r' hr'
    obtain ⟨m, hm, hrest⟩ := returned r' hr'
    exact ⟨m, List.mem_append_left _ hm, hrest⟩
  · rw [hreturned, htakes]; exact caller
  · rw [hreturned]; exact exclusive
  · rw [hmade, hhandled]
    intro m hm
    rcases List.mem_append.mp hm with hm | hm
    · obtain ⟨r', hr', hrest⟩ := made m hm
      exact ⟨r', List.mem_append_left _ hr', hrest⟩
    · obtain ⟨-, hticket, -, -, htype⟩ := hms m hm
      exact ⟨r, List.mem_append_right _ (List.mem_singleton_self r), hticket.symm, htype⟩
  · refine hnodup Made.ticket r.ticket once (fun m hm => (hms m hm).2.1) fun m hm heq => ?_
    have := (made_lt m hm).1
    rw [heq, pending.ticket] at this
    omega
  · refine hnodup Made.serial s.heap.created serials (fun m hm => (hms m hm).2.2.1) ?_
    intro m hm heq
    have := (made_lt m hm).2
    omega
  · rw [hhandled, List.map_append, order, List.length_append, List.length_singleton,
      List.range_succ, ← pending.ticket]
    rfl
  · rw [hhandled, htakes]
    intro r' hr'
    rcases List.mem_append.mp hr' with hr' | hr'
    · exact senders r' hr'
    · rw [List.mem_singleton.mp hr']
      exact pending.sender
  · rw [hmade, hhandled, List.length_append, List.length_singleton]
    intro m hm
    rcases List.mem_append.mp hm with hm | hm
    · have := made_lt m hm
      omega
    · obtain ⟨-, hticket, hserial, hlt, -⟩ := hms m hm
      rw [hticket, hserial, pending.ticket]
      omega
  · rw [hreturned]; exact returned_once
  · rw [hins] at hq
    rw [htakes, hreturned, hproc]
    exact insider q hq

/-! ## Runs -/

theorem recorded_client {s t : System} {p : Pid} {a : ClientAct} (hphase : Phase s)
    (h : Recorded s) (hp : p ∈ s.procs) (ht : ClientTrans s p (s.proc p) a t)
    (hu : (Action.client p a).Uninterrupted) : Recorded t := by
  have hins := ht.insiders hp
  have hkeeps := ht.keeps hp
  cases ht with
  | interrupted pc => cases hu
  | @take c pc byte =>
    exact h.take (hphase.offered byte).1 hins (by simp [System.enter]) rfl rfl rfl rfl rfl
  | @give ret pc =>
    have hmem := mem_insiders_of_pc hp pc rfl
    obtain ⟨held, hin⟩ := hphase.of_mem hmem
    cases ret with
    | none =>
      exact h.frame rfl rfl rfl (List.append_nil _) rfl (hkeeps (by rintro b ⟨⟩))
    | some ret =>
      obtain ⟨i, ok⟩ := ret
      obtain ⟨m, -, answering⟩ := hin.of_give pc
      obtain ⟨-, -, hok, q, hq, hproxy⟩ := answering.complete pc
      refine h.returns (r := ⟨p, (s.proc p).ticket, ok, q⟩) hmem rfl rfl answering.mem
        answering.ticket hok hproxy ?_ rfl rfl rfl ?_ rfl
      · rw [hins]
        show s.insiders.erase p = ∅
        rw [held.insiders, Finset.erase_singleton]
      · simp [Process.result, hq]
  | create | fork | skip | call | write | readNull | readId | failId | recvPty | recvTty | failPty
  | failTty => exact h.frame rfl rfl rfl rfl rfl (hkeeps (by rintro b ⟨⟩))

theorem recorded_helper {s t : System} {a : HelperAct} (hphase : Phase s) (h : Recorded s)
    (ht : HelperTrans s a t) : Recorded t := by
  have hins := ht.insiders
  have hpend : ∀ {r}, s.pc = .handle r → Pending s r := by
    intro r hpc
    obtain ⟨r', pending, -⟩ := hphase.of_pending (Or.inl ⟨r, hpc⟩)
    rwa [pending.eq_of_handle hpc] at pending
  cases ht with
  | @got r a pc type nonnull free =>
    refine h.handle (hpend pc) (fun m hm => ?_) hins rfl rfl rfl rfl rfl (Nat.le_succ _)
    obtain rfl := List.mem_singleton.mp hm
    exact ⟨rfl, rfl, rfl, Nat.lt_succ_self _, type⟩
  | @notGot r a pc type nonnull free =>
    refine h.handle (hpend pc) (fun m hm => ?_) hins rfl rfl rfl rfl rfl (Nat.le_succ _)
    obtain rfl := List.mem_singleton.mp hm
    exact ⟨rfl, rfl, rfl, Nat.lt_succ_self _, type⟩
  | login pc | destroy pc | ignore pc =>
    exact h.handle (hpend pc) (by rintro m ⟨⟩) hins rfl rfl rfl (List.append_nil _).symm rfl le_rfl
  | give | read | writeNull | writeId | sendPty | sendTty | interrupted | need =>
    exact h.frame rfl rfl rfl rfl rfl fun p hp => ⟨hins ▸ hp, rfl, rfl⟩

/-- The invariant of the runs without interrupted `NEED_TOKEN`. -/
theorem recorded_step {s t : System} {a : Action} (h : Phase s ∧ Recorded s)
    (hu : a.Uninterrupted) (ht : step s a = some t) : Phase t ∧ Recorded t := by
  refine ⟨phase_step h.1 hu ht, ?_⟩
  cases trans_of_step ht with
  | client mem trans => exact recorded_client h.1 h.2 mem trans hu
  | helper trans => exact recorded_helper h.1 h.2 trans

/-- **Agreement.** If no `read` of the lock socket is interrupted, what `get` returns is what the
helper has made for that call, and the commands are handled in the order of `NEED_TOKEN`. -/
theorem answers_agree {as : List Action} (h : ∀ a ∈ as, a.Uninterrupted) :
    Always step Agreement initial as := by
  have hinv : Always step (fun s => Phase s ∧ Recorded s) initial as :=
    always_of_along (fun s a t hs hu ht => recorded_step hs hu ht)
      ⟨phase_initial, recorded_initial⟩ (along_of_forall h initial)
  exact hinv.mono fun s hs => hs.2.agreement

theorem answers_agree_twoProcesses : ∃ s, run step initial twoProcesses = some s ∧
    s.procs = {1, 0} ∧ Always step Agreement initial twoProcesses := by
  obtain ⟨s, hs, hprocs⟩ := twoProcesses_runs
  refine ⟨s, hs, hprocs, answers_agree ?_⟩
  simp [twoProcesses, getRun, destroyRun, Action.Uninterrupted]

end Libptytty.Shared
