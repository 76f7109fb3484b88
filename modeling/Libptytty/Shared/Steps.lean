import Libptytty.Shared.System

/-!
# What a step can do

One constructor for each way in which a process or the helper takes a step, with its guard and the
state it leads to. The invariants are proved by cases on these; `step` is not unfolded again.
-/

namespace Libptytty.Shared

open CString Memory

/-- The process `p`, which is `x`, takes the step. -/
inductive ClientTrans (s : System) (p : Pid) (x : Process) : ClientAct → System → Prop
  | create {i} (pc : x.pc = .idle) (free : x.objs i = none) :
    ClientTrans s p x (.create i) (s.set p (x.put i (some .new)))
  | fork {q} (pc : x.pc = .idle) (unused : q ∉ s.procs) :
    ClientTrans s p x (.fork q)
      { s with procs := insert q s.procs, proc := Function.update s.proc q x }
  | skip {c q} (pc : x.pc = .idle) (proxy : x.objs c.index = some q) (skips : c.skips q = true) :
    ClientTrans s p x (.call c)
      { s.set p (x.put c.index none) with exits := s.exits ++ [⟨p, 0, 0⟩] }
  | call {c q} (pc : x.pc = .idle) (proxy : x.objs c.index = some q) (skips : c.skips q = false) :
    ClientTrans s p x (.call c) (s.set p { x with pc := .needToken c })
  | interrupted {c} (pc : x.pc = .needToken c) :
    ClientTrans s p x (.take true) (s.enter p x c 0)
  | take {c} (pc : x.pc = .needToken c) (byte : s.clientBytes ≠ 0) :
    ClientTrans s p x (.take false) { s.enter p x c 1 with clientBytes := s.clientBytes - 1 }
  | write {c q junk} (pc : x.pc = .write c) (proxy : x.objs c.index = some q) :
    ClientTrans s p x (.write junk)
      { s.set p { x.written c with pc := c.written } with
        requests := s.requests ++ [⟨c.command q junk, x.ticket, p, q.origin⟩] }
  | readNull {i q rest} (pc : x.pc = .readId i) (proxy : x.objs i = some q)
    (answers : s.answers = .id 0 :: rest) :
    ClientTrans s p x .readId
      { s.set p { x.put i (some { q with id := 0, origin := some x.ticket }) with
          pc := .giveToken (some (i, false)) } with answers := rest }
  | readId {i q a rest} (pc : x.pc = .readId i) (proxy : x.objs i = some q)
    (answers : s.answers = .id a :: rest) (nonnull : a ≠ 0) :
    ClientTrans s p x .readId
      { s.set p { x.put i (some { q with id := a, origin := some x.ticket }) with
          pc := .recvPty i } with answers := rest }
  | failId {i q garbage taken} (pc : x.pc = .readId i) (proxy : x.objs i = some q) :
    ClientTrans s p x (.failId garbage taken) (s.throw p x i { q with id := garbage } taken)
  | recvPty {i q e rest} (pc : x.pc = .recvPty i) (proxy : x.objs i = some q)
    (answers : s.answers = .fd e :: rest) :
    ClientTrans s p x .recvFd
      { s.set p { x.put i (some { q with pty := some e }) with pc := .recvTty i } with
        answers := rest }
  | recvTty {i q e rest} (pc : x.pc = .recvTty i) (proxy : x.objs i = some q)
    (answers : s.answers = .fd e :: rest) :
    ClientTrans s p x .recvFd
      { s.set p { x.put i (some { q with tty := some e }) with
          pc := .giveToken (some (i, true)) } with answers := rest }
  | failPty {i q taken} (pc : x.pc = .recvPty i) (proxy : x.objs i = some q) :
    ClientTrans s p x (.failFd taken) (s.throw p x i { q with pty := none } taken)
  | failTty {i q taken} (pc : x.pc = .recvTty i) (proxy : x.objs i = some q) :
    ClientTrans s p x (.failFd taken) (s.throw p x i { q with tty := none } taken)
  | give {ret} (pc : x.pc = .giveToken ret) :
    ClientTrans s p x .give
      { s.set p { x with pc := .idle } with
        serverBytes := s.serverBytes + 1
        exits := s.exits ++ [⟨p, x.took, 1⟩]
        returned := s.returned ++ x.result p ret }

/-- The helper takes the step. -/
inductive HelperTrans (s : System) : HelperAct → System → Prop
  | give (pc : s.pc = .giveToken) :
    HelperTrans s .give { s with pc := .readCmd, clientBytes := s.clientBytes + 1 }
  | read {r rest} (pc : s.pc = .readCmd) (requests : s.requests = r :: rest) :
    HelperTrans s .read { s with pc := .handle r, requests := rest }
  | got {r a} (pc : s.pc = .handle r) (type : r.cmd.type = .get) (nonnull : a ≠ 0)
    (free : s.heap.cells a = none) :
    HelperTrans s (.handle a true)
      { s with
        made := s.made ++ [⟨r.ticket, s.heap.created, a, true⟩]
        handled := s.handled ++ [r]
        heap := s.heap.alloc a ⟨some (.master s.heap.created), some (.slave s.heap.created)⟩
        pc := .writeId a }
  | notGot {r a} (pc : s.pc = .handle r) (type : r.cmd.type = .get) (nonnull : a ≠ 0)
    (free : s.heap.cells a = none) :
    HelperTrans s (.handle a false)
      { s with
        made := s.made ++ [⟨r.ticket, s.heap.created, a, false⟩]
        handled := s.handled ++ [r]
        heap := (s.heap.alloc a ⟨none, none⟩).free a
        pc := .writeId 0 }
  | login {r a ok} (pc : s.pc = .handle r) (type : r.cmd.type = .login)
    (listed : r.cmd.id ∈ s.ptys) :
    HelperTrans s (.handle a ok)
      { s with
        handled := s.handled ++ [r]
        pc := .needToken
        effects := s.effects ++ s.effect r false }
  | destroy {r a ok} (pc : s.pc = .handle r) (type : r.cmd.type = .destroy)
    (listed : r.cmd.id ∈ s.ptys) :
    HelperTrans s (.handle a ok)
      { s with
        handled := s.handled ++ [r]
        pc := .needToken
        heap := s.heap.free r.cmd.id
        ptys := s.ptys.erase r.cmd.id
        effects := s.effects ++ s.effect r true }
  | ignore {r a ok} (pc : s.pc = .handle r) (type : r.cmd.type = .login ∨ r.cmd.type = .destroy)
    (listed : r.cmd.id ∉ s.ptys) :
    HelperTrans s (.handle a ok) { s with handled := s.handled ++ [r], pc := .needToken }
  | writeNull (pc : s.pc = .writeId 0) :
    HelperTrans s .writeId { s with answers := s.answers ++ [.id 0], pc := .needToken }
  | writeId {a} (pc : s.pc = .writeId a) (nonnull : a ≠ 0) :
    HelperTrans s .writeId
      { s with answers := s.answers ++ [.id a], ptys := s.ptys ++ [a], pc := .sendPty a }
  | sendPty {a c ok} (pc : s.pc = .sendPty a) (cell : s.heap.cells a = some c) :
    HelperTrans s (.send ok)
      { s with answers := s.answers ++ System.fdMessage ok c.obj.pty, pc := .sendTty a }
  | sendTty {a c ok} (pc : s.pc = .sendTty a) (cell : s.heap.cells a = some c) :
    HelperTrans s (.send ok)
      { s with
        answers := s.answers ++ System.fdMessage ok c.obj.tty
        heap := s.heap.modify a fun x => { x with tty := none }
        pc := .needToken }
  | interrupted (pc : s.pc = .needToken) : HelperTrans s (.need true) { s with pc := .giveToken }
  | need (pc : s.pc = .needToken) (byte : s.serverBytes ≠ 0) :
    HelperTrans s (.need false) { s with pc := .giveToken, serverBytes := s.serverBytes - 1 }

/-- A step of the system. -/
inductive Trans (s : System) : Action → System → Prop
  | client {p a t} (mem : p ∈ s.procs) (trans : ClientTrans s p (s.proc p) a t) :
    Trans s (.client p a) t
  | helper {a t} (trans : HelperTrans s a t) : Trans s (.helper a) t

theorem clientTrans_of_step {s t : System} {p : Pid} {x : Process} {a : ClientAct}
    (h : clientStep p x s a = some t) : ClientTrans s p x a t := by
  cases a with
  | create i =>
    simp only [clientStep] at h
    split at h <;> cases h
    exact .create ‹_› ‹_›
  | fork q =>
    simp only [clientStep] at h
    split at h
    · split_ifs at h with hq
      cases h
      exact .fork ‹_› hq
    · cases h
  | call c =>
    simp only [clientStep] at h
    split at h
    · split_ifs at h with hs <;> cases h
      · exact .skip ‹_› ‹_› hs
      · exact .call ‹_› ‹_› (by simpa using hs)
    · cases h
  | take interrupted =>
    simp only [clientStep] at h
    split at h
    · split_ifs at h with hi hb <;> cases h
      · rw [hi]; exact .interrupted ‹_›
      · rw [Bool.eq_false_iff.mpr hi]; exact .take ‹_› hb
    · cases h
  | write junk =>
    simp only [clientStep] at h
    split at h
    · obtain ⟨q, hq, rfl⟩ := Option.map_eq_some_iff.mp h
      exact .write ‹_› hq
    · cases h
  | readId =>
    simp only [clientStep] at h
    split at h
    · obtain ⟨q, hq, rfl⟩ := Option.map_eq_some_iff.mp h
      split_ifs with ha
      · subst ha; exact .readNull ‹_› hq ‹_›
      · exact .readId ‹_› hq ‹_› ha
    · cases h
  | failId garbage taken =>
    simp only [clientStep] at h
    split at h
    · obtain ⟨q, hq, rfl⟩ := Option.map_eq_some_iff.mp h
      exact .failId ‹_› hq
    · cases h
  | recvFd =>
    simp only [clientStep] at h
    split at h
    · obtain ⟨q, hq, rfl⟩ := Option.map_eq_some_iff.mp h
      exact .recvPty ‹_› hq ‹_›
    · obtain ⟨q, hq, rfl⟩ := Option.map_eq_some_iff.mp h
      exact .recvTty ‹_› hq ‹_›
    · cases h
  | failFd taken =>
    simp only [clientStep] at h
    split at h
    · obtain ⟨q, hq, rfl⟩ := Option.map_eq_some_iff.mp h
      exact .failPty ‹_› hq
    · obtain ⟨q, hq, rfl⟩ := Option.map_eq_some_iff.mp h
      exact .failTty ‹_› hq
    · cases h
  | give =>
    simp only [clientStep] at h
    split at h <;> cases h
    exact .give ‹_›

theorem helperTrans_of_step {s t : System} {a : HelperAct} (h : helperStep s a = some t) :
    HelperTrans s a t := by
  cases a with
  | give =>
    simp only [helperStep] at h
    split at h <;> cases h
    exact .give ‹_›
  | read =>
    simp only [helperStep] at h
    split at h <;> cases h
    exact .read ‹_› ‹_›
  | handle a ok =>
    simp only [helperStep] at h
    split at h
    · rename_i r hpc
      split at h
      · split_ifs at h with hbad
        push Not at hbad
        have hfree : s.heap.cells a = none := by simpa using hbad.2
        cases h
        cases ok with
        | true => exact .got hpc ‹_› hbad.1 hfree
        | false => exact .notGot hpc ‹_› hbad.1 hfree
      · cases h
        unfold System.handleLogin
        dsimp only
        split_ifs with hfind
        · exact .login hpc ‹_› (Estl.find_ne_length.mp hfind)
        · exact .ignore hpc (Or.inl ‹_›) (mt Estl.find_ne_length.mpr hfind)
      · cases h
        unfold System.handleDestroy
        dsimp only
        split_ifs with hfind
        · have hlisted := Estl.find_ne_length.mp hfind
          rw [Estl.getD_find hlisted, Estl.erase_find hlisted]
          exact .destroy hpc ‹_› hlisted
        · exact .ignore hpc (Or.inr ‹_›) (mt Estl.find_ne_length.mpr hfind)
      · cases h
    · cases h
  | writeId =>
    simp only [helperStep] at h
    split at h
    · split_ifs at h with ha <;> cases h
      · subst ha; exact .writeNull ‹_›
      · exact .writeId ‹_› ha
    · cases h
  | send ok =>
    simp only [helperStep] at h
    split at h
    · obtain ⟨c, hc, rfl⟩ := Option.map_eq_some_iff.mp h
      exact .sendPty ‹_› hc
    · obtain ⟨c, hc, rfl⟩ := Option.map_eq_some_iff.mp h
      exact .sendTty ‹_› hc
    · cases h
  | need interrupted =>
    simp only [helperStep] at h
    split at h
    · split_ifs at h with hi hb <;> cases h
      · rw [hi]; exact .interrupted ‹_›
      · rw [Bool.eq_false_iff.mpr hi]; exact .need ‹_› hb
    · cases h

theorem trans_of_step {s t : System} {a : Action} (h : step s a = some t) : Trans s a t := by
  cases a with
  | client p a =>
    simp only [step] at h
    split_ifs at h with hp
    exact .client hp (clientTrans_of_step h)
  | helper a => exact .helper (helperTrans_of_step h)

/-! ## Who is inside -/

theorem mem_insiders {s : System} {p : Pid} :
    p ∈ s.insiders ↔ p ∈ s.procs ∧ (s.proc p).pc.inside = true := Finset.mem_filter

/-- A process of the system that is now inside. -/
theorem insiders_insert {s t : System} {p : Pid} {x : Process} (hp : p ∈ s.procs)
    (hprocs : t.procs = s.procs) (hproc : t.proc = Function.update s.proc p x)
    (hx : x.pc.inside = true) : t.insiders = insert p s.insiders := by
  ext q
  rw [Finset.mem_insert, mem_insiders, mem_insiders, hprocs, hproc]
  by_cases hq : q = p
  · subst hq
    rw [Function.update_self]
    exact ⟨fun _ => Or.inl rfl, fun _ => ⟨hp, hx⟩⟩
  · rw [Function.update_of_ne hq]
    exact ⟨Or.inr, fun h => h.resolve_left hq⟩

/-- A process that is now outside. -/
theorem insiders_erase {s t : System} {p : Pid} {x : Process} (hprocs : t.procs = s.procs)
    (hproc : t.proc = Function.update s.proc p x) (hx : x.pc.inside = false) :
    t.insiders = s.insiders.erase p := by
  ext q
  rw [Finset.mem_erase, mem_insiders, mem_insiders, hprocs, hproc]
  by_cases hq : q = p
  · subst hq
    rw [Function.update_self, hx]
    simp
  · rw [Function.update_of_ne hq]
    exact ⟨fun h => ⟨hq, h⟩, fun h => h.2⟩

/-- A new process is where its parent is. -/
theorem within_fork {P : Pc → Bool} {s t : System} {q : Pid} {x : Process} (hq : q ∉ s.procs)
    (hprocs : t.procs = insert q s.procs) (hproc : t.proc = Function.update s.proc q x)
    (hx : P x.pc = false) : t.within P = s.within P := by
  ext p
  unfold System.within
  rw [Finset.mem_filter, Finset.mem_filter, hprocs, hproc, Finset.mem_insert]
  by_cases hp : p = q
  · subst hp
    rw [Function.update_self, hx]
    simp [hq]
  · rw [Function.update_of_ne hp]
    simp [hp]

/-- The count of the processes at some points changes with the process that moves. -/
theorem card_within {P : Pc → Bool} {s t : System} {p : Pid} {x : Process} (hp : p ∈ s.procs)
    (hprocs : t.procs = s.procs) (hproc : t.proc = Function.update s.proc p x) :
    (t.within P).card + (P (s.proc p).pc).toNat = (s.within P).card + (P x.pc).toNat := by
  have hsplit : ∀ u : System, u.procs = s.procs → (u.within P).card =
      ((s.procs.erase p).filter fun q => P (u.proc q).pc).card + (P (u.proc p).pc).toNat := by
    intro u hu
    unfold System.within
    rw [hu, ← Finset.insert_erase hp, Finset.filter_insert, Finset.erase_insert_eq_erase,
      Finset.erase_idem]
    cases hP : P (u.proc p).pc with
    | false => simp
    | true => simp
  have hrest : ((s.procs.erase p).filter fun q => P (t.proc q).pc) =
      (s.procs.erase p).filter fun q => P (s.proc q).pc := by
    refine Finset.filter_congr fun q hq => ?_
    rw [hproc, Function.update_of_ne (Finset.ne_of_mem_erase hq)]
  have hs := hsplit s rfl
  have ht := hsplit t hprocs
  rw [hrest, hproc, Function.update_self] at ht
  omega

theorem mem_insiders_of_pc {s : System} {p : Pid} {pc : Pc} (hp : p ∈ s.procs)
    (hpc : (s.proc p).pc = pc) (hin : pc.inside = true) : p ∈ s.insiders :=
  mem_insiders.mpr ⟨hp, by rw [hpc, hin]⟩

theorem not_mem_insiders {s : System} {p : Pid} (h : (s.proc p).pc.inside = false) :
    p ∉ s.insiders := by
  rw [mem_insiders, h]
  simp

/-- A process that stays outside changes nothing about who is inside. -/
theorem insiders_away {s t : System} {p : Pid} {x : Process} (h : (s.proc p).pc.inside = false)
    (hprocs : t.procs = s.procs) (hproc : t.proc = Function.update s.proc p x)
    (hx : x.pc.inside = false) : t.insiders = s.insiders := by
  rw [insiders_erase hprocs hproc hx, Finset.erase_eq_of_notMem (not_mem_insiders h)]

/-- A process that stays inside changes nothing about who is. -/
theorem insiders_stay {s t : System} {p : Pid} {x : Process} (hp : p ∈ s.insiders)
    (hprocs : t.procs = s.procs) (hproc : t.proc = Function.update s.proc p x)
    (hx : x.pc.inside = true) : t.insiders = s.insiders := by
  rw [insiders_insert (mem_insiders.mp hp).1 hprocs hproc hx, Finset.insert_eq_of_mem hp]

/-- Who is inside after a step of `p`. -/
def System.insidersAfter (s : System) (p : Pid) : ClientAct → Finset Pid
  | .take _ => insert p s.insiders
  | .failId _ _ | .failFd _ | .give => s.insiders.erase p
  | _ => s.insiders

theorem ClientTrans.insiders {s t : System} {p : Pid} {a : ClientAct} (hp : p ∈ s.procs)
    (h : ClientTrans s p (s.proc p) a t) : t.insiders = s.insidersAfter p a := by
  have outside : ∀ {pc}, (s.proc p).pc = pc → pc.inside = false →
      (s.proc p).pc.inside = false := fun hpc hin => by rw [hpc, hin]
  cases h with
  | create pc free => exact insiders_away (outside pc rfl) rfl rfl (outside pc rfl)
  | fork pc unused => exact within_fork (P := Pc.inside) unused rfl rfl (outside pc rfl)
  | skip pc proxy skips => exact insiders_away (outside pc rfl) rfl rfl (outside pc rfl)
  | call pc proxy skips => exact insiders_away (outside pc rfl) rfl rfl rfl
  | interrupted pc => exact insiders_insert hp rfl rfl rfl
  | take pc byte => exact insiders_insert hp rfl rfl rfl
  | @write c q junk pc proxy =>
    have hin : c.written.inside = true := by cases c <;> rfl
    exact insiders_stay (mem_insiders_of_pc hp pc rfl) rfl rfl hin
  | readNull pc proxy answers => exact insiders_stay (mem_insiders_of_pc hp pc rfl) rfl rfl rfl
  | readId pc proxy answers nonnull =>
    exact insiders_stay (mem_insiders_of_pc hp pc rfl) rfl rfl rfl
  | failId pc proxy => exact insiders_erase rfl rfl rfl
  | recvPty pc proxy answers => exact insiders_stay (mem_insiders_of_pc hp pc rfl) rfl rfl rfl
  | recvTty pc proxy answers => exact insiders_stay (mem_insiders_of_pc hp pc rfl) rfl rfl rfl
  | failPty pc proxy => exact insiders_erase rfl rfl rfl
  | failTty pc proxy => exact insiders_erase rfl rfl rfl
  | give pc => exact insiders_erase rfl rfl rfl

/-- A step of the helper does not change who is inside. -/
theorem HelperTrans.insiders {s t : System} {a : HelperAct} (h : HelperTrans s a t) :
    t.insiders = s.insiders := by
  cases h <;> rfl

/-- A process keeps its history inside. -/
theorem ClientTrans.keeps {s t : System} {p : Pid} {a : ClientAct} (hp : p ∈ s.procs)
    (h : ClientTrans s p (s.proc p) a t) (ha : ∀ b, a ≠ .take b) :
    ∀ q ∈ t.insiders, q ∈ s.insiders ∧ (t.proc q).ticket = (s.proc q).ticket ∧
      (t.proc q).took = (s.proc q).took := by
  have hsub : t.insiders ⊆ s.insiders := by
    rw [h.insiders hp]
    cases a with
    | take b => exact absurd rfl (ha b)
    | failId | failFd | give => exact Finset.erase_subset _ _
    | create | fork | call | write | readId | recvFd => exact Finset.Subset.refl _
  intro q hq
  refine ⟨hsub hq, ?_⟩
  have same : ∀ {x : Process}, x.ticket = (s.proc p).ticket → x.took = (s.proc p).took →
      (Function.update s.proc p x q).ticket = (s.proc q).ticket ∧
        (Function.update s.proc p x q).took = (s.proc q).took := by
    intro x hticket htook
    by_cases hqp : q = p
    · subst hqp; rw [Function.update_self]; exact ⟨hticket, htook⟩
    · rw [Function.update_of_ne hqp]; exact ⟨rfl, rfl⟩
  cases h with
  | interrupted | take => exact absurd rfl (ha _)
  | @fork q' pc unused =>
    have hne : q ≠ q' := by
      rintro rfl
      exact unused (mem_insiders.mp (hsub hq)).1
    show (Function.update s.proc q' _ q).ticket = _ ∧ (Function.update s.proc q' _ q).took = _
    rw [Function.update_of_ne hne]
    exact ⟨rfl, rfl⟩
  | @write c => exact same (by cases c <;> rfl) (by cases c <;> rfl)
  | create | skip | call | readNull | readId | failId | recvPty | recvTty | failPty | failTty
  | give => exact same rfl rfl

end Libptytty.Shared
