import Libptytty.Shared.Steps

/-!
# Commands in flight

The helper gives a token before it reads a command, and a client writes one command for each token
that it takes. So while the helper is in `read` there is one token for the clients, one client about
to write, or one command in the socket, and at all other times there is none of them (`flow_step`).
This does not depend on what the helper reads from the lock socket, or on how methods are left.

The helper is therefore never stuck before `NEED_TOKEN` unless it waits for a client
(`exists_serve_step`).
-/

namespace Libptytty.Shared

open CString Memory

/-- Between `NEED_TOKEN` and the `write` of the command. -/
def Pc.writing : Pc → Bool
  | .write _ => true
  | _ => false

/-- The helper is in the `read` of a command. -/
def System.reading (s : System) : ℕ :=
  match s.pc with
  | .readCmd => 1
  | _ => 0

/-- One token or command for each `read` of the helper. -/
def Flow (s : System) : Prop :=
  s.clientBytes + (s.within Pc.writing).card + s.requests.length = s.reading

theorem flow_initial : Flow initial := rfl

theorem flow_client {s t : System} {p : Pid} {a : ClientAct} (hp : p ∈ s.procs) (h : Flow s)
    (hu : (Action.client p a).TakesByte) (ht : ClientTrans s p (s.proc p) a t) : Flow t := by
  have count : ∀ {x : Process} {b b' : Bool}, Pc.writing (s.proc p).pc = b →
      Pc.writing x.pc = b' → t.procs = s.procs → t.proc = Function.update s.proc p x →
      (t.within Pc.writing).card + b.toNat = (s.within Pc.writing).card + b'.toNat := by
    rintro x b b' rfl rfl hprocs hproc
    exact card_within hp hprocs hproc
  have same : ∀ {x : Process} {pc}, (s.proc p).pc = pc → pc.writing = false →
      x.pc.writing = false → t.procs = s.procs → t.proc = Function.update s.proc p x →
      t.clientBytes = s.clientBytes → t.requests = s.requests → t.pc = s.pc → Flow t := by
    intro x pc hpc hold hnew hprocs hproc hbytes hreqs hserve
    have hcount := count (hpc ▸ hold) hnew hprocs hproc
    unfold Flow System.reading at h ⊢
    rw [hbytes, hreqs, hserve, Nat.add_right_cancel hcount]
    exact h
  cases ht with
  | interrupted => cases hu
  | take pc byte =>
    have hcount := count (congrArg Pc.writing pc) rfl rfl rfl
    unfold Flow System.reading at h ⊢
    simp only [System.enter, Pc.writing, Bool.toNat_true, Bool.toNat_false] at hcount ⊢
    omega
  | @write c q junk pc proxy =>
    have hwritten : c.written.writing = false := by cases c <;> rfl
    have hcount := count (congrArg Pc.writing pc) hwritten rfl rfl
    unfold Flow System.reading at h ⊢
    simp only [System.set, Pc.writing, List.length_append, List.length_singleton,
      Bool.toNat_true, Bool.toNat_false] at hcount ⊢
    omega
  | @fork q pc unused =>
    have hsame := within_fork (P := Pc.writing) (t := { s with
      procs := insert q s.procs, proc := Function.update s.proc q (s.proc p) }) unused rfl rfl
      (by rw [pc]; rfl)
    unfold Flow at h ⊢
    rw [hsame]
    exact h
  | create pc | skip pc =>
    exact same pc rfl (by simp [Process.put, pc, Pc.writing]) rfl rfl rfl rfl rfl
  | call pc | readNull pc | readId pc | failId pc | recvPty pc | recvTty pc | failPty pc
  | failTty pc | give pc => exact same pc rfl rfl rfl rfl rfl rfl rfl

theorem flow_helper {s t : System} {a : HelperAct} (h : Flow s) (ht : HelperTrans s a t) :
    Flow t := by
  have hwithin : t.within Pc.writing = s.within Pc.writing := by cases ht <;> rfl
  unfold Flow System.reading at h ⊢
  rw [hwithin]
  cases ht with
  | give pc =>
    rw [pc] at h
    dsimp only at h ⊢
    omega
  | read pc requests =>
    rw [pc, requests, List.length_cons] at h
    dsimp only at h ⊢
    omega
  | got pc | notGot pc | login pc | destroy pc | ignore pc | writeNull pc | writeId pc | sendPty pc
  | sendTty pc | interrupted pc | need pc =>
    rw [pc] at h
    exact h

theorem flow_step {s t : System} {a : Action} (h : Flow s) (hu : a.TakesByte)
    (ht : step s a = some t) : Flow t := by
  cases trans_of_step ht with
  | client mem trans => exact flow_client mem h hu trans
  | helper trans => exact flow_helper h trans

/-! ## What the helper works on -/

/-- The commands that have been written but not handled. -/
def System.HasRequest (s : System) (r : Request) : Prop := r ∈ s.requests ∨ s.pc = .handle r

/-- The object that the helper is answering with. -/
def HelperPc.object : HelperPc → Option Addr
  | .writeId a => if a = 0 then none else some a
  | .sendPty a | .sendTty a => some a
  | _ => none

/-- The clients send known commands, and the helper answers with an object that exists. -/
structure Served (s : System) : Prop where
  known : ∀ r, s.HasRequest r → ∀ v, r.cmd.type ≠ .other v
  object : ∀ a ∈ s.pc.object, (s.heap.cells a).isSome

theorem served_initial : Served initial := by
  refine ⟨fun r hr => ?_, by rintro a ⟨⟩⟩
  rcases hr with hr | hr <;> cases hr

theorem Call.command_known (q : Proxy) (junk : Command) (c : Call) (v : ℕ) :
    (c.command q junk).type ≠ .other v := by
  cases c <;> rintro ⟨⟩

theorem served_client {s t : System} {p : Pid} {a : ClientAct} (h : Served s)
    (ht : ClientTrans s p (s.proc p) a t) : Served t := by
  cases ht with
  | write pc proxy =>
    refine ⟨fun r hr => ?_, h.object⟩
    rcases hr with hr | hr
    · rcases List.mem_append.mp hr with hr | hr
      · exact h.known r (Or.inl hr)
      · rw [List.mem_singleton.mp hr]
        exact Call.command_known _ _ _
    · exact h.known r (Or.inr hr)
  | _ => exact ⟨h.known, h.object⟩

theorem served_helper {s t : System} {a : HelperAct} (h : Served s) (ht : HelperTrans s a t) :
    Served t := by
  have queued : ∀ r, r ∈ s.requests → ∀ v, r.cmd.type ≠ .other v :=
      fun r hr => h.known r (Or.inl hr)
  cases ht with
  | @read r rest pc requests =>
    refine ⟨fun r' hr => ?_, by rintro a ⟨⟩⟩
    rcases hr with hr | hr
    · exact queued r' (requests ▸ List.mem_cons_of_mem r hr)
    · cases hr
      exact queued r (requests ▸ List.mem_cons_self)
  | @got r a pc type nonnull free =>
    refine ⟨fun r' hr => hr.elim (queued r') (by rintro ⟨⟩), fun b hb => ?_⟩
    obtain rfl : a = b := by simpa [HelperPc.object, nonnull] using hb
    rw [Heap.cells_alloc, if_pos rfl]
    rfl
  | writeId pc nonnull =>
    refine ⟨fun r' hr => hr.elim (queued r') (by rintro ⟨⟩), fun b hb => h.object b ?_⟩
    rw [pc]
    simpa [HelperPc.object, nonnull] using hb
  | sendPty pc cell =>
    refine ⟨fun r' hr => hr.elim (queued r') (by rintro ⟨⟩), fun b hb => h.object b ?_⟩
    rw [pc]
    exact hb
  | notGot =>
    exact ⟨fun r' hr => hr.elim (queued r') (by rintro ⟨⟩), by simp [HelperPc.object]⟩
  | give | login | destroy | ignore | writeNull | sendTty | interrupted | need =>
    exact ⟨fun r' hr => hr.elim (queued r') (by rintro ⟨⟩), by rintro b ⟨⟩⟩

theorem served_step {s t : System} {a : Action} (h : Served s) (ht : step s a = some t) :
    Served t := by
  cases trans_of_step ht with
  | client mem trans => exact served_client h trans
  | helper trans => exact served_helper h trans

/-! ## The helper moves on -/

/-- The helper can take a step by itself, unless it waits for a command or for a token. -/
theorem exists_serve_step {s : System} (h : Served s)
    (hread : s.pc = .readCmd → s.requests ≠ []) (hneed : s.pc = .needToken → s.serverBytes ≠ 0) :
    ∃ a t, (Action.helper a).Uninterrupted ∧ helperStep s a = some t := by
  have possible : ∀ a, (Action.helper a).Uninterrupted → (helperStep s a).isSome →
      ∃ a t, (Action.helper a).Uninterrupted ∧ helperStep s a = some t := by
    intro a hu ha
    obtain ⟨t, ht⟩ := Option.isSome_iff_exists.mp ha
    exact ⟨a, t, hu, ht⟩
  have hobject := h.object
  cases hpc : s.pc with
  | giveToken => exact possible .give trivial (by simp [helperStep, hpc])
  | readCmd =>
    obtain ⟨r, rest, hreqs⟩ := List.exists_cons_of_ne_nil (hread hpc)
    exact possible .read trivial (by simp [helperStep, hpc, hreqs])
  | handle r =>
    cases htype : r.cmd.type with
    | get =>
      obtain ⟨a, hnonnull, hfree⟩ := s.heap.exists_free
      exact possible (.handle a true) trivial (by simp [helperStep, hpc, htype, hnonnull, hfree])
    | login => exact possible (.handle 0 true) trivial (by simp [helperStep, hpc, htype])
    | destroy => exact possible (.handle 0 true) trivial (by simp [helperStep, hpc, htype])
    | other v => exact absurd htype (h.known r (Or.inr hpc) v)
  | writeId a =>
    refine possible .writeId trivial ?_
    by_cases ha : a = 0 <;> simp [helperStep, hpc, ha]
  | sendPty a | sendTty a =>
    have hcell := hobject a (by rw [hpc]; rfl)
    exact possible (.send true) trivial (by simpa [helperStep, hpc] using hcell)
  | needToken => exact possible (.need false) rfl (by simp [helperStep, hpc, hneed hpc])

end Libptytty.Shared
