import Libptytty.Shared.Flow
import Libptytty.Shared.Token

/-!
# Leaving a method

Every exit of `login`, of the destructor and of a `get` that returns gives the token back, so that
the helper comes to `GIVE_TOKEN` and the next call can take it. The exits of `get` by an exception
do not (`tokensKept_iff`).
-/

namespace Libptytty.Shared

open Machine

/-- A step of the helper, not interrupted. -/
def HelperMoves (a : Action) : Prop := (∃ b, a = .helper b) ∧ a.Uninterrupted

/-- Methods give back what they take, and the token comes back to the clients. -/
structure TokensKept (s : System) : Prop where
  exits : ∀ e ∈ s.exits, e.gave = e.took
  /-- With no client inside, the lock socket holds the token for the clients, or the helper gives
  it by its own steps. -/
  offered : s.insiders = ∅ → s.clientBytes ≠ 0 ∨
    ∃ n, Inevitable step HelperMoves (fun t => t.clientBytes ≠ 0) n s
  /-- A following call can take it. -/
  taken : s.clientBytes ≠ 0 → ∀ p ∈ s.procs, ∀ c q, (s.proc p).pc = .idle →
    (s.proc p).objs c.index = some q → c.skips q = false →
    ∃ t, run step s [.client p (.call c), .client p (.take false)] = some t ∧ p ∈ t.insiders

/-! ## Bytes taken and given -/

/-- Every client inside has read a byte. -/
def TookOne (s : System) : Prop := ∀ p ∈ s.insiders, (s.proc p).took = 1

theorem tookOne_step {s t : System} {a : Action} (h : TookOne s) (hu : a.TakesByte)
    (ht : step s a = some t) : TookOne t := by
  have keep : (∀ q ∈ t.insiders, q ∈ s.insiders ∧ (t.proc q).ticket = (s.proc q).ticket ∧
      (t.proc q).took = (s.proc q).took) → TookOne t := by
    intro hk q hq
    obtain ⟨hq', -, htook⟩ := hk q hq
    rw [htook, h q hq']
  cases trans_of_step ht with
  | @client p a t hp trans =>
    have hins := trans.insiders hp
    have hkeeps := trans.keeps hp
    cases trans with
    | interrupted => cases hu
    | @take c pc byte =>
      intro q hq
      show (Function.update s.proc p _ q).took = 1
      by_cases hqp : q = p
      · subst hqp; rw [Function.update_self]
      · rw [hins] at hq
        rw [Function.update_of_ne hqp]
        exact h q (Finset.mem_of_mem_insert_of_ne hq hqp)
    | create | fork | skip | call | write | readNull | readId | failId | recvPty | recvTty
    | failPty | failTty | give => exact keep (hkeeps (by rintro b ⟨⟩))
  | helper trans =>
    have hins := trans.insiders
    refine keep fun q hq => ⟨hins ▸ hq, ?_⟩
    cases trans <;> exact ⟨rfl, rfl⟩

/-- A `get` that throws has given nothing back. -/
theorem noThrow_of_exits {s t : System} {a : Action} (h : TookOne s) (ht : step s a = some t)
    (hexits : ∀ e ∈ t.exits, e.gave = e.took) : a.NoThrow := by
  cases trans_of_step ht with
  | @client p a t hp trans =>
    have inside : ∀ {pc}, (s.proc p).pc = pc → pc.inside = true → (s.proc p).took = 1 :=
      fun hpc hin => h p (mem_insiders_of_pc hp hpc hin)
    have thrown : ∀ {pc i q taken}, (s.proc p).pc = pc → pc.inside = true →
        (∀ e ∈ (s.throw p (s.proc p) i q taken).exits, e.gave = e.took) → False := by
      intro pc i q taken hpc hin he
      have hgave := he ⟨p, (s.proc p).took, 0⟩
        (List.mem_append_right _ (List.mem_singleton_self _))
      rw [inside hpc hin] at hgave
      cases hgave
    cases trans with
    | failId pc => exact (thrown pc rfl hexits).elim
    | failPty pc => exact (thrown pc rfl hexits).elim
    | failTty pc => exact (thrown pc rfl hexits).elim
    | create | fork | skip | call | interrupted | take | write | readNull | readId | recvPty
    | recvTty | give => trivial
  | helper trans => trivial

theorem exits_step {s t : System} {a : Action} (h : TookOne s) (hn : a.NoThrow)
    (hexits : ∀ e ∈ s.exits, e.gave = e.took) (ht : step s a = some t) :
    ∀ e ∈ t.exits, e.gave = e.took := by
  have concat : ∀ {x : Exit}, x.gave = x.took → ∀ e ∈ s.exits ++ [x], e.gave = e.took := by
    intro x hx e he
    rcases List.mem_append.mp he with he | he
    · exact hexits e he
    · rw [List.mem_singleton.mp he, hx]
  cases trans_of_step ht with
  | @client p a t hp trans =>
    cases trans with
    | skip => exact concat rfl
    | give pc =>
      exact concat (h p (mem_insiders_of_pc hp pc rfl)).symm
    | failId | failPty | failTty => exact hn.elim
    | create | fork | call | interrupted | take | write | readNull | readId | recvPty
    | recvTty => exact hexits
  | helper trans => cases trans <;> exact hexits

/-! ## The helper comes to `GIVE_TOKEN` -/

/-- A state of a run in which every client takes a byte and no `get` throws. -/
structure Calm (s : System) : Prop where
  flow : Flow s
  served : Served s
  tokens : s.tokens ≠ 0
  tookOne : TookOne s
  exits : ∀ e ∈ s.exits, e.gave = e.took

theorem calm_initial : Calm initial := by
  refine ⟨flow_initial, served_initial, one_ne_zero, fun p hp => ?_, by rintro e ⟨⟩⟩
  rw [show initial.insiders = ∅ from rfl] at hp
  exact absurd hp (Finset.notMem_empty p)

theorem calm_step {s t : System} {a : Action} (h : Calm s) (hu : a.TakesByte)
    (hn : a.NoThrow) (ht : step s a = some t) : Calm t := by
  refine ⟨flow_step h.flow hu ht, served_step h.served ht, ?_, tookOne_step h.tookOne hu ht,
    exits_step h.tookOne hn h.exits ht⟩
  have htokens := tokens_step ht
  have hgain := a.gain_nonneg hn
  have := h.tokens
  omega

/-- How far the helper is from giving the token. -/
def distance (s : System) : ℕ :=
  match s.pc with
  | .giveToken => 1
  | .needToken => 2
  | .sendTty _ => 3
  | .sendPty _ => 4
  | .writeId _ => 5
  | .handle _ => 6
  | .readCmd => if s.clientBytes = 0 then 7 else 0

theorem Calm.exists_helper_step {s : System} (h : Calm s) (hfree : s.insiders = ∅)
    (hb : s.clientBytes = 0) : ∃ a t, HelperMoves a ∧ step s a = some t := by
  have hread : s.pc = .readCmd → s.requests ≠ [] := by
    intro hpc hreqs
    -- no client is about to write either
    have hwriting : s.within Pc.writing = ∅ := by
      rw [← Finset.subset_empty, ← hfree]
      refine Finset.monotone_filter_right _ fun p _ hp => ?_
      revert hp
      cases (s.proc p).pc <;> simp [Pc.writing, Pc.inside]
    have hflow := h.flow
    unfold Flow System.reading at hflow
    rw [hb, hwriting, hreqs, hpc] at hflow
    cases hflow
  have hneed : s.pc = .needToken → s.serverBytes ≠ 0 := by
    intro hpc hbytes
    have htokens := h.tokens
    rw [System.tokens_eq, hb, hbytes, hfree] at htokens
    unfold System.helperToken at htokens
    rw [hpc] at htokens
    exact htokens rfl
  obtain ⟨a, t, hu, ht⟩ := exists_serve_step h.served hread hneed
  exact ⟨.helper a, t, ⟨⟨a, rfl⟩, hu⟩, ht⟩

theorem distance_step {s t : System} {a : Action} (hfree : s.insiders = ∅)
    (hb : s.clientBytes = 0) (ha : HelperMoves a) (ht : step s a = some t) :
    t.insiders = ∅ ∧ distance t < distance s := by
  obtain ⟨⟨b, rfl⟩, -⟩ := ha
  cases trans_of_step ht with
  | helper trans =>
    refine ⟨trans.insiders.trans hfree, ?_⟩
    unfold distance
    cases trans with
    | give pc | read pc | got pc | notGot pc | login pc | destroy pc | ignore pc | writeNull pc
    | writeId pc | sendPty pc | sendTty pc | interrupted pc | need pc => simp [pc, hb]

/-- With no client inside, the helper comes to give the token, whatever its steps are. -/
theorem Calm.inevitable {s : System} (h : Calm s) (hfree : s.insiders = ∅) :
    ∃ n, Inevitable step HelperMoves (fun t => t.clientBytes ≠ 0) n s := by
  have hcan : ∀ s : System, Calm s ∧ s.insiders = ∅ → ¬ s.clientBytes ≠ 0 →
      0 < distance s + 1 ∧ ∃ a t, HelperMoves a ∧ step s a = some t :=
    fun s hs hb => ⟨Nat.succ_pos _, hs.1.exists_helper_step hs.2 (not_not.mp hb)⟩
  have hdown : ∀ (s : System) a t, Calm s ∧ s.insiders = ∅ → ¬ s.clientBytes ≠ 0 →
      HelperMoves a → step s a = some t →
      (Calm t ∧ t.insiders = ∅) ∧ distance t + 1 < distance s + 1 := by
    rintro s a t ⟨hs, hf⟩ hb ha ht
    obtain ⟨hf', hlt⟩ := distance_step hf (not_not.mp hb) ha ht
    obtain ⟨⟨b, rfl⟩, -⟩ := ha
    have hs' := calm_step (a := .helper b) hs trivial trivial ht
    exact ⟨⟨hs', hf'⟩, Nat.succ_lt_succ hlt⟩
  exact ⟨_, inevitable_of_rank hcan hdown ⟨h, hfree⟩⟩

/-! ## The next call -/

theorem exists_take {s : System} (hb : s.clientBytes ≠ 0) {p : Pid} (hp : p ∈ s.procs) {c : Call}
    {q : Proxy} (hidle : (s.proc p).pc = .idle) (hq : (s.proc p).objs c.index = some q)
    (hskip : c.skips q = false) :
    ∃ t, run step s [.client p (.call c), .client p (.take false)] = some t ∧ p ∈ t.insiders := by
  refine ⟨_, by simp [run_cons, step, clientStep, hp, hidle, hq, hskip, System.set, hb]; rfl, ?_⟩
  rw [mem_insiders]
  exact ⟨hp, by simp [System.enter, Pc.inside]⟩

theorem Calm.tokensKept {s : System} (h : Calm s) : TokensKept s where
  exits := h.exits
  offered hfree := Or.inr (h.inevitable hfree)
  taken hb _ hp _ _ hidle hq hskip := exists_take hb hp hidle hq hskip

/-- **No token is lost.** In a run in which no client's read of the lock socket is interrupted,
methods give back the token that they take, and the next call can have it, exactly if no `get`
throws. -/
theorem tokensKept_iff {as : List Action} {s : System} (h : run step initial as = some s)
    (hu : ∀ a ∈ as, a.TakesByte) :
    Always step TokensKept initial as ↔ ∀ a ∈ as, a.NoThrow := by
  have htook : Always step TookOne initial as :=
    always_of_along (fun s a t hs ha ht => tookOne_step hs ha ht) calm_initial.tookOne
      (along_of_forall hu initial)
  constructor
  · intro hkept
    have hboth : Always step (fun s => TokensKept s ∧ TookOne s) initial as :=
      fun pre hp t ht => ⟨hkept pre hp t ht, htook pre hp t ht⟩
    exact (along_iff_forall h).mp (along_of_always
      (fun s a t hs ht hs' => noThrow_of_exits hs.2 ht hs'.1.exits) h hboth)
  · intro hn
    have hstep : ∀ s a t, Calm s → (a.TakesByte ∧ a.NoThrow) → step s a = some t → Calm t :=
      fun s a t hs ha ht => calm_step hs ha.1 ha.2 ht
    have hcalm : Always step Calm initial as := always_of_along hstep calm_initial
      (along_of_forall (fun a ha => ⟨hu a ha, hn a ha⟩) initial)
    exact hcalm.mono fun s hs => hs.tokensKept

theorem tokensKept_iff_twoProcesses : ∃ s, run step initial twoProcesses = some s ∧
    Always step TokensKept initial twoProcesses := by
  obtain ⟨s, hs, -⟩ := twoProcesses_runs
  have htakes : ∀ a ∈ twoProcesses, a.TakesByte := by
    simp [twoProcesses, getRun, destroyRun, Action.TakesByte]
  refine ⟨s, hs, (tokensKept_iff hs htakes).mpr ?_⟩
  simp [twoProcesses, getRun, destroyRun, Action.NoThrow]

/-- `recv_fd` finds no free descriptor for the master. -/
def noDescriptor : List Action :=
  [.client 0 (.create 0), .helper .give, .client 0 (.call (.get 0)), .client 0 (.take false),
    .client 0 (.write blank), .helper .read, .helper (.handle 8 true), .helper .writeId,
    .client 0 .readId, .helper (.send true), .client 0 (.failFd 1)]

theorem not_tokensKept_noDescriptor : ¬ Always step TokensKept initial noDescriptor := by
  intro h
  obtain ⟨s, hs⟩ : ∃ s, run step initial noDescriptor = some s := ⟨_, rfl⟩
  have hexits := (h noDescriptor List.prefix_rfl s hs).exits
  cases hs
  have hgave := hexits ⟨0, 1, 0⟩ (List.mem_singleton_self _)
  cases hgave

end Libptytty.Shared
