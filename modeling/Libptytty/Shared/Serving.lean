import Libptytty.Registry
import Libptytty.Shared.Steps

/-!
# The helper of the system is `serve`

`Shared.helperStep` gives every system call of `serve` a step of its own, and knows of an object
only its descriptors; `Serve.step` handles one command whole, with everything that happens to the
objects. For every run of the system there is a run of `Serve` on the commands that have been
handled, with the same registry, the same live allocations and the same calls (`exists_serve_run`).
What is known of `serve` for every stream of commands therefore holds in the system, whatever
happens to the token (`registry_safe`).
-/

namespace Libptytty

open CString Memory

/-! ## A `get` that succeeds and one that fails -/

namespace PtyttyUnix

variable {cfg : Config} (K : Kernel)

/-- Nothing can be opened. -/
def GetOutcome.refused : GetOutcome where
  master := false
  grantpt := false
  unlockpt := false
  device := CString.empty
  probe _ := ⟨false, false, false⟩
  slave := false
  ttyslot := 0

theorem bsdLoop_refused (tty : Option Fd) (name : Option CStr) (n i : ℕ) (os : Os cfg) :
    bsdLoop K .refused tty name n i os = ⟨none, tty, name, os⟩ := by
  induction n generalizing i with
  | zero => rfl
  | succ n ih => exact ih (i + 1)

theorem get_refused (x : PtyttyUnix) (os : Os cfg) : (x.get K .refused os).1 = false := by
  have hpty : (getPty K .refused x.tty x.name os).pfd = none := by
    unfold getPty
    cases cfg.getPty with
    | unix98 | openpty | getpty => rfl
    | bsd =>
      show (bsdLoop K .refused x.tty x.name 256 0 os).pfd = none
      rw [bsdLoop_refused]
  unfold get
  dsimp only
  rw [hpty]

theorem get_pts7 (os : Os cfg) : (new.get K .pts7 os).1 = true := by
  obtain ⟨fd, dev, hpfd, hname⟩ : ∃ fd dev, (getPty K .pts7 new.tty new.name os).pfd = some fd ∧
      (getPty K .pts7 new.tty new.name os).name = some dev := by
    unfold getPty
    cases cfg.getPty with
    | unix98 | openpty | getpty | bsd => exact ⟨_, _, rfl, rfl⟩
  unfold get
  dsimp only
  rw [hpfd, hname]
  cases (getPty K .pts7 new.tty new.name os).tty with
  | some _ => rfl
  | none => rfl

end PtyttyUnix

/-! ## Calls on objects -/

/-- The result of a `get`. -/
def Event.made : Event → Option (ℕ × Bool)
  | .got n ok => some (n, ok)
  | _ => none

/-- A `login` or `delete` on a registered object. -/
def Event.effect : Event → Option (ℕ × Bool)
  | .login (some n) _ _ => some (n, false)
  | .delete (some n) true => some (n, true)
  | _ => none

namespace Shared

open Machine Serve

variable {cfg : Config} {K : Kernel}

/-- The object that has not been registered yet. -/
def HelperPc.unregistered : HelperPc → List Addr
  | .writeId a => if a = 0 then [] else [a]
  | _ => []

/-- Inside its loop the helper `s` agrees with `t`, which has handled the command whole. -/
structure Agrees (s : System) (t : Serve cfg) : Prop where
  running : t.returned = false
  ptys : t.ptys = s.ptys ++ s.pc.unregistered
  created : t.heap.created = s.heap.created
  serials : ∀ a, t.heap.serialAt a = s.heap.serialAt a
  made : t.events.filterMap Event.made = s.made.map fun m => (m.serial, m.ok)
  effects : t.events.filterMap Event.effect = s.effects.map fun e => (e.serial, e.deletes)

/-- Some run of `serve` on the commands handled so far agrees. -/
def Replayed (K : Kernel) (os : Os cfg) (s : System) : Prop :=
  ∃ is : List (Command × Outcome), is.map Prod.fst = s.handled.map Request.cmd ∧
    ∃ t, run (Serve.step K) (Serve.initial os) (is.map fun i => .command i.1 i.2) = some t ∧
      Agrees s t

theorem replayed_initial (os : Os cfg) : Replayed K os initial :=
  ⟨[], rfl, _, rfl, rfl, rfl, rfl, fun _ => rfl, rfl, rfl⟩

theorem Agrees.atHead {os : Os cfg} {s : System} {t : Serve cfg} {is : List Input}
    (h : Agrees s t) (hrun : run (Serve.step K) (Serve.initial os) is = some t) : AtHead t := by
  have hinv := inv_of_run (fun _ _ _ hI ht => Serve.inv_step hI ht) (Serve.inv_initial os) hrun
  unfold Serve.Inv at hinv
  rwa [if_neg (by simp [h.running])] at hinv

/-! ## Steps within the handling of a command -/

/-- A step that changes nothing that `serve` has after a command. -/
theorem Agrees.quiet {s s' : System} {t : Serve cfg} (h : Agrees s t)
    (hptys : s'.ptys ++ s'.pc.unregistered = s.ptys ++ s.pc.unregistered)
    (hcreated : s'.heap.created = s.heap.created)
    (hserials : ∀ a, s'.heap.serialAt a = s.heap.serialAt a) (hmade : s'.made = s.made)
    (heffects : s'.effects = s.effects) : Agrees s' t where
  running := h.running
  ptys := h.ptys.trans hptys.symm
  created := h.created.trans hcreated.symm
  serials a := (h.serials a).trans (hserials a).symm
  made := by rw [hmade]; exact h.made
  effects := by rw [heffects]; exact h.effects

theorem Replayed.quiet {os : Os cfg} {s s' : System} (h : Replayed K os s)
    (hptys : s'.ptys ++ s'.pc.unregistered = s.ptys ++ s.pc.unregistered)
    (hcreated : s'.heap.created = s.heap.created)
    (hserials : ∀ a, s'.heap.serialAt a = s.heap.serialAt a) (hmade : s'.made = s.made)
    (heffects : s'.effects = s.effects) (hhandled : s'.handled = s.handled) :
    Replayed K os s' := by
  obtain ⟨is, hcmds, t, hrun, hagrees⟩ := h
  exact ⟨is, by rw [hhandled]; exact hcmds, t, hrun,
    hagrees.quiet hptys hcreated hserials hmade heffects⟩

theorem replayed_client {os : Os cfg} {s s' : System} {p : Pid} {a : ClientAct}
    (h : Replayed K os s) (ht : ClientTrans s p (s.proc p) a s') : Replayed K os s' := by
  cases ht <;> exact h.quiet rfl rfl (fun _ => rfl) rfl rfl rfl

/-! ## Handling a command -/

/-- What happens outside `serve` in a step of the system. -/
def outcomeOf (a : Addr) (ok : Bool) : Outcome where
  addr := a
  get := if ok then .pts7 else .refused
  sendPty := true
  sendTty := true
  log _ := ⟨true, true, true⟩

theorem Agrees.got {s : System} {t : Serve cfg} {r : Request} {a : Addr} (h : Agrees s t)
    (hptys : t.ptys = s.ptys) (nonnull : a ≠ 0) :
    Agrees { s with
        made := s.made ++ [⟨r.ticket, s.heap.created, a, true⟩]
        handled := s.handled ++ [r]
        heap := s.heap.alloc a ⟨some (.master s.heap.created), some (.slave s.heap.created)⟩
        pc := .writeId a } (t.handleGet K (outcomeOf a true)) := by
  rcases he : PtyttyUnix.new.get K .pts7 t.os with ⟨ok, x, os⟩
  obtain rfl : ok = true := by rw [← PtyttyUnix.get_pts7 K t.os, he]
  rw [handleGet_true (o := outcomeOf a true) he]
  constructor
  · exact h.running
  · show t.ptys ++ [a] = s.ptys ++ HelperPc.unregistered (.writeId a)
    rw [hptys, HelperPc.unregistered, if_neg nonnull]
  · exact congrArg (· + 1) h.created
  · intro b
    rw [Heap.serialAt_modify]
    show (t.heap.alloc a x).serialAt b = _
    rw [Heap.serialAt_alloc, Heap.serialAt_alloc, h.created, h.serials b]
  · rw [List.filterMap_append, List.map_append, h.made, h.created]
    rfl
  · rw [List.filterMap_append, h.effects]
    exact List.append_nil _

theorem Agrees.notGot {s : System} {t : Serve cfg} {r : Request} {a : Addr} (h : Agrees s t)
    (hptys : t.ptys = s.ptys) (hnew : a ∉ t.ptys) :
    Agrees { s with
        made := s.made ++ [⟨r.ticket, s.heap.created, a, false⟩]
        handled := s.handled ++ [r]
        heap := (s.heap.alloc a ⟨none, none⟩).free a
        pc := .writeId 0 } (t.handleGet K (outcomeOf a false)) := by
  rcases he : PtyttyUnix.new.get K .refused t.os with ⟨ok, x, os⟩
  obtain rfl : ok = false := by rw [← PtyttyUnix.get_refused K .new t.os, he]
  rw [handleGet_false (o := outcomeOf a false) he]
  constructor
  · exact h.running
  · exact hptys.trans (List.append_nil _).symm
  · exact congrArg (· + 1) h.created
  · intro b
    show ((t.heap.alloc a x).free a).serialAt b = ((s.heap.alloc a _).free a).serialAt b
    rw [Heap.serialAt_free, Heap.serialAt_free, Heap.serialAt_alloc, Heap.serialAt_alloc,
      h.serials b]
    split_ifs <;> rfl
  · rw [List.filterMap_append, List.map_append, h.made, h.created]
    rfl
  · -- the object that is deleted has not been listed
    show (t.events ++ [_, _, Event.delete (some t.heap.created) (a ∈ t.ptys)]).filterMap _ = _
    rw [List.filterMap_append, h.effects, decide_eq_false hnew]
    exact List.append_nil _

theorem effect_of_agrees {s : System} {t : Serve cfg} {r : Request} {c : Cell PtyttyUnix}
    (h : Agrees s t) (hc : t.heap.cells r.cmd.id = some c) (deletes : Bool) :
    (s.effect r deletes).map (fun e => (e.serial, e.deletes)) = [(c.serial, deletes)] := by
  have hserial := h.serials r.cmd.id
  unfold Heap.serialAt at hserial
  rw [hc] at hserial
  obtain ⟨d, hd, hds⟩ := Option.map_eq_some_iff.mp hserial.symm
  unfold System.effect
  rw [hd, ← hds]
  rfl

theorem Agrees.login {s : System} {t : Serve cfg} {r : Request} (hu : cfg.utmp ≠ .none)
    (h : Agrees s t) (hhead : AtHead t) (hptys : t.ptys = s.ptys) (listed : r.cmd.id ∈ s.ptys)
    (o : LogOutcome) :
    Agrees { s with
        handled := s.handled ++ [r]
        pc := .needToken
        effects := s.effects ++ s.effect r false } (t.handleLogin K o r.cmd) := by
  rcases handleLogin_cases (K := K) hhead.reg o r.cmd with ⟨-, hno⟩ | ⟨c, -, -, hc, he⟩
  · rw [hptys] at hno
    exact absurd listed (hno.resolve_left hu)
  · rw [he]
    constructor
    · exact h.running
    · exact hptys.trans (List.append_nil _).symm
    · exact h.created
    · intro b
      rw [Heap.serialAt_modify]
      exact h.serials b
    · rw [List.filterMap_append, h.made]
      exact List.append_nil _
    · rw [List.filterMap_append, List.map_append, h.effects, effect_of_agrees h hc]
      rfl

theorem Agrees.destroy {s : System} {t : Serve cfg} {r : Request} (h : Agrees s t)
    (hhead : AtHead t) (hptys : t.ptys = s.ptys) (listed : r.cmd.id ∈ s.ptys) (o : LogOutcome) :
    Agrees { s with
        handled := s.handled ++ [r]
        pc := .needToken
        heap := s.heap.free r.cmd.id
        ptys := s.ptys.erase r.cmd.id
        effects := s.effects ++ s.effect r true } (t.handleDestroy K o r.cmd) := by
  rcases handleDestroy_cases (K := K) hhead.reg o r.cmd with ⟨-, hno⟩ | ⟨c, -, hc, he⟩
  · rw [hptys] at hno
    exact absurd listed hno
  · rw [he]
    constructor
    · exact h.running
    · show t.ptys.erase _ = s.ptys.erase _ ++ []
      rw [hptys, List.append_nil]
    · exact h.created
    · intro b
      show (t.heap.free _).serialAt b = (s.heap.free _).serialAt b
      rw [Heap.serialAt_free, Heap.serialAt_free, h.serials b]
    · rw [List.filterMap_append, h.made]
      exact List.append_nil _
    · rw [List.filterMap_append, List.map_append, h.effects, effect_of_agrees h hc]
      rfl

/-- A command whose id is not listed changes nothing. -/
theorem Agrees.ignore {s : System} {t : Serve cfg} {r : Request} (h : Agrees s t)
    (hptys : t.ptys = s.ptys) :
    Agrees { s with handled := s.handled ++ [r], pc := .needToken } t :=
  ⟨h.running, hptys.trans (List.append_nil _).symm, h.created, h.serials, h.made, h.effects⟩

theorem Replayed.handle {os : Os cfg} {s s' : System} {r : Request} (h : Replayed K os s)
    (hpc : s.pc = .handle r) (hhandled : s'.handled = s.handled ++ [r])
    (hstep : ∀ t : Serve cfg, Agrees s t → AtHead t → t.ptys = s.ptys →
      ∃ o t', Serve.step K t (.command r.cmd o) = some t' ∧ Agrees s' t') : Replayed K os s' := by
  obtain ⟨is, hcmds, t, hrun, hagrees⟩ := h
  have hhead := hagrees.atHead hrun
  have hptys : t.ptys = s.ptys := by
    rw [hagrees.ptys, hpc]
    exact List.append_nil _
  obtain ⟨o, t', ht', hagrees'⟩ := hstep t hagrees hhead hptys
  refine ⟨is ++ [(r.cmd, o)], ?_, t', ?_, hagrees'⟩
  · rw [hhandled, List.map_append, List.map_append, hcmds]
    rfl
  · rw [List.map_append]
    exact run_append_eq_some.mpr ⟨t, hrun, by rw [List.map_singleton, run_cons, ht']; rfl⟩

theorem replayed_helper {os : Os cfg} (hu : cfg.utmp ≠ .none) {s s' : System} {a : HelperAct}
    (h : Replayed K os s) (ht : HelperTrans s a s') : Replayed K os s' := by
  cases ht with
  | @got r a pc type nonnull free =>
    refine h.handle pc rfl fun t hagrees hhead hptys => ⟨outcomeOf a true, _, ?_,
      hagrees.got (K := K) hptys nonnull⟩
    have hfree : t.heap.cells a = none := by
      rw [← Heap.serialAt_eq_none, hagrees.serials, Heap.serialAt_eq_none]
      exact free
    simp [Serve.step, hagrees.running, type, outcomeOf, nonnull, hfree]
  | @notGot r a pc type nonnull free =>
    refine h.handle pc rfl fun t hagrees hhead hptys => ?_
    have hfree : t.heap.cells a = none := by
      rw [← Heap.serialAt_eq_none, hagrees.serials, Heap.serialAt_eq_none]
      exact free
    have hnew : a ∉ t.ptys := fun hmem => by simpa [hfree] using (hhead.reg.live a).mp hmem
    refine ⟨outcomeOf a false, _, ?_, hagrees.notGot (K := K) hptys hnew⟩
    simp [Serve.step, hagrees.running, type, outcomeOf, nonnull, hfree]
  | @login r a ok pc type listed =>
    refine h.handle pc rfl fun t hagrees hhead hptys => ⟨outcomeOf a ok, _, ?_,
      hagrees.login (K := K) hu hhead hptys listed ⟨true, true, true⟩⟩
    simp [Serve.step, hagrees.running, type, outcomeOf]
  | @destroy r a ok pc type listed =>
    refine h.handle pc rfl fun t hagrees hhead hptys => ⟨outcomeOf a ok, _, ?_,
      hagrees.destroy (K := K) hhead hptys listed ⟨true, true, true⟩⟩
    simp [Serve.step, hagrees.running, type, outcomeOf]
  | @ignore r a ok pc type listed =>
    refine h.handle pc rfl fun t hagrees hhead hptys => ⟨outcomeOf a ok, t, ?_,
      hagrees.ignore hptys⟩
    rw [← hptys] at listed
    rcases type with type | type
    · have he := handleLogin_of_notMem (K := K) hhead.reg ⟨true, true, true⟩ listed
      simp [Serve.step, hagrees.running, type, outcomeOf, he]
    · have he := handleDestroy_of_notMem (K := K) hhead.reg ⟨true, true, true⟩ listed
      simp [Serve.step, hagrees.running, type, outcomeOf, he]
  | writeId pc nonnull =>
    refine h.quiet ?_ rfl (fun _ => rfl) rfl rfl rfl
    rw [pc, HelperPc.unregistered, if_neg nonnull]
    exact List.append_nil _
  | @sendTty a c ok pc cell =>
    refine h.quiet ?_ rfl (fun b => ?_) rfl rfl rfl
    · rw [pc]
      rfl
    · exact Heap.serialAt_modify a (fun x : Object => { x with tty := none }) s.heap b
  | give pc | read pc | writeNull pc | sendPty pc | interrupted pc | need pc =>
    refine h.quiet ?_ rfl (fun _ => rfl) rfl rfl rfl
    rw [pc]
    rfl

/-! ## Runs -/

/-- **The helper runs `serve`.** In every run of the system, the helper has handled its commands as
some run of `serve` does, on the same registry and with the same calls. -/
theorem exists_serve_run (K : Kernel) (hu : cfg.utmp ≠ .none) (os : Os cfg) {as : List Action}
    {s : System} (h : run step initial as = some s) : Replayed K os s := by
  refine inv_of_run (fun s a s' hs ht => ?_) (replayed_initial os) h
  cases trans_of_step ht with
  | client mem trans => exact replayed_client hs trans
  | helper trans => exact replayed_helper hu hs trans

/-- The registry of the helper, at any moment. -/
structure RegistrySafe (s : System) : Prop where
  null : 0 ∉ s.ptys
  nodup : s.ptys.Nodup
  /-- The listed addresses and the one about to be listed are those of the live objects. -/
  live : ∀ a, a ∈ s.ptys ++ s.pc.unregistered ↔ (s.heap.cells a).isSome
  /-- A live object is one whose `get` has succeeded and that no command has deleted. -/
  objects : ∀ n, s.heap.Live n →
    (∃ m ∈ s.made, m.serial = n ∧ m.ok = true) ∧ ∀ e ∈ s.effects, e.deletes = true → e.serial ≠ n
  /-- No object is deleted twice. -/
  once : ((s.effects.filter Effect.deletes).map Effect.serial).Nodup

theorem mem_deletions_of_effect {es : List Event} {n : ℕ}
    (h : (n, true) ∈ es.filterMap Event.effect) : n ∈ deletions es := by
  obtain ⟨e, he, heffect⟩ := List.mem_filterMap.mp h
  refine List.mem_filterMap.mpr ⟨e, he, ?_⟩
  unfold Event.effect at heffect
  split at heffect <;> cases heffect
  rfl

theorem sublist_deletions (es : List Event) :
    (((es.filterMap Event.effect).filter Prod.snd).map Prod.fst).Sublist (deletions es) := by
  induction es with
  | nil => exact List.Sublist.refl _
  | cons e es ih =>
    unfold deletions at ih ⊢
    cases e with
    | new | got => exact ih
    | login target => cases target <;> exact ih
    | delete target listed =>
      cases target with
      | none => exact ih
      | some n =>
        cases listed with
        | true => exact ih.cons_cons n
        | false => exact ih.cons n

theorem Agrees.registrySafe {s : System} {t : Serve cfg} (h : Agrees s t) (hhead : AtHead t) :
    RegistrySafe s := by
  have hreg := hhead.reg
  have hlive : ∀ n, t.heap.Live n ↔ s.heap.Live n := by
    intro n
    rw [Heap.live_iff_serialAt, Heap.live_iff_serialAt]
    exact exists_congr fun a => by rw [h.serials a]
  constructor
  · exact fun hnull => hreg.null (h.ptys ▸ List.mem_append_left _ hnull)
  · exact (h.ptys ▸ hreg.nodup).of_append_left
  · intro a
    rw [← h.ptys, hreg.live a, ← Heap.isSome_serialAt, h.serials a, Heap.isSome_serialAt]
  · intro n hn
    have hgot := hhead.hist.got n ((hlive n).mpr hn)
    constructor
    · have hmade : (n, true) ∈ s.made.map fun m => (m.serial, m.ok) := by
        rw [← h.made]
        exact List.mem_filterMap.mpr ⟨_, hgot, rfl⟩
      obtain ⟨m, hm, heq⟩ := List.mem_map.mp hmade
      exact ⟨m, hm, congrArg Prod.fst heq, congrArg Prod.snd heq⟩
    · rintro e he hdeletes rfl
      have heffect : (e.serial, true) ∈ t.events.filterMap Event.effect := by
        rw [h.effects, ← hdeletes]
        exact List.mem_map_of_mem he
      exact ((hhead.hist.deleted _).mp (mem_deletions_of_effect heffect)).2 ((hlive _).mpr hn)
  · have hsub := sublist_deletions t.events
    rw [h.effects, List.filter_map, List.map_map] at hsub
    exact hhead.hist.once.sublist hsub

/-- **Safety of the shared registry.** Whatever the processes do, and whatever happens to the
token, the registry is safe at every moment. -/
theorem registry_safe (as : List Action) : Always step RegistrySafe initial as := by
  intro pre hp s hs
  obtain ⟨is, -, t, hrun, hagrees⟩ := @exists_serve_run linux posix (by decide) Os.start _ _ hs
  exact hagrees.registrySafe (hagrees.atHead hrun)

end Shared

end Libptytty
