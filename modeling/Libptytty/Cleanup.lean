import Libptytty.Closing
import Libptytty.Hangup
import Libptytty.Accounting

/-!
# What is left of a helper

The results about the objects of the helper, its descriptors and its end, put together. Whatever
the clients send in whatever interleaving, whether they tidy up or die: once they are gone, the
helper deletes what they have left by its own steps, and the operating system is as before
(`Hangup.cleansUp`).
-/

namespace Libptytty

namespace Hangup

open CString
open UseHelper (Child)

variable {cfg : Config} {K : Kernel} {reentrant : Bool}

/-- What the step is for `serve`. -/
def input (s : System cfg) : Action → Option Serve.Input
  | .helper (.read o) => s.sock.queue.head?.map fun cmd => .command cmd o
  | .helper (.eof log) | .helper (.fail log) => some (.short log)
  | _ => none

/-- A step of the system is at most one of `serve`. -/
theorem serve_step {s t : System cfg} {a : Action} (h : step K reentrant s a = some t) :
    Machine.run (Serve.step K) s.serve (input s a).toList = some t.serve := by
  cases a with
  | client p a =>
    cases a with
    | write cmd =>
      simp only [step, clientStep] at h
      split_ifs at h
      cases h
      rfl
    | give =>
      simp only [step, clientStep] at h
      split_ifs at h
      cases h
      rfl
    | fork | closeSock | closeLock => cases h; rfl
  | helper a =>
    change helperStep K reentrant s a = some t at h
    unfold helperStep at h
    by_cases hr : s.serve.returned = true
    · rw [if_pos hr] at h
      cases h
    rw [if_neg hr] at h
    cases a with
    | give =>
      cases hpc : s.pc <;> simp only [hpc, reduceCtorEq, Option.some.injEq] at h
      exact h ▸ rfl
    | read o =>
      dsimp only at h
      split at h
      · rename_i cmd hpc hread
        obtain ⟨xs, hq⟩ := read_data hread
        obtain ⟨serve, hs, rfl⟩ := Option.map_eq_some_iff.mp h
        have hin : input s (.helper (.read o)) = some (.command cmd o) := by simp [input, hq]
        rw [hin]
        exact Machine.run_cons_eq_some.mpr ⟨serve, hs, rfl⟩
      · cases h
    | eof log =>
      dsimp only at h
      split at h
      · obtain ⟨serve, hs, rfl⟩ := Option.map_eq_some_iff.mp h
        exact Machine.run_cons_eq_some.mpr ⟨serve, hs, rfl⟩
      · cases h
    | fail log =>
      dsimp only at h
      split at h
      · obtain ⟨serve, hs, rfl⟩ := Option.map_eq_some_iff.mp h
        exact Machine.run_cons_eq_some.mpr ⟨serve, hs, rfl⟩
      · cases h
    | need interrupted =>
      dsimp only at h
      split at h
      · split at h
        · split at h
          · split_ifs at h
            exact Option.some.inj h ▸ rfl
          · exact Option.some.inj h ▸ rfl
        · exact Option.some.inj h ▸ rfl
      · cases h

/-- The inputs of `serve` in a run. -/
def inputs (K : Kernel) (reentrant : Bool) (s : System cfg) (as : List Action) :
    List Serve.Input :=
  Machine.image (step K reentrant) (fun s a => (input s a).toList) s as

/-- The helper is given a device that differs by `f` from those of its objects. -/
def Apart {β : Type*} (f : CStr → β) (s : System cfg) (a : Action) : Prop :=
  ∀ i ∈ input s a, Serve.Apart f s.serve i

theorem serve_run {s t : System cfg} {as : List Action}
    (h : Machine.run (step K reentrant) s as = some t) :
    Machine.run (Serve.step K) s.serve (inputs K reentrant s as) = some t.serve := by
  have hsim : ∀ (s : System cfg) (a : Action) (s' : System cfg) (serve : Serve cfg),
      s.serve = serve → step K reentrant s a = some s' →
      ∃ serve', Machine.run (Serve.step K) serve (input s a).toList = some serve' ∧
        s'.serve = serve' := by
    rintro s a s' _ rfl hs
    exact ⟨s'.serve, serve_step hs, rfl⟩
  obtain ⟨_, hrun, rfl⟩ := Machine.run_of_image hsim rfl h
  exact hrun

theorem serve_along {β : Type*} {f : CStr → β} {s t : System cfg} {as : List Action}
    (hap : Machine.Along (step K reentrant) (Apart f) s as)
    (h : Machine.run (step K reentrant) s as = some t) :
    Machine.Along (Serve.step K) (Serve.Apart f) s.serve (inputs K reentrant s as) := by
  have hsim : ∀ (s : System cfg) (a : Action) (s' : System cfg) (serve : Serve cfg),
      s.serve = serve → Apart f s a → step K reentrant s a = some s' →
      Machine.Along (Serve.step K) (Serve.Apart f) serve (input s a).toList ∧
        ∃ serve', Machine.run (Serve.step K) serve (input s a).toList = some serve' ∧
          s'.serve = serve' := by
    rintro s a s' _ rfl hap hs
    refine ⟨?_, s'.serve, serve_step hs, rfl⟩
    cases hin : input s a with
    | none => trivial
    | some i => exact ⟨hap i hin, fun _ _ => trivial⟩
  exact (Machine.along_of_image hsim rfl hap h).1

/-! ## The end -/

/-- The helper has come to its end, and the operating system is as in `os` but for the sessions. -/
structure CleanedUp (os : Os cfg) (s : System cfg) : Prop where
  ended : s.Ended
  fds : s.serve.os.descs.fds = os.descs.fds
  devs : GivenBack os s.serve.os fun _ => False

/-- No object is left. -/
theorem not_has_of_ended {s : System cfg} (h : s.Ended) (dev : CStr) : ¬ s.serve.Has dev := by
  rintro ⟨n, x, ⟨a, ha⟩, -⟩
  rw [h.heap a] at ha
  cases ha

/-- `Ended` is enough for a helper that has started with `serve`. -/
theorem cleanedUp_of_ended {s t : System cfg} {os : Os cfg} {as : List Action}
    (hs : s.serve = .initial os) (ht : Machine.run (step K reentrant) s as = some t)
    (hend : t.Ended) : CleanedUp os t := by
  have hrun := serve_run ht
  rw [hs] at hrun
  refine ⟨hend, ?_, ?_⟩
  · have hfds : Serve.FdInv os.descs t.serve :=
      Machine.inv_of_run (fun _ _ _ hI hs => Serve.fdInv_step hI hs) (Serve.fdInv_initial os) hrun
    exact (Serve.fdsAccounted_of_fdInv hfds).ended hend.returned
  · obtain ⟨as, u, hu, hR, -⟩ := Serve.objects_run hrun
    have hback := Objects.givenBack_run hu
    rw [hR.has, hR.os] at hback
    exact fun dev _ => hback dev (not_has_of_ended hend dev)

/-- **The helper cleans up.** If the helper keeps nothing of its parent, then in every run, once the
clients are gone, it comes to its end by its own steps: all objects are deleted, and no descriptor
and no device is kept. In the builds with ids no session that it has opened with a pid is left in
the utmp database, if a new pseudo terminal always has another id than those of the objects. -/
theorem cleansUp {c : Child} (hkeeps : KeepsNothing c) (K : Kernel) (reentrant : Bool)
    (file : Fd → File) (db : SessionDb cfg) {as : List Action} {u : System cfg}
    (hu : Machine.run (step K reentrant) (initial c file db) as = some u) :
    (u.Abandoned → ∃ n, Machine.Inevitable (step K reentrant) IsHelper
      (CleanedUp (initial c file db).serve.os) n u) ∧
    (cfg.HasIds → Machine.Along (step K reentrant) (Apart (idOf cfg)) (initial c file db) as →
      u.serve.returned = true → Listed (initial c file db).serve.os u.serve.os fun _ => False) := by
  have hI : Inv u := Machine.inv_of_run (fun _ _ _ h ht => inv_step h ht)
    (inv_initial hkeeps.sv hkeeps.lv file db) hu
  constructor
  · intro hgone
    obtain ⟨n, hn⟩ := (comesToEnd hI hgone).ends
    refine ⟨n, hn.mono fun bs t ht hend => ?_⟩
    exact cleanedUp_of_ended rfl (Machine.run_append_eq_some.mpr ⟨u, hu, ht⟩) hend
  · intro hids hap hret
    exact (Serve.listed_run hids (serve_along hap hu) (serve_run hu)).2 hret

/-- The helper of a caller with the standard descriptors. -/
def standard : Child := ⟨(3, 4), some (5, 6), {4, 6}⟩

/-- A client gets an object, logs it in and dies. -/
def orphan : List Action :=
  let o : Outcome := ⟨8, .pts7, true, true, fun _ => ⟨true, true, true⟩⟩
  [.client 0 (.write (.ofGet ⟨.get, 0, false, 0, zeroed _⟩)), .helper .give, .helper (.read o),
    .client 0 .give, .helper (.need false), .helper .give,
    .client 0 (.write (.ofLogin 8 42 true (CString.read [58, 48]))), .helper (.read o),
    .client 0 .closeSock, .client 0 .closeLock]

/-- What the helper does then. -/
def orphanEnd : List Action :=
  [.helper (.need false), .helper .give, .helper (.eof fun _ => ⟨true, true, true⟩)]

theorem cleansUp_orphan :
    (∃ (u : System linux) (n : ℕ), Machine.run (step posix true)
        (initial standard Os.start.descs.file Os.start.db) orphan = some u ∧ u.serve.ptys = [8] ∧
      Machine.Inevitable (step posix true) IsHelper
        (CleanedUp (initial standard Os.start.descs.file Os.start.db).serve.os) n u) ∧
    ∃ u : System linux, Machine.run (step posix true)
        (initial standard Os.start.descs.file Os.start.db) (orphan ++ orphanEnd) = some u ∧
      u.serve.returned = true ∧ Listed (initial standard Os.start.descs.file Os.start.db).serve.os
        u.serve.os fun _ => False := by
  have hkeeps : KeepsNothing standard :=
    ⟨fun fd => by simp [standard, Child.sockFd, Child.lockFd], by decide, by decide⟩
  constructor
  · obtain ⟨u, hu, hptys, hsock, hlock⟩ : ∃ u : System linux, Machine.run (step posix true)
        (initial standard Os.start.descs.file Os.start.db) orphan = some u ∧ u.serve.ptys = [8] ∧
        u.sock.holders = ∅ ∧ u.lock.holders = ∅ := ⟨_, rfl, rfl, rfl, rfl⟩
    have hgone : u.Abandoned := by constructor <;> intro p <;> simp [hsock, hlock]
    obtain ⟨n, hn⟩ := (cleansUp hkeeps posix true Os.start.descs.file Os.start.db hu).1 hgone
    exact ⟨u, n, hu, hptys, hn⟩
  · obtain ⟨u, hu, hret⟩ : ∃ u : System linux, Machine.run (step posix true)
        (initial standard Os.start.descs.file Os.start.db) (orphan ++ orphanEnd) = some u ∧
        u.serve.returned = true := ⟨_, rfl, rfl⟩
    refine ⟨u, hu, hret, ?_⟩
    refine (cleansUp hkeeps posix true Os.start.descs.file Os.start.db hu).2 (Or.inr rfl) ?_ hret
    have hnone : ∀ (s : System linux) a, (∀ i ∈ input s a, i.device linux = none) →
        Apart (idOf linux) s a := fun s a ha i hi dev hdev => by rw [ha i hi] at hdev; cases hdev
    -- only the first command is given a device
    refine Machine.along_cons_of_step (hnone _ _ (by rintro i ⟨⟩)) rfl ?_
    refine Machine.along_cons_of_step (hnone _ _ (by rintro i ⟨⟩)) rfl ?_
    refine Machine.along_cons_of_step ?_ rfl ?_
    · rintro i ⟨⟩ dev - dev' ⟨n, x, ⟨a, ha⟩, -⟩
      cases ha
    repeat refine Machine.along_cons_of_step (hnone _ _ (by rintro i ⟨⟩; try rfl)) rfl ?_
    trivial

end Hangup

end Libptytty
