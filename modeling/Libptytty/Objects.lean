import Libptytty.Logouts
import Libptytty.Refinement

/-!
# The objects of a process

`Objects` is a process with its `ptytty_unix` objects, which it creates, uses and deletes in any
order. A client that uses the class itself is one (`Direct.objects_run`), and so is the helper for
every stream of commands, where the number of an object is that of its allocation
(`Serve.objects_run`). What is kept by every call therefore holds on both paths.
-/

namespace Libptytty

open CString Memory
open PtyttyUnix (GetOutcome allocated)

variable {cfg : Config}

/-- The objects by number, and the process. -/
structure Objects (cfg : Config) where
  objs : ℕ → Option PtyttyUnix
  os : Os cfg

namespace Objects

/-- A call on the object `i`, with the answers of the operating system. -/
inductive Act
  | create (i : ℕ)
  | get (i : ℕ) (o : GetOutcome)
  | login (i : ℕ) (o : LogOutcome) (pid : ℤ) (shell : Bool) (hostname : CStr)
  | closeTty (i : ℕ)
  | delete (i : ℕ) (o : LogOutcome)

/-- The object of a call. -/
def Act.index : Act → ℕ
  | .create i | .get i _ | .login i _ _ _ _ | .closeTty i | .delete i _ => i

/-- Before the first object. -/
def initial (os : Os cfg) : Objects cfg := ⟨fun _ => none, os⟩

section Step

variable (K : Kernel)

/-- What a call makes of its object and of the process. `get` is not called again after it has
returned true. -/
def call : Act → Option PtyttyUnix → Os cfg → Option (Option PtyttyUnix × Os cfg)
  | .create _, none, os => some (some .new, os)
  | .get _ o, some x, os =>
    if x.name.isSome then none else some (some (x.get K o os).2.1, (x.get K o os).2.2)
  | .login _ o pid shell hostname, some x, os =>
    some (some (x.login K o pid shell hostname os).1, (x.login K o pid shell hostname os).2)
  | .closeTty _, some x, os => some (some (x.closeTty os).1, (x.closeTty os).2)
  | .delete _ o, some x, os => some (none, x.delete K o os)
  | _, _, _ => none

/-- One call. -/
def step (s : Objects cfg) (a : Act) : Option (Objects cfg) :=
  (call K a (s.objs a.index) s.os).map fun r => ⟨Function.update s.objs a.index r.1, r.2⟩

/-- A run of one call. -/
theorem run_single {s : Objects cfg} {a : Act} {y : Option PtyttyUnix} {os : Os cfg}
    (h : call K a (s.objs a.index) s.os = some (y, os)) :
    Machine.run (step K) s [a] = some ⟨Function.update s.objs a.index y, os⟩ := by
  rw [Machine.run_cons, step, h]
  rfl

/-- What a call can do to its object. -/
inductive Called (os : Os cfg) : Act → Option PtyttyUnix → Option PtyttyUnix → Os cfg → Prop
  | create {i} : Called os (.create i) none (some .new) os
  | refused {i o} (refused : allocated cfg o = none) :
    Called os (.get i o) (some .new) (some .new) (PtyttyUnix.new.get K o os).2.2
  | got {i o x dev} (found : allocated cfg o = some dev) (name : x.name = some dev)
    (pid : x.cmdPid = 0) :
    Called os (.get i o) (some .new) (some x) (PtyttyUnix.new.get K o os).2.2
  | idle {i o pid shell hostname x} (unnamed : x.name = none ∨ (∃ n ∈ x.name, n.1 = []) ∨
      cfg.utmp = .none) :
    Called os (.login i o pid shell hostname) (some x) (some x) os
  | login {i o pid shell hostname x dev} (utmp : cfg.utmp ≠ .none) (name : x.name = some dev)
    (nonempty : dev.1 ≠ []) :
    Called os (.login i o pid shell hostname) (some x)
      (some { x with cmdPid := pid, loginShell := some shell })
      (x.login K o pid shell hostname os).2
  | closeTty {i x} :
    Called os (.closeTty i) (some x) (some { x with tty := none }) (x.closeTty os).2
  | delete {i o x} : Called os (.delete i o) (some x) none (x.delete K o os)

end Step

variable {K : Kernel}

/-- Every object is as constructed, or it has a device. -/
def Inv (s : Objects cfg) : Prop := ∀ i x, s.objs i = some x → x = .new ∨ x.name.isSome

theorem inv_initial (os : Os cfg) : Inv (initial os) := by rintro i x ⟨⟩

theorem called_get (i : ℕ) (o : GetOutcome) (os : Os cfg) :
    Called K os (.get i o) (some .new) (some (PtyttyUnix.new.get K o os).2.1)
      (PtyttyUnix.new.get K o os).2.2 := by
  obtain ⟨hok, hentry⟩ := PtyttyUnix.get_entry (K := K) (o := o) (x := .new) rfl rfl os
  cases hal : allocated cfg o with
  | none =>
    rw [hal] at hok
    have hnew : (PtyttyUnix.new.get K o os).2.1 = .new := by
      rcases PtyttyUnix.get_moves (K := K) (o := o) PtyttyUnix.initial_new os with
        ⟨os', he, -⟩ | ⟨x, os', he, -⟩
      · rw [he]
      · rw [he] at hok
        cases hok
    rw [hnew]
    exact .refused hal
  | some dev =>
    rw [hal] at hentry
    exact .got hal (congrArg Entry.name hentry) (congrArg Entry.cmdPid hentry)

theorem called_login (i : ℕ) (o : LogOutcome) (pid : ℤ) (shell : Bool) (hostname : CStr)
    (x : PtyttyUnix) (os : Os cfg) :
    Called K os (.login i o pid shell hostname) (some x)
      (some (x.login K o pid shell hostname os).1) (x.login K o pid shell hostname os).2 := by
  by_cases hu : cfg.utmp = .none
  · have hsame : x.login K o pid shell hostname os = (x, os) := by
      unfold PtyttyUnix.login
      rw [if_pos hu]
    rw [hsame]
    exact .idle (Or.inr (Or.inr hu))
  by_cases hn : x.name = none ∨ ∃ n ∈ x.name, n.1 = []
  · rw [PtyttyUnix.login_unnamed K os o pid shell hostname hn]
    exact .idle (hn.imp_right Or.inl)
  · obtain ⟨dev, hdev⟩ := Option.ne_none_iff_exists'.mp fun h => hn (Or.inl h)
    have hne : dev.1 ≠ [] := fun h => hn (Or.inr ⟨dev, hdev, h⟩)
    rw [(PtyttyUnix.login_named K os hu o pid shell hostname hdev hne).1]
    exact .login hu hdev hne

/-- What a step can do. -/
theorem step_called {s t : Objects cfg} {a : Act} (hI : Inv s) (ht : step K s a = some t) :
    ∃ y os, Called K s.os a (s.objs a.index) y os ∧
      t = ⟨Function.update s.objs a.index y, os⟩ := by
  obtain ⟨⟨y, os⟩, hcall, rfl⟩ := Option.map_eq_some_iff.mp ht
  refine ⟨y, os, ?_, rfl⟩
  cases hx : s.objs a.index with
  | none =>
    rw [hx] at hcall
    cases a <;> cases hcall
    exact .create
  | some x =>
    rw [hx] at hcall
    cases a with
    | create => cases hcall
    | get i o =>
      change (if _ then _ else _) = _ at hcall
      split_ifs at hcall with hname
      cases hcall
      obtain rfl : x = .new := (hI _ x hx).resolve_right hname
      exact called_get i o s.os
    | login i o pid shell hostname =>
      cases hcall
      exact called_login i o pid shell hostname x s.os
    | closeTty =>
      cases hcall
      rw [PtyttyUnix.closeTty_fst]
      exact .closeTty
    | delete =>
      cases hcall
      exact .delete

/-- One object is replaced. -/
theorem forall_update {P : ℕ → PtyttyUnix → Prop} {objs : ℕ → Option PtyttyUnix} {i : ℕ}
    {y : Option PtyttyUnix} (hy : ∀ x, y = some x → P i x)
    (hother : ∀ j x, j ≠ i → objs j = some x → P j x) :
    ∀ j x, Function.update objs i y j = some x → P j x := by
  intro j x hx
  by_cases hj : j = i
  · subst hj
    rw [Function.update_self] at hx
    exact hy x hx
  · rw [Function.update_of_ne hj] at hx
    exact hother j x hj hx

theorem inv_step {s t : Objects cfg} {a : Act} (hI : Inv s) (ht : step K s a = some t) :
    Inv t := by
  obtain ⟨y, os, hcalled, rfl⟩ := step_called hI ht
  refine forall_update (fun x hy => ?_) fun j x _ => hI j x
  have hold := hI a.index
  generalize s.objs a.index = old at hcalled hold
  cases hcalled with
  | create => exact Or.inl (Option.some.inj hy).symm
  | refused => exact Or.inl (Option.some.inj hy).symm
  | got found name => exact Or.inr (by rw [← Option.some.inj hy, name]; rfl)
  | idle => exact hold x hy
  | login utmp name => exact Or.inr (by rw [← Option.some.inj hy, name]; rfl)
  | @closeTty i x' =>
    obtain rfl := Option.some.inj hy
    refine (hold x' rfl).imp (fun hnew => ?_) id
    rw [hnew]
    rfl
  | delete => cases hy

theorem inv_run {os : Os cfg} {as : List Act} {s : Objects cfg}
    (h : Machine.run (step K) (initial os) as = some s) : Inv s :=
  Machine.inv_of_run (fun _ _ _ hI ht => inv_step hI ht) (inv_initial os) h

end Objects

/-! ## The direct path -/

namespace Direct

/-- The call on an object. -/
def act : Op × LogOutcome → Objects.Act
  | (.create i, _) => .create i
  | (.get i o, _) => .get i o
  | (.login i pid shell hostname, o) => .login i o pid shell hostname
  | (.closeTty i, _) => .closeTty i
  | (.delete i, o) => .delete i o

variable {K : Kernel}

theorem objects_step {d d' : Direct cfg} {c : Op × LogOutcome} (h : step K d c = some d')
    (hfresh : ∀ i x, d.objs i = some x → d.got i = false → x = .new) :
    Objects.step K ⟨d.objs, d.os⟩ (act c) = some ⟨d'.objs, d'.os⟩ := by
  obtain ⟨op, o⟩ := c
  cases op with
  | create i =>
    simp only [step] at h
    split_ifs at h with hx
    cases h
    have hx : d.objs i = none := by simpa using hx
    simp [Objects.step, act, Objects.Act.index, hx, Objects.call]
  | get i o =>
    obtain ⟨x, hx, h⟩ := Option.bind_eq_some_iff.mp h
    split_ifs at h with hg
    obtain rfl := Option.some.inj h
    obtain rfl : x = .new := hfresh i x hx (by simpa using hg)
    have hname : PtyttyUnix.new.name.isSome = false := rfl
    have hcall : Objects.step K ⟨d.objs, d.os⟩ (.get i o) =
        some ⟨Function.update d.objs i (some (PtyttyUnix.new.get K o d.os).2.1),
          (PtyttyUnix.new.get K o d.os).2.2⟩ := by
      simp [Objects.step, Objects.Act.index, hx, Objects.call, hname]
    exact hcall
  | login i pid shell hostname =>
    obtain ⟨x, hx, rfl⟩ := Option.map_eq_some_iff.mp h
    simp [Objects.step, act, Objects.Act.index, hx, Objects.call]
  | closeTty i =>
    obtain ⟨x, hx, rfl⟩ := Option.map_eq_some_iff.mp h
    simp [Objects.step, act, Objects.Act.index, hx, Objects.call]
  | delete i =>
    obtain ⟨x, hx, rfl⟩ := Option.map_eq_some_iff.mp h
    simp [Objects.step, act, Objects.Act.index, hx, Objects.call]

/-- The client's objects. -/
def objects (d : Direct cfg) : Objects cfg := ⟨d.objs, d.os⟩

/-- The calls keep the two in step. -/
def Tracks (d : Direct cfg) (t : Objects cfg) : Prop := t = d.objects ∧ ∃ a, Sim d a

theorem tracks_step {d d' : Direct cfg} {c : Op × LogOutcome} {t : Objects cfg} (h : Tracks d t)
    (hd : step K d c = some d') :
    ∃ t', Machine.run (Objects.step K) t (some (act c)).toList = some t' ∧ Tracks d' t' := by
  obtain ⟨rfl, a, ha⟩ := h
  obtain ⟨a', -, ha'⟩ := sim_step ha hd
  refine ⟨_, ?_, rfl, a', ha'⟩
  exact Machine.run_cons_eq_some.mpr ⟨_, objects_step hd ha.fresh, rfl⟩

/-- A client that uses `ptytty_unix` itself makes these calls. -/
theorem objects_run {os : Os cfg} {cs : List (Op × LogOutcome)} {d : Direct cfg}
    (h : Machine.run (step K) (initial os) cs = some d) :
    Machine.run (Objects.step K) (Objects.initial os) (cs.map act) = some d.objects := by
  obtain ⟨t, ht, rfl, -⟩ := Machine.run_of_simulation
    (fun _ _ _ _ hR hd => tracks_step hR hd) ⟨rfl, _, sim_initial os⟩ h
  rw [List.filterMap_eq_map'] at ht
  exact ht

/-- Conditions on its calls are conditions on the calls of the objects. -/
theorem objects_along {ok : Objects cfg → Objects.Act → Prop} {os : Os cfg}
    {cs : List (Op × LogOutcome)} {d : Direct cfg}
    (hok : Machine.Along (step K) (fun d c => ok d.objects (act c)) (initial os) cs)
    (h : Machine.run (step K) (initial os) cs = some d) :
    Machine.Along (Objects.step K) ok (.initial os) (cs.map act) := by
  have hsim : ∀ (d : Direct cfg) (c : Op × LogOutcome) (d' : Direct cfg) (t : Objects cfg),
      Tracks d t → ok d.objects (act c) → step K d c = some d' →
      Machine.Along (Objects.step K) ok t (some (act c)).toList ∧
        ∃ t', Machine.run (Objects.step K) t (some (act c)).toList = some t' ∧ Tracks d' t' := by
    rintro d c d' t hR hok hd
    refine ⟨⟨?_, fun _ _ => trivial⟩, tracks_step hR hd⟩
    rw [hR.1]
    exact hok
  obtain ⟨halong, -⟩ := Machine.along_of_image hsim ⟨rfl, _, sim_initial os⟩ hok h
  have himage : Machine.image (step K) (fun _ c => (some (act c)).toList) (initial os) cs =
      cs.filterMap fun c => some (act c) := Machine.image_eq_filterMap h
  rw [himage, List.filterMap_eq_map'] at halong
  exact halong

end Direct

/-! ## The helper -/

namespace Serve

section Calls

variable (K : Kernel)

/-- The number of the object at an address in `ptys`. -/
def registered (s : Serve cfg) (a : Addr) : Option ℕ :=
  if a ∈ s.ptys then s.heap.serialAt a else none

/-- The calls of the last loop. -/
def destroyCalls (o : ℕ → LogOutcome) : ℕ → Serve cfg → List Objects.Act
  | 0, _ => []
  | i + 1, s => (s.heap.serialAt (s.ptys.getD i 0)).toList.map (fun n => .delete n (o i)) ++
      destroyCalls o i (s.delete K (o i) (s.ptys.getD i 0))

/-- The calls on objects in one iteration of `serve`. -/
def calls (s : Serve cfg) : Input → List Objects.Act
  | .short log => destroyCalls K log s.ptys.length s
  | .command cmd o =>
    match cmd.type with
    | .get => [.create s.heap.created, .get s.heap.created o.get,
        if (PtyttyUnix.new.get K o.get s.os).1 then .closeTty s.heap.created
        else .delete s.heap.created (o.log 0)]
    | .login => (s.registered cmd.id).toList.map fun n => .login n (o.log 0) cmd.cmdPid
        cmd.loginShell (ofArray (terminate (n := 511) cmd.hostname))
    | .destroy => (s.registered cmd.id).toList.map fun n => .delete n (o.log 0)
    | .other _ => destroyCalls K o.log s.ptys.length s

end Calls

/-- The helper's objects, by the numbers of their allocations. -/
structure Represents (s : Serve cfg) (t : Objects cfg) : Prop where
  os : t.os = s.os
  objs : s.heap.Indexed t.objs

variable {K : Kernel} {s s' : Serve cfg} {t : Objects cfg}

theorem represents_initial (os : Os cfg) : Represents (initial os) (.initial os) :=
  ⟨rfl, Heap.indexed_empty⟩

theorem registered_of_cells {a : Addr} {c : Cell PtyttyUnix} (hmem : a ∈ s.ptys)
    (hc : s.heap.cells a = some c) : s.registered a = some c.serial := by
  unfold registered
  rw [if_pos hmem, serialAt_eq hc]

theorem registered_of_notMem {a : Addr} (h : a ∉ s.ptys) : s.registered a = none := if_neg h

/-- The object at `a` is deleted. -/
theorem Represents.delete (h : Represents s t) {a : Addr} {c : Cell PtyttyUnix}
    (hc : s.heap.cells a = some c) (o : LogOutcome) (ptys : List Addr) (events : List Event) :
    ∃ t', Machine.run (Objects.step K) t [.delete c.serial o] = some t' ∧
      Represents { s with
        ptys := ptys
        heap := s.heap.free a
        os := c.obj.delete K o s.os
        events := events } t' := by
  have hobj := h.objs.of_cells hc
  have hcall : Objects.call K (.delete c.serial o) (t.objs c.serial) t.os =
      some (none, c.obj.delete K o s.os) := by
    rw [hobj, h.os]
    rfl
  exact ⟨_, Objects.run_single K hcall, rfl, h.objs.free hc⟩

/-- The last loop. -/
theorem represents_destroyAll (o : ℕ → LogOutcome) (i : ℕ) (hs : Destroying i s)
    (hi : i ≤ s.ptys.length) (h : Represents s t) :
    ∃ t', Machine.run (Objects.step K) t (destroyCalls K o i s) = some t' ∧
      Represents (destroyAll K o i s) t' := by
  induction i generalizing s t with
  | zero => exact ⟨t, rfl, h⟩
  | succ i ih =>
    obtain ⟨hd, hp⟩ := destroying_step (K := K) hs hi (o i)
    have hmem : s.ptys.getD i 0 ∈ s.ptys.take (i + 1) := by
      rw [List.getD_eq_getElem _ _ hi]
      exact List.mem_take_iff_getElem.mpr ⟨i, by omega, rfl⟩
    obtain ⟨c, hc⟩ := Option.isSome_iff_exists.mp ((hs.live _).mp hmem)
    have hdel := delete_eq (K := K) hc (o i)
    obtain ⟨t₁, ht₁, h₁⟩ := h.delete (K := K) hc (o i) s.ptys
      (s.events ++ [.delete (some c.serial) (s.ptys.getD i 0 ∈ s.ptys)])
    rw [← hdel] at h₁
    obtain ⟨t₂, ht₂, h₂⟩ := ih hd (by rw [hp]; omega) h₁
    refine ⟨t₂, Machine.run_append_eq_some.mpr ⟨t₁, ?_, ht₂⟩, h₂⟩
    rw [serialAt_eq hc]
    exact ht₁

theorem represents_get (h : Represents s t) {o : Outcome} (free : s.heap.cells o.addr = none) :
    ∃ t', Machine.run (Objects.step K) t [.create s.heap.created, .get s.heap.created o.get,
        if (PtyttyUnix.new.get K o.get s.os).1 then .closeTty s.heap.created
        else .delete s.heap.created (o.log 0)] = some t' ∧ Represents (s.handleGet K o) t' := by
  have hnone := h.objs.created
  have hname : PtyttyUnix.new.name.isSome = false := rfl
  rcases he : PtyttyUnix.new.get K o.get s.os with ⟨ok, x, os⟩
  have hcell : (s.heap.alloc o.addr x).cells o.addr = some ⟨s.heap.created, x⟩ := by
    rw [Heap.cells_alloc, if_pos rfl]
  have halloc := h.objs.alloc free x
  have hget : Machine.run (Objects.step K) t [.create s.heap.created, .get s.heap.created o.get] =
      some ⟨Function.update t.objs s.heap.created (some x), os⟩ := by
    simp [Machine.run_cons, Objects.step, Objects.Act.index, hnone, Objects.call, hname, h.os, he]
  cases ok with
  | true =>
    rw [handleGet_true he]
    have hcall : Objects.call K (.closeTty s.heap.created)
        (Function.update t.objs s.heap.created (some x) s.heap.created) os =
          some (some (x.closeTty os).1, (x.closeTty os).2) := by
      rw [Function.update_self]
      rfl
    exact ⟨_, Machine.run_append_eq_some.mpr ⟨_, hget, Objects.run_single K hcall⟩, rfl,
      halloc.modify hcell fun _ => (x.closeTty os).1⟩
  | false =>
    rw [handleGet_false he]
    have hcall : Objects.call K (.delete s.heap.created (o.log 0))
        (Function.update t.objs s.heap.created (some x) s.heap.created) os =
          some (none, x.delete K (o.log 0) os) := by
      rw [Function.update_self]
      rfl
    exact ⟨_, Machine.run_append_eq_some.mpr ⟨_, hget, Objects.run_single K hcall⟩, rfl,
      halloc.free hcell⟩

theorem represents_login (hs : AtHead s) (h : Represents s t) (o : LogOutcome) (cmd : Command) :
    ∃ t', Machine.run (Objects.step K) t ((s.registered cmd.id).toList.map fun n =>
        .login n o cmd.cmdPid cmd.loginShell (ofArray (terminate (n := 511) cmd.hostname))) =
          some t' ∧ Represents (s.handleLogin K o cmd) t' := by
  rcases handleLogin_cases (K := K) hs.reg o cmd with ⟨he, hno⟩ | ⟨c, hu, hmem, hc, he⟩
  · rw [he]
    by_cases hmem : cmd.id ∈ s.ptys
    · -- in a build where `login` does nothing
      have hu : cfg.utmp = .none := hno.resolve_right fun hno => hno hmem
      obtain ⟨c, hc⟩ := Option.isSome_iff_exists.mp ((hs.reg.live _).mp hmem)
      have hobj := h.objs.of_cells hc
      refine ⟨t, ?_, h⟩
      have hsame : c.obj.login K o cmd.cmdPid cmd.loginShell
          (ofArray (terminate (n := 511) cmd.hostname)) t.os = (c.obj, t.os) := by
        unfold PtyttyUnix.login
        rw [if_pos hu]
      rw [registered_of_cells hmem hc]
      have hcall : Objects.call K (.login c.serial o cmd.cmdPid cmd.loginShell
          (ofArray (terminate (n := 511) cmd.hostname))) (t.objs c.serial) t.os =
            some (t.objs c.serial, t.os) := by
        rw [hobj]
        simp only [Objects.call, hsame]
      refine (Objects.run_single K hcall).trans ?_
      rw [Objects.Act.index, Function.update_eq_self]
    · rw [registered_of_notMem hmem]
      exact ⟨t, rfl, h⟩
  · rw [he, registered_of_cells hmem hc]
    have hobj := h.objs.of_cells hc
    have hcall : Objects.call K (.login c.serial o cmd.cmdPid cmd.loginShell
        (ofArray (terminate (n := 511) cmd.hostname))) (t.objs c.serial) t.os =
          some (some (c.obj.login K o cmd.cmdPid cmd.loginShell
            (ofArray (terminate (n := 511) cmd.hostname)) s.os).1, (c.obj.login K o cmd.cmdPid
              cmd.loginShell (ofArray (terminate (n := 511) cmd.hostname)) s.os).2) := by
      rw [hobj, h.os]
      rfl
    exact ⟨_, Objects.run_single K hcall, rfl, h.objs.modify hc fun _ => (c.obj.login K o
      cmd.cmdPid cmd.loginShell (ofArray (terminate (n := 511) cmd.hostname)) s.os).1⟩

theorem represents_destroy (hs : AtHead s) (h : Represents s t) (o : LogOutcome) (cmd : Command) :
    ∃ t', Machine.run (Objects.step K) t ((s.registered cmd.id).toList.map fun n =>
        .delete n o) = some t' ∧ Represents (s.handleDestroy K o cmd) t' := by
  rcases handleDestroy_cases (K := K) hs.reg o cmd with ⟨he, hno⟩ | ⟨c, hmem, hc, he⟩
  · rw [he, registered_of_notMem hno]
    exact ⟨t, rfl, h⟩
  · rw [he, registered_of_cells hmem hc]
    exact h.delete hc o _ _

/-- One iteration of `serve` makes these calls. -/
theorem represents_step {i : Input} (hI : Inv s) (h : Represents s t)
    (hs' : step K s i = some s') :
    ∃ t', Machine.run (Objects.step K) t (calls K s i) = some t' ∧ Represents s' t' := by
  obtain ⟨hr, hi⟩ := iterates_of_step hs'
  have hs : AtHead s := by simpa [Inv, hr] using hI
  have hend : ∀ o, ∃ t', Machine.run (Objects.step K) t (destroyCalls K o s.ptys.length s) =
      some t' ∧ Represents (s.finish K o) t' := by
    intro o
    obtain ⟨t', ht', h'⟩ := represents_destroyAll (K := K) o _ hs.destroying le_rfl h
    exact ⟨t', ht', h'.os, h'.objs⟩
  cases hi with
  | short => exact hend _
  | get type nonnull free =>
    simp only [calls, type]
    exact represents_get h free
  | login type =>
    simp only [calls, type]
    exact represents_login hs h _ _
  | destroy type =>
    simp only [calls, type]
    exact represents_destroy hs h _ _
  | other type =>
    simp only [calls, type]
    exact hend _

/-- The helper makes these calls, for every stream of commands. Conditions on its commands may
become conditions on the calls. -/
theorem objects_along {ok : Serve cfg → Input → Prop} {ok' : Objects cfg → Objects.Act → Prop}
    (hcalls : ∀ s t i, Represents s t → ok s i → Machine.Along (Objects.step K) ok' t (calls K s i))
    {os : Os cfg} {is : List Input} (hok : Machine.Along (step K) ok (initial os) is)
    (h : Machine.run (step K) (initial os) is = some s) : ∃ as t,
      Machine.Along (Objects.step K) ok' (.initial os) as ∧
      Machine.run (Objects.step K) (.initial os) as = some t ∧ Represents s t ∧ Inv s ∧
      ∀ a ∈ as, ∃ (s : Serve cfg) (i : Input), i ∈ is ∧ a ∈ calls K s i := by
  have hsim : ∀ (s : Serve cfg) (i : Input) (s' : Serve cfg) (t : Objects cfg),
      (Represents s t ∧ Inv s) → ok s i → step K s i = some s' →
      Machine.Along (Objects.step K) ok' t (calls K s i) ∧
        ∃ t', Machine.run (Objects.step K) t (calls K s i) = some t' ∧ Represents s' t' ∧
          Inv s' := by
    rintro s i s' t ⟨hR, hI⟩ hok hs'
    obtain ⟨t', ht', h'⟩ := represents_step hI hR hs'
    exact ⟨hcalls s t i hR hok, t', ht', h', inv_step hI hs'⟩
  obtain ⟨halong, t, ht, hR, hI⟩ :=
    Machine.along_of_image hsim ⟨represents_initial os, inv_initial os⟩ hok h
  exact ⟨_, t, halong, ht, hR, hI, fun _ ha => Machine.mem_image ha⟩

theorem objects_run {os : Os cfg} {is : List Input}
    (h : Machine.run (step K) (initial os) is = some s) : ∃ as t,
      Machine.run (Objects.step K) (.initial os) as = some t ∧ Represents s t ∧ Inv s ∧
      ∀ a ∈ as, ∃ (s : Serve cfg) (i : Input), i ∈ is ∧ a ∈ calls K s i := by
  have hcalls : ∀ (s : Serve cfg) (t : Objects cfg) (i : Input), Represents s t → True →
      Machine.Along (Objects.step K) (fun _ _ => True) t (calls K s i) := fun _ t i _ _ =>
    Machine.along_of_forall (fun _ _ => trivial) t
  obtain ⟨as, t, -, ht⟩ := objects_along hcalls (Machine.along_of_forall (fun _ _ => trivial) _) h
  exact ⟨as, t, ht⟩

end Serve

end Libptytty
