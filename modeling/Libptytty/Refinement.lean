import Libptytty.Entries
import Libptytty.Registry
import Libptytty.Descriptors

/-!
# The helper path refines the direct path

`Abstract` is what the two implementations of `ptytty` are for: objects with a name and a session
that log in and out of the databases. `Direct` runs a client's calls on `ptytty_unix` objects in
its own process, `Proxied` runs them through `ptytty_proxy` and the helper, which handles a command
some time after it has been sent. Both simulate `Abstract`, so that they agree with each other
(`helper_refines_direct`).
-/

namespace Libptytty

open CString Memory
open PtyttyUnix (GetOutcome allocated)

variable {cfg : Config}

/-- A call of the client on its object `i`. -/
inductive Op
  | create (i : ℕ)
  | get (i : ℕ) (o : GetOutcome)
  | login (i : ℕ) (pid : ℤ) (shell : Bool) (hostname : CStr)
  | closeTty (i : ℕ)
  | delete (i : ℕ)

/-! ## The abstract machine -/

/-- The objects by their entries, the databases up to timestamps, and what the calls of `get` have
returned. -/
structure Abstract (cfg : Config) where
  objs : ℕ → Option Entry
  records : Records cfg
  results : List Bool

namespace Abstract

/-- `get` is not called again after it has returned true. -/
def step (s : Abstract cfg) : Op → Option (Abstract cfg)
  | .create i =>
    if (s.objs i).isSome then none
    else some { s with objs := Function.update s.objs i (some .new) }
  | .get i o => (s.objs i).bind fun e =>
      if e.name.isSome then none
      else
        match allocated cfg o with
        | none => some { s with results := s.results ++ [false] }
        | some dev => some { s with
            objs := Function.update s.objs i (some (e.got cfg o dev))
            results := s.results ++ [true] }
  | .login i pid shell hostname => (s.objs i).map fun e =>
      let (e, r) := e.login pid shell hostname s.records
      { s with objs := Function.update s.objs i (some e), records := r }
  | .closeTty i => (s.objs i).map fun _ => s
  | .delete i => (s.objs i).map fun e =>
      { s with objs := Function.update s.objs i none, records := e.delete s.records }

/-- Before the first call. -/
def initial (r : Records cfg) : Abstract cfg := ⟨fun _ => none, r, []⟩

end Abstract

/-! ## The direct path -/

/-- A client that uses `ptytty_unix` itself. -/
structure Direct (cfg : Config) where
  objs : ℕ → Option PtyttyUnix
  /-- History: `get` has returned true. -/
  got : ℕ → Bool
  os : Os cfg
  results : List Bool

namespace Direct

/-- Before the first call. -/
def initial (os : Os cfg) : Direct cfg := ⟨fun _ => none, fun _ => false, os, []⟩

/-- A call, with the answers of the operating system to `log_session`. -/
def step (K : Kernel) (s : Direct cfg) : Op × LogOutcome → Option (Direct cfg)
  | (.create i, _) =>
    if (s.objs i).isSome then none
    else some { s with
      objs := Function.update s.objs i (some .new)
      got := Function.update s.got i false }
  | (.get i o, _) => (s.objs i).bind fun x =>
      if s.got i then none
      else
        let (ok, x, os) := x.get K o s.os
        some ⟨Function.update s.objs i (some x), Function.update s.got i ok, os,
          s.results ++ [ok]⟩
  | (.login i pid shell hostname, o) => (s.objs i).map fun x =>
      let (x, os) := x.login K o pid shell hostname s.os
      { s with objs := Function.update s.objs i (some x), os := os }
  | (.closeTty i, _) => (s.objs i).map fun x =>
      let (x, os) := x.closeTty s.os
      { s with objs := Function.update s.objs i (some x), os := os }
  | (.delete i, o) => (s.objs i).map fun x =>
      { s with objs := Function.update s.objs i none, os := x.delete K o s.os }

/-- The objects have the entries of the abstract ones; those not got are as constructed. -/
structure Sim (d : Direct cfg) (a : Abstract cfg) : Prop where
  entries : ∀ i, a.objs i = (d.objs i).map PtyttyUnix.entry
  fresh : ∀ i x, d.objs i = some x → d.got i = false → x = .new
  named : ∀ i x, d.objs i = some x → d.got i = true → x.name.isSome
  records : d.os.db.records = a.records
  results : d.results = a.results

variable {K : Kernel}

theorem sim_initial (os : Os cfg) : Sim (initial os) (.initial os.db.records) :=
  ⟨fun _ => rfl, by rintro i x ⟨⟩, by rintro i x ⟨⟩, rfl, rfl⟩

/-- One object is replaced. -/
theorem Sim.update {d : Direct cfg} {a : Abstract cfg} (h : Sim d a) (i : ℕ)
    {x : Option PtyttyUnix} {e : Option Entry} {g : Bool} (he : e = x.map PtyttyUnix.entry)
    (hf : ∀ y ∈ x, g = false → y = .new) (hn : ∀ y ∈ x, g = true → y.name.isSome)
    {os : Os cfg} {r : Records cfg} (hr : os.db.records = r) (bs : List Bool) :
    Sim ⟨Function.update d.objs i x, Function.update d.got i g, os, d.results ++ bs⟩
      ⟨Function.update a.objs i e, r, a.results ++ bs⟩ := by
  refine ⟨fun j => ?_, fun j y hy hg => ?_, fun j y hy hg => ?_, hr, by rw [h.results]⟩ <;>
    dsimp only at * <;> by_cases hj : j = i
  · subst hj; rw [Function.update_self, Function.update_self, he]
  · rw [Function.update_of_ne hj, Function.update_of_ne hj, h.entries]
  · subst hj
    rw [Function.update_self] at hy hg
    exact hf y hy hg
  · rw [Function.update_of_ne hj] at hy hg
    exact h.fresh j y hy hg
  · subst hj
    rw [Function.update_self] at hy hg
    exact hn y hy hg
  · rw [Function.update_of_ne hj] at hy hg
    exact h.named j y hy hg

/-- One object is replaced, and no `get` has returned. -/
theorem Sim.update_obj {d : Direct cfg} {a : Abstract cfg} (h : Sim d a) (i : ℕ)
    {x : Option PtyttyUnix} {e : Option Entry} (he : e = x.map PtyttyUnix.entry)
    (hf : ∀ y ∈ x, d.got i = false → y = .new) (hn : ∀ y ∈ x, d.got i = true → y.name.isSome)
    {os : Os cfg} {r : Records cfg} (hr : os.db.records = r) :
    Sim { d with objs := Function.update d.objs i x, os := os }
      { a with objs := Function.update a.objs i e, records := r } := by
  have hu := h.update i he hf hn hr []
  rw [Function.update_eq_self, List.append_nil, List.append_nil] at hu
  exact hu

theorem sim_get {d : Direct cfg} {a : Abstract cfg} (h : Sim d a) {i : ℕ} {x : PtyttyUnix}
    (hx : d.objs i = some x) (hg : d.got i = false) (o : GetOutcome) :
    ∃ a', Abstract.step a (.get i o) = some a' ∧
      Sim ⟨Function.update d.objs i (some (x.get K o d.os).2.1),
        Function.update d.got i (x.get K o d.os).1, (x.get K o d.os).2.2,
        d.results ++ [(x.get K o d.os).1]⟩ a' := by
  obtain rfl : x = .new := h.fresh i x hx hg
  have ha : a.objs i = some .new := by rw [h.entries, hx]; rfl
  obtain ⟨hok, hentry⟩ := PtyttyUnix.get_entry (K := K) (o := o) (x := .new) rfl rfl d.os
  have hdb : (PtyttyUnix.new.get K o d.os).2.2.db.records = a.records := by
    rw [PtyttyUnix.get_db, h.records]
  unfold Abstract.step
  dsimp only
  rw [ha, Option.bind_some]
  have hnew : Entry.new.name.isSome = false := rfl
  rw [hnew]
  cases hal : allocated cfg o with
  | none =>
    rw [hal] at hok hentry
    refine ⟨_, rfl, ?_⟩
    have hx' : (PtyttyUnix.new.get K o d.os).2.1 = .new := by
      rcases PtyttyUnix.get_moves (K := K) (o := o) PtyttyUnix.initial_new d.os with
        ⟨os, he, -⟩ | ⟨y, os, he, -⟩
      · rw [he]
      · rw [he] at hok; cases hok
    have hu := h.update i (x := some (PtyttyUnix.new.get K o d.os).2.1) (e := some .new)
      (g := (PtyttyUnix.new.get K o d.os).1) (by rw [hx']; rfl)
      (fun y hy _ => by rw [← Option.some.inj hy, hx'])
      (fun y hy hg' => by rw [hok] at hg'; cases hg')
      hdb [(PtyttyUnix.new.get K o d.os).1]
    rw [← ha, Function.update_eq_self] at hu
    rw [hok] at hu ⊢
    exact hu
  | some dev =>
    rw [hal] at hok hentry
    refine ⟨_, rfl, ?_⟩
    have hname : (PtyttyUnix.new.get K o d.os).2.1.name = some dev := congrArg Entry.name hentry
    have hu := h.update i (x := some (PtyttyUnix.new.get K o d.os).2.1)
      (e := some (Entry.new.got cfg o dev)) (g := (PtyttyUnix.new.get K o d.os).1)
      (by rw [Option.map_some, hentry]; rfl) (fun y hy hg' => by rw [hok] at hg'; cases hg')
      (fun y hy _ => by rw [← Option.some.inj hy, hname]; rfl) hdb
      [(PtyttyUnix.new.get K o d.os).1]
    rw [hok] at hu ⊢
    exact hu

/-- Every call on the direct path is one of the abstract machine. -/
theorem sim_step {d d' : Direct cfg} {a : Abstract cfg} (h : Sim d a) {c : Op × LogOutcome}
    (hd : step K d c = some d') : ∃ a', Abstract.step a c.1 = some a' ∧ Sim d' a' := by
  obtain ⟨op, o⟩ := c
  cases op with
  | create i =>
    simp only [step] at hd
    split_ifs at hd with hx
    obtain rfl := Option.some.inj hd
    have hx : d.objs i = none := by simpa using hx
    have ha : a.objs i = none := by rw [h.entries, hx]; rfl
    refine ⟨{ a with objs := Function.update a.objs i (some .new) }, ?_, ?_⟩
    · simp [Abstract.step, ha]
    · have hu := h.update i (x := some .new) (e := some .new) (g := false) rfl
        (fun y hy _ => (Option.some.inj hy).symm) (fun y hy hg => by cases hg) h.records []
      rw [List.append_nil, List.append_nil] at hu
      exact hu
  | get i o =>
    obtain ⟨x, hx, hd⟩ := Option.bind_eq_some_iff.mp hd
    split_ifs at hd with hg
    obtain rfl := Option.some.inj hd
    exact sim_get h hx (by simpa using hg) o
  | login i pid shell hostname =>
    obtain ⟨x, hx, rfl⟩ := Option.map_eq_some_iff.mp hd
    have ha : a.objs i = some x.entry := by rw [h.entries, hx]; rfl
    obtain ⟨hentry, hrec⟩ := PtyttyUnix.login_entry (K := K) o pid shell hostname x d.os
    obtain ⟨-, -, hname⟩ := PtyttyUnix.login_fields (K := K) o pid shell hostname x d.os
    rw [h.records] at hentry hrec
    refine ⟨_, by simp only [Abstract.step, ha, Option.map_some]; rfl, ?_⟩
    refine h.update_obj i (x := some (x.login K o pid shell hostname d.os).1)
      (by rw [Option.map_some, hentry]) (fun y hy hg => ?_) (fun y hy hg => ?_) hrec
    · rw [← Option.some.inj hy, h.fresh i x hx hg,
        PtyttyUnix.login_unnamed K d.os o pid shell hostname (Or.inl rfl)]
    · rw [← Option.some.inj hy, hname]
      exact h.named i x hx hg
  | closeTty i =>
    obtain ⟨x, hx, rfl⟩ := Option.map_eq_some_iff.mp hd
    have ha : a.objs i = some x.entry := by rw [h.entries, hx]; rfl
    have hentry : (x.closeTty d.os).1.entry = x.entry := by
      rw [PtyttyUnix.closeTty_fst]
      rfl
    refine ⟨a, by simp [Abstract.step, ha], ?_⟩
    have hu := h.update_obj i (x := some (x.closeTty d.os).1) (e := some x.entry)
      (by rw [Option.map_some, hentry]) (fun y hy hg => ?_) (fun y hy hg => ?_)
      ((congrArg SessionDb.records (PtyttyUnix.closeTty_db d.os x)).trans h.records)
    · rw [← ha, Function.update_eq_self] at hu
      exact hu
    · rw [← Option.some.inj hy, h.fresh i x hx hg]; rfl
    · rw [← Option.some.inj hy]
      have hname : (x.closeTty d.os).1.name = x.name := congrArg Entry.name hentry
      rw [hname]
      exact h.named i x hx hg
  | delete i =>
    obtain ⟨x, hx, rfl⟩ := Option.map_eq_some_iff.mp hd
    have ha : a.objs i = some x.entry := by rw [h.entries, hx]; rfl
    refine ⟨_, by simp only [Abstract.step, ha, Option.map_some]; rfl, ?_⟩
    refine h.update_obj i rfl (by rintro y ⟨⟩) (by rintro y ⟨⟩) ?_
    rw [PtyttyUnix.delete_records, h.records]

end Direct

/-! ## What commands do to the helper's objects -/

/-- The registered objects of the helper by their entries. -/
structure View (cfg : Config) where
  ptys : List Addr
  entries : Addr → Option Entry
  records : Records cfg

/-- The helper without its descriptors and times. -/
def Serve.view (s : Serve cfg) : View cfg :=
  ⟨s.ptys, fun a => (s.heap.cells a).map fun c => c.obj.entry, s.os.db.records⟩

namespace View

/-- The hostname that `serve` hands to `login`. -/
def hostname (cmd : Command) : CStr := ofArray (terminate (n := 511) cmd.hostname)

/-- The effect of a `login` or `destroy` command. -/
def command (v : View cfg) (cmd : Command) : View cfg :=
  match cmd.type, v.entries cmd.id with
  | .login, some e =>
    if cmd.id ∈ v.ptys then
      let (e, r) := e.login cmd.cmdPid cmd.loginShell (hostname cmd) v.records
      { v with entries := Function.update v.entries cmd.id (some e), records := r }
    else v
  | .destroy, some e =>
    if cmd.id ∈ v.ptys then
      ⟨v.ptys.erase cmd.id, Function.update v.entries cmd.id none, e.delete v.records⟩
    else v
  | _, _ => v

/-- The effect of commands that are under way. -/
def absorb (v : View cfg) (cmds : List Command) : View cfg := cmds.foldl command v

theorem absorb_concat (v : View cfg) (cmds : List Command) (cmd : Command) :
    v.absorb (cmds ++ [cmd]) = (v.absorb cmds).command cmd := List.foldl_concat ..

theorem command_of_not_mem {v : View cfg} {cmd : Command} (h : cmd.id ∉ v.ptys) :
    v.command cmd = v := by
  unfold command
  split
  · rw [if_neg h]
  · rw [if_neg h]
  · rfl

theorem command_login {v : View cfg} {cmd : Command} (ht : cmd.type = .login)
    (h : cmd.id ∈ v.ptys) {e : Entry} (he : v.entries cmd.id = some e) :
    v.command cmd = { v with
      entries := Function.update v.entries cmd.id
        (some (e.login cmd.cmdPid cmd.loginShell (hostname cmd) v.records).1)
      records := (e.login cmd.cmdPid cmd.loginShell (hostname cmd) v.records).2 } := by
  unfold command
  rw [ht, he]
  exact if_pos h

theorem command_destroy {v : View cfg} {cmd : Command} (ht : cmd.type = .destroy)
    (h : cmd.id ∈ v.ptys) {e : Entry} (he : v.entries cmd.id = some e) :
    v.command cmd = ⟨v.ptys.erase cmd.id, Function.update v.entries cmd.id none,
      e.delete v.records⟩ := by
  unfold command
  rw [ht, he]
  exact if_pos h

end View

namespace Serve

variable {K : Kernel}

theorem entries_modify (heap : Heap PtyttyUnix) (a : Addr) (x : PtyttyUnix)
    (h : (heap.cells a).isSome) :
    (fun b => ((heap.modify a fun _ => x).cells b).map fun c => c.obj.entry) =
      Function.update (fun b => (heap.cells b).map fun c => c.obj.entry) a (some x.entry) := by
  funext b
  rw [Heap.cells_modify]
  by_cases hb : b = a
  · subst hb
    obtain ⟨c, hc⟩ := Option.isSome_iff_exists.mp h
    rw [if_pos rfl, Function.update_self, hc]
    rfl
  · rw [if_neg hb, Function.update_of_ne hb]

theorem entries_free (heap : Heap PtyttyUnix) (a : Addr) :
    (fun b => ((heap.free a).cells b).map fun c => c.obj.entry) =
      Function.update (fun b => (heap.cells b).map fun c => c.obj.entry) a none := by
  funext b
  rw [Heap.cells_free]
  by_cases hb : b = a
  · subst hb; simp
  · rw [if_neg hb, Function.update_of_ne hb]

theorem view_handleLogin {s : Serve cfg} (hreg : Registered s.ptys s.heap) (o : LogOutcome)
    {cmd : Command} (ht : cmd.type = .login) :
    (s.handleLogin K o cmd).view = s.view.command cmd := by
  rcases handleLogin_cases (K := K) hreg o cmd with ⟨hs, hno⟩ | ⟨c, -, hmem, hc, hs⟩
  · rw [hs]
    rcases hno with hu | hmem
    · -- without session databases a login has no effect
      by_cases hmem : cmd.id ∈ s.view.ptys
      · obtain ⟨c, hc⟩ := Option.isSome_iff_exists.mp ((hreg.live cmd.id).mp hmem)
        have he : s.view.entries cmd.id = some c.obj.entry := by
          show (s.heap.cells cmd.id).map _ = _
          rw [hc]; rfl
        rw [View.command_login ht hmem he]
        unfold Entry.login
        rw [if_pos hu]
        dsimp only
        rw [← he, Function.update_eq_self]
      · rw [View.command_of_not_mem hmem]
    · rw [View.command_of_not_mem hmem]
  · have he : s.view.entries cmd.id = some c.obj.entry := by
      show (s.heap.cells cmd.id).map _ = _
      rw [hc]; rfl
    obtain ⟨hentry, hrec⟩ := PtyttyUnix.login_entry (K := K) o cmd.cmdPid cmd.loginShell
      (ofArray (terminate (n := 511) cmd.hostname)) c.obj s.os
    rw [hs, View.command_login ht hmem he]
    unfold view
    dsimp only
    rw [entries_modify _ _ _ (by rw [hc]; rfl), hentry, hrec]
    rfl

theorem view_handleDestroy {s : Serve cfg} (hreg : Registered s.ptys s.heap) (o : LogOutcome)
    {cmd : Command} (ht : cmd.type = .destroy) :
    (s.handleDestroy K o cmd).view = s.view.command cmd := by
  rcases handleDestroy_cases (K := K) hreg o cmd with ⟨hs, hmem⟩ | ⟨c, hmem, hc, hs⟩
  · rw [hs, View.command_of_not_mem hmem]
  · have he : s.view.entries cmd.id = some c.obj.entry := by
      show (s.heap.cells cmd.id).map _ = _
      rw [hc]; rfl
    rw [hs, View.command_destroy ht hmem he]
    unfold view
    dsimp only
    rw [entries_free, PtyttyUnix.delete_records]

theorem entries_alloc (heap : Heap PtyttyUnix) (a : Addr) (x : PtyttyUnix) :
    (fun b => ((heap.alloc a x).cells b).map fun c => c.obj.entry) =
      Function.update (fun b => (heap.cells b).map fun c => c.obj.entry) a (some x.entry) := by
  funext b
  rw [Heap.cells_alloc]
  by_cases hb : b = a
  · subst hb; simp
  · rw [if_neg hb, Function.update_of_ne hb]

/-- The helper's answer to a `get` that fails, and its objects afterwards. -/
theorem view_handleGet_none {s : Serve cfg} {o : Outcome} (ha : s.heap.cells o.addr = none)
    (hal : allocated cfg o.get = none) : (s.handleGet K o).view = s.view ∧
      (s.handleGet K o).replies = s.replies ++ [.id 0] := by
  obtain ⟨hok, hentry⟩ := PtyttyUnix.get_entry (K := K) (o := o.get) (x := .new) rfl rfl s.os
  rw [hal] at hok hentry
  rcases he : PtyttyUnix.new.get K o.get s.os with ⟨ok, x, os⟩
  have hdb := PtyttyUnix.get_db K s.os o.get .new
  rw [he] at hok hentry hdb
  obtain rfl : ok = false := hok
  have hx : x.entry = .new := hentry
  rw [handleGet_false he]
  refine ⟨?_, rfl⟩
  unfold view
  dsimp only
  rw [entries_free, entries_alloc, Function.update_idem, PtyttyUnix.delete_records, hx]
  have hent : Function.update (fun b => (s.heap.cells b).map fun c => c.obj.entry) o.addr none =
      fun b => (s.heap.cells b).map fun c => c.obj.entry := by
    refine Function.update_eq_iff.mpr ⟨?_, fun _ _ => rfl⟩
    rw [ha]; rfl
  rw [hent]
  have hdel : Entry.new.delete os.db.records = s.os.db.records := by
    rw [show os.db = s.os.db from hdb]; rfl
  rw [hdel]

/-- The helper's answer to a `get` that succeeds, and its objects afterwards. -/
theorem view_handleGet_some {s : Serve cfg} {o : Outcome} {dev : CStr}
    (hal : allocated cfg o.get = some dev) (hp : o.sendPty = true) (ht : o.sendTty = true) :
    (s.handleGet K o).view = ⟨s.ptys ++ [o.addr],
        Function.update s.view.entries o.addr (some (Entry.new.got cfg o.get dev)),
        s.view.records⟩ ∧
      ∃ f g, (s.handleGet K o).replies = s.replies ++ [.id o.addr, .fd f, .fd g] := by
  obtain ⟨hok, hentry⟩ := PtyttyUnix.get_entry (K := K) (o := o.get) (x := .new) rfl rfl s.os
  rw [hal] at hok hentry
  have hdb := PtyttyUnix.get_db K s.os o.get .new
  rcases PtyttyUnix.get_moves (K := K) (o := o.get) PtyttyUnix.initial_new s.os with
    ⟨os, he, -⟩ | ⟨x, os, he, ⟨p, dev', hpty, -⟩, htty, -⟩
  · rw [he] at hok; cases hok
  · rw [he] at hentry hdb
    obtain ⟨t, htty⟩ := Option.isSome_iff_exists.mp htty
    rw [handleGet_true he, hp, ht, hpty, htty]
    have hxe : x.entry = Entry.new.got cfg o.get dev := hentry
    have hx : (x.closeTty os).1.entry = Entry.new.got cfg o.get dev := by
      rw [← hxe, PtyttyUnix.closeTty_fst]
      rfl
    refine ⟨?_, os.descs.file p, os.descs.file t, by simp [fdMessage]⟩
    unfold view
    dsimp only
    rw [entries_modify _ _ _ (by rw [Heap.cells_alloc, if_pos rfl]; rfl), entries_alloc,
      Function.update_idem, hx, PtyttyUnix.closeTty_db, show os.db = s.os.db from hdb]

end Serve

/-! ## The helper path -/

/-- `ptytty_proxy`. -/
structure PtyttyProxy where
  id : Addr
  pty : Option Fd
  tty : Option Fd
  deriving DecidableEq

/-- The end of `ptytty_proxy::get`: the id is read, and for an id the two descriptors. Anything
else is a protocol error. -/
def PtyttyProxy.receive (pty tty : Fd) (q : PtyttyProxy) : List Reply → Option (Bool × PtyttyProxy)
  | [.id 0] => some (false, { q with id := 0 })
  | [.id (a + 1), .fd _, .fd _] => some (true, ⟨a + 1, some pty, some tty⟩)
  | _ => none

theorem PtyttyProxy.receive_null (pty tty : Fd) (q : PtyttyProxy) :
    q.receive pty tty [.id 0] = some (false, { q with id := 0 }) := rfl

theorem PtyttyProxy.receive_id (pty tty : Fd) (q : PtyttyProxy) {a : Addr} (ha : a ≠ 0)
    (f g : File) :
    q.receive pty tty [.id a, .fd f, .fd g] = some (true, ⟨a, some pty, some tty⟩) := by
  obtain ⟨n, rfl⟩ := Nat.exists_eq_succ_of_ne_zero ha
  rfl

/-- A client that uses a helper. `pending` are the commands that the helper has not read yet. -/
structure Proxied (cfg : Config) where
  objs : ℕ → Option PtyttyProxy
  /-- History: `get` has returned true. -/
  got : ℕ → Bool
  pending : List Command
  helper : Serve cfg
  results : List Bool

namespace Proxied

/-- Before the first call, with a helper that has just been started. -/
def initial (os : Os cfg) : Proxied cfg := ⟨fun _ => none, fun _ => false, [], .initial os, []⟩

/-- A step of the client or of the helper. -/
inductive Act
  /-- A call. `junk` is the command on the stack before the call fills it in, `o` is what the helper
  meets if it has to answer, `pty` and `tty` are the descriptors received. -/
  | call (op : Op) (junk : Command) (o : Outcome) (pty tty : Fd)
  /-- The helper handles the next command. -/
  | serve (o : Outcome)

/-- The call of a step. -/
def Act.op : Act → Option Op
  | .call op _ _ _ _ => some op
  | .serve _ => none

/-- `get` waits for the answer, which comes when the helper has handled everything sent before. -/
def step (K : Kernel) (s : Proxied cfg) : Act → Option (Proxied cfg)
  | .call (.create i) _ _ _ _ =>
    if (s.objs i).isSome then none
    else some { s with
      objs := Function.update s.objs i (some ⟨0, none, none⟩)
      got := Function.update s.got i false }
  | .call (.get i g) junk o pty tty => (s.objs i).bind fun q =>
      if s.got i ∨ s.pending ≠ [] then none
      else
        let o := { o with get := g, sendPty := true, sendTty := true }
        (s.helper.step K (.command junk.ofGet o)).bind fun h =>
          (q.receive pty tty (h.replies.drop s.helper.replies.length)).map fun (ok, q) =>
            { s with
              objs := Function.update s.objs i (some q)
              got := Function.update s.got i ok
              helper := h
              results := s.results ++ [ok] }
  | .call (.login i pid shell hostname) _ _ _ _ => (s.objs i).map fun q =>
      { s with pending := s.pending ++ [Command.ofLogin q.id pid shell hostname] }
  | .call (.closeTty i) _ _ _ _ => (s.objs i).map fun q =>
      { s with objs := Function.update s.objs i (some { q with tty := none }) }
  | .call (.delete i) junk _ _ _ => (s.objs i).map fun q =>
      { s with
        objs := Function.update s.objs i none
        pending :=
          if q.id ≠ 0 then s.pending ++ [junk.ofDestroy q.id]
          else s.pending }
  | .serve o =>
    match s.pending with
    | [] => none
    | cmd :: rest =>
      (s.helper.step K (.command cmd o)).map fun h => { s with helper := h, pending := rest }

/-- The helper's objects once it has handled what is under way. -/
def settled (s : Proxied cfg) : View cfg := s.helper.view.absorb s.pending

theorem settled_of_nil {s : Proxied cfg} (h : s.pending = []) : s.settled = s.helper.view := by
  unfold settled
  rw [h]
  rfl

/-- How a proxy stands for an entry, through the objects `v` of the helper. -/
inductive Represents (v : View cfg) : Option PtyttyProxy → Bool → Option Entry → Prop
  | absent {g} : Represents v none g none
  | fresh {q} (null : q.id = 0) : Represents v (some q) false (some .new)
  | live {q e} (mem : q.id ∈ v.ptys) (entry : v.entries q.id = some e) (named : e.name.isSome) :
    Represents v (some q) true (some e)

/-- The client's proxies and the helper's objects, once settled, are the abstract objects. -/
structure Sim (p : Proxied cfg) (a : Abstract cfg) : Prop where
  head : Serve.AtHead p.helper
  running : p.helper.returned = false
  sends : ∀ cmd ∈ p.pending, cmd.type = .login ∨ cmd.type = .destroy
  null : 0 ∉ p.settled.ptys
  nodup : p.settled.ptys.Nodup
  objs : ∀ i, Represents p.settled (p.objs i) (p.got i) (a.objs i)
  inj : ∀ i j q q', p.objs i = some q → p.objs j = some q' → p.got i = true → p.got j = true →
    q.id = q'.id → i = j
  records : p.settled.records = a.records
  results : p.results = a.results

/-- A step that changes neither the proxies nor, once settled, the helper's objects. -/
theorem Sim.of_settled {p p' : Proxied cfg} {a a' : Abstract cfg} (h : Sim p a)
    (hset : p'.settled = p.settled) (hobjs : p'.objs = p.objs) (hgot : p'.got = p.got)
    (ha : a'.objs = a.objs) (hr : a'.records = a.records) (hhead : Serve.AtHead p'.helper)
    (hrunning : p'.helper.returned = false)
    (hsends : ∀ cmd ∈ p'.pending, cmd.type = .login ∨ cmd.type = .destroy)
    (hresults : p'.results = a'.results) : Sim p' a' where
  head := hhead
  running := hrunning
  sends := hsends
  null := hset ▸ h.null
  nodup := hset ▸ h.nodup
  objs := by
    rw [hset, hobjs, hgot, ha]
    exact h.objs
  inj := by
    rw [hobjs, hgot]
    exact h.inj
  records := by
    rw [hset, hr]
    exact h.records
  results := hresults

theorem Sim.sends_concat {p : Proxied cfg} {a : Abstract cfg} (h : Sim p a) (cmd : Command)
    (hty : cmd.type = .login ∨ cmd.type = .destroy) :
    ∀ c ∈ p.pending ++ [cmd], c.type = .login ∨ c.type = .destroy := by
  intro c hc
  rcases List.mem_append.mp hc with hc | hc
  · exact h.sends c hc
  · rwa [List.mem_singleton.mp hc]

/-- A change of the helper's objects that leaves the one of this proxy alone. -/
theorem Represents.congr {v v' : View cfg} {q : Option PtyttyProxy} {g : Bool} {e : Option Entry}
    (h : Represents v q g e) (hv : ∀ q', q = some q' → g = true → q'.id ∈ v.ptys →
      q'.id ∈ v'.ptys ∧ v'.entries q'.id = v.entries q'.id) : Represents v' q g e := by
  cases h with
  | absent => exact .absent
  | fresh null => exact .fresh null
  | live mem entry named =>
    obtain ⟨hmem, hentry⟩ := hv _ rfl rfl mem
    exact .live hmem (hentry.trans entry) named

/-- One proxy is replaced, and the helper's objects change only there. -/
theorem represents_update {v v' : View cfg} {objs : ℕ → Option PtyttyProxy} {got : ℕ → Bool}
    {es : ℕ → Option Entry} (h : ∀ j, Represents v (objs j) (got j) (es j)) (i : ℕ)
    {q : Option PtyttyProxy} {g : Bool} {e : Option Entry} (hi : Represents v' q g e)
    (hv : ∀ j q', j ≠ i → objs j = some q' → got j = true → q'.id ∈ v.ptys →
      q'.id ∈ v'.ptys ∧ v'.entries q'.id = v.entries q'.id) (j : ℕ) :
    Represents v' (Function.update objs i q j) (Function.update got i g j)
      (Function.update es i e j) := by
  by_cases hj : j = i
  · subst hj
    rw [Function.update_self, Function.update_self, Function.update_self]
    exact hi
  · rw [Function.update_of_ne hj, Function.update_of_ne hj, Function.update_of_ne hj]
    exact (h j).congr fun q' => hv j q' hj

/-- Two got proxies have different ids, also after one of them is replaced by a new one. -/
theorem inj_update {objs : ℕ → Option PtyttyProxy} {got : ℕ → Bool}
    (h : ∀ i j q q', objs i = some q → objs j = some q' → got i = true → got j = true →
      q.id = q'.id → i = j) (i : ℕ) {q : Option PtyttyProxy} {g : Bool}
    (hi : ∀ q₀, q = some q₀ → g = true → ∀ j q', j ≠ i → objs j = some q' → got j = true →
      q'.id ≠ q₀.id) (j k : ℕ) (r r' : PtyttyProxy) (hr : Function.update objs i q j = some r)
    (hr' : Function.update objs i q k = some r') (hg : Function.update got i g j = true)
    (hg' : Function.update got i g k = true) (hid : r.id = r'.id) : j = k := by
  by_cases hj : j = i <;> by_cases hk : k = i
  · rw [hj, hk]
  · subst hj
    rw [Function.update_self] at hr hg
    rw [Function.update_of_ne hk] at hr' hg'
    exact absurd hid.symm (hi r hr hg k r' hk hr' hg')
  · subst hk
    rw [Function.update_self] at hr' hg'
    rw [Function.update_of_ne hj] at hr hg
    exact absurd hid (hi r' hr' hg' j r hj hr hg)
  · rw [Function.update_of_ne hj] at hr hg
    rw [Function.update_of_ne hk] at hr' hg'
    exact h j k r r' hr hr' hg hg' hid

variable {K : Kernel}

theorem sim_initial (os : Os cfg) : Sim (initial os) (.initial os.db.records) where
  head := Serve.atHead_initial os
  running := rfl
  sends := by rintro cmd ⟨⟩
  null := by rintro ⟨⟩
  nodup := List.nodup_nil
  objs _ := .absent
  inj := by rintro i j q q' ⟨⟩
  records := rfl
  results := rfl

/-- The helper handles a `login` or `destroy` command. -/
theorem serve_step {s t : Serve cfg} (hs : Serve.AtHead s) (hr : s.returned = false)
    {cmd : Command} (hty : cmd.type = .login ∨ cmd.type = .destroy) {o : Outcome}
    (ht : s.step K (.command cmd o) = some t) :
    Serve.AtHead t ∧ t.returned = false ∧ t.view = s.view.command cmd := by
  rcases hty with hty | hty
  · simp only [Serve.step, hr, Bool.false_eq_true, if_false, hty, Option.some.injEq] at ht
    subst ht
    have hhead := Serve.atHead_login (K := K) hs (o.log 0) cmd
    exact ⟨hhead.1, hhead.2.trans hr, Serve.view_handleLogin hs.reg _ hty⟩
  · simp only [Serve.step, hr, Bool.false_eq_true, if_false, hty, Option.some.injEq] at ht
    subst ht
    have hhead := Serve.atHead_destroy (K := K) hs (o.log 0) cmd
    exact ⟨hhead.1, hhead.2.trans hr, Serve.view_handleDestroy hs.reg _ hty⟩

/-- What the helper does on its own cannot be seen by the client. -/
theorem sim_serve {p p' : Proxied cfg} {a : Abstract cfg} (h : Sim p a) {o : Outcome}
    (hp : step K p (.serve o) = some p') : Sim p' a := by
  cases hpend : p.pending with
  | nil => simp [step, hpend] at hp
  | cons cmd rest =>
    simp only [step, hpend] at hp
    obtain ⟨t, ht, rfl⟩ := Option.map_eq_some_iff.mp hp
    have hsends := h.sends
    rw [hpend] at hsends
    obtain ⟨hhead, hr, hview⟩ := serve_step h.head h.running (hsends cmd List.mem_cons_self) ht
    have hset : ({ p with helper := t, pending := rest } : Proxied cfg).settled = p.settled := by
      unfold settled
      rw [hpend, hview]
      rfl
    exact h.of_settled hset rfl rfl rfl rfl hhead hr
      (fun c hc => hsends c (List.mem_cons_of_mem cmd hc)) h.results

theorem sim_create {p : Proxied cfg} {a : Abstract cfg} (h : Sim p a) {i : ℕ}
    (hi : p.objs i = none) : ∃ a', Abstract.step a (.create i) = some a' ∧
      Sim { p with
        objs := Function.update p.objs i (some ⟨0, none, none⟩)
        got := Function.update p.got i false } a' := by
  have ha : a.objs i = none := by
    have hrep := h.objs i
    rw [hi] at hrep
    generalize a.objs i = e at hrep
    cases hrep
    rfl
  refine ⟨{ a with objs := Function.update a.objs i (some .new) }, by simp [Abstract.step, ha], ?_⟩
  exact ⟨h.head, h.running, h.sends, h.null, h.nodup,
    represents_update h.objs i (.fresh rfl) (fun _ _ _ _ _ hmem => ⟨hmem, rfl⟩),
    inj_update h.inj i (by rintro q₀ - ⟨⟩), h.records, h.results⟩

theorem login_name (pid : ℤ) (shell : Bool) (hostname : CStr) (e : Entry) (r : Records cfg) :
    (e.login pid shell hostname r).1.name = e.name := by
  unfold Entry.login
  split_ifs
  · rfl
  · split
    · rfl
    · split_ifs <;> rfl

theorem login_new (pid : ℤ) (shell : Bool) (hostname : CStr) (r : Records cfg) :
    Entry.new.login pid shell hostname r = (Entry.new, r) := by
  unfold Entry.login
  split_ifs <;> rfl

theorem Represents.exists_entry {v : View cfg} {q : PtyttyProxy} {g : Bool} {e : Option Entry}
    (h : Represents v (some q) g e) : ∃ e', e = some e' := by
  cases h with
  | fresh => exact ⟨_, rfl⟩
  | live => exact ⟨_, rfl⟩

/-- A proxy that has been got stands for the entry of its object. -/
theorem Represents.of_got {v : View cfg} {q : PtyttyProxy} {e : Option Entry}
    (h : Represents v (some q) true e) :
    ∃ e', e = some e' ∧ q.id ∈ v.ptys ∧ v.entries q.id = some e' ∧ e'.name.isSome := by
  cases h with
  | live mem entry named => exact ⟨_, rfl, mem, entry, named⟩

/-- A proxy that has not has the null id. -/
theorem Represents.of_not_got {v : View cfg} {q : PtyttyProxy} {e : Option Entry}
    (h : Represents v (some q) false e) : q.id = 0 ∧ e = some .new := by
  cases h with
  | fresh null => exact ⟨null, rfl⟩

/-- A login is sent to the helper, and does the same there. -/
theorem sim_login (hshort : cfg.ShortHosts) {p : Proxied cfg} {a : Abstract cfg} (h : Sim p a)
    {i : ℕ} {q : PtyttyProxy} (hq : p.objs i = some q) (pid : ℤ) (shell : Bool) (hostname : CStr) :
    ∃ a', Abstract.step a (.login i pid shell hostname) = some a' ∧
      Sim { p with pending := p.pending ++ [Command.ofLogin q.id pid shell hostname] } a' := by
  have hset : ({ p with pending := p.pending ++ [Command.ofLogin q.id pid shell hostname] } :
      Proxied cfg).settled = p.settled.command (Command.ofLogin q.id pid shell hostname) :=
    View.absorb_concat _ _ _
  have hsends := h.sends_concat (Command.ofLogin q.id pid shell hostname) (Or.inl rfl)
  have hrep := h.objs i
  rw [hq] at hrep
  cases hg : p.got i with
  | false =>
    -- the helper ignores the null id, and the object has no name
    rw [hg] at hrep
    obtain ⟨hid, ha⟩ := hrep.of_not_got
    rw [View.command_of_not_mem (by show q.id ∉ _; rw [hid]; exact h.null)] at hset
    refine ⟨a, ?_, h.of_settled hset rfl rfl rfl rfl h.head h.running hsends h.results⟩
    simp only [Abstract.step, ha, Option.map_some, login_new]
    rw [← ha, Function.update_eq_self]
  | true =>
    rw [hg] at hrep
    obtain ⟨e, ha, hmem, hentry, hname⟩ := hrep.of_got
    have hhost : View.hostname (Command.ofLogin q.id pid shell hostname) = truncate 511 hostname :=
      ofArray_terminate_strncpy 511 hostname
    rw [View.command_login rfl hmem hentry, hhost, login_truncate hshort] at hset
    refine ⟨{ a with
        objs := Function.update a.objs i (some (e.login pid shell hostname a.records).1)
        records := (e.login pid shell hostname a.records).2 },
      by simp [Abstract.step, ha], h.head, h.running, hsends, by rw [hset]; exact h.null,
      by rw [hset]; exact h.nodup, ?_, h.inj, ?_, h.results⟩
    · rw [hset]
      have hi : Represents { p.settled with
          entries := Function.update p.settled.entries q.id
            (some (e.login pid shell hostname p.settled.records).1)
          records := (e.login pid shell hostname p.settled.records).2 } (some q) true
          (some (e.login pid shell hostname a.records).1) := by
        refine .live hmem ?_ (by rw [login_name]; exact hname)
        rw [← h.records]
        exact Function.update_self _ _ _
      have hu := represents_update h.objs i hi fun j q' hj hq' hg' hm => ⟨hm,
        Function.update_of_ne (fun he => hj (h.inj j i q' q hq' hq hg' hg he)) _ _⟩
      rw [← hq, ← hg, Function.update_eq_self, Function.update_eq_self] at hu
      exact hu
    · rw [hset, ← h.records]
      rfl

theorem sim_closeTty {p : Proxied cfg} {a : Abstract cfg} (h : Sim p a) {i : ℕ} {q : PtyttyProxy}
    (hq : p.objs i = some q) : ∃ a', Abstract.step a (.closeTty i) = some a' ∧
      Sim { p with objs := Function.update p.objs i (some { q with tty := none }) } a' := by
  have hrep := h.objs i
  rw [hq] at hrep
  have hrep' : Represents p.settled (some { q with tty := none }) (p.got i) (a.objs i) := by
    cases hg : p.got i with
    | false =>
      rw [hg] at hrep
      obtain ⟨hid, ha⟩ := hrep.of_not_got
      rw [ha]
      exact .fresh hid
    | true =>
      rw [hg] at hrep
      obtain ⟨e, ha, hmem, hentry, hname⟩ := hrep.of_got
      rw [ha]
      exact .live hmem hentry hname
  refine ⟨a, ?_, h.head, h.running, h.sends, h.null, h.nodup, ?_, ?_, h.records, h.results⟩
  · obtain ⟨e, ha⟩ := hrep.exists_entry
    simp [Abstract.step, ha]
  · have hu := represents_update h.objs i hrep' (fun _ _ _ _ _ hmem => ⟨hmem, rfl⟩)
    rw [Function.update_eq_self, Function.update_eq_self] at hu
    exact hu
  · have hu := inj_update h.inj i (q := some { q with tty := none }) (g := p.got i)
      (fun q₀ hq₀ hg j q' hj hq' hg' hid => hj (h.inj j i q' q hq' hq hg' hg ?_))
    · rw [Function.update_eq_self] at hu
      exact hu
    · rw [hid, ← Option.some.inj hq₀]

theorem delete_new (r : Records cfg) : Entry.new.delete r = r := rfl

/-- A destruction is sent to the helper, if the proxy has been got. -/
theorem sim_delete {p : Proxied cfg} {a : Abstract cfg} (h : Sim p a) {i : ℕ} {q : PtyttyProxy}
    (hq : p.objs i = some q) (junk : Command) : ∃ a', Abstract.step a (.delete i) = some a' ∧
      Sim { p with
        objs := Function.update p.objs i none
        pending :=
          if q.id ≠ 0 then p.pending ++ [junk.ofDestroy q.id]
          else p.pending } a' := by
  have hrep := h.objs i
  rw [hq] at hrep
  have hinj := inj_update h.inj i (q := none) (g := p.got i) (by rintro q₀ ⟨⟩)
  rw [Function.update_eq_self] at hinj
  cases hg : p.got i with
  | false =>
    rw [hg] at hrep
    obtain ⟨hid, ha⟩ := hrep.of_not_got
    rw [if_neg (by simp [hid])]
    refine ⟨{ a with objs := Function.update a.objs i none }, ?_, h.head, h.running, h.sends,
      h.null,
      h.nodup, ?_, hinj, h.records, h.results⟩
    · simp [Abstract.step, ha, delete_new]
    · have hu := represents_update h.objs i (g := p.got i) .absent
        (fun _ _ _ _ _ hmem => ⟨hmem, rfl⟩)
      rw [Function.update_eq_self] at hu
      exact hu
  | true =>
    rw [hg] at hrep
    obtain ⟨e, ha, hmem, hentry, hname⟩ := hrep.of_got
    have hne : q.id ≠ 0 := by rintro he; rw [he] at hmem; exact h.null hmem
    rw [if_pos hne]
    have hset : ({ p with
        objs := Function.update p.objs i none
        pending := p.pending ++ [junk.ofDestroy q.id] } :
        Proxied cfg).settled = p.settled.command (junk.ofDestroy q.id) :=
      View.absorb_concat _ _ _
    rw [View.command_destroy rfl hmem hentry] at hset
    refine ⟨⟨Function.update a.objs i none, e.delete a.records, a.results⟩,
      by simp [Abstract.step, ha], h.head, h.running, h.sends_concat _ (Or.inr rfl), ?_, ?_, ?_,
      hinj, ?_, h.results⟩
    · rw [hset]
      exact fun hmem => h.null (List.mem_of_mem_erase hmem)
    · rw [hset]
      exact h.nodup.erase q.id
    · rw [hset]
      have hi : Represents ⟨p.settled.ptys.erase q.id,
          Function.update p.settled.entries q.id none, e.delete p.settled.records⟩ none (p.got i)
          none := .absent
      have hu := represents_update h.objs i hi fun j q' hj hq' hg' hm => by
        have hid : q'.id ≠ q.id := fun he => hj (h.inj j i q' q hq' hq hg' hg he)
        exact ⟨(List.mem_erase_of_ne hid).mpr hm, Function.update_of_ne hid _ _⟩
      rw [Function.update_eq_self] at hu
      exact hu
    · rw [hset, ← h.records]

/-- A `get` that fails in the helper fails, and leaves nothing behind. -/
theorem sim_get_none {p : Proxied cfg} {a : Abstract cfg} (h : Sim p a) {i : ℕ}
    (ha : a.objs i = some .new) (hpend : p.pending = []) {o : Outcome} (h0 : o.addr ≠ 0)
    (hfree : p.helper.heap.cells o.addr = none) (hal : allocated cfg o.get = none) :
    ∃ a', Abstract.step a (.get i o.get) = some a' ∧
      Sim { p with helper := p.helper.handleGet K o, results := p.results ++ [false] } a' := by
  obtain ⟨hv, -⟩ := Serve.view_handleGet_none (K := K) hfree hal
  have hhead := Serve.atHead_get (K := K) h.head h0 hfree
  have hset : ({ p with helper := p.helper.handleGet K o, results := p.results ++ [false] } :
      Proxied cfg).settled = p.settled := by
    rw [settled_of_nil hpend, ← hv]
    exact settled_of_nil hpend
  refine ⟨{ a with results := a.results ++ [false] }, ?_,
    h.of_settled hset rfl rfl rfl rfl hhead.1 (hhead.2.trans h.running) h.sends ?_⟩
  · simp [Abstract.step, ha, hal, show Entry.new.name = none from rfl]
  · rw [h.results]

/-- A `get` that succeeds in the helper gives the proxy the id of the new object. -/
theorem sim_get_some {p : Proxied cfg} {a : Abstract cfg} (h : Sim p a) {i : ℕ}
    (ha : a.objs i = some .new) (hpend : p.pending = []) {o : Outcome} (h0 : o.addr ≠ 0)
    (hfree : p.helper.heap.cells o.addr = none) {dev : CStr} (hal : allocated cfg o.get = some dev)
    (hpty : o.sendPty = true) (htty : o.sendTty = true) (q : PtyttyProxy) (hq : q.id = o.addr) :
    ∃ a', Abstract.step a (.get i o.get) = some a' ∧
      Sim ⟨Function.update p.objs i (some q), Function.update p.got i true, p.pending,
        p.helper.handleGet K o, p.results ++ [true]⟩ a' := by
  obtain ⟨hv, -⟩ := Serve.view_handleGet_some (K := K) (s := p.helper) hal hpty htty
  have hhead := Serve.atHead_get (K := K) h.head h0 hfree
  have hset : (⟨Function.update p.objs i (some q), Function.update p.got i true, p.pending,
      p.helper.handleGet K o, p.results ++ [true]⟩ : Proxied cfg).settled =
        ⟨p.settled.ptys ++ [o.addr],
          Function.update p.settled.entries o.addr (some (Entry.new.got cfg o.get dev)),
          p.settled.records⟩ := by
    rw [settled_of_nil hpend]
    refine Eq.trans (settled_of_nil ?_) hv
    exact hpend
  have hnotin : o.addr ∉ p.settled.ptys := by
    rw [settled_of_nil hpend]
    exact fun hmem => by simpa [hfree] using (h.head.reg.live o.addr).mp hmem
  have hother : ∀ j q', j ≠ i → p.objs j = some q' → p.got j = true →
      q'.id ∈ p.settled.ptys → q'.id ≠ o.addr := by
    rintro j q' - - - hm he
    exact hnotin (he ▸ hm)
  refine ⟨⟨Function.update a.objs i (some (Entry.new.got cfg o.get dev)), a.records,
    a.results ++ [true]⟩, ?_, hhead.1, hhead.2.trans h.running, h.sends, ?_, ?_, ?_, ?_, ?_,
    by rw [h.results]⟩
  · simp [Abstract.step, ha, hal, show Entry.new.name = none from rfl]
  · rw [hset, List.mem_append, List.mem_singleton]
    rintro (hm | hm)
    · exact h.null hm
    · exact h0 hm.symm
  · rw [hset]
    exact List.Nodup.append h.nodup (List.nodup_singleton _) (List.disjoint_singleton.mpr hnotin)
  · rw [hset]
    refine represents_update h.objs i (.live ?_ ?_ rfl) fun j q' hj hq' hg' hm =>
      ⟨List.mem_append_left _ hm, Function.update_of_ne (hother j q' hj hq' hg' hm) _ _⟩
    · exact List.mem_append_right _ (List.mem_singleton.mpr hq)
    · rw [hq]
      exact Function.update_self _ _ _
  · refine inj_update h.inj i fun q₀ hq₀ _ j q' hj hq' hg' => ?_
    have hrep' := h.objs j
    rw [hq', hg'] at hrep'
    obtain ⟨-, -, hm, -⟩ := hrep'.of_got
    rw [← Option.some.inj hq₀, hq]
    exact hother j q' hj hq' hg' hm
  · rw [hset]
    exact h.records

/-- The helper answers a `get` the way `ptytty_unix::get` does in the client. -/
theorem sim_get {p : Proxied cfg} {a : Abstract cfg} (h : Sim p a) {i : ℕ} {q : PtyttyProxy}
    (hq : p.objs i = some q) (hg : p.got i = false) (hpend : p.pending = []) {g : GetOutcome}
    {junk : Command} {o : Outcome} (ho : o.get = g ∧ o.sendPty = true ∧ o.sendTty = true)
    {t : Serve cfg} (ht : p.helper.step K (.command junk.ofGet o) = some t)
    {pty tty : Fd} {ok : Bool} {q' : PtyttyProxy}
    (hrecv : q.receive pty tty (t.replies.drop p.helper.replies.length) = some (ok, q')) :
    ∃ a', Abstract.step a (.get i g) = some a' ∧
      Sim ⟨Function.update p.objs i (some q'), Function.update p.got i ok, p.pending, t,
        p.results ++ [ok]⟩ a' := by
  obtain ⟨rfl, hsp, hst⟩ := ho
  have hrep := h.objs i
  rw [hq, hg] at hrep
  obtain ⟨hid, ha⟩ := hrep.of_not_got
  simp only [Serve.step, Command.ofGet, h.running, Bool.false_eq_true, if_false] at ht
  split_ifs at ht with hnew
  obtain rfl := Option.some.inj ht
  push Not at hnew
  have hfree : p.helper.heap.cells o.addr = none := by simpa using hnew.2
  cases hal : allocated cfg o.get with
  | none =>
    obtain ⟨-, hr⟩ := Serve.view_handleGet_none (K := K) hfree hal
    rw [hr, List.drop_left, PtyttyProxy.receive_null] at hrecv
    obtain ⟨rfl, rfl⟩ := Prod.mk.inj (Option.some.inj hrecv)
    -- the proxy keeps the null id, and its slot is as it was
    have hobjs : Function.update p.objs i (some { q with id := 0 }) = p.objs := by
      rw [← hid, ← hq, Function.update_eq_self]
    have hgot : Function.update p.got i false = p.got := by
      rw [← hg, Function.update_eq_self]
    rw [hobjs, hgot]
    exact sim_get_none h ha hpend hnew.1 hfree hal
  | some dev =>
    obtain ⟨-, f, f', hr⟩ := Serve.view_handleGet_some (K := K) hal hsp hst
    rw [hr, List.drop_left, PtyttyProxy.receive_id pty tty q hnew.1] at hrecv
    obtain ⟨rfl, rfl⟩ := Prod.mk.inj (Option.some.inj hrecv)
    exact sim_get_some h ha hpend hnew.1 hfree hal hsp hst _ rfl

/-- Every step on the helper path is a call of the abstract machine, or none. -/
theorem sim_step (hshort : cfg.ShortHosts) {p p' : Proxied cfg} {a : Abstract cfg} (h : Sim p a)
    {c : Act} (hp : step K p c = some p') :
    ∃ a', Machine.run Abstract.step a c.op.toList = some a' ∧ Sim p' a' := by
  have one : ∀ {op : Op} {p'}, (∃ a', Abstract.step a op = some a' ∧ Sim p' a') →
      ∃ a', Machine.run Abstract.step a (some op).toList = some a' ∧ Sim p' a' := by
    rintro op p' ⟨a', ha', hs'⟩
    exact ⟨a', Machine.run_cons_eq_some.mpr ⟨a', ha', rfl⟩, hs'⟩
  cases c with
  | serve o => exact ⟨a, rfl, sim_serve h hp⟩
  | call op junk o pty tty =>
    cases op with
    | create i =>
      simp only [step] at hp
      split_ifs at hp with hi
      obtain rfl := Option.some.inj hp
      exact one (sim_create h (by simpa using hi))
    | get i g =>
      obtain ⟨q, hq, hp⟩ := Option.bind_eq_some_iff.mp hp
      split_ifs at hp with hi
      push Not at hi
      obtain ⟨t, ht, hp⟩ := Option.bind_eq_some_iff.mp hp
      obtain ⟨⟨ok, q'⟩, hrecv, rfl⟩ := Option.map_eq_some_iff.mp hp
      exact one (sim_get h hq (by simpa using hi.1) hi.2 ⟨rfl, rfl, rfl⟩ ht hrecv)
    | login i pid shell hostname =>
      obtain ⟨q, hq, rfl⟩ := Option.map_eq_some_iff.mp hp
      exact one (sim_login hshort h hq pid shell hostname)
    | closeTty i =>
      obtain ⟨q, hq, rfl⟩ := Option.map_eq_some_iff.mp hp
      exact one (sim_closeTty h hq)
    | delete i =>
      obtain ⟨q, hq, rfl⟩ := Option.map_eq_some_iff.mp hp
      exact one (sim_delete h hq junk)

/-! ## Every sequence of calls can be made through the helper -/

theorem Represents.exists_proxy {v : View cfg} {q : Option PtyttyProxy} {g : Bool} {e : Entry}
    (h : Represents v q g (some e)) : ∃ q', q = some q' := by
  cases h with
  | fresh => exact ⟨_, rfl⟩
  | live => exact ⟨_, rfl⟩

/-- The helper can handle all that is under way, which no call notices. -/
theorem exists_drain {p : Proxied cfg} {a : Abstract cfg} (h : Sim p a) :
    ∃ ps p', Machine.run (step K) p ps = some p' ∧ ps.filterMap Act.op = [] ∧
      p'.pending = [] ∧ Sim p' a := by
  generalize hn : p.pending.length = n
  induction n generalizing p with
  | zero => exact ⟨[], p, rfl, rfl, List.length_eq_zero_iff.mp hn, h⟩
  | succ n ih =>
    obtain ⟨cmd, rest, hpend⟩ := List.exists_cons_of_length_eq_add_one hn
    let o : Outcome := ⟨0, .pts7, true, true, fun _ => ⟨true, true, true⟩⟩
    have hstep : ∃ t, p.helper.step K (.command cmd o) = some t := by
      have hty := h.sends
      rw [hpend] at hty
      rcases hty cmd List.mem_cons_self with hty | hty <;> simp [Serve.step, h.running, hty]
    obtain ⟨t, ht⟩ := hstep
    have hp : step K p (.serve o) = some { p with helper := t, pending := rest } := by
      simp only [step, hpend, ht, Option.map_some]
    have hlen : rest.length = n := by rw [hpend, List.length_cons] at hn; omega
    obtain ⟨ps, p', hrun, hops, hdone, hsim⟩ := ih (sim_serve h hp) hlen
    exact ⟨.serve o :: ps, p', Machine.run_cons_eq_some.mpr ⟨_, hp, hrun⟩, hops, hdone, hsim⟩

/-- A `get` that the helper answers without a protocol error, for a suitable address. -/
theorem exists_get {p : Proxied cfg} {a : Abstract cfg} (h : Sim p a) (hpend : p.pending = [])
    {i : ℕ} {q : PtyttyProxy} (hq : p.objs i = some q) (hg : p.got i = false) (g : GetOutcome)
    (junk : Command) : ∃ o p', step K p (.call (.get i g) junk o 0 0) = some p' := by
  obtain ⟨addr, haddr⟩ := Infinite.exists_notMem_finset (insert 0 p.helper.ptys.toFinset)
  rw [Finset.mem_insert, List.mem_toFinset] at haddr
  push Not at haddr
  obtain ⟨hne, hnew⟩ := haddr
  have hfree : p.helper.heap.cells addr = none := by
    simpa using mt (h.head.reg.live addr).mpr hnew
  let o : Outcome := ⟨addr, g, true, true, fun _ => ⟨true, true, true⟩⟩
  have hhelper : p.helper.step K (.command junk.ofGet o) =
      some (p.helper.handleGet K o) := by
    have hok : ¬ (o.addr = 0 ∨ (p.helper.heap.cells o.addr).isSome = true) := by
      rintro (h0 | hsome)
      · exact hne h0
      · rw [show o.addr = addr from rfl, hfree] at hsome; cases hsome
    simp only [Serve.step, Command.ofGet, h.running, Bool.false_eq_true, if_false]
    exact if_neg hok
  have hrecv : ∃ r, q.receive 0 0
      ((p.helper.handleGet K o).replies.drop p.helper.replies.length) = some r := by
    cases hal : allocated cfg g with
    | none =>
      obtain ⟨-, hr⟩ := Serve.view_handleGet_none (K := K) (s := p.helper) (o := o) hfree hal
      rw [hr, List.drop_left]
      exact ⟨_, rfl⟩
    | some dev =>
      obtain ⟨-, f, f', hr⟩ :=
        Serve.view_handleGet_some (K := K) (s := p.helper) (o := o) hal rfl rfl
      rw [hr, List.drop_left]
      exact ⟨_, PtyttyProxy.receive_id 0 0 q hne f f'⟩
  obtain ⟨r, hrecv⟩ := hrecv
  refine ⟨o, ⟨Function.update p.objs i (some r.2), Function.update p.got i r.1, p.pending,
    p.helper.handleGet K o, p.results ++ [r.1]⟩, ?_⟩
  have hno : ¬ (p.got i = true ∨ p.pending ≠ []) := by rw [hg, hpend]; simp
  simp only [step, hq, Option.bind_some]
  rw [if_neg hno,
    show ({ o with get := g, sendPty := true, sendTty := true } : Outcome) = o from rfl,
    hhelper, Option.bind_some, hrecv]
  rfl

/-- What the abstract machine can do, the client can do through the helper. -/
theorem exists_call {p : Proxied cfg} {a a' : Abstract cfg} (h : Sim p a) (hpend : p.pending = [])
    {op : Op} (ha : Abstract.step a op = some a') :
    ∃ c p', c.op = some op ∧ step K p c = some p' := by
  let junk : Command := ⟨.get, 0, false, 0, zeroed _⟩
  let o : Outcome := ⟨0, .pts7, true, true, fun _ => ⟨true, true, true⟩⟩
  have hobj : ∀ {i e}, a.objs i = some e → ∃ q, p.objs i = some q := by
    intro i e he
    have hrep := h.objs i
    rw [he] at hrep
    exact hrep.exists_proxy
  cases op with
  | create i =>
    simp only [Abstract.step] at ha
    split_ifs at ha with hi
    have hnone : p.objs i = none := by
      cases hq : p.objs i with
      | none => rfl
      | some q =>
        have hrep := h.objs i
        rw [hq] at hrep
        obtain ⟨e, he⟩ := hrep.exists_entry
        rw [he] at hi
        exact absurd rfl hi
    exact ⟨.call (.create i) junk o 0 0, _, rfl, by simp only [step]; rw [hnone]; rfl⟩
  | get i g =>
    obtain ⟨e, he, ha⟩ := Option.bind_eq_some_iff.mp ha
    split_ifs at ha with hname
    obtain ⟨q, hq⟩ := hobj he
    have hg : p.got i = false := by
      cases hg : p.got i with
      | false => rfl
      | true =>
        have hrep := h.objs i
        rw [hq, hg] at hrep
        obtain ⟨e', he', -, -, hnamed⟩ := hrep.of_got
        obtain rfl := Option.some.inj (he.symm.trans he')
        exact absurd hnamed hname
    obtain ⟨o, p', hp⟩ := exists_get (K := K) h hpend hq hg g junk
    exact ⟨_, p', rfl, hp⟩
  | login i pid shell hostname =>
    obtain ⟨e, he, -⟩ := Option.map_eq_some_iff.mp ha
    obtain ⟨q, hq⟩ := hobj he
    exact ⟨.call (.login i pid shell hostname) junk o 0 0, _, rfl,
      by simp only [step]; rw [hq]; rfl⟩
  | closeTty i =>
    obtain ⟨e, he, -⟩ := Option.map_eq_some_iff.mp ha
    obtain ⟨q, hq⟩ := hobj he
    exact ⟨.call (.closeTty i) junk o 0 0, _, rfl, by simp only [step]; rw [hq]; rfl⟩
  | delete i =>
    obtain ⟨e, he, -⟩ := Option.map_eq_some_iff.mp ha
    obtain ⟨q, hq⟩ := hobj he
    exact ⟨.call (.delete i) junk o 0 0, _, rfl, by simp only [step]; rw [hq]; rfl⟩

/-- Every sequence of calls has a run through the helper that ends drained. -/
theorem exists_run (hshort : cfg.ShortHosts) {ops : List Op} {p : Proxied cfg}
    {a a' : Abstract cfg} (h : Sim p a) (ha : Machine.run Abstract.step a ops = some a') :
    ∃ ps p', Machine.run (step K) p ps = some p' ∧ ps.filterMap Act.op = ops ∧ p'.pending = [] := by
  induction ops generalizing p a with
  | nil =>
    obtain ⟨ps, p', hrun, hops, hdone, -⟩ := exists_drain (K := K) h
    exact ⟨ps, p', hrun, hops, hdone⟩
  | cons op ops ih =>
    obtain ⟨b, hb, ha⟩ := Machine.run_cons_eq_some.mp ha
    obtain ⟨ps, p₁, hrun, hops, hdone, hsim⟩ := exists_drain (K := K) h
    obtain ⟨c, p₂, hc, hstep⟩ := exists_call (K := K) hsim hdone hb
    obtain ⟨b', hb', hsim₂⟩ := sim_step hshort hsim hstep
    have hbb : b' = b := by
      rw [hc] at hb'
      obtain ⟨b₁, hb₁, hb'⟩ := Machine.run_cons_eq_some.mp hb'
      cases hb'
      exact Option.some.inj (hb₁.symm.trans hb)
    subst hbb
    obtain ⟨ps', p', hrun', hops', hdone'⟩ := ih hsim₂ ha
    refine ⟨ps ++ c :: ps', p', ?_, ?_, hdone'⟩
    · exact Machine.run_append_eq_some.mpr
        ⟨p₁, hrun, Machine.run_cons_eq_some.mpr ⟨p₂, hstep, hrun'⟩⟩
    · rw [List.filterMap_append, hops, List.filterMap_cons_some hc, hops', List.nil_append]

end Proxied

/-- **Refinement.** A sequence of calls that is possible directly is possible through the helper,
and once the helper has handled everything it has the results and the updates, up to timestamps, of
the same sequence made directly. -/
theorem helper_refines_direct (hshort : cfg.ShortHosts) (K K' : Kernel) {os os' : Os cfg}
    (hos : os'.db.records = os.db.records) {ds : List (Op × LogOutcome)} {d : Direct cfg}
    (hd : Machine.run (Direct.step K) (.initial os) ds = some d) :
    (∃ ps p, Machine.run (Proxied.step K') (.initial os') ps = some p ∧
      ps.filterMap Proxied.Act.op = ds.map Prod.fst ∧ p.pending = []) ∧
    ∀ ps p, Machine.run (Proxied.step K') (.initial os') ps = some p →
      ps.filterMap Proxied.Act.op = ds.map Prod.fst → p.pending = [] →
      p.results = d.results ∧ p.helper.os.db.records = d.os.db.records := by
  have hdirect : ∀ (s : Direct cfg) c s' t, Direct.Sim s t → Direct.step K s c = some s' → ∃ t',
      Machine.run Abstract.step t (some c.1 : Option Op).toList = some t' ∧ Direct.Sim s' t' := by
    intro s c s' t hR hs
    obtain ⟨t', ht', hR'⟩ := Direct.sim_step hR hs
    exact ⟨t', Machine.run_cons_eq_some.mpr ⟨t', ht', rfl⟩, hR'⟩
  have hproxied : ∀ (s : Proxied cfg) c s' t, Proxied.Sim s t → Proxied.step K' s c = some s' →
      ∃ t', Machine.run Abstract.step t c.op.toList = some t' ∧ Proxied.Sim s' t' :=
    fun s c s' t hR hs => Proxied.sim_step hshort hR hs
  obtain ⟨a, ha, hsim⟩ := Machine.run_of_simulation hdirect (Direct.sim_initial os) hd
  have hmap : ds.filterMap (fun c => some c.1) = ds.map Prod.fst :=
    congrFun List.filterMap_eq_map ds
  have hinit : Proxied.Sim (.initial os') (.initial os.db.records) :=
    hos ▸ Proxied.sim_initial os'
  rw [hmap] at ha
  refine ⟨Proxied.exists_run hshort hinit ha, fun ps p hp hops hdrained => ?_⟩
  obtain ⟨b, hb, hsim'⟩ := Machine.run_of_simulation hproxied hinit hp
  rw [← hops] at ha
  obtain rfl : b = a := Option.some.inj (hb.symm.trans ha)
  have hrec := hsim'.records
  rw [Proxied.settled_of_nil hdrained] at hrec
  exact ⟨hsim'.results.trans hsim.results.symm, hrec.trans hsim.records.symm⟩

/-- A session with a login before its `get`. -/
def earlyLogin : List (Op × LogOutcome) :=
  let host : CStr := CString.read [58, 48]
  let o : LogOutcome := ⟨true, true, true⟩
  [(.create 0, o), (.login 0 42 true host, o), (.get 0 .pts7, o), (.login 0 43 true host, o),
    (.closeTty 0, o), (.delete 0, o)]

theorem helper_refines_direct_earlyLogin :
    ∃ d, Machine.run (Direct.step posix) (.initial Os.start) earlyLogin = some d ∧
      d.results = [true] ∧
      ∃ ps p, Machine.run (Proxied.step posix) (.initial Os.start) ps = some p ∧
        ps.filterMap Proxied.Act.op = earlyLogin.map Prod.fst ∧ p.pending = [] ∧
        p.results = [true] ∧ p.helper.os.db.records = d.os.db.records := by
  refine ⟨_, rfl, rfl, ?_⟩
  obtain ⟨⟨ps, p, hp, hops, hdone⟩, hagree⟩ :=
    @helper_refines_direct linux ⟨by decide, by decide⟩ posix posix Os.start Os.start rfl
      earlyLogin _ rfl
  obtain ⟨hresults, hrecords⟩ := hagree ps p hp hops hdone
  exact ⟨ps, p, hp, hops, hdone, hresults, hrecords⟩

end Libptytty
