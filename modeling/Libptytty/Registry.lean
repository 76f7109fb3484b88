import Libptytty.Serve

/-!
# Safety of the helper's registry

Whatever a client sends, `ptys` lists exactly the live objects of successful gets at every loop
head, methods are called on such objects only, and every object is deleted once
(`serve_registry_safe`). Addresses may be reused, so the history speaks of allocations by their
number.
-/

namespace Libptytty

open CString Memory

/-- The allocation that an event deletes. -/
def Event.deleted : Event → Option ℕ
  | .delete target _ => target
  | _ => none

/-- The allocation that an event makes. -/
def Event.created : Event → Option ℕ
  | .new n => some n
  | _ => none

/-- The numbers of the deleted objects, in order. -/
def deletions (es : List Event) : List ℕ := es.filterMap Event.deleted

/-- The numbers of the created objects, in order. -/
def creations (es : List Event) : List ℕ := es.filterMap Event.created

/-- A call that `serve` may make after `pre`: `login` on a live object in `ptys`, with a terminated
hostname; `delete` on a live object in `ptys`, or on the one whose `get` has just failed. -/
def Event.Allowed (pre : List Event) : Event → Prop
  | .login target listed hostname => target.isSome ∧ listed = true ∧ Terminated hostname
  | .delete target listed =>
    ∃ n, target = some n ∧ (listed = true ∨ pre.getLast? = some (.got n false))
  | _ => True

/-- Every call was allowed when it was made. -/
def AllAllowed (es : List Event) : Prop := ∀ pre e, pre ++ [e] <+: es → e.Allowed pre

theorem AllAllowed.concat {es : List Event} {e : Event} (h : AllAllowed es) (he : e.Allowed es) :
    AllAllowed (es ++ [e]) := by
  intro pre e' hp
  rcases List.prefix_concat_iff.mp hp with heq | hp
  · obtain ⟨rfl, he'⟩ := List.append_inj' heq rfl
    cases he'
    exact he
  · exact h pre e' hp

@[simp] theorem deletions_append (es fs : List Event) :
    deletions (es ++ fs) = deletions es ++ deletions fs := List.filterMap_append

@[simp] theorem creations_append (es fs : List Event) :
    creations (es ++ fs) = creations es ++ creations fs := List.filterMap_append

namespace Serve

variable {cfg : Config} {K : Kernel}

/-! ## The invariant -/

/-- The listed addresses are those of the live objects. -/
structure Registered (ptys : List Addr) (heap : Heap PtyttyUnix) : Prop where
  null : 0 ∉ ptys
  nodup : ptys.Nodup
  live : ∀ a, a ∈ ptys ↔ (heap.cells a).isSome

/-- The history agrees with the heap. -/
structure History (events : List Event) (heap : Heap PtyttyUnix) : Prop where
  created : creations events = List.range heap.created
  deleted : ∀ n, n ∈ deletions events ↔ n < heap.created ∧ ¬ heap.Live n
  once : (deletions events).Nodup
  got : ∀ n, heap.Live n → .got n true ∈ events
  gotLt : ∀ n ok, .got n ok ∈ events → n < heap.created
  allowed : AllAllowed events

/-- The state at a loop head. -/
structure AtHead (s : Serve cfg) : Prop where
  reg : Registered s.ptys s.heap
  hist : History s.events s.heap

theorem atHead_initial (os : Os cfg) : AtHead (initial os) := by
  refine ⟨⟨by simp [initial], by simp [initial], fun a => ?_⟩, ⟨rfl, fun n => ?_, ?_, ?_, ?_, ?_⟩⟩
  · simp [initial, Heap.empty]
  · simp [initial, Heap.empty, deletions]
  · simp [initial, deletions]
  · rintro n ⟨a, c, hc, -⟩; cases hc
  · intro n ok h; cases h
  · intro pre e h; simp [initial] at h

/-! ## Histories -/

/-- The object at `a` is deleted, which the history allows. -/
theorem History.delete {events : List Event} {heap : Heap PtyttyUnix} (h : History events heap)
    {a : Addr} {c : Cell PtyttyUnix} (hc : heap.cells a = some c) :
    History (events ++ [.delete (some c.serial) true]) (heap.free a) := by
  have hlive : heap.Live c.serial := ⟨a, c, hc, rfl⟩
  have hdel : deletions [Event.delete (some c.serial) true] = [c.serial] := rfl
  refine ⟨?_, fun n => ?_, ?_, fun n hn => ?_, fun n ok hn => ?_, ?_⟩
  · rw [creations_append, h.created]; simp [creations, Event.created]
  · rw [deletions_append, hdel, List.mem_append, List.mem_singleton, h.deleted, Heap.live_free hc,
      Heap.created_free]
    constructor
    · rintro (⟨hn, hnl⟩ | rfl)
      · exact ⟨hn, fun hl => hnl hl.1⟩
      · exact ⟨hlive.lt, fun hl => hl.2 rfl⟩
    · rintro ⟨hn, hnl⟩
      by_cases hl : heap.Live n
      · exact Or.inr (by_contra fun hne => hnl ⟨hl, hne⟩)
      · exact Or.inl ⟨hn, hl⟩
  · rw [deletions_append, hdel]
    refine List.Nodup.append h.once (List.nodup_singleton _) (List.disjoint_singleton.mpr ?_)
    exact fun hmem => ((h.deleted _).mp hmem).2 hlive
  · exact List.mem_append_left _ (h.got n ((Heap.live_free hc n).mp hn).1)
  · have : Event.got n ok ∈ events := by simpa using hn
    exact h.gotLt n ok this
  · exact h.allowed.concat ⟨_, rfl, Or.inl rfl⟩

/-- A new object whose `get` succeeds. -/
theorem History.register {events : List Event} {heap : Heap PtyttyUnix} (h : History events heap)
    {a : Addr} (ha : heap.cells a = none) (x : PtyttyUnix) :
    History (events ++ [.new heap.created, .got heap.created true]) (heap.alloc a x) := by
  have hdel : deletions [Event.new heap.created, .got heap.created true] = [] := rfl
  have hnew : creations [Event.new heap.created, .got heap.created true] = [heap.created] := rfl
  refine ⟨?_, fun n => ?_, ?_, fun n hn => ?_, fun n ok hn => ?_, ?_⟩
  · rw [creations_append, h.created, hnew, Heap.created_alloc, List.range_succ]
  · rw [deletions_append, hdel, List.append_nil, h.deleted, Heap.live_alloc ha, Heap.created_alloc]
    constructor
    · rintro ⟨hn, hnl⟩
      exact ⟨by omega, fun hl => hnl (hl.resolve_left (by omega))⟩
    · rintro ⟨hn, hnl⟩
      have hne : n ≠ heap.created := fun he => hnl (Or.inl he)
      exact ⟨by omega, fun hl => hnl (Or.inr hl)⟩
  · rw [deletions_append, hdel, List.append_nil]; exact h.once
  · rcases (Heap.live_alloc ha n).mp hn with rfl | hn
    · simp
    · exact List.mem_append_left _ (h.got n hn)
  · rw [Heap.created_alloc]
    rcases List.mem_append.mp hn with hn | hn
    · exact Nat.lt_succ_of_lt (h.gotLt n ok hn)
    · have : n = heap.created := by simp at hn; exact hn.1
      omega
  · have h₁ : AllAllowed (events ++ [.new heap.created]) := h.allowed.concat trivial
    have h₂ := h₁.concat (e := .got heap.created true) trivial
    rwa [List.append_assoc] at h₂

/-- A new object whose `get` fails is deleted at once. -/
theorem History.discard {events : List Event} {heap : Heap PtyttyUnix} (h : History events heap)
    {a : Addr} (ha : heap.cells a = none) (x : PtyttyUnix) (listed : Bool) :
    History (events ++ [.new heap.created, .got heap.created false,
      .delete (some heap.created) listed]) ((heap.alloc a x).free a) := by
  have hcell : (heap.alloc a x).cells a = some ⟨heap.created, x⟩ := by
    rw [Heap.cells_alloc, if_pos rfl]
  have hlive : ∀ n, ((heap.alloc a x).free a).Live n ↔ heap.Live n := by
    intro n
    rw [Heap.live_free hcell, Heap.live_alloc ha]
    constructor
    · rintro ⟨hn | hn, hne⟩
      · exact absurd hn hne
      · exact hn
    · exact fun hn => ⟨Or.inr hn, hn.lt.ne⟩
  have hdel : deletions [Event.new heap.created, .got heap.created false,
      .delete (some heap.created) listed] = [heap.created] := rfl
  have hnew : creations [Event.new heap.created, .got heap.created false,
      .delete (some heap.created) listed] = [heap.created] := rfl
  refine ⟨?_, fun n => ?_, ?_, fun n hn => ?_, fun n ok hn => ?_, ?_⟩
  · rw [creations_append, h.created, hnew, Heap.created_free, Heap.created_alloc, List.range_succ]
  · rw [deletions_append, hdel, List.mem_append, List.mem_singleton, h.deleted, hlive,
      Heap.created_free, Heap.created_alloc]
    constructor
    · rintro (⟨hn, hnl⟩ | rfl)
      · exact ⟨by omega, hnl⟩
      · exact ⟨by omega, fun hl => absurd hl.lt (lt_irrefl _)⟩
    · rintro ⟨hn, hnl⟩
      by_cases he : n = heap.created
      · exact Or.inr he
      · exact Or.inl ⟨by omega, hnl⟩
  · rw [deletions_append, hdel]
    refine List.Nodup.append h.once (List.nodup_singleton _) (List.disjoint_singleton.mpr ?_)
    exact fun hmem => absurd ((h.deleted _).mp hmem).1 (lt_irrefl _)
  · exact List.mem_append_left _ (h.got n ((hlive n).mp hn))
  · rw [Heap.created_free, Heap.created_alloc]
    rcases List.mem_append.mp hn with hn | hn
    · exact Nat.lt_succ_of_lt (h.gotLt n ok hn)
    · have : n = heap.created := by simp at hn; exact hn.1
      omega
  · have h₁ : AllAllowed (events ++ [.new heap.created]) := h.allowed.concat trivial
    have h₂ := h₁.concat (e := .got heap.created false) trivial
    have h₃ := h₂.concat (e := .delete (some heap.created) listed)
      ⟨_, rfl, Or.inr (by simp)⟩
    simpa using h₃

/-- A `login` on a live object. -/
theorem History.login {events : List Event} {heap : Heap PtyttyUnix} (h : History events heap)
    (n : ℕ) {hostname : CharArray 512} (ht : Terminated hostname) (a : Addr)
    (f : PtyttyUnix → PtyttyUnix) :
    History (events ++ [.login (some n) true hostname]) (heap.modify a f) := by
  have hdel : deletions [Event.login (some n) true hostname] = [] := rfl
  have hnew : creations [Event.login (some n) true hostname] = [] := rfl
  refine ⟨?_, fun m => ?_, ?_, fun m hm => ?_, fun m ok hm => ?_, ?_⟩
  · rw [creations_append, h.created, hnew, List.append_nil, Heap.created_modify]
  · rw [deletions_append, hdel, List.append_nil, h.deleted, Heap.live_modify, Heap.created_modify]
  · rw [deletions_append, hdel, List.append_nil]; exact h.once
  · exact List.mem_append_left _ (h.got m ((Heap.live_modify a f heap m).mp hm))
  · have : Event.got m ok ∈ events := by simpa using hm
    exact h.gotLt m ok this
  · exact h.allowed.concat ⟨rfl, rfl, ht⟩

theorem History.modify {events : List Event} {heap : Heap PtyttyUnix} (h : History events heap)
    (a : Addr) (f : PtyttyUnix → PtyttyUnix) : History events (heap.modify a f) := by
  refine ⟨h.created, fun n => ?_, h.once, fun n hn => ?_, h.gotLt, h.allowed⟩
  · rw [h.deleted, Heap.live_modify, Heap.created_modify]
  · exact h.got n ((Heap.live_modify a f heap n).mp hn)

/-! ## The handlers -/

theorem delete_eq {s : Serve cfg} {a : Addr} {c : Cell PtyttyUnix} (hc : s.heap.cells a = some c)
    (o : LogOutcome) : s.delete K o a = { s with
      heap := s.heap.free a
      os := c.obj.delete K o s.os
      events := s.events ++ [.delete (some c.serial) (a ∈ s.ptys)] } := by
  unfold delete; rw [hc]

/-- A `get` that succeeds. -/
theorem handleGet_true {s : Serve cfg} {o : Outcome} {x : PtyttyUnix} {os : Os cfg}
    (he : PtyttyUnix.new.get K o.get s.os = (true, x, os)) :
    s.handleGet K o = { s with
      ptys := s.ptys ++ [o.addr]
      heap := (s.heap.alloc o.addr x).modify o.addr fun _ => (x.closeTty os).1
      os := (x.closeTty os).2
      replies := s.replies ++ [.id o.addr] ++ fdMessage o.sendPty x.pty os.descs ++
        fdMessage o.sendTty x.tty os.descs
      events := s.events ++ [.new s.heap.created, .got s.heap.created true] } := by
  unfold handleGet
  rw [he]
  rfl

/-- A `get` that fails. -/
theorem handleGet_false {s : Serve cfg} {o : Outcome} {x : PtyttyUnix} {os : Os cfg}
    (he : PtyttyUnix.new.get K o.get s.os = (false, x, os)) :
    s.handleGet K o = { s with
      heap := (s.heap.alloc o.addr x).free o.addr
      os := x.delete K (o.log 0) os
      replies := s.replies ++ [.id 0]
      events := s.events ++ [.new s.heap.created, .got s.heap.created false,
        .delete (some s.heap.created) (o.addr ∈ s.ptys)] } := by
  unfold handleGet
  rw [he]
  have hcell : (s.heap.alloc o.addr x).cells o.addr = some ⟨s.heap.created, x⟩ := by
    rw [Heap.cells_alloc, if_pos rfl]
  simp only [Bool.false_eq_true, if_false]
  rw [delete_eq (c := ⟨s.heap.created, x⟩) hcell]
  simp [reply, List.append_assoc]

/-- A `login` command reaches `login` only for a listed id. -/
theorem handleLogin_cases {s : Serve cfg} (hreg : Registered s.ptys s.heap) (o : LogOutcome)
    (cmd : Command) :
    (s.handleLogin K o cmd = s ∧ (cfg.utmp = .none ∨ cmd.id ∉ s.ptys)) ∨
      ∃ c, cfg.utmp ≠ .none ∧ cmd.id ∈ s.ptys ∧ s.heap.cells cmd.id = some c ∧
        s.handleLogin K o cmd = { s with
          heap := s.heap.modify cmd.id fun _ =>
            (c.obj.login K o cmd.cmdPid cmd.loginShell
              (ofArray (terminate (n := 511) cmd.hostname)) s.os).1
          os := (c.obj.login K o cmd.cmdPid cmd.loginShell
            (ofArray (terminate (n := 511) cmd.hostname)) s.os).2
          events := s.events ++
            [.login (some c.serial) true (terminate (n := 511) cmd.hostname)] } := by
  unfold handleLogin
  by_cases hu : cfg.utmp = .none
  · exact Or.inl ⟨if_pos hu, Or.inl hu⟩
  rw [if_neg hu]
  by_cases hmem : cmd.id ∈ s.ptys
  · rw [if_pos (Estl.find_ne_length.mpr hmem)]
    obtain ⟨c, hc⟩ := Option.isSome_iff_exists.mp ((hreg.live cmd.id).mp hmem)
    refine Or.inr ⟨c, hu, hmem, hc, ?_⟩
    unfold login
    rw [hc]
    simp [hmem]
  · rw [if_neg (fun h => hmem (Estl.find_ne_length.mp h))]
    exact Or.inl ⟨rfl, Or.inr hmem⟩

/-- A `destroy` command deletes only a listed object. -/
theorem handleDestroy_cases {s : Serve cfg} (hreg : Registered s.ptys s.heap) (o : LogOutcome)
    (cmd : Command) :
    (s.handleDestroy K o cmd = s ∧ cmd.id ∉ s.ptys) ∨
      ∃ c, cmd.id ∈ s.ptys ∧ s.heap.cells cmd.id = some c ∧
        s.handleDestroy K o cmd = { s with
          ptys := s.ptys.erase cmd.id
          heap := s.heap.free cmd.id
          os := c.obj.delete K o s.os
          events := s.events ++ [.delete (some c.serial) true] } := by
  unfold handleDestroy
  by_cases hmem : cmd.id ∈ s.ptys
  · obtain ⟨c, hc⟩ := Option.isSome_iff_exists.mp ((hreg.live cmd.id).mp hmem)
    refine Or.inr ⟨c, hmem, hc, ?_⟩
    dsimp only
    rw [if_pos (Estl.find_ne_length.mpr hmem), Estl.getD_find hmem, delete_eq hc]
    dsimp only
    rw [Estl.erase_find hmem, decide_eq_true hmem]
  · exact Or.inl ⟨if_neg (fun h => hmem (Estl.find_ne_length.mp h)), hmem⟩

theorem handleLogin_of_notMem {s : Serve cfg} (hreg : Registered s.ptys s.heap) (o : LogOutcome)
    {cmd : Command} (hno : cmd.id ∉ s.ptys) : s.handleLogin K o cmd = s := by
  rcases handleLogin_cases (K := K) hreg o cmd with ⟨he, -⟩ | ⟨c, -, hmem, -⟩
  · exact he
  · exact absurd hmem hno

theorem handleDestroy_of_notMem {s : Serve cfg} (hreg : Registered s.ptys s.heap)
    (o : LogOutcome) {cmd : Command} (hno : cmd.id ∉ s.ptys) : s.handleDestroy K o cmd = s := by
  rcases handleDestroy_cases (K := K) hreg o cmd with ⟨he, -⟩ | ⟨c, hmem, -⟩
  · exact he
  · exact absurd hmem hno

theorem Registered.push {ptys : List Addr} {heap : Heap PtyttyUnix} (h : Registered ptys heap)
    {a : Addr} (h0 : a ≠ 0) (ha : heap.cells a = none) (x : PtyttyUnix) :
    Registered (ptys ++ [a]) (heap.alloc a x) := by
  have hnew : a ∉ ptys := fun hmem => by simpa [ha] using (h.live a).mp hmem
  refine ⟨?_, ?_, fun b => ?_⟩
  · simpa [h0.symm] using h.null
  · exact List.Nodup.append h.nodup (List.nodup_singleton a) (List.disjoint_singleton.mpr hnew)
  · rw [Heap.cells_alloc]
    by_cases hb : b = a
    · simp [hb]
    · simp [hb, h.live b]

theorem Registered.erase {ptys : List Addr} {heap : Heap PtyttyUnix} (h : Registered ptys heap)
    (a : Addr) : Registered (ptys.erase a) (heap.free a) := by
  refine ⟨fun hmem => h.null (List.mem_of_mem_erase hmem), h.nodup.erase a, fun b => ?_⟩
  rw [h.nodup.mem_erase_iff, Heap.cells_free, h.live b]
  by_cases hb : b = a
  · simp [hb]
  · simp [hb]

theorem Registered.alloc_free {ptys : List Addr} {heap : Heap PtyttyUnix}
    (h : Registered ptys heap) {a : Addr} (ha : heap.cells a = none) (x : PtyttyUnix) :
    Registered ptys ((heap.alloc a x).free a) := by
  refine ⟨h.null, h.nodup, fun b => ?_⟩
  rw [Heap.cells_free, Heap.cells_alloc, h.live b]
  by_cases hb : b = a
  · simp [hb, ha]
  · simp [hb]

theorem Registered.modify {ptys : List Addr} {heap : Heap PtyttyUnix} (h : Registered ptys heap)
    (a : Addr) (f : PtyttyUnix → PtyttyUnix) : Registered ptys (heap.modify a f) :=
  ⟨h.null, h.nodup, fun b => by rw [Heap.isSome_modify]; exact h.live b⟩

/-! ## One iteration -/

theorem atHead_get {s : Serve cfg} (h : AtHead s) {o : Outcome} (h0 : o.addr ≠ 0)
    (ha : s.heap.cells o.addr = none) :
    AtHead (s.handleGet K o) ∧ (s.handleGet K o).returned = s.returned := by
  rcases he : PtyttyUnix.new.get K o.get s.os with ⟨ok, x, os⟩
  cases ok with
  | true =>
    rw [handleGet_true he]
    let f : PtyttyUnix → PtyttyUnix := fun _ => (x.closeTty os).1
    exact ⟨⟨(h.reg.push h0 ha x).modify o.addr f, (h.hist.register ha x).modify o.addr f⟩, rfl⟩
  | false =>
    rw [handleGet_false he]
    exact ⟨⟨h.reg.alloc_free ha x, h.hist.discard ha x _⟩, rfl⟩

theorem atHead_login {s : Serve cfg} (h : AtHead s) (o : LogOutcome) (cmd : Command) :
    AtHead (s.handleLogin K o cmd) ∧ (s.handleLogin K o cmd).returned = s.returned := by
  rcases handleLogin_cases (K := K) h.reg o cmd with ⟨hs, -⟩ | ⟨c, -, -, -, hs⟩
  · rw [hs]; exact ⟨h, rfl⟩
  · rw [hs]
    let f : PtyttyUnix → PtyttyUnix := fun _ =>
      (c.obj.login K o cmd.cmdPid cmd.loginShell (ofArray (terminate cmd.hostname)) s.os).1
    exact ⟨⟨h.reg.modify cmd.id f, h.hist.login c.serial (terminated_terminate _) cmd.id f⟩, rfl⟩

theorem atHead_destroy {s : Serve cfg} (h : AtHead s) (o : LogOutcome) (cmd : Command) :
    AtHead (s.handleDestroy K o cmd) ∧ (s.handleDestroy K o cmd).returned = s.returned := by
  rcases handleDestroy_cases (K := K) h.reg o cmd with ⟨hs, -⟩ | ⟨c, -, hc, hs⟩
  · rw [hs]; exact ⟨h, rfl⟩
  · rw [hs]
    exact ⟨⟨h.reg.erase _, h.hist.delete hc⟩, rfl⟩

/-! ## The end of `serve` -/

/-- Inside the last loop: the elements from `i` on are deleted. -/
structure Destroying (i : ℕ) (s : Serve cfg) : Prop where
  nodup : s.ptys.Nodup
  live : ∀ a, a ∈ s.ptys.take i ↔ (s.heap.cells a).isSome
  hist : History s.events s.heap

theorem AtHead.destroying {s : Serve cfg} (h : AtHead s) : Destroying s.ptys.length s :=
  ⟨h.reg.nodup, fun a => by rw [List.take_length]; exact h.reg.live a, h.hist⟩

/-- One iteration deletes the last element that is left. -/
theorem destroying_step {i : ℕ} {s : Serve cfg} (h : Destroying (i + 1) s)
    (hi : i < s.ptys.length) (o : LogOutcome) :
    Destroying i (s.delete K o (s.ptys.getD i 0)) ∧
      (s.delete K o (s.ptys.getD i 0)).ptys = s.ptys := by
  have hget : s.ptys.getD i 0 = s.ptys[i] := List.getD_eq_getElem _ _ hi
  have htake : s.ptys.take (i + 1) = s.ptys.take i ++ [s.ptys[i]] :=
    (List.take_concat_get' _ _ hi).symm
  have hmem : s.ptys[i] ∈ s.ptys := List.getElem_mem hi
  have hlive : (s.heap.cells s.ptys[i]).isSome := (h.live _).mp
    (by rw [htake]; exact List.mem_append_right _ (List.mem_singleton_self _))
  obtain ⟨c, hc⟩ := Option.isSome_iff_exists.mp hlive
  rw [hget, delete_eq hc, decide_eq_true hmem]
  refine ⟨⟨h.nodup, fun a => ?_, h.hist.delete hc⟩, rfl⟩
  show a ∈ s.ptys.take i ↔ ((s.heap.free s.ptys[i]).cells a).isSome
  -- `ptys` has no duplicate, so the deleted address is not among those that are left
  have hnot : s.ptys[i] ∉ s.ptys.take i := by
    have hnd : (s.ptys.take (i + 1)).Nodup := h.nodup.sublist (List.take_sublist _ _)
    rw [htake] at hnd
    exact fun hm => (List.disjoint_of_nodup_append hnd) hm (List.mem_singleton_self _)
  rw [Heap.cells_free]
  by_cases ha : a = s.ptys[i]
  · simp [ha, hnot]
  · rw [if_neg ha, ← h.live a, htake, List.mem_append, List.mem_singleton, or_iff_left ha]

theorem destroying_destroyAll (o : ℕ → LogOutcome) (i : ℕ) {s : Serve cfg} (h : Destroying i s)
    (hi : i ≤ s.ptys.length) : Destroying 0 (destroyAll K o i s) := by
  induction i generalizing s with
  | zero => exact h
  | succ i ih =>
    obtain ⟨hd, hp⟩ := destroying_step (K := K) h hi (o i)
    exact ih hd (by rw [hp]; omega)

/-! ## Safety -/

/-- What holds at a loop head and when `serve` has returned. -/
structure Safe (s : Serve cfg) : Prop where
  /-- Calls are made on objects that exist, with a terminated hostname. -/
  calls : AllAllowed s.events
  /-- At a loop head `ptys` has no null and no duplicate. -/
  list : s.returned = false → 0 ∉ s.ptys ∧ s.ptys.Nodup
  /-- At a loop head its elements are live, and they are the objects that have been created with a
  successful `get` and not been deleted. -/
  objects : s.returned = false → (∀ a ∈ s.ptys, (s.heap.cells a).isSome) ∧
    ∀ n, (∃ a ∈ s.ptys, ∃ c, s.heap.cells a = some c ∧ c.serial = n) ↔
      .got n true ∈ s.events ∧ n ∉ deletions s.events
  /-- When `serve` has returned every object has been deleted once. -/
  ended : s.returned = true → (∀ a, s.heap.cells a = none) ∧
    ∀ n, .new n ∈ s.events → (deletions s.events).count n = 1

/-- The states of a run of `serve`. -/
def Inv (s : Serve cfg) : Prop := if s.returned then Destroying 0 s else AtHead s

theorem inv_of_atHead {s t : Serve cfg} (hr : s.returned = false)
    (h : AtHead t ∧ t.returned = s.returned) : Inv t := by
  unfold Inv
  rw [if_neg (by simp [h.2, hr])]
  exact h.1

theorem inv_finish {s : Serve cfg} (h : AtHead s) (o : ℕ → LogOutcome) : Inv (s.finish K o) := by
  have hd := destroying_destroyAll (K := K) o _ h.destroying le_rfl
  have hr : (s.finish K o).returned = true := rfl
  unfold Inv
  rw [if_pos hr]
  exact ⟨hd.nodup, hd.live, hd.hist⟩

theorem inv_step {s t : Serve cfg} {i : Input} (h : Inv s) (ht : step K s i = some t) : Inv t := by
  obtain ⟨hr, hi⟩ := iterates_of_step ht
  have hs : AtHead s := by simpa [Inv, hr] using h
  cases hi with
  | short => exact inv_finish hs _
  | get type nonnull free => exact inv_of_atHead hr (atHead_get hs nonnull free)
  | login => exact inv_of_atHead hr (atHead_login hs _ _)
  | destroy => exact inv_of_atHead hr (atHead_destroy hs _ _)
  | other => exact inv_finish hs _

theorem inv_initial (os : Os cfg) : Inv (initial os) := by
  have h := atHead_initial os
  unfold Inv
  rw [if_neg (by simp [initial])]
  exact h

/-- The registered objects are those got and not deleted. -/
theorem AtHead.objects {s : Serve cfg} (h : AtHead s) (n : ℕ) :
    (∃ a ∈ s.ptys, ∃ c, s.heap.cells a = some c ∧ c.serial = n) ↔
      .got n true ∈ s.events ∧ n ∉ deletions s.events := by
  constructor
  · rintro ⟨a, -, c, hc, hn⟩
    have hlive : s.heap.Live n := ⟨a, c, hc, hn⟩
    exact ⟨h.hist.got n hlive, fun hd => ((h.hist.deleted n).mp hd).2 hlive⟩
  · rintro ⟨hgot, hd⟩
    rw [h.hist.deleted] at hd
    push Not at hd
    obtain ⟨a, c, hc, hn⟩ := hd (h.hist.gotLt n true hgot)
    exact ⟨a, (h.reg.live a).mpr (by rw [hc]; rfl), c, hc, hn⟩

theorem Destroying.ended {s : Serve cfg} (h : Destroying 0 s) :
    (∀ a, s.heap.cells a = none) ∧
      ∀ n, .new n ∈ s.events → (deletions s.events).count n = 1 := by
  have hnone : ∀ a, s.heap.cells a = none := by
    intro a
    have := h.live a
    rw [List.take_zero] at this
    simpa using this
  refine ⟨hnone, fun n hn => List.count_eq_one_of_mem h.hist.once ?_⟩
  have hmem : n ∈ creations s.events := List.mem_filterMap.mpr ⟨_, hn, rfl⟩
  rw [h.hist.created, List.mem_range] at hmem
  refine (h.hist.deleted n).mpr ⟨hmem, ?_⟩
  rintro ⟨a, c, hc, -⟩
  rw [hnone a] at hc
  cases hc

theorem safe_of_inv {s : Serve cfg} (h : Inv s) : Safe s := by
  unfold Inv at h
  cases hr : s.returned with
  | true =>
    rw [if_pos hr] at h
    exact ⟨h.hist.allowed, fun hf => by simp [hr] at hf, fun hf => by simp [hr] at hf,
      fun _ => h.ended⟩
  | false =>
    rw [if_neg (by simp [hr])] at h
    exact ⟨h.hist.allowed, fun _ => ⟨h.reg.null, h.reg.nodup⟩,
      fun _ => ⟨fun a => (h.reg.live a).mp, h.objects⟩, fun hf => by simp [hr] at hf⟩

/-- **Safety of the registry.** For every stream of inputs, in whatever way it ends, every state
of the helper is safe. -/
theorem serve_registry_safe (K : Kernel) (os : Os cfg) (is : List Input) :
    Machine.Always (step K) Safe (initial os) is := by
  intro pre _ s hs
  exact safe_of_inv (Machine.inv_of_run (fun _ _ _ hI ht => inv_step hI ht) (inv_initial os) hs)

end Serve

end Libptytty
