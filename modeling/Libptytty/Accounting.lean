import Libptytty.Descriptors
import Libptytty.Registry

/-!
# Descriptor accounting of the helper

At a loop head of `serve` the helper owns one descriptor for each element of `ptys`, its master,
and when `serve` has returned it owns none. `descriptor_accounting` states this together with the
accounts of a single object.
-/

namespace Libptytty

open Memory

namespace Serve

variable {cfg : Config} {K : Kernel}

/-- The master of the object at `a`. -/
def masterOf (heap : Heap PtyttyUnix) (a : Addr) : Option Fd :=
  (heap.cells a).bind fun c => c.obj.pty

/-- The masters of the objects at the addresses `l`. -/
def masters (heap : Heap PtyttyUnix) (l : List Addr) : List Fd := l.filterMap (masterOf heap)

/-- The object at `a` has a master and no slave. -/
def Holding (heap : Heap PtyttyUnix) (d : Descs) (a : Addr) : Prop :=
  ∃ c, heap.cells a = some c ∧ c.obj.Ready d ∧ c.obj.tty = none

/-- Since `d₀` the helper has opened and closed descriptors so that it now owns the masters of the
objects at the addresses `l`. -/
structure Accounted (d₀ : Descs) (l : List Addr) (heap : Heap PtyttyUnix) (d : Descs) : Prop where
  holding : ∀ a ∈ l, Holding heap d a
  nodup : (masters heap l).Nodup
  moves : Moves ∅ (masters heap l).toFinset d₀ d

theorem masters_congr {heap heap' : Heap PtyttyUnix} {l : List Addr}
    (h : ∀ a ∈ l, heap'.cells a = heap.cells a) : masters heap' l = masters heap l :=
  List.filterMap_congr fun a ha => by unfold masterOf; rw [h a ha]

theorem masterOf_eq {heap : Heap PtyttyUnix} {a : Addr} {c : Cell PtyttyUnix}
    (hc : heap.cells a = some c) : masterOf heap a = c.obj.pty := by
  unfold masterOf; rw [hc]; rfl

theorem mem_masters {heap : Heap PtyttyUnix} {l : List Addr} {fd : Fd} :
    fd ∈ masters heap l ↔ ∃ a ∈ l, masterOf heap a = some fd := List.mem_filterMap

/-- An object with a master and no slave owns the master. -/
theorem owned_eq {x : PtyttyUnix} {p : Fd} (hp : x.pty = some p) (ht : x.tty = none) :
    x.owned = {p} := by
  unfold PtyttyUnix.owned; rw [hp, ht]; rfl

theorem Holding.congr {heap heap' : Heap PtyttyUnix} {d d' : Descs} {a : Addr}
    (h : Holding heap d a) (hcell : heap'.cells a = heap.cells a)
    (hfile : ∀ fd ∈ masterOf heap a, d'.file fd = d.file fd) : Holding heap' d' a := by
  obtain ⟨c, hc, hready, ht⟩ := h
  refine ⟨c, hcell.trans hc, hready.congr fun fd hfd => hfile fd ?_, ht⟩
  obtain ⟨p, -, hp, -⟩ := hready
  rw [owned_eq hp ht, Finset.mem_singleton] at hfd
  rw [Option.mem_def, masterOf_eq hc, hp, hfd]

/-- Descriptors are moved for others only. -/
theorem holding_of_frame {heap heap' : Heap PtyttyUnix} {d d' : Descs} {l : List Addr}
    (h : ∀ a ∈ l, Holding heap d a) (hcells : ∀ a ∈ l, heap'.cells a = heap.cells a)
    (hfile : ∀ fd ∈ (masters heap l).toFinset, d'.file fd = d.file fd) :
    ∀ a ∈ l, Holding heap' d' a := by
  intro a ha
  refine (h a ha).congr (hcells a ha) fun fd hfd => hfile fd ?_
  exact List.mem_toFinset.mpr (mem_masters.mpr ⟨a, ha, hfd⟩)

/-- A move for nobody, such as the files of the session databases. -/
theorem Accounted.idle {d₀ d d' : Descs} {l : List Addr} {heap : Heap PtyttyUnix}
    (h : Accounted d₀ l heap d) (hmv : Moves ∅ ∅ d d') : Accounted d₀ l heap d' := by
  obtain ⟨-, -, hfile⟩ := hmv.frame h.moves.sub' (Finset.disjoint_empty_right _)
  have hmv := hmv.union h.moves.sub' (Finset.disjoint_empty_right _)
  rw [Finset.empty_union] at hmv
  exact ⟨holding_of_frame h.holding (fun _ _ => rfl) hfile, h.nodup, h.moves.trans hmv⟩

/-- The object at `a` is deleted. -/
theorem Accounted.delete {d₀ : Descs} {l l' : List Addr} {heap : Heap PtyttyUnix} {os : Os cfg}
    (h : Accounted d₀ l heap os.descs) (hl : l.Nodup) {a : Addr} (hp : l.Perm (a :: l'))
    {c : Cell PtyttyUnix} (hc : heap.cells a = some c) (o : LogOutcome) :
    Accounted d₀ l' (heap.free a) (c.obj.delete K o os).descs := by
  obtain ⟨c', hc', ⟨p, dev, hpty, -⟩, htty⟩ := h.holding a (hp.mem_iff.mpr List.mem_cons_self)
  obtain rfl : c = c' := Option.some.inj (hc.symm.trans hc')
  have hperm : (masters heap l).Perm (p :: masters heap l') := by
    have := hp.filterMap (masterOf heap)
    rwa [List.filterMap_cons_some (by rw [masterOf_eq hc, hpty])] at this
  have hcons : (p :: masters heap l').Nodup := hperm.nodup_iff.mp h.nodup
  have hcells : ∀ b ∈ l', (heap.free a).cells b = heap.cells b := by
    intro b hb
    rw [Heap.cells_free, if_neg]
    rintro rfl
    exact (List.nodup_cons.mp (hp.nodup_iff.mp hl)).1 hb
  -- the object is deleted in the frame of the masters of the others
  have hown : (masters heap l).toFinset = {p} ∪ (masters heap l').toFinset := by
    rw [List.toFinset_eq_of_perm _ _ hperm, List.toFinset_cons]; rfl
  have hsub := h.moves.sub'
  rw [hown] at hsub
  have hrest : (masters heap l').toFinset ⊆ os.descs.fds := Finset.union_subset_right hsub
  have hdisj : Disjoint (masters heap l').toFinset {p} := by
    rw [Finset.disjoint_singleton_right, List.mem_toFinset]
    exact (List.nodup_cons.mp hcons).1
  have hdel : Moves c.obj.owned ∅ os.descs (c.obj.delete K o os).descs :=
    PtyttyUnix.delete_moves o (by simp [htty])
      (by rw [owned_eq hpty htty]; exact Finset.union_subset_left hsub)
  rw [owned_eq hpty htty] at hdel
  obtain ⟨-, -, hfile⟩ := hdel.frame hrest hdisj
  have hmv := hdel.union hrest hdisj
  rw [Finset.empty_union, ← hown] at hmv
  have hm : masters (heap.free a) l' = masters heap l' := masters_congr hcells
  refine ⟨holding_of_frame (fun b hb => ?_) hcells hfile, ?_, ?_⟩
  · exact h.holding b (hp.mem_iff.mpr (List.mem_cons_of_mem a hb))
  · rw [hm]; exact (List.nodup_cons.mp hcons).2
  · rw [hm]; exact h.moves.trans hmv

/-- A `get` that succeeds leaves the helper with one more master. -/
theorem Accounted.get {d₀ : Descs} {l : List Addr} {heap : Heap PtyttyUnix} {os os' : Os cfg}
    (h : Accounted d₀ l heap os.descs) {a : Addr} (ha : a ∉ l) {x : PtyttyUnix}
    (hready : x.Ready os'.descs) (hmv : Moves ∅ x.owned os.descs os'.descs) :
    Accounted d₀ (l ++ [a]) ((heap.alloc a x).modify a fun _ => (x.closeTty os').1)
      (x.closeTty os').2.descs := by
  have hclose := PtyttyUnix.closeTty_moves hready.pty_ne_tty hmv.sub'
  have hready' := PtyttyUnix.closeTty_ready hready
  have htty : (x.closeTty os').1.tty = none := by rw [PtyttyUnix.closeTty_fst]
  obtain ⟨p, dev, hpty, -⟩ := hready'
  rw [owned_eq hpty htty] at hclose
  have hmv := hmv.trans hclose
  have hrest := h.moves.sub'
  obtain ⟨hrest', hdisj, hfile⟩ := hmv.frame hrest (Finset.disjoint_empty_right _)
  have hmv := hmv.union hrest (Finset.disjoint_empty_right _)
  rw [Finset.empty_union] at hmv
  have hcells : ∀ b ∈ l, ((heap.alloc a x).modify a fun _ => (x.closeTty os').1).cells b =
      heap.cells b := by
    intro b hb
    have hne : b ≠ a := by rintro rfl; exact ha hb
    rw [Heap.cells_modify, if_neg hne, Heap.cells_alloc, if_neg hne]
  have hcell : ((heap.alloc a x).modify a fun _ => (x.closeTty os').1).cells a =
      some ⟨heap.created, (x.closeTty os').1⟩ := by
    rw [Heap.cells_modify, if_pos rfl, Heap.cells_alloc, if_pos rfl]
    rfl
  have hm : masters ((heap.alloc a x).modify a fun _ => (x.closeTty os').1) (l ++ [a]) =
      masters heap l ++ [p] := by
    unfold masters
    rw [List.filterMap_append, List.filterMap_cons_some (by rw [masterOf_eq hcell, hpty])]
    exact congrArg (· ++ [p]) (masters_congr hcells)
  refine ⟨fun b hb => ?_, ?_, ?_⟩
  · rcases List.mem_append.mp hb with hb | hb
    · exact holding_of_frame h.holding hcells hfile b hb
    · obtain rfl : b = a := List.mem_singleton.mp hb
      exact ⟨_, hcell, PtyttyUnix.closeTty_ready hready, htty⟩
  · rw [hm]
    refine List.Nodup.append h.nodup (List.nodup_singleton p) (List.disjoint_singleton.mpr ?_)
    intro hmem
    exact (Finset.disjoint_right.mp hdisj (Finset.mem_singleton_self p))
      (List.mem_toFinset.mpr hmem)
  · rw [hm, List.toFinset_append, Finset.union_comm]
    exact h.moves.trans hmv

/-- A method that keeps the descriptors of its object. -/
theorem Accounted.modify {d₀ d : Descs} {l : List Addr} {heap : Heap PtyttyUnix}
    (h : Accounted d₀ l heap d) {a : Addr} {c : Cell PtyttyUnix} (hc : heap.cells a = some c)
    {x : PtyttyUnix} (hpty : x.pty = c.obj.pty) (htty : x.tty = c.obj.tty)
    (hname : x.name = c.obj.name) : Accounted d₀ l (heap.modify a fun _ => x) d := by
  have hmaster : ∀ b, masterOf (heap.modify a fun _ => x) b = masterOf heap b := by
    intro b
    unfold masterOf
    rw [Heap.cells_modify]
    by_cases hb : b = a
    · rw [if_pos hb, hb, hc]
      exact hpty
    · rw [if_neg hb]
  have hm : masters (heap.modify a fun _ => x) l = masters heap l :=
    List.filterMap_congr fun b _ => hmaster b
  refine ⟨fun b hb => ?_, ?_, ?_⟩
  · obtain ⟨c', hc', ⟨p, dev, hp, hn, hf, ht⟩, ht'⟩ := h.holding b hb
    by_cases hba : b = a
    · subst hba
      obtain rfl : c = c' := Option.some.inj (hc.symm.trans hc')
      refine ⟨⟨c.serial, x⟩, ?_, ⟨p, dev, hpty.trans hp, hname.trans hn, hf, ?_⟩, htty.trans ht'⟩
      · rw [Heap.cells_modify, if_pos rfl, hc]; rfl
      · show ∀ t ∈ x.tty, _
        rw [htty]; exact ht
    · refine ⟨c', ?_, ⟨p, dev, hp, hn, hf, ht⟩, ht'⟩
      rw [Heap.cells_modify, if_neg hba, hc']
  · rw [hm]; exact h.nodup
  · rw [hm]; exact h.moves

/-! ## Every iteration -/

/-- The accounts at a loop head. -/
def HeadAccounted (d₀ : Descs) (s : Serve cfg) : Prop := Accounted d₀ s.ptys s.heap s.os.descs

variable {d₀ : Descs}

theorem accounted_handleGet {s : Serve cfg} (hs : AtHead s) (h : HeadAccounted d₀ s) {o : Outcome}
    (ha : s.heap.cells o.addr = none) : HeadAccounted d₀ (s.handleGet K o) := by
  have hnew : o.addr ∉ s.ptys := fun hmem => by simpa [ha] using (hs.reg.live _).mp hmem
  rcases PtyttyUnix.get_moves (K := K) (o := o.get) PtyttyUnix.initial_new s.os with
    ⟨os, he, hmv⟩ | ⟨x, os, he, hready, -, -, hmv⟩
  · -- the object deleted at once owns nothing
    rw [handleGet_false he]
    have hown : PtyttyUnix.new.owned = ∅ := PtyttyUnix.initial_new.owned_eq
    have hdel :
        Moves PtyttyUnix.new.owned ∅ os.descs (PtyttyUnix.new.delete K (o.log 0) os).descs :=
      PtyttyUnix.delete_moves _ (by rintro t ⟨⟩) (by rw [hown]; exact Finset.empty_subset _)
    rw [hown] at hdel
    have hidle := h.idle (hmv.trans hdel)
    have hcells : ∀ b ∈ s.ptys,
        ((s.heap.alloc o.addr PtyttyUnix.new).free o.addr).cells b = s.heap.cells b := by
      intro b hb
      have hne : b ≠ o.addr := by rintro rfl; exact hnew hb
      rw [Heap.cells_free, if_neg hne, Heap.cells_alloc, if_neg hne]
    have hm := masters_congr hcells
    refine ⟨holding_of_frame hidle.holding hcells fun _ _ => rfl, ?_, ?_⟩
    · show (masters _ s.ptys).Nodup
      rw [hm]; exact hidle.nodup
    · show Moves ∅ (masters _ s.ptys).toFinset _ _
      rw [hm]; exact hidle.moves
  · rw [handleGet_true he]
    exact h.get hnew hready hmv

theorem accounted_handleLogin {s : Serve cfg} (hs : AtHead s) (h : HeadAccounted d₀ s)
    (o : LogOutcome) (cmd : Command) : HeadAccounted d₀ (s.handleLogin K o cmd) := by
  rcases handleLogin_cases (K := K) hs.reg o cmd with ⟨he, -⟩ | ⟨c, -, -, hc, he⟩
  · rw [he]; exact h
  · rw [he]
    obtain ⟨hpty, htty, hname⟩ := PtyttyUnix.login_fields (K := K) o cmd.cmdPid cmd.loginShell
      (CString.ofArray (CString.terminate (n := 511) cmd.hostname)) c.obj s.os
    have hidle := h.idle (PtyttyUnix.login_moves (K := K) o cmd.cmdPid cmd.loginShell
      (CString.ofArray (CString.terminate (n := 511) cmd.hostname)) c.obj s.os)
    exact hidle.modify hc hpty htty hname

theorem accounted_handleDestroy {s : Serve cfg} (hs : AtHead s) (h : HeadAccounted d₀ s)
    (o : LogOutcome) (cmd : Command) : HeadAccounted d₀ (s.handleDestroy K o cmd) := by
  rcases handleDestroy_cases (K := K) hs.reg o cmd with ⟨he, -⟩ | ⟨c, hmem, hc, he⟩
  · rw [he]; exact h
  · rw [he]
    exact h.delete hs.reg.nodup (List.perm_cons_erase hmem) hc o

theorem accounted_destroyAll (o : ℕ → LogOutcome) (i : ℕ) {s : Serve cfg} (hs : Destroying i s)
    (hi : i ≤ s.ptys.length) (h : Accounted d₀ (s.ptys.take i) s.heap s.os.descs) :
    Accounted d₀ [] (destroyAll K o i s).heap (destroyAll K o i s).os.descs := by
  induction i generalizing s with
  | zero => rw [List.take_zero] at h; exact h
  | succ i ih =>
    obtain ⟨hd, hp⟩ := destroying_step (K := K) hs hi (o i)
    refine ih hd (by rw [hp]; omega) ?_
    have hget : s.ptys.getD i 0 = s.ptys[i] := List.getD_eq_getElem _ _ hi
    have htake : s.ptys.take (i + 1) = s.ptys.take i ++ [s.ptys[i]] :=
      (List.take_concat_get' _ _ hi).symm
    have hperm : (s.ptys.take (i + 1)).Perm (s.ptys[i] :: s.ptys.take i) := by
      rw [htake]; exact List.perm_append_singleton _ _
    have hmem := hperm.mem_iff.mpr List.mem_cons_self
    obtain ⟨c, hc, -⟩ := h.holding _ hmem
    have hdel := h.delete (K := K) (hs.nodup.sublist (List.take_sublist _ _)) hperm hc (o i)
    rw [hp, hget, delete_eq hc]
    exact hdel

/-- The descriptors of the helper beyond those it started with: one master for each element of
`ptys` at a loop head, none when `serve` has returned. -/
structure FdsAccounted (base : Finset Fd) (s : Serve cfg) : Prop where
  head : s.returned = false →
    (masters s.heap s.ptys).length = s.ptys.length ∧ (masters s.heap s.ptys).Nodup ∧
    (∀ fd ∈ masters s.heap s.ptys, ∃ dev, s.os.descs.file fd = .master dev) ∧
    Disjoint base (masters s.heap s.ptys).toFinset ∧
    s.os.descs.fds = base ∪ (masters s.heap s.ptys).toFinset
  ended : s.returned = true → s.os.descs.fds = base

/-- The states of a run with their accounts. -/
def FdInv (d₀ : Descs) (s : Serve cfg) : Prop :=
  Inv s ∧ if s.returned then Accounted d₀ [] s.heap s.os.descs else HeadAccounted d₀ s

theorem fdInv_initial (os : Os cfg) : FdInv os.descs (initial os) := by
  refine ⟨inv_initial os, ?_⟩
  rw [if_neg (by simp [initial])]
  exact ⟨by rintro a ⟨⟩, List.nodup_nil, Moves.refl (Finset.empty_subset _)⟩

theorem fdInv_of_head {s t : Serve cfg} (hr : s.returned = false)
    (hs : AtHead t ∧ t.returned = s.returned) (h : HeadAccounted d₀ t) : FdInv d₀ t := by
  refine ⟨inv_of_atHead hr hs, ?_⟩
  rw [if_neg (by simp [hs.2, hr])]
  exact h

theorem fdInv_finish {s : Serve cfg} (hs : AtHead s) (h : HeadAccounted d₀ s)
    (o : ℕ → LogOutcome) : FdInv d₀ (s.finish K o) := by
  have hr : (s.finish K o).returned = true := rfl
  refine ⟨inv_finish hs o, ?_⟩
  rw [if_pos hr]
  refine accounted_destroyAll o _ hs.destroying le_rfl ?_
  rw [List.take_length]
  exact h

theorem fdInv_step {s t : Serve cfg} {i : Input} (h : FdInv d₀ s) (ht : step K s i = some t) :
    FdInv d₀ t := by
  obtain ⟨hr, hi⟩ := iterates_of_step ht
  have hs : AtHead s := by simpa [Inv, hr] using h.1
  have ha : HeadAccounted d₀ s := by simpa [hr] using h.2
  cases hi with
  | short => exact fdInv_finish hs ha _
  | get type nonnull free =>
    exact fdInv_of_head hr (atHead_get hs nonnull free) (accounted_handleGet hs ha free)
  | login => exact fdInv_of_head hr (atHead_login hs _ _) (accounted_handleLogin hs ha _ _)
  | destroy => exact fdInv_of_head hr (atHead_destroy hs _ _) (accounted_handleDestroy hs ha _ _)
  | other => exact fdInv_finish hs ha _

theorem length_masters {l : List Addr} {heap : Heap PtyttyUnix} {d : Descs}
    (h : ∀ a ∈ l, Holding heap d a) : (masters heap l).length = l.length := by
  induction l with
  | nil => rfl
  | cons a l ih =>
    obtain ⟨c, hc, ⟨p, dev, hp, -⟩, -⟩ := h a List.mem_cons_self
    have := ih fun b hb => h b (List.mem_cons_of_mem a hb)
    unfold masters at this ⊢
    rw [List.filterMap_cons_some (by rw [masterOf_eq hc, hp]), List.length_cons, List.length_cons,
      this]

theorem fdsAccounted_of_fdInv {s : Serve cfg} (h : FdInv d₀ s) : FdsAccounted d₀.fds s := by
  obtain ⟨-, h⟩ := h
  cases hr : s.returned with
  | true =>
    rw [if_pos hr] at h
    refine ⟨fun hf => by simp [hr] at hf, fun _ => ?_⟩
    simpa [masters] using h.moves.fds_eq
  | false =>
    rw [if_neg (by simp [hr])] at h
    refine ⟨fun _ => ⟨length_masters h.holding, h.nodup, fun fd hfd => ?_, ?_, ?_⟩,
      fun hf => by simp [hr] at hf⟩
    · obtain ⟨a, ha, hfd⟩ := mem_masters.mp hfd
      obtain ⟨c, hc, ⟨p, dev, hp, -, hf, -⟩, -⟩ := h.holding a ha
      rw [masterOf_eq hc, hp] at hfd
      obtain rfl := Option.some.inj hfd
      exact ⟨dev, hf⟩
    · have hrest := h.moves.rest
      rw [Finset.sdiff_empty] at hrest
      rw [← hrest]
      exact Finset.sdiff_disjoint
    · simpa using h.moves.fds_eq

end Serve

namespace Life

variable {cfg : Config} {K : Kernel}

variable (K) in
/-- The accounts of one object. -/
structure Balanced (s : Life cfg) : Prop where
  /-- So far everything closed was open and everything opened is closed, but for what the object
  has in its fields. -/
  ledger : Ledger.run ∅ s.log = some s.owned
  opened : s.owned ⊆ s.os.descs.fds
  /-- A `get` that fails leaves the object as constructed, and no descriptor open. -/
  failed : s.got = false → ∀ x ∈ s.obj, ∀ o, (x.get K o s.os).1 = false →
    (x.get K o s.os).2.1 = .new ∧ (x.get K o s.os).2.2.descs.fds = s.os.descs.fds
  /-- In the end every descriptor has been closed as often as opened. -/
  ended : s.obj = none → ∀ fd, s.log.count (.acquire fd) = s.log.count (.release fd)

theorem balanced_of_inv {s : Life cfg} (h : Inv s) : Balanced K s := by
  refine ⟨h.log, h.sub, fun hg x hx o hfail => ?_, fun hobj fd => ?_⟩
  · obtain rfl := h.fresh hg x hx
    rcases PtyttyUnix.get_moves (K := K) (o := o) PtyttyUnix.initial_new s.os with
      ⟨os, he, hmv⟩ | ⟨x, os, he, -⟩
    · rw [he]
      exact ⟨rfl, by simpa using hmv.fds_eq⟩
    · rw [he] at hfail
      cases hfail
  · have hown : s.owned = ∅ := by unfold owned; rw [hobj]
    have hlog := h.log
    rw [hown] at hlog
    simpa using Ledger.count_acquire hlog fd

end Life

/-- **Descriptor accounting.** Over the life of one object, in every order of its methods, its
descriptors are balanced; over every stream of commands the helper owns exactly one master for
each element of `ptys`. -/
theorem descriptor_accounting {cfg : Config} (K : Kernel) (os : Os cfg) :
    (∀ as, Machine.Always (Life.step K) (Life.Balanced K) (Life.initial os) as) ∧
      ∀ is, Machine.Always (Serve.step K) (Serve.FdsAccounted os.descs.fds) (Serve.initial os) is :=
  ⟨fun _ _ _ _ hs => Life.balanced_of_inv (Life.inv_run hs),
    fun _ _ _ _ hs => Serve.fdsAccounted_of_fdInv
      (Machine.inv_of_run (fun _ _ _ hI ht => Serve.fdInv_step hI ht) (Serve.fdInv_initial os) hs)⟩

end Libptytty
