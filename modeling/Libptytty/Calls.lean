import Libptytty.Ttyslot
import Libptytty.Updates

/-!
# The calls of one object

One object, whose methods are called in any order and any number of times. `get` leaves an old slave
and an old login as they are, so the fields belong together exactly as long as a `get` that finds a
master meets an object that is not logged in and has no slave, or finds the very same device again;
and, where it ends with the swap of descriptor 0, does not lose a master there (`consistent_iff`).
-/

namespace Libptytty

open CString

variable {cfg : Config} {K : Kernel}

open PtyttyUnix (GetOutcome GetDone device)

/-! ## Any sequence of calls -/

/-- One object, with what has been recorded for it. -/
structure Calls (cfg : Config) where
  /-- `none` after the destruction. -/
  obj : Option PtyttyUnix
  os : Os cfg
  /-- The latest call was a `get` that has returned true. -/
  justGot : Bool
  /-- History: the device of the latest login that was recorded, and its updates. -/
  session : Option CStr
  entries : List (Update cfg)
  /-- History: the updates of the destructor. -/
  logout : List (Update cfg)

namespace Calls

/-- A call, or a step of others. -/
inductive Act (cfg : Config)
  | get (o : GetOutcome) (limit : ℕ) (w : SwapOutcome)
  | login (o : LogOutcome) (pid : ℤ) (shell : Bool) (hostname : CStr)
  | closeTty
  | delete (o : LogOutcome)
  | others (os : Os cfg)

/-- After the constructor. -/
def initial (os : Os cfg) : Calls cfg :=
  ⟨some .new, { os with fault := false }, false, none, [], []⟩

/-- `login` records a session for the object. -/
def Records (cfg : Config) (x : PtyttyUnix) : Prop :=
  cfg.utmp ≠ .none ∧ ¬ (x.name = none ∨ ∃ n ∈ x.name, n.1 = [])

instance (x : PtyttyUnix) : Decidable (Records cfg x) := inferInstanceAs (Decidable (_ ∧ ¬ _))

theorem Records.exists_name {x : PtyttyUnix} (h : Records cfg x) :
    cfg.utmp ≠ .none ∧ ∃ name, x.name = some name ∧ name.1 ≠ [] := by
  obtain ⟨hu, hname⟩ := h
  obtain ⟨name, hn⟩ := Option.ne_none_iff_exists'.mp fun hn => hname (Or.inl hn)
  exact ⟨hu, name, hn, fun he => hname (Or.inr ⟨name, hn, he⟩)⟩

variable (K : Kernel)

/-- Every method may be called on an object that exists. Others leave its descriptors alone. -/
def step (s : Calls cfg) : Act cfg → Option (Calls cfg)
  | .get o limit w => s.obj.map fun x =>
      let (ok, x, os) := x.getSwap K limit o w s.os
      { s with obj := some x, os := os, justGot := ok }
  | .login o pid shell hostname => s.obj.map fun x =>
      let (y, os) := x.login K o pid shell hostname s.os
      if Records cfg x then
        ⟨some y, os, false, x.name, requested s.os os, s.logout⟩
      else { s with obj := some y, os := os, justGot := false }
  | .closeTty => s.obj.map fun x =>
      let (x, os) := x.closeTty s.os
      { s with obj := some x, os := os, justGot := false }
  | .delete o => s.obj.map fun x =>
      let os := x.delete K o s.os
      { s with obj := none, os := os, justGot := false, logout := requested s.os os }
  | .others os =>
      if (∀ x ∈ s.obj, x.owned ⊆ os.descs.fds ∧
          ∀ fd ∈ x.owned, os.descs.file fd = s.os.descs.file fd) ∧ os.fault = s.os.fault then
        some { s with os := os }
      else none

variable {K}

/-- The fields of the object belong together, and with what has been recorded. -/
structure Consistent (s : Calls cfg) : Prop where
  pair : s.justGot = true → ∀ x ∈ s.obj, OnePair x s.os.descs
  named : ∀ x ∈ s.obj, x.cmdPid ≠ 0 → ∃ dev, x.name = some dev ∧ s.session = some dev
  entries : ∀ u ∈ s.entries, ∃ dev ∈ s.session, u.OnLine (lineOf dev)
  /-- `log_session` has not been entered with a null `name`. -/
  fault : s.os.fault = false
  logout : ∀ u ∈ s.logout, ∃ dev ∈ s.session, u.OnLine (lineOf dev)

/-- `get` gets a slave, or has one. -/
def Slave (cfg : Config) (o : GetOutcome) (x : PtyttyUnix) : Prop :=
  cfg.getPty = .openpty ∨ x.tty.isSome ∨ o.slave

/-- Descriptor 0 is not the new master, or is put back there. -/
def ZeroSafe (cfg : Config) (limit : ℕ) (w : SwapOutcome) (x : PtyttyUnix) (d : Descs) : Prop :=
  cfg.utmp = .utmpSlot → 0 ∈ d.fds ∨ PtyttyUnix.ZeroRestored cfg limit w x d

/-- A `get` that finds the master of `dev` needs an object without a slave and without a login, or
one that has them on `dev`; and a descriptor 0 that is open or survives the swap. -/
def Fits (s : Calls cfg) : Act cfg → Prop
  | .get o limit w => ∀ x ∈ s.obj, ∀ dev ∈ device cfg o,
      (cfg.getPty = .openpty ∨ ∀ t ∈ x.tty, s.os.descs.file t = .slave dev) ∧
      (x.cmdPid = 0 ∨ x.name = some dev ∧ Slave cfg o x) ∧
      (Slave cfg o x → ZeroSafe cfg limit w x s.os.descs)
  | _ => True

/-- What holds after any calls: the descriptors of the object are open and distinct, and it has not
been destroyed yet. -/
structure Inv (s : Calls cfg) : Prop where
  opened : ∀ x ∈ s.obj, x.owned ⊆ s.os.descs.fds
  distinct : ∀ x ∈ s.obj, ∀ t ∈ x.tty, x.pty ≠ some t
  alive : s.obj.isSome → s.logout = []

/-! ## One call -/

theorem inv_initial (os : Os cfg) : Inv (initial os) where
  opened x hx := by
    obtain rfl : PtyttyUnix.new = x := Option.some.inj hx
    rw [PtyttyUnix.initial_new.owned_eq]
    exact Finset.empty_subset _
  distinct x hx := by
    obtain rfl : PtyttyUnix.new = x := Option.some.inj hx
    rintro t ⟨⟩
  alive _ := rfl

/-- The end of `get`: descriptors are not opened or closed, and of the pair nothing is harmed if
descriptor 0 is safe. -/
structure Swapped (cfg : Config) (limit : ℕ) (w : SwapOutcome) (x x' : PtyttyUnix) (os os' : Os cfg)
    (d : Descs) : Prop where
  fds : d.fds = os'.descs.fds
  pair : OnePair x' d ↔ OnePair x' os'.descs ∧ ZeroSafe cfg limit w x os.descs

/-- `getSwap` on an object, as `get` with the swap behind it. -/
theorem getSwap_cases (hK : cfg.utmp = .utmpSlot → K = posix) (limit : ℕ) (o : GetOutcome)
    (w : SwapOutcome) (x : PtyttyUnix) (os : Os cfg) :
    ((x.get K o os).1 = false ∧ x.getSwap K limit o w os = x.get K o os) ∨
      ∃ x' os' d, x.get K o os = (true, x', os') ∧
        x.getSwap K limit o w os = (true, x', { os' with descs := d }) ∧
        Swapped cfg limit w x x' os os' d := by
  rcases hget : x.get K o os with ⟨ok, x', os'⟩
  unfold PtyttyUnix.getSwap
  rw [hget]
  cases ok with
  | false => exact Or.inl ⟨rfl, rfl⟩
  | true =>
    right
    dsimp only
    by_cases hslot : cfg.utmp = .utmpSlot
    · rw [if_pos hslot]
      obtain rfl := hK hslot
      obtain ⟨p, t, dev, pos, -, hfound, rfl⟩ := PtyttyUnix.get_posix hget
      refine ⟨_, os', _, rfl, rfl, ttyslotSwap_fds limit w (some t) hfound.zero_mem, ?_⟩
      rw [hfound.onePair_swap_iff limit w rfl rfl rfl]
      exact and_congr_right fun _ => ⟨fun h _ => h, fun h => h hslot⟩
    · rw [if_neg hslot]
      exact ⟨x', os', os'.descs, rfl, rfl, rfl,
        (and_iff_left fun h => absurd h hslot).symm⟩

theorem inv_get {s : Calls cfg} (h : Inv s) {x : PtyttyUnix} (hx : s.obj = some x) {o : GetOutcome}
    {r : Bool × PtyttyUnix × Os cfg} (hr : GetDone o x s.os r) :
    Inv { s with obj := some r.2.1, os := r.2.2, justGot := r.1 } := by
  have hsub := h.opened x hx
  have halive := h.alive (by simp [hx])
  cases hr with
  | noMaster found sub =>
    refine ⟨?_, ?_, fun _ => halive⟩
    · rintro y ⟨rfl⟩
      exact (Finset.union_subset (by simp) (Finset.union_subset_right hsub)).trans sub
    · rintro y ⟨rfl⟩
      simp
  | noSlave found closed =>
    refine ⟨?_, ?_, fun _ => halive⟩
    · rintro y ⟨rfl⟩
      simp [PtyttyUnix.owned]
    · rintro y ⟨rfl⟩ t ⟨⟩
  | pair found opened ne openPty openTty master slave =>
    refine ⟨?_, ?_, fun _ => halive⟩
    · rintro y ⟨rfl⟩
      rw [PtyttyUnix.owned_pair]
      simp [Finset.insert_subset_iff, openPty, openTty]
    · rintro y ⟨rfl⟩ t ⟨rfl⟩ he
      exact ne (Option.some.inj he).symm

theorem inv_step (hK : cfg.utmp = .utmpSlot → K = posix) {s t : Calls cfg} {a : Act cfg}
    (h : Inv s) (ht : step K s a = some t) : Inv t := by
  cases a with
  | get o limit w =>
    obtain ⟨x, hx, rfl⟩ := Option.map_eq_some_iff.mp ht
    have hsub := h.opened x hx
    have hdone : GetDone o x s.os (x.get K o s.os) :=
      PtyttyUnix.get_done fun t ht => hsub (by simp [PtyttyUnix.owned, ht.symm])
    have hI := inv_get h hx hdone
    rcases getSwap_cases hK limit o w x s.os with ⟨-, he⟩ | ⟨x', os', d, hget, he, hswap⟩
    · rw [he]
      exact hI
    · rw [hget] at hI
      rw [he]
      refine ⟨fun y hy => ?_, hI.distinct, hI.alive⟩
      show y.owned ⊆ d.fds
      rw [hswap.fds]
      exact hI.opened y hy
  | login o pid shell hostname =>
    obtain ⟨x, hx, rfl⟩ := Option.map_eq_some_iff.mp ht
    obtain ⟨hpty, htty, -⟩ := PtyttyUnix.login_fields (K := K) o pid shell hostname x s.os
    have hmv := PtyttyUnix.login_moves (K := K) o pid shell hostname x s.os
    obtain ⟨hsub, -, -⟩ := hmv.frame (h.opened x hx) (Finset.disjoint_empty_right _)
    have hopened : (x.login K o pid shell hostname s.os).1.owned ⊆
        (x.login K o pid shell hostname s.os).2.descs.fds := by
      unfold PtyttyUnix.owned
      rw [hpty, htty]
      exact hsub
    have hdistinct : ∀ t ∈ (x.login K o pid shell hostname s.os).1.tty,
        (x.login K o pid shell hostname s.os).1.pty ≠ some t := by
      rw [hpty, htty]
      exact h.distinct x hx
    have halive := h.alive (by simp [hx])
    dsimp only
    split_ifs
    · exact ⟨by rintro y ⟨rfl⟩; exact hopened, by rintro y ⟨rfl⟩; exact hdistinct, fun _ => halive⟩
    · exact ⟨by rintro y ⟨rfl⟩; exact hopened, by rintro y ⟨rfl⟩; exact hdistinct, fun _ => halive⟩
  | closeTty =>
    obtain ⟨x, hx, rfl⟩ := Option.map_eq_some_iff.mp ht
    have hmv := PtyttyUnix.closeTty_moves (h.distinct x hx) (h.opened x hx)
    refine ⟨?_, ?_, fun _ => h.alive (by simp [hx])⟩
    · intro y hy
      obtain rfl := Option.some.inj hy
      exact hmv.sub'
    · intro y hy t ht
      obtain rfl := Option.some.inj hy
      rw [PtyttyUnix.closeTty_fst] at ht
      cases ht
  | delete o =>
    obtain ⟨x, hx, rfl⟩ := Option.map_eq_some_iff.mp ht
    exact ⟨by rintro y ⟨⟩, by rintro y ⟨⟩, by rintro ⟨⟩⟩
  | others os =>
    change (if _ ∧ _ then _ else none) = some t at ht
    split_ifs at ht with hcond
    obtain rfl := Option.some.inj ht
    exact ⟨fun x hx => (hcond.1 x hx).1, h.distinct, h.alive⟩

theorem consistent_initial (os : Os cfg) : Consistent (initial os) where
  pair := by rintro ⟨⟩
  named x hx hp := by
    obtain rfl : PtyttyUnix.new = x := Option.some.inj hx
    exact absurd rfl hp
  entries := by rintro u ⟨⟩
  fault := rfl
  logout := by rintro u ⟨⟩

/-- The device is that of the slave and of the login that the object has. -/
def DeviceFits (o : GetOutcome) (x : PtyttyUnix) (os : Os cfg) : Prop :=
  ∀ dev ∈ device cfg o, (cfg.getPty = .openpty ∨ ∀ t ∈ x.tty, os.descs.file t = .slave dev) ∧
    (x.cmdPid = 0 ∨ x.name = some dev ∧ Slave cfg o x)

/-- The fields after a `get`, before the swap, belong together exactly if the device fits. -/
theorem consistent_get {s : Calls cfg} (h : Consistent s) {x : PtyttyUnix} (hx : s.obj = some x)
    {o : GetOutcome} {r : Bool × PtyttyUnix × Os cfg} (hr : GetDone o x s.os r)
    (hfault : r.2.2.fault = s.os.fault) :
    Consistent { s with obj := some r.2.1, os := r.2.2, justGot := r.1 } ↔
      DeviceFits o x s.os := by
  unfold DeviceFits
  cases hr with
  | noMaster found sub =>
    rw [found]
    refine iff_of_true ⟨by rintro ⟨⟩, fun y hy hp => ?_, h.entries, hfault.trans h.fault, h.logout⟩
      (by rintro dev ⟨⟩)
    obtain rfl := Option.some.inj hy
    exact h.named x hx hp
  | @noSlave os dev found closed =>
    have htty : x.tty = none := by simpa using fun hs => closed (Or.inr (Or.inl hs))
    rw [found]
    constructor
    · rintro hc d ⟨rfl⟩
      refine ⟨Or.inr (by simp [htty]), Or.inl ?_⟩
      by_contra hp
      obtain ⟨dev, hname, -⟩ := hc.named _ rfl hp
      cases hname
    · intro hc
      have hp : x.cmdPid = 0 := (hc dev rfl).2.resolve_right fun hn => closed hn.2
      refine ⟨by rintro ⟨⟩, fun y hy hne => ?_, h.entries, hfault.trans h.fault, h.logout⟩
      obtain rfl := Option.some.inj hy
      exact absurd hp hne
  | @pair os p t dev pos found opened ne openPty openTty master slave =>
    rw [found]
    constructor
    · rintro hc d ⟨rfl⟩
      obtain ⟨p', t', dev', hp, ht, hn, -, -, -, hfile⟩ := hc.pair rfl _ rfl
      cases hp
      cases ht
      cases hn
      refine ⟨slave.mp hfile, or_iff_not_imp_left.mpr fun hpid => ⟨?_, opened⟩⟩
      obtain ⟨d₁, hname, hsession⟩ := hc.named _ rfl hpid
      cases hname
      obtain ⟨d₂, hname, hsession'⟩ := h.named x hx hpid
      exact hname.trans (hsession'.symm.trans hsession)
    · intro hc
      obtain ⟨hslave, hpid⟩ := hc dev rfl
      refine ⟨fun _ y hy => ?_, fun y hy hne => ?_, h.entries, hfault.trans h.fault, h.logout⟩
      · obtain rfl := Option.some.inj hy
        exact ⟨p, t, dev, rfl, rfl, rfl, openPty, openTty, master, slave.mpr hslave⟩
      · obtain rfl := Option.some.inj hy
        obtain ⟨hname, -⟩ := hpid.resolve_left hne
        obtain ⟨d, hname', hsession⟩ := h.named x hx hne
        exact ⟨dev, rfl, hsession.trans (hname'.symm.trans hname)⟩

/-- `get` with the swap. -/
theorem consistent_getSwap (hK : cfg.utmp = .utmpSlot → K = posix) {s : Calls cfg}
    (h : Consistent s) {x : PtyttyUnix} (hx : s.obj = some x) {o : GetOutcome} (limit : ℕ)
    (w : SwapOutcome) (hdone : GetDone o x s.os (x.get K o s.os)) {r : Bool × PtyttyUnix × Os cfg}
    (hr : x.getSwap K limit o w s.os = r) :
    Consistent { s with obj := some r.2.1, os := r.2.2, justGot := r.1 } ↔
      Fits s (.get o limit w) := by
  have hfits : Fits s (.get o limit w) ↔ DeviceFits o x s.os ∧
      ∀ dev ∈ device cfg o, Slave cfg o x → ZeroSafe cfg limit w x s.os.descs := by
    unfold Fits DeviceFits
    rw [hx]
    simp only [Option.mem_def, Option.some.injEq, forall_eq', ← and_assoc, forall₂_and]
  have hget := consistent_get h hx hdone (PtyttyUnix.get_quiet o x).2
  rw [hfits, ← hget]
  subst hr
  rcases getSwap_cases hK limit o w x s.os with ⟨hfail, he⟩ | ⟨x', os', d, hok, he, hswap⟩
  · rw [he]
    refine (and_iff_left fun dev hdev hslave => ?_).symm
    -- without a pair there is no slave
    generalize x.get K o s.os = r at hdone hfail
    cases hdone with
    | noMaster found => rw [found] at hdev; cases hdev
    | noSlave found closed => exact absurd hslave closed
    | pair => cases hfail
  · rw [he, hok]
    rw [hok] at hdone
    obtain ⟨dev, hdev, hslave⟩ : ∃ dev, device cfg o = some dev ∧ Slave cfg o x := by
      cases hdone with
      | pair found opened => exact ⟨_, found, opened⟩
    have hzero : (∀ dev ∈ device cfg o, Slave cfg o x → ZeroSafe cfg limit w x s.os.descs) ↔
        ZeroSafe cfg limit w x s.os.descs :=
      ⟨fun hall => hall dev hdev hslave, fun hz _ _ _ => hz⟩
    rw [hzero]
    constructor
    · intro hc
      obtain ⟨hpair, hz⟩ := hswap.pair.mp (hc.pair rfl x' rfl)
      exact ⟨⟨by rintro - y ⟨rfl⟩; exact hpair, hc.named, hc.entries, hc.fault, hc.logout⟩, hz⟩
    · rintro ⟨hc, hz⟩
      have hpair := hswap.pair.mpr ⟨hc.pair rfl x' rfl, hz⟩
      exact ⟨by rintro - y ⟨rfl⟩; exact hpair, hc.named, hc.entries, hc.fault, hc.logout⟩

/-- A login that is turned away changes nothing. -/
theorem login_of_not_records {x : PtyttyUnix} (hrec : ¬ Records cfg x) (o : LogOutcome) (pid : ℤ)
    (shell : Bool) (hostname : CStr) (os : Os cfg) :
    x.login K o pid shell hostname os = (x, os) := by
  unfold PtyttyUnix.login
  unfold Records at hrec
  split_ifs with hu hn
  · rfl
  · rfl
  · exact absurd ⟨hu, hn⟩ hrec

theorem consistent_login {s : Calls cfg} (hI : Inv s) (h : Consistent s) {x : PtyttyUnix}
    (hx : s.obj = some x)
    (o : LogOutcome) (pid : ℤ) (shell : Bool) (hostname : CStr) {t : Calls cfg}
    (ht : step K s (.login o pid shell hostname) = some t) : Consistent t := by
  have hfault : (x.login K o pid shell hostname s.os).2.fault = false :=
    (PtyttyUnix.login_fault K s.os o pid shell hostname x).trans h.fault
  unfold step at ht
  rw [hx] at ht
  obtain rfl := Option.some.inj ht
  dsimp only
  split_ifs with hrec
  · -- the session is on the line of the object
    obtain ⟨hu, name, hn, hne⟩ := hrec.exists_name
    obtain ⟨ut, us, vs, hut, hus, hvs, hreq⟩ :=
      PtyttyUnix.login_requested K s.os hu o pid shell hostname hn hne
    obtain ⟨hobj, -⟩ := PtyttyUnix.login_named K s.os hu o pid shell hostname hn hne
    refine ⟨by rintro ⟨⟩, fun y hy hp => ?_, fun u hmem => ?_, hfault, ?_⟩
    · obtain rfl := Option.some.inj hy
      rw [hobj]
      exact ⟨name, hn, hn⟩
    · change u ∈ requested s.os _ at hmem
      rw [hreq] at hmem
      exact ⟨name, hn, onLine_of_parts hut hus hvs u hmem⟩
    · rw [show s.logout = [] from hI.alive (by simp [hx])]
      rintro u ⟨⟩
  · rw [login_of_not_records hrec]
    refine ⟨by rintro ⟨⟩, fun y hy hp => ?_, h.entries, h.fault, h.logout⟩
    obtain rfl := Option.some.inj hy
    exact h.named x hx hp

theorem consistent_step (hK : cfg.utmp = .utmpSlot → K = posix) {s t : Calls cfg} {a : Act cfg}
    (hI : Inv s) (h : Consistent s) (ht : step K s a = some t) : Consistent t ↔ Fits s a := by
  cases a with
  | get o limit w =>
    obtain ⟨x, hx, rfl⟩ := Option.map_eq_some_iff.mp ht
    have hsub := hI.opened x hx
    exact consistent_getSwap hK h hx limit w
      (PtyttyUnix.get_done fun t ht => hsub (by simp [PtyttyUnix.owned, ht.symm])) rfl
  | login o pid shell hostname =>
    obtain ⟨x, hx, -⟩ := Option.map_eq_some_iff.mp ht
    exact iff_of_true (consistent_login hI h hx o pid shell hostname ht) trivial
  | closeTty =>
    obtain ⟨x, hx, rfl⟩ := Option.map_eq_some_iff.mp ht
    refine iff_of_true ⟨by rintro ⟨⟩, ?_, h.entries, ?_, h.logout⟩ trivial
    · intro y hy hp
      obtain rfl := Option.some.inj hy
      rw [PtyttyUnix.closeTty_fst] at hp ⊢
      exact h.named x hx hp
    · exact (PtyttyUnix.closeTty_quiet x).2.trans h.fault
  | delete o =>
    obtain ⟨x, hx, rfl⟩ := Option.map_eq_some_iff.mp ht
    have hname : x.cmdPid ≠ 0 → x.name ≠ none := by
      intro hp
      obtain ⟨dev, hn, -⟩ := h.named x hx hp
      simp [hn]
    refine iff_of_true ⟨by rintro ⟨⟩, by rintro y ⟨⟩, h.entries, ?_, fun u hmem => ?_⟩ trivial
    · exact (PtyttyUnix.delete_fault K s.os o hname).trans h.fault
    · -- only an object that is logged in logs out
      change u ∈ requested s.os (x.delete K o s.os) at hmem
      by_cases hlog : cfg.utmp ≠ .none ∧ x.cmdPid ≠ 0
      · obtain ⟨dev, hn, hsession⟩ := h.named x hx hlog.2
        obtain ⟨ut, us, vs, hut, hus, hvs, hreq⟩ :=
          PtyttyUnix.delete_requested K s.os hlog.1 o hn hlog.2
        rw [hreq] at hmem
        exact ⟨dev, hsession, onLine_of_parts hut hus hvs u hmem⟩
      · rw [PtyttyUnix.delete_requested_nil K s.os o hlog] at hmem
        cases hmem
  | others os =>
    change (if _ ∧ _ then _ else none) = some t at ht
    split_ifs at ht with hcond
    obtain rfl := Option.some.inj ht
    refine iff_of_true ⟨fun hg x hx => ?_, h.named, h.entries, hcond.2.trans h.fault, h.logout⟩
      trivial
    obtain ⟨p, t, dev, hp, ht, hn, -, -, hfp, hft⟩ := h.pair hg x hx
    obtain ⟨hsub, hfile⟩ := hcond.1 x hx
    have hmemp : p ∈ x.owned := by simp [PtyttyUnix.owned, hp]
    have hmemt : t ∈ x.owned := by simp [PtyttyUnix.owned, ht]
    exact ⟨p, t, dev, hp, ht, hn, hsub hmemp, hsub hmemt, (hfile p hmemp).trans hfp,
      (hfile t hmemt).trans hft⟩

/-- **Using an object again.** In every sequence of calls the fields of the object belong together
in every state exactly if each `get` that finds a master meets an object that it fits. Where `get`
ends with the swap of descriptor 0, the kernel hands out the lowest free descriptor. -/
theorem consistent_iff (K : Kernel) (hK : cfg.utmp = .utmpSlot → K = posix) (os : Os cfg)
    {as : List (Act cfg)} {s : Calls cfg}
    (h : Machine.run (step K) (initial os) as = some s) :
    Machine.Always (step K) Consistent (initial os) as ↔
      Machine.Along (step K) Fits (initial os) as :=
  Machine.always_iff_along_of_inv (fun _ _ _ hI ht => inv_step hK hI ht)
    (fun _ _ _ hI hP ht => consistent_step hK hI hP ht) (inv_initial os) (consistent_initial os) h

/-- The system calls of the swap succeed, with at most 1024 descriptors. -/
def Act.got (o : GetOutcome) : Act cfg := .get o 1024 ⟨true, true, true⟩

/-- A process without standard input. -/
def startClosed : Os PtyttyUnix.bsd44 :=
  { PtyttyUnix.startSlot with descs := ⟨{1}, fun _ => .database, []⟩ }

/-- "/dev/pts/8". -/
def pts8 : GetOutcome :=
  { GetOutcome.pts7 with device := read [47, 100, 101, 118, 47, 112, 116, 115, 47, 56] }

/-- After a login a second `get` fails to open its slave, and the destructor logs out a null name.
Two `get` that succeed leave the slave of the first pair with the master of the second. -/
theorem not_consistent :
    (∃ s, Machine.run (step posix) (initial Os.start) [.got .pts7,
        .login ⟨true, true, true⟩ 42 true CString.empty, .closeTty,
        .got { GetOutcome.pts7 with slave := false }, .delete ⟨true, true, true⟩] = some s ∧
      s.os.fault = true ∧ ¬ Consistent s) ∧
    ∃ s, Machine.run (step posix) (initial Os.start) [.got .pts7, .got pts8] = some s ∧
      s.justGot = true ∧ ¬ Consistent s := by
  constructor
  · have hrun : (Machine.run (step posix) (initial Os.start) [.got .pts7,
        .login ⟨true, true, true⟩ 42 true CString.empty, .closeTty,
        .got { GetOutcome.pts7 with slave := false }, .delete ⟨true, true, true⟩]).map
          (fun s => s.os.fault) = some true := by decide
    obtain ⟨s, hs, hfault⟩ := Option.map_eq_some_iff.mp hrun
    exact ⟨s, hs, hfault, fun h => by simp [h.fault] at hfault⟩
  · have hrun : (Machine.run (step posix) (initial Os.start) [.got .pts7, .got pts8]).map
        (fun s => (s.justGot, s.obj.map fun x => (x.tty, x.name), s.os.descs.file 4)) =
          some (true, some (some 4, some pts8.device), .slave GetOutcome.pts7.device) := rfl
    obtain ⟨s, hs, hfields⟩ := Option.map_eq_some_iff.mp hrun
    simp only [Prod.mk.injEq, Option.map_eq_some_iff] at hfields
    obtain ⟨hgot, ⟨x, hx, htty, hname⟩, hfile⟩ := hfields
    refine ⟨s, hs, hgot, fun h => ?_⟩
    obtain ⟨p, t, dev, -, ht, hn, -, -, -, hslave⟩ := h.pair hgot x hx
    obtain rfl : 4 = t := Option.some.inj (htty.symm.trans ht)
    obtain rfl : pts8.device = dev := Option.some.inj (hname.symm.trans hn)
    exact absurd (hfile.symm.trans hslave) (by decide)

/-- An object that has been left alone since its login; and one whose master is descriptor 0, in a
build that calls `ttyslot`, with three descriptors free. -/
theorem consistent_iff_run :
    (Machine.Always (step posix) Consistent (initial Os.start)
        [.got .pts7, .login ⟨true, true, true⟩ 42 true CString.empty, .closeTty,
          .delete ⟨true, true, true⟩] ↔
      Machine.Along (step posix) Fits (initial Os.start)
        [.got .pts7, .login ⟨true, true, true⟩ 42 true CString.empty, .closeTty,
          .delete ⟨true, true, true⟩]) ∧
    Machine.Always (step posix) Consistent (initial startClosed) [.get .pts7 4 ⟨true, true, true⟩] ∧
    ¬ Machine.Always (step posix) Consistent (initial startClosed)
      [.get .pts7 4 ⟨false, true, true⟩] := by
  have hrun : (Machine.run (step posix) (initial Os.start) [.got .pts7,
      .login ⟨true, true, true⟩ 42 true CString.empty, .closeTty,
      .delete ⟨true, true, true⟩]).isSome := by decide
  obtain ⟨s, hs⟩ := Option.isSome_iff_exists.mp hrun
  refine ⟨consistent_iff posix (fun _ => rfl) Os.start hs, ?_, fun h => ?_⟩
  · refine (consistent_iff posix (fun _ => rfl) startClosed rfl).mpr ⟨?_, fun _ _ => trivial⟩
    rintro x ⟨rfl⟩ dev ⟨rfl⟩
    exact ⟨Or.inl rfl, Or.inl rfl, fun _ _ => Or.inr (Or.inr ⟨rfl, by decide, rfl⟩)⟩
  · have hfits := ((consistent_iff posix (fun _ => rfl) startClosed rfl).mp h).1 _ rfl _ rfl
    rcases hfits.2.2 (Or.inl rfl) rfl with hmem | hfirst | hback
    · exact absurd hmem (by decide)
    · cases hfirst
    · cases hback.1

end Calls

end Libptytty
