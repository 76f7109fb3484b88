import Libptytty.Devices

/-!
# Session records and their objects

In the builds that find records by id, the records that a process writes stand for its objects that
are logged in. As long as a new pseudo terminal has another id than those of the objects, each
object that is logged in is found under its id, and every other record is as it was before, or is
closed (`listed_run`). The records of logins with the pid 0 are the exception: for the destructor
such an object is not logged in.
-/

namespace Libptytty

open CString

variable {cfg : Config}

/-- The records found under the id `k`. -/
def hasId (k : CharArray cfg.idSize) (r : Utmp cfg) : Bool := r.utType.isProcess && r.utId = k

/-- The id of a device. -/
def idOf (cfg : Config) (dev : CStr) : CharArray cfg.idSize := fillId _ (lineOf dev)

/-- The record is closed, or it has no session for the destructor. -/
def Utmp.Done (r : Utmp cfg) : Prop := r.utType = .deadProcess ∨ r.utPid = 0

/-- Device and pid of an object that is logged in. -/
def PtyttyUnix.session (x : PtyttyUnix) : Option (CStr × ℤ) :=
  if x.cmdPid = 0 then none else x.name.map fun dev => (dev, x.cmdPid)

/-- What has become of the records between `os` and `os'`, by whether an object is left: those that
are logged in are found, and nothing else has been left open. -/
structure Listed (os os' : Os cfg) (live : PtyttyUnix → Prop) : Prop where
  own : ∀ x, live x → x.cmdPid ≠ 0 → ∃ host, ∃ r ∈ recordOf (x.ident cfg) os'.db.utmp,
    LoginRecord x.line x.cmdPid host r
  rest : ∀ (n : ℕ) (r : Utmp cfg), os'.db.utmp[n]? = some r → os.db.utmp[n]? = some r ∨ r.Done ∨
    ∃ x, live x ∧ x.cmdPid ≠ 0 ∧ recordOf (x.ident cfg) os'.db.utmp = some r

/-! ## Sessions -/

/-- The sessions are found in `utmp`, and `rs` has been changed for them only. -/
structure SessionsOf (rs : List (Utmp cfg)) (sessions : ℕ → Option (CStr × ℤ))
    (utmp : List (Utmp cfg)) : Prop where
  own : ∀ i dev pid, sessions i = some (dev, pid) → ∃ host, ∃ r ∈ recordOf (idOf cfg dev) utmp,
    LoginRecord (lineOf dev) pid host r
  rest : Upsert.Owned hasId Utmp.Done rs
    {k | ∃ i dev pid, sessions i = some (dev, pid) ∧ idOf cfg dev = k} utmp

namespace SessionsOf

variable {rs utmp : List (Utmp cfg)} {sessions : ℕ → Option (CStr × ℤ)}

/-- The record of the device `dev` of the object `i` is written. -/
theorem put (h : SessionsOf rs sessions utmp) {i : ℕ} {dev : CStr} {u : Utmp cfg}
    (hid : u.utId = idOf cfg dev) (hu : u.utType.isProcess = true)
    (hapart : ∀ j dev' pid, j ≠ i → sessions j = some (dev', pid) → idOf cfg dev' ≠ idOf cfg dev)
    (hold : ∀ dev' pid, sessions i = some (dev', pid) → dev' = dev) {y : Option (CStr × ℤ)}
    (hy : ∀ dev' pid, y = some (dev', pid) →
      dev' = dev ∧ ∃ host, LoginRecord (lineOf dev) pid host u)
    (hdone : y = none → u.Done) :
    SessionsOf rs (Function.update sessions i y) (pututline u utmp) := by
  have hput : pututline u utmp = Upsert.upsert (hasId (idOf cfg dev)) u utmp := by
    rw [← hid]
    rfl
  have hfound : recordOf (idOf cfg dev) (pututline u utmp) = some u := by
    rw [← hid]
    exact recordOf_pututline hu utmp
  constructor
  · intro j dev' pid hj
    by_cases hji : j = i
    · subst hji
      rw [Function.update_self] at hj
      obtain ⟨rfl, host, hlogin⟩ := hy dev' pid hj
      exact ⟨host, u, hfound, hlogin⟩
    · rw [Function.update_of_ne hji] at hj
      rw [recordOf_pututline_of_ne (by rw [hid]; exact (hapart j dev' pid hji hj).symm)]
      exact h.own j dev' pid hj
  · rw [hput]
    refine h.rest.upsert (by simp [hasId, hu, hid]) ?_ ?_ ?_
    · rintro k - hk x hx
      simp only [hasId, Bool.and_eq_true, decide_eq_true_eq] at hx
      simp [hasId, hx.2, Ne.symm hk]
    · intro k hk
      constructor
      · rintro ⟨j, dev', pid, hj, rfl⟩
        by_cases hji : j = i
        · subst hji
          rw [Function.update_self] at hj
          exact absurd (congrArg (idOf cfg) (hy dev' pid hj).1) hk
        · rw [Function.update_of_ne hji] at hj
          exact ⟨j, dev', pid, hj, rfl⟩
      · rintro ⟨j, dev', pid, hj, rfl⟩
        have hji : j ≠ i := by
          rintro rfl
          exact hk (congrArg (idOf cfg) (hold dev' pid hj))
        exact ⟨j, dev', pid, by rwa [Function.update_of_ne hji], rfl⟩
    · cases hc : y with
      | none => exact Or.inr (hdone hc)
      | some p =>
        obtain ⟨rfl, -⟩ := hy p.1 p.2 hc
        exact Or.inl ⟨i, p.1, p.2, Function.update_self _ _ _, rfl⟩

end SessionsOf

/-! ## One call -/

namespace Objects

variable {K : Kernel} {s t : Objects cfg} {a : Act} {rs : List (Utmp cfg)}

/-- The sessions of the objects. -/
def sessions (s : Objects cfg) (i : ℕ) : Option (CStr × ℤ) := (s.objs i).bind PtyttyUnix.session

theorem sessions_update (s : Objects cfg) (i : ℕ) (y : Option PtyttyUnix) (os : Os cfg) :
    sessions ⟨Function.update s.objs i y, os⟩ =
      Function.update s.sessions i (y.bind PtyttyUnix.session) := by
  funext j
  unfold sessions
  dsimp only
  by_cases hj : j = i
  · subst hj
    rw [Function.update_self, Function.update_self]
  · rw [Function.update_of_ne hj, Function.update_of_ne hj]

/-- An object that is logged in has a device. -/
def Named (s : Objects cfg) : Prop :=
  ∀ i x, s.objs i = some x → x.cmdPid ≠ 0 → ∃ dev, x.name = some dev ∧ dev.1 ≠ []

/-- What holds of the objects and the records. -/
structure Recorded (rs : List (Utmp cfg)) (s : Objects cfg) : Prop where
  inv : Inv s
  named : Named s
  separate : Separate (idOf cfg) s
  sessions : SessionsOf rs s.sessions s.os.db.utmp

theorem recorded_initial (os : Os cfg) : Recorded os.db.utmp (initial os) := by
  refine ⟨inv_initial os, by rintro i x ⟨⟩, separate_initial os, by rintro i dev pid ⟨⟩, ?_⟩
  have hnone :
      {k | ∃ i dev pid, sessions (initial os) i = some (dev, pid) ∧ idOf cfg dev = k} = ∅ :=
    Set.eq_empty_of_forall_notMem (by rintro k ⟨i, dev, pid, ⟨⟩, -⟩)
  rw [hnone]
  exact Upsert.owned_self _

theorem session_eq_some {x : PtyttyUnix} {dev : CStr} {pid : ℤ}
    (h : x.session = some (dev, pid)) : x.name = some dev ∧ x.cmdPid = pid ∧ pid ≠ 0 := by
  unfold PtyttyUnix.session at h
  split_ifs at h with hp
  obtain ⟨dev', hn, he⟩ := Option.map_eq_some_iff.mp h
  cases he
  exact ⟨hn, rfl, hp⟩

theorem session_of_name {x : PtyttyUnix} {dev : CStr} (hn : x.name = some dev) :
    x.session = if x.cmdPid = 0 then none else some (dev, x.cmdPid) := by
  unfold PtyttyUnix.session
  rw [hn]
  rfl

/-- The sessions of the other objects have other ids than that of a device. -/
theorem Separate.sessions (h : Separate (idOf cfg) s) {i : ℕ} {x : PtyttyUnix} {dev : CStr}
    (hx : s.objs i = some x) (hn : x.name = some dev) {j : ℕ} {dev' : CStr} {pid : ℤ} (hj : j ≠ i)
    (hs : s.sessions j = some (dev', pid)) : idOf cfg dev' ≠ idOf cfg dev := by
  obtain ⟨x', hx', hses⟩ := Option.bind_eq_some_iff.mp hs
  intro he
  exact hj (h j i x' x dev' dev hx' hx (session_eq_some hses).1 hn he)

theorem named_step (h : Named s) (hI : Inv s) (ht : step K s a = some t) : Named t := by
  obtain ⟨y, os, hcalled, rfl⟩ := step_called hI ht
  refine forall_update (fun x hy => ?_) fun j x _ => h j x
  have hold := h a.index
  intro hp
  generalize s.objs a.index = old at hcalled hold
  cases hcalled with
  | create | refused => cases hy; exact absurd rfl hp
  | got found name pid => cases hy; exact absurd pid hp
  | idle => exact hold x hy hp
  | login utmp name nonempty => cases hy; exact ⟨_, name, nonempty⟩
  | @closeTty i x => cases hy; exact hold x rfl hp
  | delete => cases hy

/-- A call that writes no record leaves the sessions as they are. -/
theorem sessionsOf_same (h : SessionsOf rs s.sessions s.os.db.utmp) {i : ℕ} {y : Option PtyttyUnix}
    {os : Os cfg} (hy : y.bind PtyttyUnix.session = s.sessions i)
    (hutmp : os.db.utmp = s.os.db.utmp) :
    SessionsOf rs (sessions ⟨Function.update s.objs i y, os⟩) os.db.utmp := by
  rw [sessions_update, hy, Function.update_eq_self, hutmp]
  exact h

theorem sessionsOf_step (hids : cfg.HasIds) (h : Recorded rs s) (ht : step K s a = some t) :
    SessionsOf rs t.sessions t.os.db.utmp := by
  obtain ⟨y, os', hcalled, rfl⟩ := step_called h.inv ht
  dsimp only
  generalize hold : s.objs a.index = old at hcalled
  have hses : s.sessions a.index = old.bind PtyttyUnix.session := congrArg (Option.bind · _) hold
  cases hcalled with
  | create => exact sessionsOf_same h.sessions hses.symm rfl
  | @refused i o =>
    exact sessionsOf_same h.sessions hses.symm (congrArg _ (PtyttyUnix.get_db K s.os o .new))
  | @got i o x dev found name pid =>
    refine sessionsOf_same h.sessions ?_ (congrArg _ (PtyttyUnix.get_db K s.os o .new))
    rw [hses, Option.bind_some, session_of_name name, if_pos pid]
    rfl
  | idle => exact sessionsOf_same h.sessions hses.symm rfl
  | @login i o pid shell hostname x dev utmp name nonempty =>
    obtain ⟨r, hr, hutmp⟩ :=
      Sessions.login_record (K := K) hids ⟨dev, name, nonempty⟩ o pid shell hostname s.os
    rw [Sessions.line_of_name name] at hr
    have hy : PtyttyUnix.session { x with cmdPid := pid, loginShell := some shell } =
        if pid = 0 then none else some (dev, pid) := session_of_name name
    rw [sessions_update, hutmp, Option.bind_some, hy]
    refine h.sessions.put hr.id hr.isProcess
      (fun j dev' p => h.separate.sessions hold name) ?_ ?_ ?_
    · intro dev' p hp
      rw [hses] at hp
      exact Option.some.inj ((session_eq_some hp).1.symm.trans name)
    · intro dev' p hp
      split_ifs at hp
      cases hp
      exact ⟨rfl, hostname, hr⟩
    · intro hnone
      split_ifs at hnone with hp
      exact Or.inr (hr.pid.trans hp)
  | @closeTty i x =>
    exact sessionsOf_same h.sessions hses.symm (congrArg _ (PtyttyUnix.closeTty_db s.os x))
  | @delete i o x =>
    by_cases hp : x.cmdPid = 0
    · refine sessionsOf_same h.sessions ?_ (congrArg _ (PtyttyUnix.delete_unlogged K s.os o hp))
      rw [hses, Option.bind_some]
      unfold PtyttyUnix.session
      rw [if_pos hp]
      rfl
    · obtain ⟨dev, name, nonempty⟩ := h.named _ x hold hp
      have hlogged : s.sessions (Act.delete i o).index = some (dev, x.cmdPid) := by
        rw [hses, Option.bind_some, session_of_name name, if_neg hp]
      obtain ⟨r, hr, hutmp⟩ := Sessions.delete_record (K := K) hids ⟨dev, name, nonempty⟩ o s.os
      have hid : x.ident cfg = idOf cfg dev := by
        unfold PtyttyUnix.ident idOf
        rw [Sessions.line_of_name name]
      -- the record found is that of the login
      have hfound :
          x.cmdPid ≠ 0 ∧ ∃ r ∈ recordOf (x.ident cfg) s.os.db.utmp, r.utPid = x.cmdPid := by
        obtain ⟨host, r, hmem, hrec⟩ := h.sessions.own _ _ _ hlogged
        exact ⟨hp, r, by rwa [hid], hrec.pid⟩
      rw [if_pos hfound] at hutmp
      rw [sessions_update, hutmp, Option.bind_none]
      refine h.sessions.put (hr.id.trans hid) hr.isProcess
        (fun j dev' p => h.separate.sessions hold name) ?_ ?_ fun _ => Or.inl hr.type
      · intro dev' p he
        rw [hlogged] at he
        cases he
        rfl
      · rintro dev' p ⟨⟩

theorem recorded_step (hids : cfg.HasIds) (h : Recorded rs s) (hap : Apart (idOf cfg) s a)
    (ht : step K s a = some t) : Recorded rs t :=
  ⟨inv_step h.inv ht, named_step h.named h.inv ht, separate_step h.inv hap h.separate ht,
    sessionsOf_step hids h ht⟩

/-! ## Runs -/

theorem ident_of_name {x : PtyttyUnix} {dev : CStr} (hn : x.name = some dev) :
    x.ident cfg = idOf cfg dev := by
  unfold PtyttyUnix.ident idOf
  rw [Sessions.line_of_name hn]

/-- Some object is `x`. -/
def Live (s : Objects cfg) (x : PtyttyUnix) : Prop := ∃ i, s.objs i = some x

theorem Recorded.listed {os : Os cfg} (h : Recorded os.db.utmp s) : Listed os s.os s.Live := by
  constructor
  · rintro x ⟨i, hx⟩ hp
    obtain ⟨dev, hn, -⟩ := h.named i x hx hp
    have hses : s.sessions i = some (dev, x.cmdPid) := by
      unfold Objects.sessions
      rw [hx, Option.bind_some, session_of_name hn, if_neg hp]
    rw [ident_of_name hn, Sessions.line_of_name hn]
    exact h.sessions.own i dev x.cmdPid hses
  · intro n r hr
    refine (h.sessions.rest.rest n r hr).imp_right (Or.imp_right ?_)
    rintro ⟨k, ⟨i, dev, pid, hses, rfl⟩, rfl⟩
    obtain ⟨x, hx, hxs⟩ := Option.bind_eq_some_iff.mp hses
    obtain ⟨hn, rfl, hp⟩ := session_eq_some hxs
    refine ⟨x, ⟨i, hx⟩, hp, ?_⟩
    rw [ident_of_name hn]
    exact List.find?_eq_getElem?_findIdx.trans hr

theorem listed_run (hids : cfg.HasIds) {os : Os cfg} {as : List Act}
    (hap : Machine.Along (step K) (Apart (idOf cfg)) (initial os) as)
    (h : Machine.run (step K) (initial os) as = some s) : Listed os s.os s.Live :=
  (Machine.inv_of_along (fun _ _ _ hR hap ht => recorded_step hids hR hap ht)
    (recorded_initial os) hap h).listed

end Objects

namespace Serve

/-- Some object of the helper is `x`. -/
def Live (s : Serve cfg) (x : PtyttyUnix) : Prop := ∃ n, s.heap.Holds n x

theorem Represents.live {s : Serve cfg} {t : Objects cfg} (h : Represents s t) :
    t.Live = s.Live := by
  funext x
  exact propext (exists_congr fun n => h.objs n x)

theorem listed_run {K : Kernel} (hids : cfg.HasIds) {os : Os cfg} {is : List Input} {s : Serve cfg}
    (hap : Machine.Along (step K) (Apart (idOf cfg)) (initial os) is)
    (h : Machine.run (step K) (initial os) is = some s) :
    Listed os s.os s.Live ∧ (s.returned = true → Listed os s.os fun _ => False) := by
  obtain ⟨as, t, hap', ht, hR, hI, -⟩ := objects_along apart_calls hap h
  have hlisted := Objects.listed_run hids hap' ht
  rw [hR.live, hR.os] at hlisted
  refine ⟨hlisted, fun hret => ?_⟩
  have hnone : s.Live = fun _ => False := by
    funext x
    refine eq_false ?_
    rintro ⟨n, a, ha⟩
    rw [((safe_of_inv hI).ended hret).1 a] at ha
    cases ha
  rwa [hnone] at hlisted

end Serve

/-- **Sessions end with their objects.** On both paths, if a new pseudo terminal always has another
id than those of the objects, then in every state of every run without a `get` after a successful
one, each object that is logged in is found in the utmp database with its latest login, and every
other record is as it was before the first object, or is closed, or has the pid 0. When `serve` has
returned, that is all of them. -/
theorem sessions_follow_objects (hids : cfg.HasIds) (K : Kernel) (os : Os cfg) :
    (∀ cs, Machine.Along (Direct.step K)
        (fun d c => Objects.Apart (idOf cfg) d.objects (Direct.act c)) (Direct.initial os) cs →
      Machine.Always (Direct.step K) (fun d => Listed os d.os d.objects.Live) (Direct.initial os)
        cs) ∧
    ∀ is, Machine.Along (Serve.step K) (Serve.Apart (idOf cfg)) (Serve.initial os) is →
      Machine.Always (Serve.step K) (fun s => Listed os s.os s.Live ∧
        (s.returned = true → Listed os s.os fun _ => False)) (Serve.initial os) is := by
  constructor
  · intro cs hap pre hp d hd
    exact Objects.listed_run hids (Direct.objects_along (hap.take hp) hd) (Direct.objects_run hd)
  · intro is hap pre hp s hs
    exact Serve.listed_run hids (hap.take hp) hs

/-- The helper gets an object with the device "/dev/pts/7", logs it in, and comes to the end. -/
def sessionCommands : List Serve.Input :=
  [.command (.ofGet ⟨.get, 0, false, 0, zeroed _⟩)
      ⟨8, .pts7, true, true, fun _ => ⟨true, true, true⟩⟩,
    .command (.ofLogin 8 42 true (CString.read [58, 48]))
      ⟨8, .pts7, true, true, fun _ => ⟨true, true, true⟩⟩,
    .short fun _ => ⟨true, true, true⟩]

theorem sessions_follow_objects_sessionCommands :
    ∃ s, Machine.run (Serve.step posix) (.initial Os.start) sessionCommands = some s ∧
      s.returned = true ∧ s.os.db.utmp.length = 1 ∧ Listed Os.start s.os fun _ => False := by
  refine ⟨_, rfl, rfl, rfl, ?_⟩
  have hserve := (sessions_follow_objects (Or.inr rfl) posix Os.start).2 sessionCommands
  refine ((hserve ?_).last rfl).2 rfl
  have hnone : ∀ s : Serve linux, ∀ i : Serve.Input, i.device linux = none →
      Serve.Apart (idOf linux) s i := fun s i hi dev hdev => by rw [hi] at hdev; cases hdev
  refine ⟨?_, fun s _ => ⟨hnone s _ rfl, fun s _ => ⟨hnone s _ rfl, fun _ _ => trivial⟩⟩⟩
  rintro dev - dev' ⟨n, x, ⟨a, ha⟩, -⟩
  cases ha

end Libptytty
