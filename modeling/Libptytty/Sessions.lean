import Libptytty.Descriptors

/-!
# Isolation of utmp sessions

Any number of `ptytty_unix` objects log in and are destroyed while other programs rewrite the utmp
database, in the builds that find records by `ut_id` (`USE_UTMPX`, and `USE_UTMP` with
`HAVE_UTMP_PID`). `logSessionDb_utmp` says once what `log_session` does to the records;
`sessions_isolated` follows each step of a run, and shows that an object's record stays its own as
long as no other program takes it.
-/

namespace Libptytty

open CString

variable {cfg : Config}

/-! ## What one `log_session` does to the records -/

/-- The builds whose records have ids. -/
def Config.HasIds (cfg : Config) : Prop := cfg.utmp = .utmpx ∨ cfg.utmp = .utmpPid

theorem Config.HasIds.utmp_ne {cfg : Config} (h : cfg.HasIds) : cfg.utmp ≠ .none := by
  rcases h with h | h <;> simp [h]

/-- The record found under the id `k`. -/
def recordOf (k : CharArray cfg.idSize) (rs : List (Utmp cfg)) : Option (Utmp cfg) :=
  rs.find? fun r => r.utType.isProcess && r.utId = k

/-- The record of a login on `line`. -/
structure LoginRecord (line : CStr) (pid : ℤ) (host : CStr) (r : Utmp cfg) : Prop where
  type : r.utType = .userProcess
  pid : r.utPid = pid
  id : r.utId = fillId _ line
  line : r.utLine = strncpy _ line
  user : r.utUser = strncpy _ (userName cfg)
  host : r.utHost = if cfg.utmpHost then strncpy _ host else zeroed _

/-- The record of a logout on `line`. -/
structure LogoutRecord (line : CStr) (pid : ℤ) (r : Utmp cfg) : Prop where
  type : r.utType = .deadProcess
  pid : r.utPid = pid
  id : r.utId = fillId _ line
  line : r.utLine = strncpy _ line

theorem loginRecord_utmpx (line : CStr) (pid : ℤ) (host : CStr) (now : ℕ) :
    LoginRecord line pid host
      (fillUtmpx true pid line (userName cfg) (some host) now : Utmp cfg) := by
  refine ⟨rfl, rfl, rfl, rfl, rfl, ?_⟩
  unfold fillUtmpx
  cases cfg.utmpHost <;> rfl

theorem logoutRecord_utmpx (line : CStr) (pid : ℤ) (host : Option CStr) (now : ℕ) :
    LogoutRecord line pid (fillUtmpx false pid line (userName cfg) host now : Utmp cfg) :=
  ⟨rfl, rfl, rfl, rfl⟩

theorem loginRecord_utmp (hpid : cfg.utmp = .utmpPid) (line : CStr) (pid : ℤ) (host : CStr)
    (now : ℕ) : LoginRecord line pid host
      (fillUtmp true pid line (userName cfg) (some host) now : Utmp cfg) := by
  unfold fillUtmp
  dsimp only
  rw [if_pos hpid]
  refine ⟨rfl, rfl, rfl, rfl, rfl, ?_⟩
  cases cfg.utmpHost <;> rfl

theorem logoutRecord_utmp (hpid : cfg.utmp = .utmpPid) (line : CStr) (pid : ℤ)
    (host : Option CStr) (now : ℕ) :
    LogoutRecord line pid (fillUtmp false pid line (userName cfg) host now : Utmp cfg) := by
  unfold fillUtmp
  dsimp only
  rw [if_pos hpid]
  exact ⟨rfl, rfl, rfl, rfl⟩

theorem logShell_utmp (s : Session) (login : Bool) (hostname : Option CStr) (ut : Utmp cfg)
    (db : SessionDb cfg) : (logShell s login hostname ut db).utmp = db.utmp := by
  unfold logShell
  split_ifs <;> rfl

theorem putSession_utmp (s : Session) (login : Bool) (u : Utmp cfg) (db : SessionDb cfg) :
    (putSession s login u db).utmp =
      if login ∨ (∃ r ∈ recordOf u.utId db.utmp, r.utPid = s.cmdPid) then pututline u db.utmp
      else db.utmp := by
  show (if login ∨ (∃ r ∈ recordOf u.utId db.utmp, r.utPid = s.cmdPid) then db.put u else db).utmp
    = _
  split_ifs <;> rfl

/-- `log_session` writes one record of the line: for a login always, for a logout if the record
found has the pid of the session. -/
theorem logSessionDb_utmp (hids : cfg.HasIds) (s : Session) (login : Bool)
    (hostname : Option CStr) (db : SessionDb cfg) : ∃ u : Utmp cfg,
      (login = true → ∀ host ∈ hostname, LoginRecord (lineOf s.name) s.cmdPid host u) ∧
      (login = false → LogoutRecord (lineOf s.name) s.cmdPid u) ∧
      u.utId = fillId _ (lineOf s.name) ∧
      (logSessionDb s login hostname db).utmp =
        if login ∨ (∃ r ∈ recordOf (fillId _ (lineOf s.name)) db.utmp, r.utPid = s.cmdPid) then
          pututline u db.utmp
        else db.utmp := by
  rcases hids with hx | hp
  · refine ⟨fillUtmpx login s.cmdPid (lineOf s.name) (userName cfg) hostname db.now.1, ?_, ?_, rfl,
      ?_⟩
    · rintro rfl host hhost
      rw [Option.mem_def.mp hhost]
      exact loginRecord_utmpx _ _ _ _
    · rintro rfl
      exact logoutRecord_utmpx _ _ _ _
    · unfold logSessionDb
      rw [hx]
      exact (logShell_utmp _ _ _ _ _).trans (putSession_utmp _ _ _ _)
  · have hid : (fillUtmp login s.cmdPid (lineOf s.name) (userName cfg) hostname db.now.1 :
        Utmp cfg).utId = fillId _ (lineOf s.name) := by
      unfold fillUtmp
      dsimp only
      rw [if_pos hp]
      split_ifs <;> rfl
    refine ⟨fillUtmp login s.cmdPid (lineOf s.name) (userName cfg) hostname db.now.1, ?_, ?_, hid,
      ?_⟩
    · rintro rfl host hhost
      rw [Option.mem_def.mp hhost]
      exact loginRecord_utmp hp _ _ _ _
    · rintro rfl
      exact logoutRecord_utmp hp _ _ _ _
    · have hput := putSession_utmp s login
        (fillUtmp login s.cmdPid (lineOf s.name) (userName cfg) hostname db.now.1) db.now.2
      rw [hid] at hput
      unfold logSessionDb
      rw [hp]
      unfold logSessionUtmp
      dsimp only
      rw [if_pos hp]
      exact (logShell_utmp _ _ _ _ _).trans hput

/-- The records with other ids are the same. -/
def SameOthers (k : CharArray cfg.idSize) (rs rs' : List (Utmp cfg)) : Prop :=
  rs'.filter (fun r => r.utId ≠ k) = rs.filter (fun r => r.utId ≠ k)

theorem sameOthers_pututline (u : Utmp cfg) (rs : List (Utmp cfg)) :
    SameOthers u.utId rs (pututline u rs) := by
  refine Upsert.filter_upsert (fun r hr => ?_) (by simp) rs
  simp only [sameId, Bool.and_eq_true, decide_eq_true_eq] at hr
  simp [hr.2]

/-- The record written is the one found afterwards. -/
theorem recordOf_pututline {u : Utmp cfg} (hu : u.utType.isProcess = true) (rs : List (Utmp cfg)) :
    recordOf u.utId (pututline u rs) = some u :=
  Upsert.find?_upsert (p := sameId u) (by simp [sameId, hu]) rs

theorem recordOf_pututline_of_ne {u : Utmp cfg} {k : CharArray cfg.idSize} (hk : u.utId ≠ k)
    (rs : List (Utmp cfg)) : recordOf k (pututline u rs) = recordOf k rs := by
  refine Upsert.find?_upsert_of_disjoint (fun r hr => ?_) (by simp [hk]) rs
  simp only [sameId, Bool.and_eq_true, decide_eq_true_eq] at hr
  simp [hr.2, hk]

theorem LoginRecord.isProcess {line host : CStr} {pid : ℤ} {r : Utmp cfg}
    (h : LoginRecord line pid host r) : r.utType.isProcess = true := by rw [h.type]; rfl

theorem LogoutRecord.isProcess {line : CStr} {pid : ℤ} {r : Utmp cfg}
    (h : LogoutRecord line pid r) : r.utType.isProcess = true := by rw [h.type]; rfl

/-! ## Any number of sessions and other programs -/

/-- The line of an object. -/
def PtyttyUnix.line (x : PtyttyUnix) : CStr := lineOf (x.name.getD CString.empty)

/-- The id of an object's record. -/
def PtyttyUnix.ident (cfg : Config) (x : PtyttyUnix) : CharArray cfg.idSize := fillId _ x.line

/-- The objects of a process and the database they share with other programs. -/
structure Sessions (cfg : Config) where
  objs : ℕ → Option PtyttyUnix
  os : Os cfg
  /-- History: pid and host of the latest login of an object. -/
  latest : ℕ → Option (ℤ × CStr)
  /-- History: since that login no other program has changed the record found for the object. -/
  own : ℕ → Bool

namespace Sessions

/-- A step of the process or of another program. -/
inductive Act (cfg : Config)
  | get (i : ℕ) (o : PtyttyUnix.GetOutcome)
  | login (i : ℕ) (o : LogOutcome) (pid : ℤ) (shell : Bool) (hostname : CStr)
  | delete (i : ℕ) (o : LogOutcome)
  | others (os : Os cfg)

/-- Before the first object. -/
def initial (os : Os cfg) : Sessions cfg := ⟨fun _ => none, os, fun _ => none, fun _ => false⟩

/-- The record found for the object `i`. -/
def found (s : Sessions cfg) (i : ℕ) (rs : List (Utmp cfg)) : Option (Utmp cfg) :=
  (s.objs i).bind fun x => recordOf (x.ident cfg) rs

variable (K : Kernel)

/-- Objects enter with the `get` that succeeds for them; a device has a name that is not empty.
Other programs may change everything. -/
def step (s : Sessions cfg) : Act cfg → Option (Sessions cfg)
  | .get i o =>
    match s.objs i, PtyttyUnix.new.get K o s.os with
    | none, (true, x, os) =>
      if x.name.any fun n => n.1.isEmpty then none
      else some ⟨Function.update s.objs i (some x), os, Function.update s.latest i none,
        Function.update s.own i false⟩
    | _, _ => none
  | .login i o pid shell hostname =>
    if pid = 0 then none
    else (s.objs i).map fun x =>
      let (x, os) := x.login K o pid shell hostname s.os
      ⟨Function.update s.objs i (some x), os, Function.update s.latest i (some (pid, hostname)),
        Function.update s.own i true⟩
  | .delete i o => (s.objs i).map fun x =>
      ⟨Function.update s.objs i none, x.delete K o s.os, Function.update s.latest i none,
        Function.update s.own i false⟩
  | .others os => some { s with
      os := os
      own := fun i => s.own i && (s.found i os.db.utmp = s.found i s.os.db.utmp) }

/-- What a step does to the records. A login makes the record of its id one of its session. A
destruction makes the record found a logout record if that carries the pid of the latest login,
and otherwise changes nothing. Neither touches the records with other ids. -/
def StepOk (s : Sessions cfg) : Act cfg → Prop
  | .get i o => ∀ t ∈ step K s (.get i o), t.os.db.utmp = s.os.db.utmp
  | .login i o pid shell hostname => ∀ x ∈ s.objs i, ∀ t ∈ step K s (.login i o pid shell hostname),
      (∃ r, t.os.db.utmp = pututline r s.os.db.utmp ∧
        recordOf (x.ident cfg) t.os.db.utmp = some r ∧ LoginRecord x.line pid hostname r) ∧
      SameOthers (x.ident cfg) s.os.db.utmp t.os.db.utmp
  | .delete i o => ∀ x ∈ s.objs i, ∀ t ∈ step K s (.delete i o),
      (∀ l ∈ s.latest i, (∃ r ∈ recordOf (x.ident cfg) s.os.db.utmp, r.utPid = l.1) →
        ∃ r, t.os.db.utmp = pututline r s.os.db.utmp ∧
          recordOf (x.ident cfg) t.os.db.utmp = some r ∧ LogoutRecord x.line l.1 r) ∧
      ((∀ l ∈ s.latest i, ∀ r ∈ recordOf (x.ident cfg) s.os.db.utmp, r.utPid ≠ l.1) →
        t.os.db.utmp = s.os.db.utmp) ∧
      SameOthers (x.ident cfg) s.os.db.utmp t.os.db.utmp
  | .others _ => True

/-- Different live objects have different ids. -/
def Distinct (s : Sessions cfg) : Prop :=
  ∀ i j, ∀ x ∈ s.objs i, ∀ y ∈ s.objs j, i ≠ j → x.ident cfg ≠ y.ident cfg

/-- The record found for an object is that of its latest login, unless another program has changed
it since; so its destruction will close it. -/
def Kept (s : Sessions cfg) : Prop :=
  ∀ i, s.own i = true → ∀ x ∈ s.objs i, ∃ l ∈ s.latest i,
    ∃ r ∈ recordOf (x.ident cfg) s.os.db.utmp, LoginRecord x.line l.1 l.2 r

/-- An object with the latest login `l`: it has a device, and `cmd_pid` is the pid of that login. -/
structure LoggedIn (x : PtyttyUnix) (l : Option (ℤ × CStr)) : Prop where
  named : ∃ n, x.name = some n ∧ n.1 ≠ []
  pid : x.cmdPid = (l.map Prod.fst).getD 0
  nonzero : ∀ p ∈ l, p.1 ≠ 0

/-- The invariant of the objects. -/
def Inv (s : Sessions cfg) : Prop := ∀ i, ∀ x ∈ s.objs i, LoggedIn x (s.latest i)

theorem inv_initial (os : Os cfg) : Inv (initial os) := by rintro i x ⟨⟩

/-- One object and its latest login are replaced. -/
theorem inv_update {s : Sessions cfg} (h : Inv s) (i : ℕ) {x : Option PtyttyUnix}
    {l : Option (ℤ × CStr)} (hx : ∀ y ∈ x, LoggedIn y l) (os : Os cfg) (own : ℕ → Bool) :
    Inv ⟨Function.update s.objs i x, os, Function.update s.latest i l, own⟩ := by
  intro j y hy
  dsimp only at hy ⊢
  by_cases hj : j = i
  · subst hj
    rw [Function.update_self] at hy ⊢
    exact hx y hy
  · rw [Function.update_of_ne hj] at hy ⊢
    exact h j y hy

variable {K}

/-! ## One step -/

theorem line_of_name {x : PtyttyUnix} {n : CStr} (hn : x.name = some n) : x.line = lineOf n := by
  unfold PtyttyUnix.line; rw [hn]; rfl

/-- A login writes the record of its session. -/
theorem login_record (hids : cfg.HasIds) {x : PtyttyUnix} (hn : ∃ n, x.name = some n ∧ n.1 ≠ [])
    (o : LogOutcome) (pid : ℤ) (shell : Bool) (hostname : CStr) (os : Os cfg) :
    ∃ r, LoginRecord x.line pid hostname r ∧
      (x.login K o pid shell hostname os).2.db.utmp = pututline r os.db.utmp := by
  obtain ⟨n, hn, hne⟩ := hn
  have hu := hids.utmp_ne
  obtain ⟨u, hlogin, -, -, hutmp⟩ := logSessionDb_utmp hids ⟨n, pid, shell, x.utmpPos⟩ true
    (some hostname) os.db
  rw [line_of_name hn]
  refine ⟨u, hlogin rfl hostname rfl, ?_⟩
  rw [(PtyttyUnix.login_named K os hu o pid shell hostname hn hne).2, hutmp, if_pos (Or.inl rfl)]

/-- A destruction writes a logout record over the record found, if that has the pid of the
session. -/
theorem delete_record (hids : cfg.HasIds) {x : PtyttyUnix} (hn : ∃ n, x.name = some n ∧ n.1 ≠ [])
    (o : LogOutcome) (os : Os cfg) : ∃ r, LogoutRecord x.line x.cmdPid r ∧
      (x.delete K o os).db.utmp =
        if x.cmdPid ≠ 0 ∧ ∃ r ∈ recordOf (x.ident cfg) os.db.utmp, r.utPid = x.cmdPid then
          pututline r os.db.utmp
        else os.db.utmp := by
  obtain ⟨n, hn, -⟩ := hn
  have hu := hids.utmp_ne
  have hline := line_of_name hn
  obtain ⟨u, -, hlogout, -, hutmp⟩ := logSessionDb_utmp hids
    ⟨n, x.cmdPid, x.loginShell.getD false, x.utmpPos⟩ false none os.db
  unfold PtyttyUnix.ident
  rw [hline]
  refine ⟨u, hlogout rfl, ?_⟩
  by_cases hp : x.cmdPid = 0
  · rw [PtyttyUnix.delete_unlogged K os o hp, if_neg (fun h => h.1 hp)]
  · rw [PtyttyUnix.delete_logged K os hu o hn hp, hutmp]
    simp [hp]

theorem step_get {s t : Sessions cfg} {i : ℕ} {o : PtyttyUnix.GetOutcome}
    (ht : step K s (.get i o) = some t) : s.objs i = none ∧ ∃ x os,
      PtyttyUnix.new.get K o s.os = (true, x, os) ∧ (∀ n ∈ x.name, n.1 ≠ []) ∧
      t = ⟨Function.update s.objs i (some x), os, Function.update s.latest i none,
        Function.update s.own i false⟩ := by
  unfold step at ht
  dsimp only at ht
  split at ht
  · rename_i x os hobj he
    split_ifs at ht with hname
    refine ⟨hobj, x, os, he, ?_, (Option.some.inj ht).symm⟩
    intro n hn hempty
    rw [Option.mem_def] at hn
    exact hname (by rw [hn, Option.any_some, hempty]; rfl)
  · cases ht

theorem step_login {s t : Sessions cfg} {i : ℕ} {o : LogOutcome} {pid : ℤ} {shell : Bool}
    {hostname : CStr} (ht : step K s (.login i o pid shell hostname) = some t) :
    pid ≠ 0 ∧ ∃ x, s.objs i = some x ∧
      t = ⟨Function.update s.objs i (some (x.login K o pid shell hostname s.os).1),
        (x.login K o pid shell hostname s.os).2,
        Function.update s.latest i (some (pid, hostname)), Function.update s.own i true⟩ := by
  unfold step at ht
  dsimp only at ht
  split_ifs at ht with hpid
  obtain ⟨x, hx, ht⟩ := Option.map_eq_some_iff.mp ht
  exact ⟨hpid, x, hx, ht.symm⟩

theorem step_delete {s t : Sessions cfg} {i : ℕ} {o : LogOutcome}
    (ht : step K s (.delete i o) = some t) : ∃ x, s.objs i = some x ∧
      t = ⟨Function.update s.objs i none, x.delete K o s.os, Function.update s.latest i none,
        Function.update s.own i false⟩ := by
  obtain ⟨x, hx, ht⟩ := Option.map_eq_some_iff.mp ht
  exact ⟨x, hx, ht.symm⟩

/-- Every step does to the records what it should. -/
theorem stepOk_of_inv (hids : cfg.HasIds) {s : Sessions cfg} (h : Inv s) (a : Act cfg) :
    StepOk K s a := by
  cases a with
  | get i o =>
    intro t ht
    obtain ⟨-, x, os, he, -, rfl⟩ := step_get ht
    have hdb := PtyttyUnix.get_db K s.os o .new
    rw [he] at hdb
    exact congrArg SessionDb.utmp hdb
  | login i o pid shell hostname =>
    intro x hx t ht
    obtain ⟨-, x', hx', rfl⟩ := step_login ht
    obtain rfl : x = x' := Option.some.inj (hx.symm.trans hx')
    obtain ⟨r, hr, hutmp⟩ := login_record (K := K) hids ((h i x hx).named) o pid shell hostname s.os
    have hid : r.utId = x.ident cfg := hr.id
    dsimp only
    rw [hutmp]
    refine ⟨⟨r, rfl, ?_, hr⟩, ?_⟩
    · rw [← hid]; exact recordOf_pututline hr.isProcess _
    · rw [← hid]; exact sameOthers_pututline _ _
  | delete i o =>
    intro x hx t ht
    obtain ⟨x', hx', rfl⟩ := step_delete ht
    obtain rfl : x = x' := Option.some.inj (hx.symm.trans hx')
    obtain ⟨r, hr, hutmp⟩ := delete_record (K := K) hids ((h i x hx).named) o s.os
    have hid : r.utId = x.ident cfg := hr.id
    have hpid := (h i x hx).pid
    dsimp only
    rw [hutmp]
    refine ⟨fun l hl hfound => ?_, fun hno => ?_, ?_⟩
    · -- the record found carries the pid of the latest login
      rw [Option.mem_def.mp hl] at hpid
      have hpid : x.cmdPid = l.1 := hpid
      rw [hpid] at hr ⊢
      rw [if_pos ⟨(h i x hx).nonzero l hl, hfound⟩]
      refine ⟨r, rfl, ?_, hr⟩
      rw [← hid]; exact recordOf_pututline hr.isProcess _
    · rw [if_neg]
      rintro ⟨hp, r', hr', he⟩
      cases hl : s.latest i with
      | none => rw [hl] at hpid; exact hp hpid
      | some l =>
        rw [hl] at hpid
        exact hno l hl r' hr' (he.trans hpid)
    · split_ifs
      · rw [← hid]; exact sameOthers_pututline _ _
      · rfl
  | others os => trivial

theorem inv_step (hids : cfg.HasIds) {s t : Sessions cfg} {a : Act cfg} (h : Inv s)
    (ht : step K s a = some t) : Inv t := by
  cases a with
  | get i o =>
    obtain ⟨-, x, os, he, hname, rfl⟩ := step_get ht
    refine inv_update h i (fun y hy => ?_) _ _
    obtain rfl : x = y := Option.some.inj hy
    rcases PtyttyUnix.get_moves (K := K) (o := o) PtyttyUnix.initial_new s.os with
      ⟨os', he', -⟩ | ⟨x', os', he', ⟨p, dev, -, hdev, -⟩, -, hpid, -⟩
    · rw [he] at he'; cases he'
    · rw [he] at he'
      cases he'
      exact ⟨⟨dev, hdev, hname dev hdev⟩, hpid, by rintro p ⟨⟩⟩
  | login i o pid shell hostname =>
    obtain ⟨hpid, x, hx, rfl⟩ := step_login ht
    obtain ⟨n, hn, hne⟩ := (h i x hx).named
    have hu := hids.utmp_ne
    refine inv_update h i (fun y hy => ?_) _ _
    obtain rfl := Option.some.inj hy
    rw [(PtyttyUnix.login_named K s.os hu o pid shell hostname hn hne).1]
    refine ⟨⟨n, hn, hne⟩, rfl, fun p hp => ?_⟩
    obtain rfl := Option.some.inj hp
    exact hpid
  | delete i o =>
    obtain ⟨x, hx, rfl⟩ := step_delete ht
    exact inv_update h i (by rintro y ⟨⟩) _ _
  | others os =>
    obtain rfl := Option.some.inj ht
    exact h

/-! ## Isolation -/

theorem kept_step (hids : cfg.HasIds) {s t : Sessions cfg} {a : Act cfg} (h : Inv s)
    (hd : Distinct s) (hk : Kept s) (ht : step K s a = some t) : Kept t := by
  intro j hj y hy
  cases a with
  | get i o =>
    obtain ⟨-, x, os, he, -, rfl⟩ := step_get ht
    have hdb := PtyttyUnix.get_db K s.os o .new
    rw [he] at hdb
    dsimp only at hj hy hdb ⊢
    have hji : j ≠ i := by rintro rfl; simp at hj
    rw [Function.update_of_ne hji] at hj hy ⊢
    rw [hdb]
    exact hk j hj y hy
  | login i o pid shell hostname =>
    obtain ⟨-, x, hx, rfl⟩ := step_login ht
    obtain ⟨r, hr, hutmp⟩ := login_record (K := K) hids (h i x hx).named o pid shell hostname s.os
    have hid : r.utId = x.ident cfg := hr.id
    dsimp only at hj hy ⊢
    by_cases hji : j = i
    · -- the object that logs in
      subst hji
      rw [Function.update_self] at hy ⊢
      obtain rfl := Option.some.inj hy
      obtain ⟨-, -, hname⟩ := PtyttyUnix.login_fields (K := K) o pid shell hostname x s.os
      refine ⟨_, rfl, r, ?_, ?_⟩
      · unfold PtyttyUnix.ident PtyttyUnix.line at hid ⊢
        rw [hname, ← hid, hutmp]
        exact recordOf_pututline hr.isProcess _
      · unfold PtyttyUnix.line
        rw [hname]; exact hr
    · rw [Function.update_of_ne hji] at hj hy ⊢
      have hne : r.utId ≠ y.ident cfg := by
        rw [hid]; exact hd i j x hx y hy (Ne.symm hji)
      rw [hutmp, recordOf_pututline_of_ne hne]
      exact hk j hj y hy
  | delete i o =>
    obtain ⟨x, hx, rfl⟩ := step_delete ht
    obtain ⟨r, hr, hutmp⟩ := delete_record (K := K) hids (h i x hx).named o s.os
    dsimp only at hj hy ⊢
    have hji : j ≠ i := by rintro rfl; simp at hj
    rw [Function.update_of_ne hji] at hj hy ⊢
    have hid : r.utId ≠ y.ident cfg := by
      rw [hr.id]; exact hd i j x hx y hy (Ne.symm hji)
    rw [hutmp]
    split_ifs
    · rw [recordOf_pututline_of_ne hid]
      exact hk j hj y hy
    · exact hk j hj y hy
  | others os =>
    obtain rfl := Option.some.inj ht
    dsimp only at hj hy ⊢
    rw [Bool.and_eq_true, decide_eq_true_eq] at hj
    obtain ⟨l, hl, r, hr, hrec⟩ := hk j hj.1 y hy
    refine ⟨l, hl, r, ?_, hrec⟩
    have hsame := hj.2
    unfold found at hsame
    rw [Option.mem_def.mp hy, Option.bind_some, Option.bind_some] at hsame
    rw [hsame]; exact hr

/-- **Isolation and closure.** From every utmp content, in every interleaving of gets, logins and
destructions of any number of objects with the updates of other programs, each login and each
destruction does to the records what it should; and if different live objects have different ids,
the record found for an object is that of its latest login until another program changes it. -/
theorem sessions_isolated (hids : cfg.HasIds) (K : Kernel) (os : Os cfg) (as : List (Act cfg)) :
    Machine.Along (step K) (StepOk K) (initial os) as ∧
      (Machine.Always (step K) Distinct (initial os) as →
        Machine.Always (step K) Kept (initial os) as) := by
  constructor
  · have hI : Machine.Always (step K) Inv (initial os) as := fun _ _ _ hs =>
      Machine.inv_of_run (fun _ _ _ hI ht => inv_step hids hI ht) (inv_initial os) hs
    exact hI.along.mono fun s a hs => stepOk_of_inv hids hs a
  · intro hd
    have hIK : Machine.Always (step K) (fun s => Inv s ∧ Kept s) (initial os) as :=
      Machine.always_of_along
        (fun s a t hs hd ht => ⟨inv_step hids hs.1 ht, kept_step hids hs.1 hd hs.2 ht⟩)
        ⟨inv_initial os, by rintro i ⟨⟩⟩ hd.along
    exact hIK.mono fun s hs => hs.2

/-- Two live objects, on the lines of their names, have different ids. -/
theorem distinct_of_lines {s : Sessions cfg} {a b : CStr}
    (ha : (s.objs 0).all fun x => x.line = a) (hb : (s.objs 1).all fun x => x.line = b)
    (hrest : ∀ i, s.objs (i + 2) = none) (hne : fillId cfg.idSize a ≠ fillId _ b) :
    Distinct s := by
  have ha : ∀ x ∈ s.objs 0, x.line = a := by simpa [Option.all_eq_true] using ha
  have hb : ∀ x ∈ s.objs 1, x.line = b := by simpa [Option.all_eq_true] using hb
  intro i j x hx y hy hij
  unfold PtyttyUnix.ident
  match i, j with
  | 0, 0 | 1, 1 => exact absurd rfl hij
  | 0, 1 => rw [ha x hx, hb y hy]; exact hne
  | 1, 0 => rw [hb x hx, ha y hy]; exact hne.symm
  | i + 2, _ => rw [hrest i] at hx; cases hx
  | _, j + 2 => rw [hrest j] at hy; cases hy

/-- Everything succeeds, for "/dev/pts/8". -/
def pts8 : PtyttyUnix.GetOutcome where
  __ := PtyttyUnix.GetOutcome.pts7
  device := ⟨[47, 100, 101, 118, 47, 112, 116, 115, 47, 56], by decide⟩

/-- The record of a session on "tty1" that another program has made. -/
def tty1 : Utmp linux where
  utType := .userProcess
  utPid := 700
  utLine := strncpy _ (CString.read [116, 116, 121, 49])
  utId := strncpy _ (CString.read [49])
  utUser := strncpy _ (CString.read [97, 110, 110])
  utHost := zeroed _
  utTime := 5

/-- Two objects are made, and the first logs in. -/
def firstLogin : List (Act linux) :=
  [.get 0 .pts7, .get 1 pts8, .login 0 ⟨true, true, true⟩ 42 true (CString.read [58, 48])]

/-- Meanwhile the session on "tty1" ends. -/
def endOfTty1 (s : Sessions linux) : Act linux :=
  .others { s.os with
    db.utmp := s.os.db.utmp.map fun r => if r = tty1 then { r with utType := .deadProcess } else r }

/-- The second object logs in, and both are destroyed. -/
def lastSteps : List (Act linux) :=
  [.login 1 ⟨true, true, true⟩ 43 false (CString.read [58, 48]), .delete 0 ⟨true, true, true⟩,
    .delete 1 ⟨true, true, true⟩]

/-- A process with an empty utmp database, but for the session on "tty1". -/
def besideTty1 : Os linux := { Os.start with db.utmp := [tty1] }

theorem sessions_isolated_twoSessions : ∃ s t u,
    Machine.run (step posix) (initial besideTty1) firstLogin = some s ∧
    step posix s (endOfTty1 s) = some t ∧ t.own 0 = true ∧
    Machine.run (step posix) t lastSteps = some u ∧
    Machine.Along (step posix) (StepOk posix) (initial besideTty1)
      (firstLogin ++ endOfTty1 s :: lastSteps) ∧
    Machine.Always (step posix) Kept (initial besideTty1)
      (firstLogin ++ endOfTty1 s :: lastSteps) := by
  obtain ⟨s, hs⟩ : ∃ s, Machine.run (step posix) (initial besideTty1) firstLogin = some s :=
    ⟨_, rfl⟩
  have h := sessions_isolated (Or.inr rfl) posix besideTty1 (firstLogin ++ endOfTty1 s :: lastSteps)
  obtain ⟨t, ht, hown⟩ : ∃ t, step posix s (endOfTty1 s) = some t ∧ t.own 0 = true := by
    cases hs
    exact ⟨_, rfl, by decide +kernel⟩
  obtain ⟨u, hu⟩ : ∃ u, Machine.run (step posix) t lastSteps = some u := by
    cases hs
    cases ht
    exact ⟨_, rfl⟩
  refine ⟨s, t, u, hs, ht, hown, hu, h.1, h.2 fun pre hp v hv => ?_⟩
  obtain ⟨n, hn, rfl⟩ : ∃ n < 8, pre = (firstLogin ++ endOfTty1 s :: lastSteps).take n :=
    ⟨pre.length, Nat.lt_succ_of_le hp.length_le, List.prefix_iff_eq_take.mp hp⟩
  cases hs
  refine distinct_of_lines (a := lineOf PtyttyUnix.GetOutcome.pts7.device)
    (b := lineOf pts8.device) ?_ ?_ ?_ (by decide)
  all_goals
    interval_cases n <;> cases hv
    all_goals first | rfl | exact fun _ => rfl

end Sessions

end Libptytty
