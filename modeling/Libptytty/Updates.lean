import Libptytty.PtyttyUnix

/-!
# What a call of `log_session` requests

The updates of one `log_session` are about the line of the object. At most one of them goes to wtmp,
for a login shell, and it tells a login from a logout (`logSessionDb_updates`). The methods of
`ptytty_unix` request nothing besides (`login_updates`, `delete_updates`).
-/

namespace Libptytty

open CString

variable {cfg : Config}

/-- The update is about `line`. -/
def Update.OnLine (line : CStr) : Update cfg → Prop
  | .utmp r | .utmpAt _ r | .wtmp r => r.utLine = strncpy _ line
  | .lastlog _ r => r.llLine = strncpy _ line

/-- The record that is added to wtmp. -/
def Update.toWtmp : Update cfg → Option (Utmp cfg)
  | .wtmp r => some r
  | _ => none

/-- What `login` and the destructor tell of a session. Records without `ut_type` name the user of a
login, and nobody for a logout. -/
structure SessionRecord (login : Bool) (line : CStr) (r : Utmp cfg) : Prop where
  line : r.utLine = strncpy _ line
  type : cfg.utmp ≠ .utmpSlot → r.utType = if login then .userProcess else .deadProcess
  user : cfg.utmp = .utmpSlot → r.utUser = if login then strncpy _ (userName cfg) else zeroed _

/-- The updates since `os`. -/
def requested (os os' : Os cfg) : List (Update cfg) := os'.db.updates.drop os.db.updates.length

/-! ## `log_session` -/

/-- From `db` to `db'`, the updates `us` have been requested. -/
def Requests (db : SessionDb cfg) (us : List (Update cfg)) (db' : SessionDb cfg) : Prop :=
  db'.updates = db.updates ++ us

theorem Requests.trans {db db' db'' : SessionDb cfg} {us vs : List (Update cfg)}
    (h : Requests db us db') (h' : Requests db' vs db'') : Requests db (us ++ vs) db'' := by
  show db''.updates = db.updates ++ (us ++ vs)
  rw [h', h, List.append_assoc]

theorem Requests.nil (db : SessionDb cfg) : Requests db [] db := (List.append_nil _).symm

/-- Neither wtmp nor another line. -/
def Apart (line : CStr) (us : List (Update cfg)) : Prop :=
  ∀ u ∈ us, u.OnLine line ∧ u.toWtmp = none

theorem apart_nil (line : CStr) : Apart line ([] : List (Update cfg)) := by rintro u ⟨⟩

theorem putSession_requests (s : Session) (login : Bool) {ut : Utmp cfg} {line : CStr}
    (hut : ut.utLine = strncpy _ line) (db : SessionDb cfg) :
    ∃ us, Requests db us (putSession s login ut db) ∧ Apart line us := by
  unfold putSession
  split_ifs
  · refine ⟨[.utmp ut], rfl, fun u hu => ?_⟩
    obtain rfl := List.mem_singleton.mp hu
    exact ⟨hut, rfl⟩
  · exact ⟨[], Requests.nil db, apart_nil line⟩

theorem updateLastlog_requests (line : CStr) (host : Option CStr) (db : SessionDb cfg) :
    ∃ us, Requests db us (updateLastlog line host db) ∧ Apart line us := by
  refine ⟨_, rfl, fun u hu => ?_⟩
  obtain rfl := List.mem_singleton.mp hu
  exact ⟨rfl, rfl⟩

/-- The wtmp part of a `log_session`. -/
def wtmpPart (cfg : Config) (shell : Bool) (ut : Utmp cfg) : List (Update cfg) :=
  if shell ∧ cfg.wtmp then [.wtmp ut] else []

theorem logShell_requests (s : Session) (login : Bool) (hostname : Option CStr) (ut : Utmp cfg)
    (db : SessionDb cfg) : ∃ us, Requests db (wtmpPart cfg s.loginShell ut ++ us)
      (logShell s login hostname ut db) ∧ Apart (lineOf s.name) us := by
  unfold logShell
  by_cases hshell : s.loginShell = true
  · rw [if_pos hshell]
    have hwtmp : Requests db (wtmpPart cfg s.loginShell ut)
        (if cfg.wtmp then db.note (.wtmp ut) else db) := by
      unfold wtmpPart
      by_cases hw : cfg.wtmp = true
      · rw [if_pos ⟨hshell, hw⟩, if_pos hw]
        rfl
      · rw [if_neg fun h => hw h.2, if_neg hw]
        exact Requests.nil db
    dsimp only
    generalize (if cfg.wtmp then db.note (.wtmp ut) else db) = db₁ at hwtmp ⊢
    split_ifs
    · obtain ⟨us, hus, hline⟩ := updateLastlog_requests (lineOf s.name) hostname db₁
      exact ⟨us, hwtmp.trans hus, hline⟩
    · exact ⟨[], hwtmp.trans (Requests.nil _), apart_nil _⟩
  · rw [if_neg hshell]
    refine ⟨[], ?_, apart_nil _⟩
    rw [wtmpPart, if_neg fun h => hshell h.1]
    exact Requests.nil db

theorem sessionRecord_utmpx (hx : cfg.utmp = .utmpx) (login : Bool) (pid : ℤ) (line : CStr)
    (host : Option CStr) (now : ℕ) :
    SessionRecord login line (fillUtmpx login pid line (userName cfg) host now : Utmp cfg) :=
  ⟨rfl, fun _ => rfl, fun hs => by simp [hx] at hs⟩

theorem sessionRecord_utmp (hu : cfg.utmp = .utmpPid ∨ cfg.utmp = .utmpSlot) (login : Bool)
    (pid : ℤ) (line : CStr) (host : Option CStr) (now : ℕ) :
    SessionRecord login line (fillUtmp login pid line (userName cfg) host now : Utmp cfg) := by
  unfold fillUtmp
  refine ⟨?_, fun hs => ?_, fun hs => ?_⟩
  · split_ifs <;> rfl
  · have hpid : cfg.utmp = .utmpPid := hu.resolve_right hs
    dsimp only
    rw [if_pos hpid]
    cases login <;> rfl
  · have hpid : cfg.utmp ≠ .utmpPid := by simp [hs]
    dsimp only
    rw [if_neg hpid]
    cases login <;> rfl

/-- The updates of one `log_session`. -/
theorem logSessionDb_updates (hu : cfg.utmp ≠ .none) (s : Session) (login : Bool)
    (hostname : Option CStr) (db : SessionDb cfg) : ∃ (ut : Utmp cfg) (us vs : List (Update cfg)),
      SessionRecord login (lineOf s.name) ut ∧ Apart (lineOf s.name) us ∧
      Apart (lineOf s.name) vs ∧ Requests db (us ++ (wtmpPart cfg s.loginShell ut ++ vs))
        (logSessionDb s login hostname db) := by
  have finish : ∀ (rec : Utmp cfg) (db₁ : SessionDb cfg), SessionRecord login (lineOf s.name) rec →
      (∃ us, Requests db us db₁ ∧ Apart (lineOf s.name) us) →
      ∃ (ut : Utmp cfg) (us vs : List (Update cfg)), SessionRecord login (lineOf s.name) ut ∧
        Apart (lineOf s.name) us ∧ Apart (lineOf s.name) vs ∧
        Requests db (us ++ (wtmpPart cfg s.loginShell ut ++ vs))
          (logShell s login hostname rec db₁) := by
    rintro rec db₁ hrec ⟨us, hus, hline⟩
    obtain ⟨vs, hvs, hline'⟩ := logShell_requests s login hostname rec db₁
    exact ⟨rec, us, vs, hrec, hline, hline', hus.trans hvs⟩
  unfold logSessionDb
  cases hc : cfg.utmp with
  | none => exact absurd hc hu
  | utmpx =>
    have hut := sessionRecord_utmpx hc login s.cmdPid (lineOf s.name) hostname db.now.1
    exact finish _ _ hut (putSession_requests s login hut.line db.now.2)
  | utmpPid =>
    have hut := sessionRecord_utmp (Or.inl hc) login s.cmdPid (lineOf s.name) hostname db.now.1
    dsimp only [logSessionUtmp]
    rw [if_pos hc]
    exact finish _ _ hut (putSession_requests s login hut.line db.now.2)
  | utmpSlot =>
    have hut := sessionRecord_utmp (Or.inr hc) login s.cmdPid (lineOf s.name) hostname db.now.1
    dsimp only [logSessionUtmp]
    rw [if_neg (by simp [hc])]
    refine finish _ _ hut ?_
    cases s.utmpPos with
    | none => exact ⟨[], Requests.nil _, apart_nil _⟩
    | some pos =>
      dsimp only
      split_ifs
      · refine ⟨[.utmpAt pos _], rfl, fun u hu => ?_⟩
        obtain rfl := List.mem_singleton.mp hu
        exact ⟨hut.line, rfl⟩
      · exact ⟨[], Requests.nil _, apart_nil _⟩

/-! ## Methods -/

theorem requested_eq {os os' : Os cfg} {us : List (Update cfg)} (h : Requests os.db us os'.db) :
    requested os os' = us := by
  unfold requested
  rw [h, List.drop_left]

theorem requested_self (os : Os cfg) : requested os os = [] := List.drop_length

/-- An extension adds what has been requested. -/
theorem updates_eq {os os' : Os cfg} (h : os.db.updates <+: os'.db.updates) :
    os'.db.updates = os.db.updates ++ requested os os' := by
  obtain ⟨us, hus⟩ := h
  rw [requested_eq hus.symm, hus]

theorem Apart.onLine {line : CStr} {us : List (Update cfg)} (h : Apart line us) :
    ∀ u ∈ us, u.OnLine line := fun u hu => (h u hu).1

/-- All updates of a `log_session` are about one line. -/
theorem onLine_of_parts {login shell : Bool} {line : CStr} {ut : Utmp cfg}
    {us vs : List (Update cfg)} (hut : SessionRecord login line ut) (hus : Apart line us)
    (hvs : Apart line vs) : ∀ u ∈ us ++ (wtmpPart cfg shell ut ++ vs), u.OnLine line := by
  intro u hu
  rcases List.mem_append.mp hu with hu | hu
  · exact hus.onLine u hu
  rcases List.mem_append.mp hu with hu | hu
  · unfold wtmpPart at hu
    split_ifs at hu
    · obtain rfl := List.mem_singleton.mp hu
      exact hut.line
    · cases hu
  · exact hvs.onLine u hu

theorem Apart.filterMap_toWtmp {line : CStr} {us : List (Update cfg)} (h : Apart line us) :
    us.filterMap Update.toWtmp = [] :=
  List.filterMap_eq_nil_iff.mpr fun u hu => (h u hu).2

/-- The records of a `log_session` in wtmp. -/
theorem filterMap_parts {shell : Bool} {line : CStr} {ut : Utmp cfg} {us vs : List (Update cfg)}
    (hus : Apart line us) (hvs : Apart line vs) :
    (us ++ (wtmpPart cfg shell ut ++ vs)).filterMap Update.toWtmp =
      if shell ∧ cfg.wtmp then [ut] else [] := by
  rw [List.filterMap_append, List.filterMap_append, hus.filterMap_toWtmp, hvs.filterMap_toWtmp,
    List.nil_append, List.append_nil]
  unfold wtmpPart
  split_ifs <;> rfl

namespace PtyttyUnix

variable (K : Kernel) (os : Os cfg) {x : PtyttyUnix} {name : CStr}

theorem login_requested (hu : cfg.utmp ≠ .none) (o : LogOutcome) (pid : ℤ) (shell : Bool)
    (hostname : CStr) (hn : x.name = some name) (hne : name.1 ≠ []) :
    ∃ (ut : Utmp cfg) (us vs : List (Update cfg)), SessionRecord true (lineOf name) ut ∧
      Apart (lineOf name) us ∧ Apart (lineOf name) vs ∧
      requested os (x.login K o pid shell hostname os).2 = us ++ (wtmpPart cfg shell ut ++ vs) := by
  obtain ⟨ut, us, vs, hut, hus, hvs, hreq⟩ :=
    logSessionDb_updates hu ⟨name, pid, shell, x.utmpPos⟩ true (some hostname) os.db
  refine ⟨ut, us, vs, hut, hus, hvs, requested_eq ?_⟩
  rw [(login_named K os hu o pid shell hostname hn hne).2]
  exact hreq

theorem delete_requested (hu : cfg.utmp ≠ .none) (o : LogOutcome) (hn : x.name = some name)
    (hp : x.cmdPid ≠ 0) :
    ∃ (ut : Utmp cfg) (us vs : List (Update cfg)), SessionRecord false (lineOf name) ut ∧
      Apart (lineOf name) us ∧ Apart (lineOf name) vs ∧
      requested os (x.delete K o os) =
        us ++ (wtmpPart cfg (x.loginShell.getD false) ut ++ vs) := by
  obtain ⟨ut, us, vs, hut, hus, hvs, hreq⟩ := logSessionDb_updates hu
    ⟨name, x.cmdPid, x.loginShell.getD false, x.utmpPos⟩ false none os.db
  refine ⟨ut, us, vs, hut, hus, hvs, requested_eq ?_⟩
  rw [delete_logged K os hu o hn hp]
  exact hreq

theorem delete_requested_nil (o : LogOutcome) (h : ¬ (cfg.utmp ≠ .none ∧ x.cmdPid ≠ 0)) :
    requested os (x.delete K o os) = [] := by
  refine requested_eq ?_
  unfold delete
  dsimp only
  rw [put_db, if_neg h]
  exact Requests.nil _

/-- Requests are only ever added. -/
theorem login_extends (o : LogOutcome) (pid : ℤ) (shell : Bool) (hostname : CStr) (x : PtyttyUnix) :
    os.db.updates <+: (x.login K o pid shell hostname os).2.db.updates := by
  by_cases hn : x.name = none ∨ ∃ n ∈ x.name, n.1 = []
  · rw [login_unnamed K os o pid shell hostname hn]
  by_cases hu : cfg.utmp = .none
  · unfold login
    rw [if_pos hu]
  obtain ⟨name, hname⟩ := Option.ne_none_iff_exists'.mp fun h => hn (Or.inl h)
  have hne : name.1 ≠ [] := fun he => hn (Or.inr ⟨name, hname, he⟩)
  rw [(login_named K os hu o pid shell hostname hname hne).2]
  obtain ⟨ut, us, vs, -, -, -, hreq⟩ :=
    logSessionDb_updates hu ⟨name, pid, shell, x.utmpPos⟩ true (some hostname) os.db
  rw [hreq]
  exact List.prefix_append _ _

theorem delete_extends (o : LogOutcome) (x : PtyttyUnix) :
    os.db.updates <+: (x.delete K o os).db.updates := by
  unfold delete
  dsimp only
  rw [put_db]
  split_ifs with hlog
  · cases hn : x.name with
    | none =>
      unfold logSession
      rw [hn]
    | some name =>
      obtain ⟨ut, us, vs, -, -, -, hreq⟩ := logSessionDb_updates hlog.1
        ⟨name, x.cmdPid, x.loginShell.getD false, x.utmpPos⟩ false none os.db
      rw [logSession_db K os o hn, hreq]
      exact List.prefix_append _ _
  · exact List.prefix_rfl

end PtyttyUnix

end Libptytty
