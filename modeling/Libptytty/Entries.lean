import Libptytty.PtyttyUnix

/-!
# Sessions without descriptors and times

What the session databases see of a `ptytty_unix`: the fields besides the descriptors (`Entry`),
and the databases up to timestamps (`Records`). The methods act on these alone (`login_entry`,
`delete_records`, `get_entry`), so two programs can be compared that differ in their descriptors
and run at different times.
-/

namespace Libptytty

open CString

variable {cfg : Config}

/-! ## Up to timestamps -/

def Utmp.timeless (u : Utmp cfg) : Utmp cfg := { u with utTime := 0 }

def Lastlog.timeless (l : Lastlog cfg) : Lastlog cfg := { l with llTime := 0 }

def Update.timeless : Update cfg → Update cfg
  | .utmp r => .utmp r.timeless
  | .utmpAt pos r => .utmpAt pos r.timeless
  | .wtmp r => .wtmp r.timeless
  | .lastlog uid r => .lastlog uid r.timeless

/-- The session databases up to timestamps. -/
@[ext]
structure Records (cfg : Config) where
  utmp : List (Utmp cfg)
  updates : List (Update cfg)

/-- The databases without their timestamps. -/
def SessionDb.records (db : SessionDb cfg) : Records cfg :=
  ⟨db.utmp.map Utmp.timeless, db.updates.map Update.timeless⟩

/-- Databases with the given records, at the time `0`. -/
def Records.untimed (r : Records cfg) : SessionDb cfg := ⟨r.utmp, r.updates, fun _ => 0, 0⟩

theorem records_untimed (db : SessionDb cfg) : db.records.untimed.records = db.records := by
  unfold SessionDb.records Records.untimed
  congr 1
  · rw [List.map_map]; rfl
  · rw [List.map_map]
    refine List.map_congr_left fun u _ => ?_
    cases u <;> rfl

theorem records_put {db db' : SessionDb cfg} (h : db.records = db'.records) {u u' : Utmp cfg}
    (hu : u.timeless = u'.timeless) : (db.put u).records = (db'.put u').records := by
  have hmap : ∀ (u : Utmp cfg) rs, (pututline u rs).map Utmp.timeless =
      pututline u.timeless (rs.map Utmp.timeless) := by
    intro u rs
    have hsame : ∀ r, sameId u.timeless r.timeless = sameId u r := fun _ => rfl
    exact Upsert.map_upsert hsame rs
  have hutmp := congrArg Records.utmp h
  have hupd := congrArg Records.updates h
  dsimp only [SessionDb.records] at hutmp hupd
  unfold SessionDb.put SessionDb.records
  dsimp only
  rw [hmap, hmap, hutmp, hu, List.map_append, List.map_append, hupd]
  simp [Update.timeless, hu]

theorem records_note {db db' : SessionDb cfg} (h : db.records = db'.records) {u u' : Update cfg}
    (hu : u.timeless = u'.timeless) : (db.note u).records = (db'.note u').records := by
  have hutmp := congrArg Records.utmp h
  have hupd := congrArg Records.updates h
  dsimp only [SessionDb.records] at hutmp hupd
  unfold SessionDb.note SessionDb.records
  dsimp only
  rw [hutmp, List.map_append, List.map_append, hupd]
  simp [hu]

/-- The pid of the record found does not depend on the times. -/
theorem found_pid {db db' : SessionDb cfg} (h : db.records = db'.records) {u u' : Utmp cfg}
    (hu : u.timeless = u'.timeless) (pid : ℤ) :
    (∃ r ∈ getutid u db.utmp, r.utPid = pid) ↔ ∃ r ∈ getutid u' db'.utmp, r.utPid = pid := by
  have hfind : ∀ (u : Utmp cfg) rs, (getutid u rs).map Utmp.timeless =
      getutid u.timeless (rs.map Utmp.timeless) := by
    intro u rs
    unfold getutid
    rw [List.find?_map]
    rfl
  have hpid : ∀ (o : Option (Utmp cfg)),
      (∃ r ∈ o, r.utPid = pid) ↔ ∃ r ∈ o.map Utmp.timeless, r.utPid = pid := by
    intro o
    cases o with
    | none => simp
    | some r => simp [Utmp.timeless]
  have hutmp : db.utmp.map Utmp.timeless = db'.utmp.map Utmp.timeless := congrArg Records.utmp h
  rw [hpid, hpid (getutid u' db'.utmp), hfind, hfind, hutmp, hu]

theorem fillUtmp_timeless (login : Bool) (pid : ℤ) (line user : CStr) (host : Option CStr)
    (now now' : ℕ) : (fillUtmp login pid line user host now : Utmp cfg).timeless =
      (fillUtmp login pid line user host now').timeless := by
  unfold fillUtmp
  dsimp only
  split_ifs <;> rfl

theorem records_putSession {db db' : SessionDb cfg} (h : db.records = db'.records)
    {u u' : Utmp cfg} (hu : u.timeless = u'.timeless) (s : Session) (login : Bool) :
    (putSession s login u db).records = (putSession s login u' db').records := by
  unfold putSession
  by_cases hc : login = true ∨ ∃ r ∈ getutid u db.utmp, r.utPid = s.cmdPid
  · have hc' : login = true ∨ ∃ r ∈ getutid u' db'.utmp, r.utPid = s.cmdPid :=
      hc.imp_right (found_pid h hu _).mp
    rw [if_pos hc, if_pos hc']
    exact records_put h hu
  · have hc' : ¬ (login = true ∨ ∃ r ∈ getutid u' db'.utmp, r.utPid = s.cmdPid) :=
      fun hn => hc (hn.imp_right (found_pid h hu _).mpr)
    rw [if_neg hc, if_neg hc']
    exact h

theorem records_logShell {db db' : SessionDb cfg} (h : db.records = db'.records)
    {u u' : Utmp cfg} (hu : u.timeless = u'.timeless) (s : Session) (login : Bool)
    (hostname : Option CStr) : (logShell s login hostname u db).records =
      (logShell s login hostname u' db').records := by
  have hw : (Update.wtmp u).timeless = (Update.wtmp u').timeless := congrArg Update.wtmp hu
  have hlast : ∀ {db db' : SessionDb cfg}, db.records = db'.records →
      (updateLastlog (lineOf s.name) hostname db).records =
        (updateLastlog (lineOf s.name) hostname db').records := fun h => records_note h rfl
  unfold logShell
  dsimp only
  split_ifs
  · exact hlast (records_note h hw)
  · exact hlast h
  · exact records_note h hw
  · exact h
  · exact h

/-- `log_session` acts on the records alone. -/
theorem records_logSessionDb {db db' : SessionDb cfg} (h : db.records = db'.records)
    (s : Session) (login : Bool) (hostname : Option CStr) :
    (logSessionDb s login hostname db).records = (logSessionDb s login hostname db').records := by
  have hnow : db.now.2.records = db'.now.2.records := h
  have hutmp : (logSessionUtmp s login hostname db).records =
      (logSessionUtmp s login hostname db').records := by
    have hu : (fillUtmp login s.cmdPid (lineOf s.name) (userName cfg) hostname db.now.1 :
        Utmp cfg).timeless =
        (fillUtmp login s.cmdPid (lineOf s.name) (userName cfg) hostname db'.now.1).timeless :=
      fillUtmp_timeless _ _ _ _ _ _ _
    unfold logSessionUtmp
    dsimp only
    by_cases hp : cfg.utmp = .utmpPid
    · rw [if_pos hp, if_pos hp]
      exact records_logShell (records_putSession hnow hu s login) hu s login hostname
    · rw [if_neg hp, if_neg hp]
      refine records_logShell ?_ hu s login hostname
      cases s.utmpPos with
      | none => exact hnow
      | some pos =>
        dsimp only
        split_ifs
        · exact records_note hnow (congrArg (Update.utmpAt pos) hu)
        · exact hnow
  unfold logSessionDb
  split
  · exact h
  · have hu : (fillUtmpx login s.cmdPid (lineOf s.name) (userName cfg) hostname db.now.1 :
        Utmp cfg).timeless =
        (fillUtmpx login s.cmdPid (lineOf s.name) (userName cfg) hostname db'.now.1).timeless := rfl
    exact records_logShell (records_putSession hnow hu s login) hu s login hostname
  · exact hutmp
  · exact hutmp

/-! ## Entries -/

/-- The fields of a `ptytty_unix` besides its descriptors. -/
structure Entry where
  name : Option CStr
  utmpPos : Option ℤ
  cmdPid : ℤ
  loginShell : Option Bool
  deriving DecidableEq

def PtyttyUnix.entry (x : PtyttyUnix) : Entry := ⟨x.name, x.utmpPos, x.cmdPid, x.loginShell⟩

namespace Entry

/-- The entry of a new object. -/
def new : Entry := PtyttyUnix.new.entry

/-- `log_session` on records. -/
def logSession (s : Session) (login : Bool) (hostname : Option CStr) (r : Records cfg) :
    Records cfg := (logSessionDb s login hostname r.untimed).records

/-- A successful `get` on an entry. -/
def got (cfg : Config) (o : PtyttyUnix.GetOutcome) (dev : CStr) (e : Entry) : Entry :=
  { e with
    name := some dev
    utmpPos := if cfg.utmp = .utmpSlot then some o.ttyslot else e.utmpPos }

/-- `ptytty_unix::login` on an entry and the records. -/
def login (pid : ℤ) (shell : Bool) (hostname : CStr) (e : Entry) (r : Records cfg) :
    Entry × Records cfg :=
  if cfg.utmp = .none then (e, r)
  else
    match e.name with
    | none => (e, r)
    | some name =>
      if name.1 = [] then (e, r)
      else
        ({ e with cmdPid := pid, loginShell := some shell },
          logSession ⟨name, pid, shell, e.utmpPos⟩ true (some hostname) r)

/-- `~ptytty_unix` on an entry and the records. -/
def delete (e : Entry) (r : Records cfg) : Records cfg :=
  match e.name with
  | none => r
  | some name =>
    if cfg.utmp ≠ .none ∧ e.cmdPid ≠ 0 then
      logSession ⟨name, e.cmdPid, e.loginShell.getD false, e.utmpPos⟩ false none r
    else r

end Entry

theorem logSession_records (s : Session) (login : Bool) (hostname : Option CStr)
    (db : SessionDb cfg) :
    (logSessionDb s login hostname db).records = Entry.logSession s login hostname db.records :=
  records_logSessionDb (records_untimed db).symm s login hostname

namespace PtyttyUnix

variable {K : Kernel}

/-- `login` acts on the entry and the records. -/
theorem login_entry (o : LogOutcome) (pid : ℤ) (shell : Bool) (hostname : CStr) (x : PtyttyUnix)
    (os : Os cfg) :
    (x.login K o pid shell hostname os).1.entry =
        (Entry.login pid shell hostname x.entry os.db.records).1 ∧
      (x.login K o pid shell hostname os).2.db.records =
        (Entry.login pid shell hostname x.entry os.db.records).2 := by
  unfold Entry.login
  by_cases hu : cfg.utmp = .none
  · have hx : x.login K o pid shell hostname os = (x, os) := by unfold login; rw [if_pos hu]
    rw [if_pos hu, hx]
    exact ⟨rfl, rfl⟩
  rw [if_neg hu]
  cases hn : x.name with
  | none =>
    have hen : x.entry.name = none := hn
    rw [hen, login_unnamed K os o pid shell hostname (Or.inl hn)]
    exact ⟨rfl, rfl⟩
  | some name =>
    have hen : x.entry.name = some name := hn
    rw [hen]
    dsimp only
    by_cases hne : name.1 = []
    · rw [if_pos hne, login_unnamed K os o pid shell hostname (Or.inr ⟨name, hn, hne⟩)]
      exact ⟨rfl, rfl⟩
    · obtain ⟨hobj, hdb⟩ := login_named K os hu o pid shell hostname hn hne
      rw [if_neg hne, hobj, hdb]
      refine ⟨?_, logSession_records _ _ _ _⟩
      show (⟨x.name, x.utmpPos, pid, some shell⟩ : Entry) = ⟨some name, x.utmpPos, pid, some shell⟩
      rw [hn]

/-- The destructor acts on the records through the entry. -/
theorem delete_records (o : LogOutcome) (x : PtyttyUnix) (os : Os cfg) :
    (x.delete K o os).db.records = x.entry.delete os.db.records := by
  unfold Entry.delete
  cases hn : x.name with
  | none =>
    have hdb : (x.logSession K o false none os).db = os.db := by
      unfold logSession; rw [hn]
    have hdel : (x.delete K o os).db = os.db := by
      unfold delete
      dsimp only
      rw [put_db]
      split_ifs
      · exact hdb
      · rfl
    rw [hdel]
    simp [entry, hn]
  | some name =>
    have hen : x.entry.name = some name := hn
    rw [hen]
    dsimp only
    by_cases hp : cfg.utmp ≠ .none ∧ x.cmdPid ≠ 0
    · have hpe : cfg.utmp ≠ .none ∧ x.entry.cmdPid ≠ 0 := hp
      rw [if_pos hpe, delete_logged K os hp.1 o hn hp.2]
      exact logSession_records _ _ _ _
    · have hpe : ¬ (cfg.utmp ≠ .none ∧ x.entry.cmdPid ≠ 0) := hp
      have hdel : (x.delete K o os).db = os.db := by
        unfold delete
        dsimp only
        rw [put_db, if_neg hp]
      rw [if_neg hpe, hdel]

/-! ## The outcome of `get` -/

/-- The device of the search through the BSD names: `n` iterations from `i` on. -/
def bsdDevice (o : GetOutcome) : ℕ → ℕ → Option CStr
  | 0, _ => none
  | n + 1, i =>
    if (o.probe i).first ∧ (o.probe i).access then some (bsdName i)
    else if ¬ (o.probe i).first ∧ (o.probe i).second ∧ (o.probe i).access then some (bsdAltName i)
    else bsdDevice o n (i + 1)

/-- The device that `get_pty` finds, from the answers of the operating system alone. -/
def device (cfg : Config) (o : GetOutcome) : Option CStr :=
  match cfg.getPty with
  | .unix98 => if o.master ∧ o.grantpt ∧ o.unlockpt then some o.device else none
  | .openpty | .getpty => if o.master then some o.device else none
  | .bsd => bsdDevice o 256 0

/-- The device that `get` leaves in the object: the slave must be open too. -/
def allocated (cfg : Config) (o : GetOutcome) : Option CStr :=
  if cfg.getPty = .openpty ∨ o.slave then device cfg o else none

variable {o : GetOutcome} {tty : Option Fd} {name : Option CStr} {os : Os cfg}

/-- `get_pty` has found `dev`, or nothing; `slave` tells whether it opened the slave too. -/
def Found (dev : Option CStr) (slave : Bool) (r : GetPty cfg) : Prop :=
  r.pfd.isSome = dev.isSome ∧ r.name = dev ∧ r.tty.isSome = (slave && dev.isSome)

theorem bsdLoop_found (n i : ℕ) :
    Found (bsdDevice o n i) false (bsdLoop K o none none n i os) := by
  induction n generalizing i os with
  | zero => exact ⟨rfl, rfl, rfl⟩
  | succ n ih =>
    unfold bsdLoop bsdDevice bsdOpen Os.openFile
    cases h1 : (o.probe i).first <;> cases h2 : (o.probe i).second <;>
      cases h3 : (o.probe i).access
    all_goals first | exact ih _ | exact ⟨rfl, rfl, rfl⟩

theorem getPty_found :
    Found (device cfg o) (cfg.getPty = .openpty) (getPty K o none none os) := by
  unfold getPty device
  cases cfg.getPty with
  | unix98 =>
    show Found _ false (getPtyUnix98 K o none none os)
    unfold getPtyUnix98 Os.openFile
    cases o.master <;> cases o.grantpt <;> cases o.unlockpt <;> exact ⟨rfl, rfl, rfl⟩
  | openpty =>
    show Found _ true (getPtyOpenpty K o none none os)
    unfold getPtyOpenpty Os.openFile
    cases o.master <;> exact ⟨rfl, rfl, rfl⟩
  | getpty =>
    show Found _ false (getPtyGetpty K o none none os)
    unfold getPtyGetpty Os.openFile
    cases o.master <;> exact ⟨rfl, rfl, rfl⟩
  | bsd => exact bsdLoop_found 256 0

theorem setSlot_entry (x : PtyttyUnix) : (setSlot cfg o x).entry =
    { x.entry with utmpPos := if cfg.utmp = .utmpSlot then some o.ttyslot else x.utmpPos } := by
  unfold setSlot
  split_ifs <;> rfl

/-- `get` succeeds exactly if a device is allocated, which then is the name of the object. -/
theorem get_entry {x : PtyttyUnix} (htty : x.tty = none) (hname : x.name = none) (os : Os cfg) :
    (x.get K o os).1 = (allocated cfg o).isSome ∧ (x.get K o os).2.1.entry =
      ((allocated cfg o).map fun dev => x.entry.got cfg o dev).getD x.entry := by
  obtain ⟨pty, tty, name, pos, pid, shell⟩ := x
  obtain rfl : tty = none := htty
  obtain rfl : name = none := hname
  have hfound : Found (device cfg o) (cfg.getPty = .openpty) (getPty K o none none os) :=
    getPty_found
  unfold get allocated
  dsimp only
  generalize getPty K o none none os = r at hfound ⊢
  obtain ⟨pfd, tty, name, os⟩ := r
  obtain ⟨hpfd, hname, htty⟩ := hfound
  dsimp only at hpfd hname htty ⊢
  subst hname
  cases hd : device cfg o with
  | none =>
    rw [hd] at hpfd
    obtain rfl : pfd = none := by simpa using hpfd
    exact ⟨by simp, by simp [entry]⟩
  | some dev =>
    rw [hd] at hpfd htty
    obtain ⟨p, rfl⟩ := Option.isSome_iff_exists.mp hpfd
    by_cases ho : cfg.getPty = .openpty
    · -- the slave is already open
      obtain ⟨t, rfl⟩ := Option.isSome_iff_exists.mp (htty.trans (by simp [ho]))
      rw [if_pos (Or.inl ho)]
      exact ⟨rfl, setSlot_entry _⟩
    · obtain rfl : tty = none := by simpa [ho] using htty
      unfold getTty Os.openFile
      cases hs : o.slave with
      | false =>
        have hno : ¬ (cfg.getPty = .openpty ∨ false = true) := by simp [ho]
        rw [if_neg hno]
        exact ⟨rfl, rfl⟩
      | true =>
        rw [if_pos (Or.inr rfl)]
        exact ⟨rfl, setSlot_entry _⟩

end PtyttyUnix

/-! ## Hostnames -/

/-- The host fields of the records are shorter than the hostname of a command. -/
def Config.ShortHosts (cfg : Config) : Prop := cfg.hostSize ≤ 511 ∧ cfg.lastlogHostSize ≤ 511

/-- The characters of a hostname behind the first 511 appear in no record. -/
theorem login_truncate (hshort : cfg.ShortHosts) (pid : ℤ) (shell : Bool) (hostname : CStr)
    (e : Entry) (r : Records cfg) :
    Entry.login pid shell (truncate 511 hostname) e r = Entry.login pid shell hostname e r := by
  have hhost : strncpy cfg.hostSize (truncate 511 hostname) = strncpy cfg.hostSize hostname :=
    strncpy_truncate hshort.1 hostname
  have hlast : strncpy cfg.lastlogHostSize (truncate 511 hostname) =
      strncpy cfg.lastlogHostSize hostname := strncpy_truncate hshort.2 hostname
  have hx : ∀ pid line user now, (fillUtmpx true pid line user (some (truncate 511 hostname)) now :
      Utmp cfg) = fillUtmpx true pid line user (some hostname) now := by
    intro pid line user now
    unfold fillUtmpx
    cases cfg.utmpHost
    · rfl
    · simp [hhost]
  have hp : ∀ pid line user now, (fillUtmp true pid line user (some (truncate 511 hostname)) now :
      Utmp cfg) = fillUtmp true pid line user (some hostname) now := by
    intro pid line user now
    unfold fillUtmp
    cases cfg.utmpHost
    · rfl
    · simp [hhost]
  have hshell : ∀ (s : Session) u (db : SessionDb cfg),
      logShell s true (some (truncate 511 hostname)) u db =
        logShell s true (some hostname) u db := by
    intro s u db
    unfold logShell updateLastlog
    simp only [Option.getD_some, hlast]
  have hlog : ∀ (s : Session) (db : SessionDb cfg),
      logSessionDb s true (some (truncate 511 hostname)) db =
        logSessionDb s true (some hostname) db := by
    intro s db
    unfold logSessionDb logSessionUtmpx logSessionUtmp
    simp only [hx, hp, hshell]
  unfold Entry.login Entry.logSession
  simp only [hlog]

end Libptytty
