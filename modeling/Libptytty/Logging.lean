import Libptytty.Os

/-!
# Session records

The functions of logging.C: `fill_id`, the two variants of filling a record and of
`ptytty_unix::log_session`. Requests to the session databases are appended to `updates` when they
are made; `pututline` takes effect at once.
-/

namespace Libptytty

open CString

variable {cfg : Config}

/-- `fill_id`: the last `id_size` characters of the line. -/
def fillId (idSize : ℕ) (line : CStr) : CharArray idSize :=
  let len := line.1.length
  strncpy idSize (if len > idSize then advance (len - idSize) line else line)

/-- A record after `memset`. -/
def Utmp.cleared : Utmp cfg := ⟨.empty, 0, zeroed _, zeroed _, zeroed _, zeroed _, 0⟩

/-- The user name of the records: `pw_name`, or "?". -/
def userName (cfg : Config) : CStr :=
  match cfg.pwent with
  | some (some name) => name
  | _ => ⟨[63], by decide⟩

/-- `fill_utmpx`. The host is read for a login only. -/
def fillUtmpx (login : Bool) (pid : ℤ) (line user : CStr) (host : Option CStr) (now : ℕ) :
    Utmp cfg :=
  { utType := if login then .userProcess else .deadProcess
    utPid := pid
    utLine := strncpy _ line
    utId := fillId _ line
    utUser := strncpy _ user
    utHost := match cfg.utmpHost && login, host with
      | true, some host => strncpy _ host
      | _, _ => zeroed _
    utTime := now }

/-- `fill_utmp`. Without `HAVE_UTMP_PID` there are no id, no pid and no type; the user is written
for a login only. -/
def fillUtmp (login : Bool) (pid : ℤ) (line user : CStr) (host : Option CStr) (now : ℕ) :
    Utmp cfg :=
  let ut : Utmp cfg := { Utmp.cleared with utLine := strncpy _ line, utTime := now }
  let ut := if cfg.utmp = .utmpPid then
      { ut with
        utId := fillId _ line
        utPid := pid
        utType := if login then .userProcess else .deadProcess }
    else ut
  if login then
    { ut with
      utUser := strncpy _ user
      utHost := match cfg.utmpHost, host with
        | true, some host => strncpy _ host
        | _, _ => ut.utHost }
  else ut

/-- The device name without "/dev/". -/
def lineOf (name : CStr) : CStr :=
  if [47, 100, 101, 118, 47] <+: name.1 then advance 5 name else name

/-- `struct utmp` written by `pututline`. -/
def SessionDb.put (u : Utmp cfg) (db : SessionDb cfg) : SessionDb cfg :=
  { db with utmp := pututline u db.utmp, updates := db.updates ++ [.utmp u] }

/-- A request that touches no record of the utmp database. -/
def SessionDb.note (u : Update cfg) (db : SessionDb cfg) : SessionDb cfg :=
  { db with updates := db.updates ++ [u] }

/-- The fields of a `ptytty_unix` that `log_session` reads. -/
structure Session where
  name : CStr
  cmdPid : ℤ
  loginShell : Bool
  utmpPos : Option ℤ

/-- Whether the files of the databases can be opened. -/
structure LogOutcome where
  utmpFile : Bool
  wtmpFile : Bool
  lastlogFile : Bool

/-- `write_record`, and the own `updwtmp` as far as its descriptor goes: the file is opened,
written and closed. -/
def withDatabase (K : Kernel) (ok : Bool) (os : Os cfg) : Os cfg :=
  match os.openFile K ok .database with
  | (none, os) => os
  | (some fd, os) => os.close fd

/-- `update_lastlog`. -/
def updateLastlog (pty : CStr) (host : Option CStr) (db : SessionDb cfg) : SessionDb cfg :=
  let (now, db) := db.now
  db.note (.lastlog cfg.uid ⟨now, strncpy _ pty, strncpy _ (host.getD CString.empty)⟩)

/-- The end of `log_session`: wtmp, and lastlog for a login of a known user, if it is a login
shell. -/
def logShell (s : Session) (login : Bool) (hostname : Option CStr) (ut : Utmp cfg)
    (db : SessionDb cfg) : SessionDb cfg :=
  if s.loginShell then
    let db := if cfg.wtmp then db.note (.wtmp ut) else db
    if cfg.lastlog ∧ login ∧ cfg.pwent.isSome then updateLastlog (lineOf s.name) hostname db else db
  else db

/-- The utmp update of `log_session` with ids: a login always writes its record, a logout only if
the record found carries the pid of the session. -/
def putSession (s : Session) (login : Bool) (ut : Utmp cfg) (db : SessionDb cfg) :
    SessionDb cfg :=
  if login ∨ (∃ r ∈ getutid ut db.utmp, r.utPid = s.cmdPid) then db.put ut else db

/-- `ptytty_unix::log_session` for `USE_UTMPX`, on the databases. -/
def logSessionUtmpx (s : Session) (login : Bool) (hostname : Option CStr) (db : SessionDb cfg) :
    SessionDb cfg :=
  let (now, db) := db.now
  let utx := fillUtmpx login s.cmdPid (lineOf s.name) (userName cfg) hostname now
  logShell s login hostname utx (putSession s login utx db)

/-- `ptytty_unix::log_session` for `USE_UTMP`, on the databases. -/
def logSessionUtmp (s : Session) (login : Bool) (hostname : Option CStr) (db : SessionDb cfg) :
    SessionDb cfg :=
  let (now, db) := db.now
  let ut := fillUtmp login s.cmdPid (lineOf s.name) (userName cfg) hostname now
  let db :=
    if cfg.utmp = .utmpPid then putSession s login ut db
    else match s.utmpPos with
      | some pos => if pos > 0 then db.note (.utmpAt pos ut) else db
      | none => db
  logShell s login hostname ut db

/-- `log_session` on the databases. -/
def logSessionDb (s : Session) (login : Bool) (hostname : Option CStr) (db : SessionDb cfg) :
    SessionDb cfg :=
  match cfg.utmp with
  | .none => db
  | .utmpx => logSessionUtmpx s login hostname db
  | .utmpPid | .utmpSlot => logSessionUtmp s login hostname db

/-- The files `log_session` opens and closes itself: utmp without `HAVE_UTMP_PID`, wtmp with the
own `updwtmp`, lastlog for `USE_UTMP`. -/
def logSessionFiles (K : Kernel) (o : LogOutcome) (s : Session) (login : Bool) (os : Os cfg) :
    Os cfg :=
  match cfg.utmp with
  | .none | .utmpx => os
  | .utmpPid | .utmpSlot =>
    let os := if cfg.utmp = .utmpSlot ∧ (∃ pos ∈ s.utmpPos, pos > 0)
      then withDatabase K o.utmpFile os
      else os
    let os := if s.loginShell ∧ cfg.wtmp ∧ cfg.ownUpdwtmp then withDatabase K o.wtmpFile os else os
    if s.loginShell ∧ cfg.lastlog ∧ login ∧ cfg.pwent.isSome then withDatabase K o.lastlogFile os
    else os

/-- `ptytty_unix::log_session`. -/
def logSession (K : Kernel) (o : LogOutcome) (s : Session) (login : Bool) (hostname : Option CStr)
    (os : Os cfg) : Os cfg :=
  logSessionFiles K o s login { os with db := logSessionDb s login hostname os.db }

end Libptytty
