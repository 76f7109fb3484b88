import Libptytty.Kernel
import Libptytty.Lib.CString
import Libptytty.Lib.Ledger
import Libptytty.Lib.Upsert

/-!
# The platform and the state of a process

`Config` is the build (which `get_pty`, which session database), the sizes of the fields of the
session records and the user. `Os` is what a process shares with the operating system: its
descriptors with a log of all openings and closings made by the library, the attributes it set on
devices, and the session database with a log of all updates.
-/

namespace Libptytty

open CString

/-! ## Builds -/

/-- The variants of `get_pty`. -/
inductive GetPtyVariant
  | unix98
  | openpty
  | getpty
  | bsd
  deriving DecidableEq

/-- The variants of the session database: no `UTMP_SUPPORT`, `USE_UTMPX`, `USE_UTMP` with
`HAVE_UTMP_PID` and `USE_UTMP` without. -/
inductive UtmpVariant
  | none
  | utmpx
  | utmpPid
  | utmpSlot
  deriving DecidableEq

/-- The build, the platform and the invoking user. -/
structure Config where
  getPty : GetPtyVariant
  utmp : UtmpVariant
  /-- `HAVE_UTMPX_HOST` or `HAVE_UTMP_HOST`. -/
  utmpHost : Bool
  /-- `WTMP_SUPPORT`, and `HAVE_UPDWTMPX` for `USE_UTMPX`. -/
  wtmp : Bool
  /-- `HAVE_UPDWTMP` is missing, so that the library brings its own `updwtmp`. -/
  ownUpdwtmp : Bool
  /-- `LASTLOG_SUPPORT`, and the platform has lastlog records. -/
  lastlog : Bool
  lineSize : ℕ
  idSize : ℕ
  userSize : ℕ
  hostSize : ℕ
  lastlogLineSize : ℕ
  lastlogHostSize : ℕ
  /-- `RESTORE_TTY_MODE`. -/
  restoreTtyMode : ℕ
  /-- The group of `getgrnam ("tty")`, in a `TTY_GID_SUPPORT` build. -/
  ttyGroup : Option ℕ
  /-- `getuid ()`. -/
  uid : ℕ
  /-- `getpwuid (getuid ())` and its `pw_name`. -/
  pwent : Option (Option CStr)

/-- A build for GNU/Linux. -/
def linux : Config where
  getPty := .unix98
  utmp := .utmpPid
  utmpHost := true
  wtmp := true
  ownUpdwtmp := false
  lastlog := true
  lineSize := 32
  idSize := 4
  userSize := 32
  hostSize := 256
  lastlogLineSize := 32
  lastlogHostSize := 256
  restoreTtyMode := 0o666
  ttyGroup := some 5
  uid := 1000
  pwent := some (some ⟨[109, 101], by decide⟩)

/-- The static object `ttyconf`. -/
structure TtyConf where
  gid : ℕ
  mode : ℕ

/-- The constructor of `ttyconf`: `0620` with the group "tty", else `0622`. -/
def ttyconf (cfg : Config) : TtyConf :=
  match cfg.ttyGroup with
  | some gid => ⟨gid, 0o620⟩
  | none => ⟨0, 0o622⟩

/-! ## Session records -/

/-- `ut_type`. -/
inductive UtType
  | empty
  | runLvl
  | bootTime
  | newTime
  | oldTime
  | initProcess
  | loginProcess
  | userProcess
  | deadProcess
  deriving DecidableEq

/-- The record types `getutid` and `pututline` match by id. -/
def UtType.isProcess : UtType → Bool
  | .initProcess | .loginProcess | .userProcess | .deadProcess => true
  | _ => false

variable (cfg : Config)

/-- `struct utmpx` or `struct utmp`. -/
structure Utmp where
  utType : UtType
  utPid : ℤ
  utLine : CharArray cfg.lineSize
  utId : CharArray cfg.idSize
  utUser : CharArray cfg.userSize
  utHost : CharArray cfg.hostSize
  utTime : ℕ
  deriving DecidableEq

/-- `struct lastlogx` or `struct lastlog`. -/
structure Lastlog where
  llTime : ℕ
  llLine : CharArray cfg.lastlogLineSize
  llHost : CharArray cfg.lastlogHostSize
  deriving DecidableEq

/-- A request to change a session database. -/
inductive Update
  /-- `pututxline` and `pututline`. -/
  | utmp (r : Utmp cfg)
  /-- `write_record (UTMP_FILE, pos, ..)`. -/
  | utmpAt (pos : ℤ) (r : Utmp cfg)
  /-- `updwtmpx` and `updwtmp`. -/
  | wtmp (r : Utmp cfg)
  /-- `updlastlogx` and `write_record (LASTLOG_FILE, getuid (), ..)`. -/
  | lastlog (uid : ℕ) (r : Lastlog cfg)
  deriving DecidableEq

/-- The session databases and the clock. -/
structure SessionDb where
  /-- The records of the utmp database in their order. -/
  utmp : List (Utmp cfg)
  /-- The updates requested so far. -/
  updates : List (Update cfg)
  /-- What the `n`-th reading of the clock gives. -/
  clock : ℕ → ℕ
  ticks : ℕ

variable {cfg}

/-- `time` and `gettimeofday`. -/
def SessionDb.now (db : SessionDb cfg) : ℕ × SessionDb cfg :=
  (db.clock db.ticks, { db with ticks := db.ticks + 1 })

/-- A record of a process with the same id. -/
def sameId (u r : Utmp cfg) : Bool := r.utType.isProcess && r.utId = u.utId

/-- `getutxid` and `getutid` from the start of the database, for the id of `u`. -/
def getutid (u : Utmp cfg) (rs : List (Utmp cfg)) : Option (Utmp cfg) := rs.find? (sameId u)

/-- `pututxline` and `pututline`: `u` replaces the record with its id, or is appended. -/
def pututline (u : Utmp cfg) (rs : List (Utmp cfg)) : List (Utmp cfg) :=
  Upsert.upsert (sameId u) u rs

/-! ## Descriptors and devices -/

/-- What a descriptor refers to. -/
inductive File
  | master (dev : CStr)
  | slave (dev : CStr)
  /-- A file of the session database. -/
  | database
  deriving DecidableEq

/-- The descriptors of a process; `file` counts for open ones only. -/
structure Descs where
  fds : Finset Fd
  file : Fd → File
  /-- The openings and closings made by the library. -/
  log : List (Ledger.Event Fd)

/-- A successful `open`. -/
def Descs.openFile (K : Kernel) (f : File) (d : Descs) : Fd × Descs :=
  let fd := K.pick d.log.length d.fds
  (fd, ⟨insert fd d.fds, Function.update d.file fd f, d.log ++ [.acquire fd]⟩)

/-- `close`. -/
def Descs.close (fd : Fd) (d : Descs) : Descs :=
  { d with fds := d.fds.erase fd, log := d.log ++ [.release fd] }

/-- A change of the attributes of a device. -/
inductive DevEvent
  | chmod (dev : CStr) (mode : ℕ)
  | chown (dev : CStr) (uid gid : ℕ)
  deriving DecidableEq

variable (cfg) in
/-- A process and the operating system. -/
structure Os where
  descs : Descs
  devs : List DevEvent
  db : SessionDb cfg
  /-- A null pointer was dereferenced. -/
  fault : Bool

/-- A process with the standard descriptors and an empty utmp database. -/
def Os.start : Os linux where
  descs := ⟨{0, 1, 2}, fun _ => .database, []⟩
  devs := []
  db := ⟨[], [], fun n => n, 0⟩
  fault := false

/-- `open`, with its answer. -/
def Os.openFile (K : Kernel) (ok : Bool) (f : File) (os : Os cfg) : Option Fd × Os cfg :=
  if ok then
    let (fd, d) := os.descs.openFile K f
    (some fd, { os with descs := d })
  else (none, os)

@[simp] theorem Os.openFile_isSome (K : Kernel) (ok : Bool) (f : File) (os : Os cfg) :
    (os.openFile K ok f).1.isSome = ok := by
  cases ok <;> rfl

/-- `close`. -/
def Os.close (fd : Fd) (os : Os cfg) : Os cfg := { os with descs := os.descs.close fd }

end Libptytty
