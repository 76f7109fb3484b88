import Libptytty.Logging

/-!
# `ptytty_unix`

The class of ptytty.C: its fields, the four variants of `get_pty`, and the methods. A descriptor
field that is `-1` and a `name` that is `0` are `none`; `login_shell` and `utmp_pos` are `none`
until they are first assigned. The methods take the object and the state of the process, and what
the operating system answers where it may refuse.

Of the end of `get` in builds without `HAVE_UTMP_PID` there is the result of `ttyslot ()`, as the
answer `ttyslot`; `getSwap` adds the swap of descriptor 0 around the call.
-/

namespace Libptytty

open CString

variable {cfg : Config}

/-- The fields of a `ptytty_unix`. -/
structure PtyttyUnix where
  pty : Option Fd
  tty : Option Fd
  name : Option CStr
  utmpPos : Option ℤ
  cmdPid : ℤ
  loginShell : Option Bool
  deriving DecidableEq

namespace PtyttyUnix

/-- The constructor. -/
def new : PtyttyUnix := ⟨none, none, none, none, 0, none⟩

/-! ## What the operating system answers -/

/-- One iteration of the search through the BSD devices: the two `open`, and `access`. -/
structure Probe where
  first : Bool
  second : Bool
  access : Bool

/-- The answers during one `get`. -/
structure GetOutcome where
  /-- `getpt`, `posix_openpt` or the `open` of the multiplexer; `openpty`; `_getpty`. -/
  master : Bool
  grantpt : Bool
  unlockpt : Bool
  /-- `ptsname`, `ttyname` or the result of `_getpty`. -/
  device : CStr
  probe : ℕ → Probe
  /-- The `open` of the slave in `get_tty`. -/
  slave : Bool
  ttyslot : ℤ

/-- Everything succeeds, for "/dev/pts/7". -/
def GetOutcome.pts7 : GetOutcome where
  master := true
  grantpt := true
  unlockpt := true
  device := ⟨[47, 100, 101, 118, 47, 112, 116, 115, 47, 55], by decide⟩
  probe _ := ⟨true, true, true⟩
  slave := true
  ttyslot := 0

/-! ## `get_pty` -/

/-- The result of `get_pty`, the new values of `*fd_tty` and `*ttydev`, and the process after it. -/
structure GetPty (cfg : Config) where
  pfd : Option Fd
  tty : Option Fd
  name : Option CStr
  os : Os cfg

section GetPty

variable (K : Kernel) (o : GetOutcome) (tty : Option Fd) (name : Option CStr)

/-- `get_pty` for `UNIX98_PTY`. -/
def getPtyUnix98 (os : Os cfg) : GetPty cfg :=
  match os.openFile K o.master (.master o.device) with
  | (none, os) => ⟨none, tty, name, os⟩
  | (some pfd, os) =>
    if o.grantpt ∧ o.unlockpt then ⟨some pfd, tty, some o.device, os⟩
    else ⟨none, tty, name, os.close pfd⟩

/-- `get_pty` for `HAVE_OPENPTY`. -/
def getPtyOpenpty (os : Os cfg) : GetPty cfg :=
  match os.openFile K o.master (.master o.device) with
  | (none, os) => ⟨none, tty, name, os⟩
  | (some pfd, os) =>
    let (fd, d) := os.descs.openFile K (.slave o.device)
    ⟨some pfd, some fd, some o.device, { os with descs := d }⟩

/-- `get_pty` for `HAVE__GETPTY`. -/
def getPtyGetpty (os : Os cfg) : GetPty cfg :=
  match os.openFile K o.master (.master o.device) with
  | (none, os) => ⟨none, tty, name, os⟩
  | (some pfd, os) => ⟨some pfd, tty, some o.device, os⟩

/-- "pqrstuvwxyzabcde" and "0123456789abcdef". -/
def majors : List UInt8 :=
  [112, 113, 114, 115, 116, 117, 118, 119, 120, 121, 122, 97, 98, 99, 100, 101]
def minors : List UInt8 :=
  [48, 49, 50, 51, 52, 53, 54, 55, 56, 57, 97, 98, 99, 100, 101, 102]

/-- "/dev/tty%c%c". -/
def bsdName (i : ℕ) : CStr :=
  read ([47, 100, 101, 118, 47, 116, 116, 121] ++ [majors.getD (i / 16) 0, minors.getD (i % 16) 0])

/-- "/dev/ttyp%d". -/
def bsdAltName (i : ℕ) : CStr :=
  read ([47, 100, 101, 118, 47, 116, 116, 121, 112] ++
    (Nat.toDigits 10 i).map fun c => c.toNat.toUInt8)

/-- The masters of one iteration: "/dev/pty%c%c", else "/dev/ptyp%d"; with the name of the slave. -/
def bsdOpen (i : ℕ) (os : Os cfg) : Option (Fd × CStr) × Os cfg :=
  match os.openFile K (o.probe i).first (.master (bsdName i)) with
  | (some pfd, os) => (some (pfd, bsdName i), os)
  | (none, os) =>
    match os.openFile K (o.probe i).second (.master (bsdAltName i)) with
    | (some pfd, os) => (some (pfd, bsdAltName i), os)
    | (none, os) => (none, os)

/-- The loop of the BSD variant: `n` iterations from `i` on. -/
def bsdLoop : ℕ → ℕ → Os cfg → GetPty cfg
  | 0, _, os => ⟨none, tty, name, os⟩
  | n + 1, i, os =>
    match bsdOpen K o i os with
    | (none, os) => bsdLoop n (i + 1) os
    | (some (pfd, ttyName), os) =>
      if (o.probe i).access then ⟨some pfd, tty, some ttyName, os⟩
      else bsdLoop n (i + 1) (os.close pfd)

/-- `get_pty` in the last variant, after openssh's bsd-openpty. -/
def getPtyBsd (os : Os cfg) : GetPty cfg := bsdLoop K o tty name 256 0 os

/-- `get_pty`. -/
def getPty (os : Os cfg) : GetPty cfg :=
  match cfg.getPty with
  | .unix98 => getPtyUnix98 K o tty name os
  | .openpty => getPtyOpenpty K o tty name os
  | .getpty => getPtyGetpty K o tty name os
  | .bsd => getPtyBsd K o tty name os

end GetPty

/-! ## Methods -/

/-- `ptytty::close_tty`. -/
def closeTty (x : PtyttyUnix) (os : Os cfg) : PtyttyUnix × Os cfg :=
  match x.tty with
  | none => (x, os)
  | some fd => ({ x with tty := none }, os.close fd)

/-- `close (pty)` if it is open. -/
def closePty (x : PtyttyUnix) (os : Os cfg) : Os cfg :=
  match x.pty with
  | none => os
  | some fd => os.close fd

/-- The device is given back: its mode and its owner. -/
def restoreDev (name : Option CStr) (os : Os cfg) : Os cfg :=
  match name with
  | none => os
  | some dev =>
    { os with devs := os.devs ++ [.chmod dev cfg.restoreTtyMode, .chown dev 0 (ttyconf cfg).gid] }

/-- `ptytty_unix::put`. -/
def put (x : PtyttyUnix) (os : Os cfg) : PtyttyUnix × Os cfg :=
  let os := restoreDev x.name os
  let (x, os) := closeTty x os
  let os := closePty x os
  ({ x with pty := none, tty := none, name := none }, os)

/-- The slave is given to the user (`SET_TTY_OWNER`). -/
def setTtyOwner (name : Option CStr) (os : Os cfg) : Os cfg :=
  match cfg.getPty, name with
  | .bsd, some dev =>
    { os with devs := os.devs ++ [.chown dev cfg.uid (ttyconf cfg).gid,
        .chmod dev (ttyconf cfg).mode] }
  | _, _ => os

/-- `get_tty`. -/
def getTty (K : Kernel) (o : GetOutcome) (name : Option CStr) (os : Os cfg) :
    Option Fd × Os cfg :=
  match name with
  | none => (none, os)
  | some dev => os.openFile K o.slave (.slave dev)

/-- `utmp_pos = ttyslot ()`, in a build that uses it. -/
def setSlot (cfg : Config) (o : GetOutcome) (x : PtyttyUnix) : PtyttyUnix :=
  if cfg.utmp = .utmpSlot then { x with utmpPos := some o.ttyslot } else x

/-- `ptytty_unix::get`. -/
def get (K : Kernel) (o : GetOutcome) (x : PtyttyUnix) (os : Os cfg) :
    Bool × PtyttyUnix × Os cfg :=
  let r := getPty K o x.tty x.name os
  let x := { x with pty := r.pfd, tty := r.tty, name := r.name }
  match r.pfd with
  | none => (false, x, r.os)
  | some _ =>
    match x.tty with
    | some _ => (true, setSlot cfg o x, r.os)
    | none =>
      match getTty K o x.name (setTtyOwner x.name r.os) with
      | (none, os) =>
        let (x, os) := x.put os
        (false, x, os)
      | (some fd, os) => (true, setSlot cfg o { x with tty := some fd }, os)

/-- What `log_session` reads of an object. A null `name` is dereferenced. -/
def logSession (K : Kernel) (o : LogOutcome) (x : PtyttyUnix) (login : Bool)
    (hostname : Option CStr) (os : Os cfg) : Os cfg :=
  match x.name with
  | none => { os with fault := true }
  | some name =>
    Libptytty.logSession K o ⟨name, x.cmdPid, x.loginShell.getD false, x.utmpPos⟩ login hostname os

/-- `ptytty_unix::login`. -/
def login (K : Kernel) (o : LogOutcome) (cmdPid : ℤ) (loginShell : Bool) (hostname : CStr)
    (x : PtyttyUnix) (os : Os cfg) : PtyttyUnix × Os cfg :=
  if cfg.utmp = .none then (x, os)
  else if x.name = none ∨ (∃ n ∈ x.name, n.1 = []) then (x, os)
  else
    let x := { x with cmdPid := cmdPid, loginShell := some loginShell }
    (x, logSession K o x true (some hostname) os)

/-- `~ptytty_unix`. -/
def delete (K : Kernel) (o : LogOutcome) (x : PtyttyUnix) (os : Os cfg) : Os cfg :=
  let os := if cfg.utmp ≠ .none ∧ x.cmdPid ≠ 0 then logSession K o x false none os else os
  (x.put os).2

/-! ## The session database -/

/-- Neither the session database nor the fault flag has changed. -/
def Quiet (os os' : Os cfg) : Prop := os'.db = os.db ∧ os'.fault = os.fault

section Db

variable {K : Kernel} {os os' os'' : Os cfg}

theorem Quiet.refl (os : Os cfg) : Quiet os os := ⟨rfl, rfl⟩

theorem Quiet.trans (h : Quiet os os') (h' : Quiet os' os'') : Quiet os os'' :=
  ⟨h'.1.trans h.1, h'.2.trans h.2⟩

theorem openFile_quiet (ok : Bool) (f : File) : Quiet os (os.openFile K ok f).2 := by
  unfold Os.openFile
  split <;> exact Quiet.refl os

/-- What `open` gives, with nothing else changed. -/
theorem quiet_of_openFile {ok : Bool} {f : File} {r : Option Fd}
    (h : os.openFile K ok f = (r, os')) : Quiet os os' := by
  have hquiet : Quiet os _ := openFile_quiet (K := K) ok f
  rwa [h] at hquiet

/-- `close_tty` leaves no slave, and the other members alone. -/
theorem closeTty_fst (x : PtyttyUnix) (os : Os cfg) :
    (x.closeTty os).1 = { x with tty := none } := by
  obtain ⟨pty, tty, name, pos, pid, shell⟩ := x
  cases tty <;> rfl

theorem closeTty_quiet (x : PtyttyUnix) : Quiet os (x.closeTty os).2 := by
  unfold closeTty
  split <;> exact Quiet.refl os

theorem closePty_quiet (x : PtyttyUnix) : Quiet os (x.closePty os) := by
  unfold closePty
  split <;> exact Quiet.refl os

theorem restoreDev_quiet (name : Option CStr) : Quiet os (restoreDev name os) := by
  unfold restoreDev
  split <;> exact Quiet.refl os

theorem setTtyOwner_quiet (name : Option CStr) : Quiet os (setTtyOwner name os) := by
  unfold setTtyOwner
  split <;> exact Quiet.refl os

theorem put_quiet (x : PtyttyUnix) : Quiet os (x.put os).2 :=
  ((restoreDev_quiet x.name).trans (closeTty_quiet x)).trans (closePty_quiet _)

theorem getTty_quiet (o : GetOutcome) (name : Option CStr) : Quiet os (getTty K o name os).2 := by
  unfold getTty
  split
  · exact Quiet.refl os
  · exact openFile_quiet _ _

theorem bsdOpen_quiet (o : GetOutcome) (i : ℕ) : Quiet os (bsdOpen K o i os).2 := by
  unfold bsdOpen
  split
  · rename_i h; exact quiet_of_openFile h
  · rename_i h
    split
    · rename_i h'; exact (quiet_of_openFile h).trans (quiet_of_openFile h')
    · rename_i h'; exact (quiet_of_openFile h).trans (quiet_of_openFile h')

theorem bsdLoop_quiet (o : GetOutcome) (tty : Option Fd) (name : Option CStr) (n i : ℕ) :
    Quiet os (bsdLoop K o tty name n i os).os := by
  induction n generalizing i os with
  | zero => exact Quiet.refl os
  | succ n ih =>
    unfold bsdLoop
    have hopen : Quiet os _ := bsdOpen_quiet (K := K) o i
    split
    · rename_i h
      rw [h] at hopen
      exact hopen.trans (ih _)
    · rename_i h
      rw [h] at hopen
      split_ifs
      · exact hopen
      · exact Quiet.trans hopen (ih _)

theorem getPty_quiet (o : GetOutcome) (tty : Option Fd) (name : Option CStr) :
    Quiet os (getPty K o tty name os).os := by
  unfold getPty
  split
  · unfold getPtyUnix98
    split
    · rename_i h; exact quiet_of_openFile h
    · rename_i h
      have hopen := quiet_of_openFile h
      split_ifs
      · exact hopen
      · exact hopen
  · unfold getPtyOpenpty
    split
    · rename_i h; exact quiet_of_openFile h
    · rename_i h
      have hopen := quiet_of_openFile h
      exact hopen
  · unfold getPtyGetpty
    split
    · rename_i h; exact quiet_of_openFile h
    · rename_i h; exact quiet_of_openFile h
  · exact bsdLoop_quiet o tty name 256 0

/-- `get` leaves the session database alone. -/
theorem get_quiet (o : GetOutcome) (x : PtyttyUnix) : Quiet os (x.get K o os).2.2 := by
  have hpty : Quiet os _ := getPty_quiet (K := K) o x.tty x.name
  unfold get
  dsimp only
  split
  · exact hpty
  · split
    · exact hpty
    · have htty := (hpty.trans (setTtyOwner_quiet (getPty K o x.tty x.name os).name)).trans
        (getTty_quiet (K := K) o (getPty K o x.tty x.name os).name)
      split
      · rename_i h
        rw [h] at htty
        exact htty.trans (put_quiet _)
      · rename_i h
        rw [h] at htty
        exact htty

theorem withDatabase_quiet (c : Prop) [Decidable c] (ok : Bool) :
    Quiet os (if c then withDatabase K ok os else os) := by
  split_ifs
  · unfold withDatabase
    split
    · rename_i h; exact quiet_of_openFile h
    · rename_i h
      have hopen := quiet_of_openFile h
      exact hopen
  · exact Quiet.refl os

theorem logSessionFiles_quiet (o : LogOutcome) (s : Session) (login : Bool) :
    Quiet os (logSessionFiles K o s login os) := by
  unfold logSessionFiles
  split
  · exact Quiet.refl os
  · exact Quiet.refl os
  all_goals
    refine Quiet.trans (Quiet.trans ?_ (withDatabase_quiet (K := K)
      (s.loginShell ∧ cfg.wtmp ∧ cfg.ownUpdwtmp) o.wtmpFile))
      (withDatabase_quiet (K := K)
        (s.loginShell ∧ cfg.lastlog ∧ login ∧ cfg.pwent.isSome) o.lastlogFile)
    exact withDatabase_quiet (cfg.utmp = .utmpSlot ∧ (∃ pos ∈ s.utmpPos, pos > 0)) o.utmpFile

variable (K os)

@[simp] theorem closeTty_db (x : PtyttyUnix) : (x.closeTty os).2.db = os.db := (closeTty_quiet x).1

@[simp] theorem put_db (x : PtyttyUnix) : (x.put os).2.db = os.db := (put_quiet x).1

@[simp] theorem get_db (o : GetOutcome) (x : PtyttyUnix) : (x.get K o os).2.2.db = os.db :=
  (get_quiet o x).1

/-- `log_session` reaches the database through `logSessionDb`. -/
theorem logSession_db (o : LogOutcome) {x : PtyttyUnix} {name : CStr} (hn : x.name = some name)
    (login : Bool) (hostname : Option CStr) : (x.logSession K o login hostname os).db =
      logSessionDb ⟨name, x.cmdPid, x.loginShell.getD false, x.utmpPos⟩ login hostname os.db := by
  unfold logSession
  rw [hn]
  exact (logSessionFiles_quiet o _ login).1

/-- `login` on an object that has a device. -/
theorem login_named (hu : cfg.utmp ≠ .none) (o : LogOutcome) (pid : ℤ) (shell : Bool)
    (hostname : CStr) {x : PtyttyUnix} {name : CStr} (hn : x.name = some name) (hne : name.1 ≠ []) :
    (x.login K o pid shell hostname os).1 = { x with cmdPid := pid, loginShell := some shell } ∧
      (x.login K o pid shell hostname os).2.db =
        logSessionDb ⟨name, pid, shell, x.utmpPos⟩ true (some hostname) os.db := by
  have hname : ¬ (x.name = none ∨ ∃ n ∈ x.name, n.1 = []) := by simp [hn, hne]
  unfold login
  rw [if_neg hu, if_neg hname]
  exact ⟨rfl, logSession_db K os o (x := { x with cmdPid := pid, loginShell := some shell }) hn _ _⟩

/-- Without a device `login` does nothing. -/
theorem login_unnamed (o : LogOutcome) (pid : ℤ) (shell : Bool) (hostname : CStr) {x : PtyttyUnix}
    (hn : x.name = none ∨ ∃ n ∈ x.name, n.1 = []) :
    x.login K o pid shell hostname os = (x, os) := by
  unfold login
  rw [if_pos hn]
  split_ifs <;> rfl

/-- The destruction of an object that has logged in. -/
theorem delete_logged (hu : cfg.utmp ≠ .none) (o : LogOutcome) {x : PtyttyUnix} {name : CStr}
    (hn : x.name = some name) (hp : x.cmdPid ≠ 0) : (x.delete K o os).db =
      logSessionDb ⟨name, x.cmdPid, x.loginShell.getD false, x.utmpPos⟩ false none os.db := by
  unfold delete
  dsimp only
  rw [put_db, if_pos ⟨hu, hp⟩, logSession_db K os o hn]

/-- The destruction of an object that has not. -/
theorem delete_unlogged (o : LogOutcome) {x : PtyttyUnix} (hp : x.cmdPid = 0) :
    (x.delete K o os).db = os.db := by
  unfold delete
  dsimp only
  rw [put_db, if_neg (fun h => h.2 hp)]

/-! ## Null names -/

/-- `log_session` faults on a null name only. -/
theorem logSession_fault (o : LogOutcome) {x : PtyttyUnix} (hn : x.name ≠ none) (login : Bool)
    (hostname : Option CStr) : (x.logSession K o login hostname os).fault = os.fault := by
  unfold logSession
  split
  · contradiction
  · exact (logSessionFiles_quiet o _ login).2

/-- `login` checks the name. -/
theorem login_fault (o : LogOutcome) (pid : ℤ) (shell : Bool) (hostname : CStr) (x : PtyttyUnix) :
    (x.login K o pid shell hostname os).2.fault = os.fault := by
  unfold login
  split_ifs with hu hn
  · rfl
  · rfl
  · have hname : ({ x with cmdPid := pid, loginShell := some shell } : PtyttyUnix).name ≠ none :=
      fun h => hn (Or.inl h)
    exact logSession_fault K os o hname true _

theorem delete_fault (o : LogOutcome) {x : PtyttyUnix} (hn : x.cmdPid ≠ 0 → x.name ≠ none) :
    (x.delete K o os).fault = os.fault := by
  unfold delete
  dsimp only
  rw [(put_quiet x).2]
  split_ifs with hlog
  · exact logSession_fault K os o (hn hlog.2) false none
  · rfl

end Db

end PtyttyUnix

end Libptytty
