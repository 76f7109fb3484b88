import Libptytty.Lib.Machine
import Libptytty.Lib.JobControl
import Libptytty.Descriptors

/-!
# `make_controlling_tty`

`control_tty` of ptytty.C ignores what `setsid` and `TIOCSCTTY` return: it looks only whether
"/dev/tty" can be opened. Here any number of processes call it, a system call at a time, while they
fork, are moved to other groups, start sessions, get terminals elsewhere, give them up, have them
hung up, and exit.

`control_tty_honest`: a process that has not been made the leader of a group since its `fork` gets a
session of its own, and then the result is right: "/dev/tty" is the terminal of the object, or it
was not free. A leader of a group may be told so of a terminal that it had before.
-/

namespace Libptytty

open Machine JobControl CString

/-- The terminal that `tty` refers to. -/
def PtyttyUnix.terminal (x : PtyttyUnix) (d : Descs) : Option CStr :=
  x.tty.bind fun fd => match d.file fd with
    | .slave dev => some dev
    | _ => none

theorem PtyttyUnix.Ready.terminal_eq {x : PtyttyUnix} {d : Descs} (h : x.Ready d)
    (htty : x.tty.isSome) : x.terminal d = x.name := by
  obtain ⟨p, dev, -, hname, -, hslave⟩ := h
  obtain ⟨t, ht⟩ := Option.isSome_iff_exists.mp htty
  rw [PtyttyUnix.terminal, ht, Option.bind_some, (hslave t ht).2, hname]

/-- After a successful `get` it is the one of `name`. -/
theorem PtyttyUnix.terminal_get {cfg : Config} {K : Kernel} {o : GetOutcome} {x x' : PtyttyUnix}
    {os os' : Os cfg} (hx : x.Initial) (h : x.get K o os = (true, x', os')) :
    x'.terminal os'.descs = x'.name := by
  rcases get_moves (K := K) (o := o) hx os with ⟨os₁, hget, -⟩ | ⟨x₁, os₁, hget, hready, htty, -⟩
  · cases hget.symm.trans h
  · cases hget.symm.trans h
    exact hready.terminal_eq htty

namespace ControllingTty

variable {Tty : Type}

/-- A call of `control_tty` with what became of it. -/
structure Call (Tty : Type) where
  pid : ℕ
  /-- The terminal that `fd_tty` refers to. -/
  tty : Option Tty
  /-- The caller has been made the leader of a group since it was forked. -/
  led : Bool
  /-- `setsid` succeeded. -/
  newSession : Bool
  /-- `TIOCSCTTY` was not refused for another reason and found the terminal without a session. -/
  free : Bool
  /-- The last `open` was not refused for want of a descriptor. -/
  room : Bool
  /-- The terminal that "/dev/tty" was. -/
  opened : Option Tty

/-- `control_tty (tty) >= 0`. -/
def Call.result (c : Call Tty) : Bool := c.opened.isSome

/-- The next system call of a process, if it is in `control_tty`. -/
inductive Pc (Tty : Type)
  | idle
  | setsid (tty : Option Tty)
  | acquire (c : Call Tty)
  | openTty (c : Call Tty)
  | close

/-- The processes, the terminals that have been hung up and the calls that have a result. -/
structure World (Tty : Type) where
  sys : System Tty
  pc : ℕ → Pc Tty
  hung : Finset Tty
  calls : List (Call Tty)

def World.goto (w : World Tty) (p : ℕ) (pc : Pc Tty) : World Tty :=
  { w with pc := Function.update w.pc p pc }

/-- One process, the leader of a session without a terminal. -/
def World.initial : World Tty where
  sys := ⟨{1}, fun _ => ⟨1, 1, none, false⟩, fun _ => none, {1}⟩
  pc _ := .idle
  hung := ∅
  calls := []

/-- A system call with what it does not decide by itself. -/
inductive Act (Tty : Type)
  | fork (child : ℕ)
  | setpgid (g : ℕ)
  | setsid
  /-- Of other code than `control_tty`. -/
  | acquire (t : Tty) (shared : ℕ → Bool)
  | giveUp
  | exit
  | reap
  | hangup (t : Tty)
  | call (tty : Option Tty)
  /-- `TIOCSCTTY`, or the `open` of the slave by its name; `ok` unless it fails before it comes to
  sessions. -/
  | tiocsctty (ok : Bool) (shared : ℕ → Bool)
  | openTty (ok : Bool)
  | close

/-- `TIOCSCTTY` finds the terminal without a session. -/
def isFree (s : System Tty) (ok : Bool) (tty : Option Tty) : Bool :=
  match ok, tty with
  | true, some t => s.session t = none
  | _, _ => false

section Step

variable [DecidableEq Tty]

/-- `TIOCSCTTY` for a descriptor that need not be a terminal. -/
def tiocsctty (s : System Tty) (shared : ℕ → Bool) (p : ℕ) (ok : Bool) (tty : Option Tty) :
    System Tty :=
  match ok, tty with
  | true, some t => s.acquire shared p t
  | _, _ => s

/-- A step of a process that has not exited. A `setpgid` moves it, whoever makes the call. -/
def stepRunning (w : World Tty) (p : ℕ) (act : Act Tty) : Option (World Tty) :=
  match w.pc p, act with
  | _, .setpgid g =>
    if w.sys.CanJoin p g then some { w with sys := w.sys.setpgid p g } else none
  | _, .exit => some ({ w with sys := w.sys.exit p }.goto p .idle)
  | _, .hangup t => some { w with sys := w.sys.hangup t, hung := insert t w.hung }
  | .idle, .fork c =>
    if w.sys.Fresh c then some ({ w with sys := w.sys.fork p c }.goto c .idle) else none
  | .idle, .setsid => some { w with sys := (w.sys.setsid p).2 }
  | .idle, .acquire t shared => some { w with sys := w.sys.acquire shared p t }
  | .idle, .giveUp => some { w with sys := w.sys.giveUp p }
  -- `control_tty`
  | .idle, .call tty => some (w.goto p (.setsid tty))
  | .setsid tty, .setsid =>
    some ({ w with sys := (w.sys.setsid p).2 }.goto p
      (.acquire ⟨p, tty, p ∈ w.sys.led, (w.sys.setsid p).1, false, false, none⟩))
  | .acquire c, .tiocsctty ok shared =>
    some ({ w with sys := tiocsctty w.sys shared p ok c.tty }.goto p
      (.openTty { c with free := isFree w.sys ok c.tty }))
  | .openTty c, .openTty ok =>
    let c := { c with room := ok, opened := if ok then (w.sys.proc p).tty else none }
    some ({ w with calls := w.calls ++ [c] }.goto p (if c.result then .close else .idle))
  | .close, .close => some (w.goto p .idle)
  | _, _ => none

/-- One system call of the process `p`. -/
def step (w : World Tty) : ℕ × Act Tty → Option (World Tty)
  | (p, act) =>
    if p ∈ w.sys.alive then
      match (w.sys.proc p).exited, act with
      | true, .reap => some { w with sys := w.sys.reap p }
      | true, _ => none
      | false, act => stepRunning w p act
    else none

end Step

/-! ## What holds in every state -/

/-- The call is settled: a caller that led no group has a session of its own, and in one of those
"/dev/tty" is the terminal of the call, if that was free and has not been hung up. -/
structure Call.Honest (hung : Finset Tty) (c : Call Tty) : Prop where
  child : c.led = false → c.newSession
  own : c.newSession → ∀ t ∈ c.opened, c.tty = some t ∧ c.free
  gets : c.newSession → c.free → c.room → c.result ∨ ∃ t ∈ c.tty, t ∈ hung

/-- What a process in `control_tty` has, with `x` what the system knows of it. -/
def Pc.Fits (hung : Finset Tty) (p : ℕ) (x : Proc Tty) : Pc Tty → Prop
  | .acquire c => (c.led = false → c.newSession) ∧ (c.newSession → x.sid = p ∧ x.tty = none)
  | .openTty c => (c.led = false → c.newSession) ∧ (c.newSession → x.sid = p ∧
      (∀ t ∈ x.tty, c.tty = some t ∧ c.free) ∧
      (c.free → x.tty.isSome ∨ ∃ t ∈ c.tty, t ∈ hung))
  | _ => True

/-- The invariant. -/
structure Inv (w : World Tty) : Prop where
  valid : w.sys.Valid
  fits : ∀ p ∈ w.sys.alive, (w.pc p).Fits w.hung p (w.sys.proc p)
  honest : ∀ c ∈ w.calls, c.Honest w.hung

variable {w w' : World Tty} {p q : ℕ} {hung hung' : Finset Tty} {s : System Tty}
  {x x' : Proc Tty} {pc : Pc Tty} {c : Call Tty}

theorem inv_initial : Inv (World.initial : World Tty) := by
  refine ⟨⟨?_, ?_⟩, fun _ _ => trivial, ?_⟩
  · intro p hp
    obtain rfl := Finset.mem_singleton.mp hp
    exact ⟨by rintro t ⟨⟩, fun _ => rfl, fun _ => rfl, fun _ => Finset.mem_singleton_self 1⟩
  · rintro t n ⟨⟩
  · rintro c ⟨⟩

theorem Call.Honest.mono (h : c.Honest hung) (hsub : hung ⊆ hung') : c.Honest hung' :=
  ⟨h.child, h.own, fun hnew hfree hroom => (h.gets hnew hfree hroom).imp_right
    fun ⟨t, ht, hmem⟩ => ⟨t, ht, hsub hmem⟩⟩

/-- Only the leader of a session is looked at, and its terminal stays. -/
theorem Pc.Fits.mono (h : pc.Fits hung p x) (hx : x.sid = p → x'.sid = p ∧ x'.tty = x.tty) :
    pc.Fits hung p x' := by
  cases pc with
  | idle | setsid | close => trivial
  | acquire c =>
    refine ⟨h.1, fun hnew => ?_⟩
    obtain ⟨hsid, htty⟩ := h.2 hnew
    rw [(hx hsid).2]
    exact ⟨(hx hsid).1, htty⟩
  | openTty c =>
    refine ⟨h.1, fun hnew => ?_⟩
    obtain ⟨hsid, hrest⟩ := h.2 hnew
    rw [(hx hsid).2]
    exact ⟨(hx hsid).1, hrest⟩

@[simp] theorem goto_self (w : World Tty) (p : ℕ) (pc : Pc Tty) : (w.goto p pc).pc p = pc := by
  simp [World.goto]

theorem goto_of_ne (w : World Tty) (pc : Pc Tty) (h : q ≠ p) : (w.goto p pc).pc q = w.pc q := by
  simp [World.goto, h]

theorem Inv.goto (h : Inv w) (hpc : pc.Fits w.hung p (w.sys.proc p)) : Inv (w.goto p pc) := by
  refine ⟨h.valid, fun q hq => ?_, h.honest⟩
  by_cases hqp : q = p
  · subst hqp
    rwa [goto_self]
  · rw [goto_of_ne _ _ hqp]
    exact h.fits q hq

/-- A step that leaves to all but `p` what they have. -/
theorem Inv.step (h : Inv w) {s : System Tty} {calls : List (Call Tty)} (hv : s.Valid)
    (hmem : ∀ q ∈ s.alive, q = p ∨ q ∈ w.sys.alive)
    (hother : ∀ q ∈ w.sys.alive, q ≠ p → (w.sys.proc q).sid = q →
      (s.proc q).sid = q ∧ (s.proc q).tty = (w.sys.proc q).tty)
    (hp : p ∈ s.alive → pc.Fits w.hung p (s.proc p)) (hcalls : ∀ c ∈ calls, c.Honest w.hung) :
    Inv ({ w with sys := s, calls := calls }.goto p pc) := by
  refine ⟨hv, fun q hq => ?_, hcalls⟩
  by_cases hqp : q = p
  · subst hqp
    rw [goto_self]
    exact hp hq
  · rw [goto_of_ne _ _ hqp]
    have hold := (hmem q hq).resolve_left hqp
    exact (h.fits q hold).mono (hother q hold hqp)

/-- The process is where it was. -/
theorem Inv.sys (h : Inv w) {s : System Tty} (hv : s.Valid) (hmem : s.alive ⊆ w.sys.alive)
    (hother : ∀ q ∈ w.sys.alive, q ≠ p → (w.sys.proc q).sid = q →
      (s.proc q).sid = q ∧ (s.proc q).tty = (w.sys.proc q).tty)
    (hp : p ∈ s.alive → (w.pc p).Fits w.hung p (s.proc p)) : Inv { w with sys := s } := by
  have hgoto : ({ w with sys := s } : World Tty) =
      { w with sys := s, calls := w.calls }.goto p (w.pc p) := by
    simp [World.goto]
  rw [hgoto]
  exact h.step hv (fun q hq => .inr (hmem hq)) hother hp h.honest

/-- A system call of other code. -/
theorem Inv.outside (h : Inv w) {s : System Tty} (hpc : w.pc p = .idle) (hv : s.Valid)
    (hmem : s.alive = w.sys.alive)
    (hother : ∀ q, q ≠ p → (w.sys.proc q).sid = q → s.proc q = w.sys.proc q) :
    Inv { w with sys := s } := by
  refine h.sys (p := p) hv hmem.subset (fun q _ hne hsid => ?_) fun _ => ?_
  · rw [hother q hne hsid]
    exact ⟨hsid, rfl⟩
  · rw [hpc]
    trivial

theorem Inv.hangup [DecidableEq Tty] (h : Inv w) (t : Tty) :
    Inv { w with sys := w.sys.hangup t, hung := insert t w.hung } := by
  refine ⟨h.valid.hangup t, fun q hq => ?_,
    fun c hc => (h.honest c hc).mono (Finset.subset_insert t w.hung)⟩
  have hq' : q ∈ w.sys.alive := by rwa [System.hangup_alive] at hq
  have hfits := h.fits q hq'
  dsimp only at hfits ⊢
  cases hpc : w.pc q with
  | idle | setsid | close => trivial
  | acquire c =>
    rw [hpc] at hfits
    refine ⟨hfits.1, fun hnew => ?_⟩
    obtain ⟨hsid, htty⟩ := hfits.2 hnew
    rcases h.valid.hangup_proc hsid t with hsame | ⟨-, hlost⟩
    · rw [hsame]
      exact ⟨hsid, htty⟩
    · rw [hlost]
      exact ⟨hsid, rfl⟩
  | openTty c =>
    rw [hpc] at hfits
    refine ⟨hfits.1, fun hnew => ?_⟩
    obtain ⟨hsid, hown, hgets⟩ := hfits.2 hnew
    rcases h.valid.hangup_proc hsid t with hsame | ⟨htty, hlost⟩
    · rw [hsame]
      refine ⟨hsid, hown, fun hfree => (hgets hfree).imp_right ?_⟩
      rintro ⟨t', ht', hmem⟩
      exact ⟨t', ht', Finset.mem_insert_of_mem hmem⟩
    · -- its terminal is the one hung up
      rw [hlost]
      refine ⟨hsid, by rintro t' ⟨⟩, fun _ => .inr ⟨t, (hown t htty).1, ?_⟩⟩
      exact Finset.mem_insert_self t w.hung

/-! ## `control_tty` -/

/-- `setsid` fails only for a process that has been made the leader of a group. -/
theorem inv_setsid (h : Inv w) (hp : p ∈ w.sys.alive) (tty : Option Tty) :
    Inv ({ w with sys := (w.sys.setsid p).2 }.goto p
      (.acquire ⟨p, tty, p ∈ w.sys.led, (w.sys.setsid p).1, false, false, none⟩)) := by
  refine h.step (h.valid.setsid hp) (fun q hq => .inr ?_) (fun q hq hne hsid => ?_) (fun _ => ?_)
    h.honest
  · rwa [System.setsid_alive] at hq
  · rw [System.setsid_proc w.sys hne]
    exact ⟨hsid, rfl⟩
  · have hres : (w.sys.setsid p).1 = !decide (w.sys.Leads p) := by
      by_cases hlead : w.sys.Leads p <;> simp [System.setsid, hlead]
    refine ⟨fun hled => ?_, fun hnew => System.setsid_self fun hlead => ?_⟩
    · have hlead : ¬ w.sys.Leads p := fun hlead =>
        of_decide_eq_false hled (h.valid.led_of_leads hp hlead)
      simp [hres, hlead]
    · simp [hres, hlead] at hnew

theorem inv_openTty (h : Inv w) (hp : p ∈ w.sys.alive) (hpc : w.pc p = .openTty c) (ok : Bool)
    {pc : Pc Tty} (hpc' : pc = .close ∨ pc = .idle) :
    Inv ({ w with calls := w.calls ++ [{ c with
      room := ok, opened := if ok then (w.sys.proc p).tty else none }] }.goto p pc) := by
  have hfits := h.fits p hp
  rw [hpc] at hfits
  refine h.step h.valid (fun q hq => .inr hq) (fun q hq hne hsid => ⟨hsid, rfl⟩)
    (fun _ => ?_) (List.forall_mem_append.mpr ⟨h.honest, List.forall_mem_singleton.mpr ?_⟩)
  · rcases hpc' with rfl | rfl <;> trivial
  · refine ⟨hfits.1, fun hnew t ht => ?_, fun hnew hfree hroom => ?_⟩
    · obtain ⟨-, hown, -⟩ := hfits.2 hnew
      dsimp only at ht
      split_ifs at ht
      · exact hown t ht
      · cases ht
    · obtain ⟨-, -, hgets⟩ := hfits.2 hnew
      dsimp only at hroom
      rw [hroom]
      exact hgets hfree

/-- What is free is a terminal. -/
theorem isSome_of_isFree {ok : Bool} {tty : Option Tty} (h : isFree s ok tty) : tty.isSome := by
  unfold isFree at h
  split at h
  · rfl
  · cases h

section Step

variable [DecidableEq Tty] {act : Act Tty}

theorem valid_tiocsctty (h : s.Valid) (hp : p ∈ s.alive) (hex : (s.proc p).exited = false)
    (shared : ℕ → Bool) (ok : Bool) (tty : Option Tty) :
    (tiocsctty s shared p ok tty).Valid := by
  unfold tiocsctty
  split
  · exact h.acquire hp hex
  · exact h

theorem tiocsctty_alive (s : System Tty) (shared : ℕ → Bool) (p : ℕ) (ok : Bool)
    (tty : Option Tty) : (tiocsctty s shared p ok tty).alive = s.alive := by
  unfold tiocsctty
  split
  · exact System.acquire_alive s shared p _
  · rfl

theorem tiocsctty_proc (s : System Tty) (shared : ℕ → Bool) (ok : Bool) (tty : Option Tty)
    (hq : (s.proc q).sid = q) (hne : q ≠ p) :
    (tiocsctty s shared p ok tty).proc q = s.proc q := by
  unfold tiocsctty
  split
  · exact System.acquire_proc s shared p _ hq hne
  · rfl

/-- The leader of a new session gets the terminal exactly if that is free. -/
theorem tiocsctty_self (s : System Tty) (shared : ℕ → Bool) (ok : Bool) (tty : Option Tty)
    (hsid : (s.proc p).sid = p) (htty : (s.proc p).tty = none) :
    ((tiocsctty s shared p ok tty).proc p).sid = p ∧
      ((tiocsctty s shared p ok tty).proc p).tty = if isFree s ok tty then tty else none := by
  unfold tiocsctty isFree
  split
  · rename_i t
    obtain ⟨hsid', htty'⟩ := System.acquire_self s shared (t := t) hsid htty
    refine ⟨hsid', htty'.trans ?_⟩
    by_cases hses : s.session t = none <;> simp [hses]
  · exact ⟨hsid, by simpa using htty⟩

theorem inv_tiocsctty (h : Inv w) (hp : p ∈ w.sys.alive) (hex : (w.sys.proc p).exited = false)
    (hpc : w.pc p = .acquire c) (ok : Bool) (shared : ℕ → Bool) :
    Inv ({ w with sys := tiocsctty w.sys shared p ok c.tty }.goto p
      (.openTty { c with free := isFree w.sys ok c.tty })) := by
  have hfits := h.fits p hp
  rw [hpc] at hfits
  refine h.step (valid_tiocsctty h.valid hp hex shared ok c.tty) (fun q hq => .inr ?_)
    (fun q hq hne hsid => ?_) (fun _ => ⟨hfits.1, fun hnew => ?_⟩) h.honest
  · rwa [tiocsctty_alive] at hq
  · rw [tiocsctty_proc w.sys shared ok c.tty hsid hne]
    exact ⟨hsid, rfl⟩
  · obtain ⟨hsid, htty⟩ := hfits.2 hnew
    obtain ⟨hsid', htty'⟩ := tiocsctty_self w.sys shared ok c.tty hsid htty
    rw [htty']
    refine ⟨hsid', fun t ht => ?_, fun hfree => .inl ?_⟩
    · split_ifs at ht with hfree
      · exact ⟨ht, hfree⟩
      · cases ht
    · dsimp only at hfree
      rw [if_pos hfree]
      exact isSome_of_isFree hfree

/-! ## Runs -/

/-- The steps of a process that has not exited. -/
inductive Trans (w : World Tty) (p : ℕ) : Act Tty → World Tty → Prop
  | setpgid (g : ℕ) (hcan : w.sys.CanJoin p g) :
      Trans w p (.setpgid g) { w with sys := w.sys.setpgid p g }
  | exit : Trans w p .exit ({ w with sys := w.sys.exit p }.goto p .idle)
  | hangup (t : Tty) :
      Trans w p (.hangup t) { w with sys := w.sys.hangup t, hung := insert t w.hung }
  | fork (c : ℕ) (hfresh : w.sys.Fresh c) :
      Trans w p (.fork c) ({ w with sys := w.sys.fork p c }.goto c .idle)
  | setsid (hpc : w.pc p = .idle) : Trans w p .setsid { w with sys := (w.sys.setsid p).2 }
  | acquire (t : Tty) (shared : ℕ → Bool) (hpc : w.pc p = .idle) :
      Trans w p (.acquire t shared) { w with sys := w.sys.acquire shared p t }
  | giveUp (hpc : w.pc p = .idle) : Trans w p .giveUp { w with sys := w.sys.giveUp p }
  | call (tty : Option Tty) : Trans w p (.call tty) (w.goto p (.setsid tty))
  | callSetsid (tty : Option Tty) : Trans w p .setsid ({ w with sys := (w.sys.setsid p).2 }.goto p
      (.acquire ⟨p, tty, p ∈ w.sys.led, (w.sys.setsid p).1, false, false, none⟩))
  | tiocsctty (c : Call Tty) (ok : Bool) (shared : ℕ → Bool) (hpc : w.pc p = .acquire c) :
      Trans w p (.tiocsctty ok shared)
        ({ w with sys := ControllingTty.tiocsctty w.sys shared p ok c.tty }.goto p
          (.openTty { c with free := isFree w.sys ok c.tty }))
  | openTty (c : Call Tty) (ok : Bool) (pc : Pc Tty) (hpc : w.pc p = .openTty c)
      (hpc' : pc = .close ∨ pc = .idle) :
      Trans w p (.openTty ok) ({ w with calls := w.calls ++ [{ c with
        room := ok, opened := if ok then (w.sys.proc p).tty else none }] }.goto p pc)
  | close : Trans w p .close (w.goto p .idle)

theorem trans_of_stepRunning (hw : stepRunning w p act = some w') : Trans w p act w' := by
  cases act <;> cases hpc : w.pc p <;> simp only [stepRunning, hpc] at hw <;> try cases hw
  case call.idle.refl tty => exact .call tty
  case setsid.idle.refl => exact .setsid hpc
  case setsid.setsid.refl tty => exact .callSetsid tty
  case acquire.idle.refl t shared => exact .acquire t shared hpc
  case giveUp.idle.refl => exact .giveUp hpc
  case tiocsctty.acquire.refl ok shared c => exact .tiocsctty c ok shared hpc
  case openTty.openTty.refl ok c => exact .openTty c ok _ hpc (by split_ifs <;> simp)
  case close.close.refl => exact .close
  case fork.idle c =>
    split_ifs at hw with hfresh
    cases hw
    exact .fork c hfresh
  all_goals first
    | exact .exit
    | exact .hangup _
    | (split_ifs at hw with hcan
       cases hw
       exact .setpgid _ hcan)

/-- The step lemma for a process that has not exited. -/
theorem inv_trans (h : Inv w) (hp : p ∈ w.sys.alive) (hex : (w.sys.proc p).exited = false)
    (hw : Trans w p act w') : Inv w' := by
  cases hw with
  | setpgid g hcan =>
    have hsame : ∀ q, (w.sys.proc q).sid = q → ((w.sys.setpgid p g).proc q).sid = q ∧
        ((w.sys.setpgid p g).proc q).tty = (w.sys.proc q).tty := fun q hsid =>
      ⟨(System.setpgid_sid w.sys p g q).trans hsid, System.setpgid_tty w.sys p g q⟩
    exact h.sys (h.valid.setpgid hp hcan) (Finset.Subset.refl _) (fun q _ _ => hsame q)
      fun _ => (h.fits p hp).mono (hsame p)
  | exit =>
    refine h.step (h.valid.exit hp) (fun q hq => .inr ?_) (fun q _ hne hsid => ?_)
      (fun _ => trivial) h.honest
    · rwa [System.exit_alive] at hq
    · rw [System.exit_proc hsid hne]
      exact ⟨hsid, rfl⟩
  | hangup t => exact h.hangup t
  | fork c hfresh =>
    refine h.step (h.valid.fork hp hex hfresh) (fun q hq => Finset.mem_insert.mp hq)
      (fun q _ hne hsid => ?_) (fun _ => trivial) h.honest
    rw [System.fork_proc w.sys p hne]
    exact ⟨hsid, rfl⟩
  | setsid hpc =>
    exact h.outside hpc (h.valid.setsid hp) (System.setsid_alive w.sys p)
      fun q hne _ => System.setsid_proc w.sys hne
  | acquire t shared hpc =>
    exact h.outside hpc (h.valid.acquire hp hex) (System.acquire_alive w.sys shared p t)
      fun q hne hsid => System.acquire_proc w.sys shared p t hsid hne
  | giveUp hpc =>
    exact h.outside hpc (h.valid.giveUp hp) (System.giveUp_alive w.sys p)
      fun q hne hsid => System.giveUp_proc hsid hne
  | call tty => exact h.goto trivial
  | callSetsid tty => exact inv_setsid h hp tty
  | tiocsctty c ok shared hpc => exact inv_tiocsctty h hp hex hpc ok shared
  | openTty c ok pc hpc hpc' => exact inv_openTty h hp hpc ok hpc'
  | close => exact h.goto trivial

/-- A process that has exited is waited for; any other one makes a system call. -/
theorem cases_of_step (hw : step w (p, act) = some w') : p ∈ w.sys.alive ∧
    ((w.sys.proc p).exited = true ∧ w' = { w with sys := w.sys.reap p } ∨
      (w.sys.proc p).exited = false ∧ stepRunning w p act = some w') := by
  simp only [ControllingTty.step] at hw
  split_ifs at hw with hp
  refine ⟨hp, ?_⟩
  split at hw
  · rename_i hex
    cases hw
    exact .inl ⟨hex, rfl⟩
  · cases hw
  · rename_i hex
    exact .inr ⟨hex, hw⟩

/-- The step lemma. -/
theorem inv_step (h : Inv w) {a : ℕ × Act Tty} (hw : step w a = some w') : Inv w' := by
  obtain ⟨p, act⟩ := a
  obtain ⟨hp, ⟨hex, rfl⟩ | ⟨hex, hrun⟩⟩ := cases_of_step hw
  · exact h.sys (p := p) (h.valid.reap hp hex) (Finset.erase_subset p _)
      (fun q _ _ hsid => ⟨hsid, rfl⟩) fun _ => h.fits p hp
  · exact inv_trans h hp hex (trans_of_stepRunning hrun)

end Step

/-! ## Who has the terminal keeps it -/

/-- `p` is the leader of a session and has the terminal `t`. -/
def World.Controls (w : World Tty) (p : ℕ) (t : Tty) : Prop :=
  p ∈ w.sys.alive ∧ (w.sys.proc p).sid = p ∧ (w.sys.proc p).tty = some t

/-- The step is neither a hangup of the terminal nor one by which `p` gives it up. -/
def Spares (p : ℕ) (t : Tty) (a : ℕ × Act Tty) : Prop :=
  a ≠ (p, .exit) ∧ a ≠ (p, .giveUp) ∧ a.2 ≠ .hangup t

variable {t : Tty}

theorem Inv.controls_unique (h : Inv w) (hp : w.Controls p t) (hq : w.Controls q t) : p = q := by
  have hsp := (h.valid.fits p hp.1).held t hp.2.2
  have hsq := (h.valid.fits q hq.1).held t hq.2.2
  rw [hp.2.1] at hsp
  rw [hq.2.1] at hsq
  exact Option.some.inj (hsp.symm.trans hsq)

theorem World.Controls.of_eq (h : w.Controls p t) (hmem : p ∈ w'.sys.alive)
    (hproc : w'.sys.proc p = w.sys.proc p) : w'.Controls p t := by
  unfold World.Controls
  rw [hproc]
  exact ⟨hmem, h.2⟩

/-- It cannot start another session. -/
theorem setsid_controls (h : Inv w) (hc : w.Controls p t) (q : ℕ) :
    (w.sys.setsid q).2.proc p = w.sys.proc p := by
  by_cases hpq : p = q
  · subst hpq
    rw [System.setsid_of_leads (h.valid.leads_of_sid hc.1 hc.2.1)]
  · exact System.setsid_proc w.sys hpq

section Keep

variable [DecidableEq Tty]

/-- It cannot get another terminal. -/
theorem acquire_controls (hc : w.Controls p t) (q : ℕ) (shared : ℕ → Bool) (t' : Tty) :
    (w.sys.acquire shared q t').proc p = w.sys.proc p := by
  by_cases hpq : p = q
  · subst hpq
    rw [System.acquire_of_tty shared t' (by simp [hc.2.2])]
  · exact System.acquire_proc w.sys shared q t' hc.2.1 hpq

theorem tiocsctty_controls (hc : w.Controls p t) (q : ℕ) (shared : ℕ → Bool) (ok : Bool)
    (tty : Option Tty) : (tiocsctty w.sys shared q ok tty).proc p = w.sys.proc p := by
  unfold tiocsctty
  split
  · exact acquire_controls hc q shared _
  · rfl

theorem controls_step (h : Inv w) (hc : w.Controls p t) {a : ℕ × Act Tty} (ha : Spares p t a)
    (hw : step w a = some w') : w'.Controls p t := by
  obtain ⟨q, act⟩ := a
  obtain ⟨hexit, hgive, hhang⟩ := ha
  have ⟨hp, hsid, htty⟩ := hc
  obtain ⟨-, ⟨hex, rfl⟩ | ⟨-, hw⟩⟩ := cases_of_step hw
  · -- a process that has exited has no terminal
    have hne : p ≠ q := by
      rintro rfl
      exact absurd (((h.valid.fits p hp).exited hex).symm.trans htty) (by simp)
    exact ⟨Finset.mem_erase.mpr ⟨hne, hp⟩, hsid, htty⟩
  cases trans_of_stepRunning hw with
  | setpgid g hcan =>
    exact ⟨hp, (System.setpgid_sid w.sys q g p).trans hsid,
      (System.setpgid_tty w.sys q g p).trans htty⟩
  | exit =>
    have hne : p ≠ q := fun heq => hexit (heq ▸ rfl)
    exact hc.of_eq ((System.exit_alive w.sys q).symm ▸ hp) (System.exit_proc hsid hne)
  | hangup t' =>
    have hmem : p ∈ (w.sys.hangup t').alive := by rwa [System.hangup_alive]
    rcases h.valid.hangup_proc hsid t' with hsame | ⟨heq, -⟩
    · exact hc.of_eq hmem hsame
    · obtain rfl : t = t' := Option.some.inj (htty.symm.trans heq)
      exact absurd rfl hhang
  | fork c hfresh =>
    exact hc.of_eq (Finset.mem_insert_of_mem hp)
      (System.fork_proc w.sys q fun heq => hfresh.1 (heq ▸ hp))
  | setsid | callSetsid =>
    exact hc.of_eq ((System.setsid_alive w.sys q).symm ▸ hp) (setsid_controls h hc q)
  | acquire t' shared =>
    exact hc.of_eq ((System.acquire_alive w.sys shared q t').symm ▸ hp)
      (acquire_controls hc q shared t')
  | giveUp =>
    have hne : p ≠ q := fun heq => hgive (heq ▸ rfl)
    exact hc.of_eq ((System.giveUp_alive w.sys q).symm ▸ hp) (System.giveUp_proc hsid hne)
  | tiocsctty c ok shared =>
    exact hc.of_eq ((tiocsctty_alive w.sys shared q ok _).symm ▸ hp)
      (tiocsctty_controls hc q shared ok _)
  | call | openTty | close => exact hc

/-- In every run: a process that has not been made the leader of a group since its `fork` is told
rightly whether "/dev/tty" has become the terminal of the object, and it has if that belonged to no
session and has not been hung up. A terminal controls one session at most, and the leader of that
session keeps it until it exits, gives the terminal up or the terminal is hung up. -/
theorem control_tty_honest {as : List (ℕ × Act Tty)} (h : run step World.initial as = some w) :
    (∀ c ∈ w.calls, c.Honest w.hung) ∧
      (∀ p q t, w.Controls p t → w.Controls q t → p = q) ∧
      ∀ p t bs w', w.Controls p t → (∀ b ∈ bs, Spares p t b) → run step w bs = some w' →
        w'.Controls p t := by
  have hinv : Inv w := inv_of_run (fun _ _ _ hs hw => inv_step hs hw) inv_initial h
  refine ⟨hinv.honest, fun p q t => hinv.controls_unique, fun p t bs w' hc hbs hw' => ?_⟩
  have hok : Along step (fun _ b => Spares p t b) w bs := along_of_forall hbs w
  exact (inv_of_along (P := fun w => Inv w ∧ w.Controls p t)
    (fun _ _ _ hs hb hw => ⟨inv_step hs.1 hw, controls_step hs.1 hs.2 hb hw⟩) ⟨hinv, hc⟩ hok hw').2

/-- The child of a `fork` makes terminal 7 its own. -/
def childRun : List (ℕ × Act ℕ) :=
  [(1, .fork 2), (2, .call (some 7)), (2, .setsid), (2, .tiocsctty true fun _ => false),
    (2, .openTty true)]

theorem control_tty_child : ∃ w, run step World.initial childRun = some w ∧
    w.calls.map Call.result = [true] ∧ ∀ c ∈ w.calls, c.Honest w.hung :=
  ⟨_, rfl, rfl, (control_tty_honest (show run step World.initial childRun = some _ from rfl)).1⟩

/-- A session leader with the terminal 0 is told that it has terminal 7. -/
example : (run step World.initial [(1, .acquire 0 fun _ => false), (1, .call (some 7)),
    (1, .setsid), (1, .tiocsctty true fun _ => false), (1, .openTty true)]).map
      (fun w => w.calls.map fun c => (c.result, c.tty, c.opened)) =
    some [(true, some 7, some 0)] := by decide

end Keep

end ControllingTty

end Libptytty
