import Mathlib

/-!
# Sessions and controlling terminals

The part of POSIX job control that decides what "/dev/tty" stands for. A process is in a process
group and in a session and has at most one controlling terminal; a terminal belongs to at most one
session, whose leader got it.

When the leader of a session gets a terminal, some systems give it to all members of the session
and others to those forked later: `shared` says which members get it. A process stays in `alive`
until it is waited for, so that its numbers are not given away before.
-/

namespace JobControl

/-- A process. -/
structure Proc (Tty : Type*) where
  pgid : ℕ
  sid : ℕ
  tty : Option Tty
  exited : Bool

/-- The processes, the sessions of the terminals, and the processes that have been made the leader
of a group since they were forked. -/
structure System (Tty : Type*) where
  alive : Finset ℕ
  proc : ℕ → Proc Tty
  session : Tty → Option ℕ
  led : Finset ℕ

namespace System

variable {Tty : Type*}

/-! ## Calls -/

/-- Another value for one process. -/
def set (s : System Tty) (p : ℕ) (x : Proc Tty) : System Tty :=
  { s with proc := Function.update s.proc p x }

/-- `p` is the number of a process group. -/
def Leads (s : System Tty) (p : ℕ) : Prop := ∃ q ∈ s.alive, (s.proc q).pgid = p

instance (s : System Tty) (p : ℕ) : Decidable (s.Leads p) := by unfold Leads; infer_instance

/-- `c` is not the number of a process, a group or a session. -/
def Fresh (s : System Tty) (c : ℕ) : Prop :=
  c ∉ s.alive ∧ ∀ q ∈ s.alive, (s.proc q).pgid ≠ c ∧ (s.proc q).sid ≠ c

instance (s : System Tty) (c : ℕ) : Decidable (s.Fresh c) := by unfold Fresh; infer_instance

/-- `fork` by `p`: the child has the group, the session and the terminal. -/
def fork (s : System Tty) (p c : ℕ) : System Tty :=
  { s.set c (s.proc p) with alive := insert c s.alive, led := s.led.erase c }

/-- `setpgid (p, g)` is possible: for a new group or one of the session, and no session leader. -/
def CanJoin (s : System Tty) (p g : ℕ) : Prop :=
  (s.proc p).sid ≠ p ∧
    (g = p ∨ ∃ r ∈ s.alive, (s.proc r).pgid = g ∧ (s.proc r).sid = (s.proc p).sid)

instance (s : System Tty) (p g : ℕ) : Decidable (s.CanJoin p g) := by
  unfold CanJoin; infer_instance

/-- `setpgid (p, g)`. -/
def setpgid (s : System Tty) (p g : ℕ) : System Tty :=
  { s.set p { s.proc p with pgid := g } with led := if g = p then insert p s.led else s.led }

/-- `setsid`: whether it succeeds, and the processes after it. -/
def setsid (s : System Tty) (p : ℕ) : Bool × System Tty :=
  if s.Leads p then (false, s)
  else
    (true, { s.set p { s.proc p with pgid := p, sid := p, tty := none } with
      led := insert p s.led })

/-- Session `n` loses its terminal. -/
def disassociate (s : System Tty) (n : ℕ) : System Tty :=
  { s with
    proc := fun q => if (s.proc q).sid = n then { s.proc q with tty := none } else s.proc q
    session := fun t => if s.session t = some n then none else s.session t }

/-- `TIOCNOTTY`: a session leader gives the terminal up for its session, another process for
itself. -/
def giveUp (s : System Tty) (p : ℕ) : System Tty :=
  if (s.proc p).sid = p then s.disassociate p else s.set p { s.proc p with tty := none }

/-- `_exit`. -/
def exit (s : System Tty) (p : ℕ) : System Tty :=
  (s.giveUp p).set p { (s.giveUp p).proc p with exited := true }

/-- The parent waits for `p`. -/
def reap (s : System Tty) (p : ℕ) : System Tty := { s with alive := s.alive.erase p }

/-- The terminal is hung up. -/
def hangup (s : System Tty) (t : Tty) : System Tty :=
  match s.session t with
  | none => s
  | some n => s.disassociate n

/-- The condition under which a process gets the terminal. -/
def CanAcquire (s : System Tty) (p : ℕ) (t : Tty) : Prop :=
  (s.proc p).sid = p ∧ (s.proc p).tty = none ∧ s.session t = none

instance [DecidableEq Tty] (s : System Tty) (p : ℕ) (t : Tty) : Decidable (s.CanAcquire p t) := by
  unfold CanAcquire; infer_instance

/-- `p` is given the terminal, with other members of its session. -/
def Gets (s : System Tty) (shared : ℕ → Bool) (p q : ℕ) : Prop :=
  q = p ∨ (s.proc q).sid = p ∧ shared q ∧ (s.proc q).exited = false

instance (s : System Tty) (shared : ℕ → Bool) (p q : ℕ) : Decidable (s.Gets shared p q) := by
  unfold Gets; infer_instance

/-- `TIOCSCTTY`, and `open` without `O_NOCTTY`: the leader of a session without a terminal gets one
that belongs to no session. -/
def acquire [DecidableEq Tty] (s : System Tty) (shared : ℕ → Bool) (p : ℕ) (t : Tty) :
    System Tty :=
  if s.CanAcquire p t then
    { s with
      proc := fun q => if s.Gets shared p q then { s.proc q with tty := some t } else s.proc q
      session := Function.update s.session t (some p) }
  else s

/-! ## The invariant -/

/-- What holds of a process: its terminal belongs to its session, the leader of a session leads its
group, and the leader of its group has been made one. -/
structure Fits (s : System Tty) (p : ℕ) (x : Proc Tty) : Prop where
  held : ∀ t ∈ x.tty, s.session t = some x.sid
  leader : x.sid = p → x.pgid = p
  exited : x.exited → x.tty = none
  led : x.pgid ∈ s.alive → x.pgid ∈ s.led

/-- The session of a terminal has a leader, which has the terminal. -/
structure Valid (s : System Tty) : Prop where
  fits : ∀ p ∈ s.alive, s.Fits p (s.proc p)
  owned : ∀ t, ∀ n ∈ s.session t, n ∈ s.alive ∧ (s.proc n).sid = n ∧ (s.proc n).tty = some t

variable {s : System Tty} {p q c g n : ℕ} {t : Tty} {shared : ℕ → Bool} {x : Proc Tty}

@[simp] theorem set_self (s : System Tty) (p : ℕ) (x : Proc Tty) : (s.set p x).proc p = x := by
  simp [set]

@[simp] theorem set_of_ne (s : System Tty) (x : Proc Tty) (h : q ≠ p) :
    (s.set p x).proc q = s.proc q := by
  simp [set, h]

/-- A process that leads a group has been made a leader. -/
theorem Valid.led_of_leads (h : s.Valid) (hp : p ∈ s.alive) (hlead : s.Leads p) : p ∈ s.led := by
  obtain ⟨q, hq, rfl⟩ := hlead
  exact (h.fits q hq).led hp

/-- The leader of a session leads a group. -/
theorem Valid.leads_of_sid (h : s.Valid) (hp : p ∈ s.alive) (hsid : (s.proc p).sid = p) :
    s.Leads p := ⟨p, hp, (h.fits p hp).leader hsid⟩

theorem Valid.fork (h : s.Valid) (hp : p ∈ s.alive) (hex : (s.proc p).exited = false)
    (hc : s.Fresh c) : (s.fork p c).Valid := by
  obtain ⟨hnew, hfree⟩ := hc
  have hold : ∀ q ∈ s.alive, (s.fork p c).proc q = s.proc q :=
    fun q hq => set_of_ne s _ fun heq => hnew (heq ▸ hq)
  have hled : ∀ q ∈ s.alive, (s.proc q).pgid ∈ insert c s.alive → (s.proc q).pgid ∈ s.led.erase c :=
    fun q hq hin => Finset.mem_erase.mpr ⟨(hfree q hq).1, (h.fits q hq).led
      ((Finset.mem_insert.mp hin).resolve_left (hfree q hq).1)⟩
  refine ⟨fun q hq => ?_, fun t n hn => ?_⟩
  · rcases Finset.mem_insert.mp hq with rfl | hq
    · -- the child is a copy of its parent
      rw [System.fork, set_self]
      exact ⟨(h.fits p hp).held, fun hsid => absurd hsid (hfree p hp).2,
        fun hx => absurd (hex.symm.trans hx) (by decide), hled p hp⟩
    · rw [hold q hq]
      exact ⟨(h.fits q hq).held, (h.fits q hq).leader, (h.fits q hq).exited, hled q hq⟩
  · obtain ⟨hn, hsid, htty⟩ := h.owned t n hn
    rw [hold n hn]
    exact ⟨Finset.mem_insert_of_mem hn, hsid, htty⟩

/-- Another value for a process that is no session leader, and more leaders of groups. -/
theorem Valid.set (h : s.Valid) (hp : ∀ t, s.session t ≠ some p) {led : Finset ℕ}
    (hled : s.led ⊆ led) (hx : ({ s with led := led } : System Tty).Fits p x) :
    ({ s.set p x with led := led } : System Tty).Valid := by
  refine ⟨fun q hq => ?_, fun t n hn => ?_⟩
  · by_cases hqp : q = p
    · subst hqp
      have hself : ({ s.set q x with led := led } : System Tty).proc q = x := set_self s q x
      rw [hself]
      exact ⟨hx.held, hx.leader, hx.exited, hx.led⟩
    · have hold : ({ s.set p x with led := led } : System Tty).proc q = s.proc q :=
        set_of_ne s x hqp
      rw [hold]
      have hfits := h.fits q hq
      exact ⟨hfits.held, hfits.leader, hfits.exited, fun hin => hled (hfits.led hin)⟩
  · have hold : ({ s.set p x with led := led } : System Tty).proc n = s.proc n :=
      set_of_ne s x fun heq => hp t (heq ▸ hn)
    rw [hold]
    exact h.owned t n hn

theorem Valid.setpgid (h : s.Valid) (hp : p ∈ s.alive) (hg : s.CanJoin p g) :
    (s.setpgid p g).Valid := by
  obtain ⟨hsid, hjoin⟩ := hg
  have hfits := h.fits p hp
  have hsub : s.led ⊆ if g = p then insert p s.led else s.led := by
    split_ifs
    · exact Finset.subset_insert p s.led
    · exact Finset.Subset.refl _
  refine h.set (fun t ht => hsid (h.owned t p ht).2.1) hsub
    ⟨hfits.held, fun heq => absurd heq hsid, hfits.exited, fun hin => ?_⟩
  -- the group is new, with `p` its leader, or there is someone in it
  rcases hjoin with rfl | ⟨r, hr, rfl, -⟩
  · simp
  · exact hsub ((h.fits r hr).led hin)

theorem Valid.setsid (h : s.Valid) (hp : p ∈ s.alive) : (s.setsid p).2.Valid := by
  unfold System.setsid
  split_ifs with hlead
  · exact h
  · -- a session leader leads its group, so the old sessions keep their leaders
    refine h.set (fun t ht => hlead (h.leads_of_sid hp (h.owned t p ht).2.1))
      (Finset.subset_insert p s.led) ⟨?_, fun _ => rfl, fun _ => rfl, fun _ => ?_⟩
    · intro t ht
      cases ht
    · exact Finset.mem_insert_self p s.led

theorem Valid.disassociate (h : s.Valid) (n : ℕ) : (s.disassociate n).Valid := by
  refine ⟨fun q hq => ?_, fun t m hm => ?_⟩
  · have hfits := h.fits q hq
    by_cases hsid : (s.proc q).sid = n
    · have hproc : (s.disassociate n).proc q = { s.proc q with tty := none } := if_pos hsid
      rw [hproc]
      exact ⟨by rintro t ⟨⟩, hfits.leader, fun _ => rfl, hfits.led⟩
    · have hproc : (s.disassociate n).proc q = s.proc q := if_neg hsid
      rw [hproc]
      refine ⟨fun t ht => ?_, hfits.leader, hfits.exited, hfits.led⟩
      have hses := hfits.held t ht
      have hne : s.session t ≠ some n := fun h' => hsid (Option.some.inj (hses.symm.trans h'))
      exact (if_neg hne).trans hses
  · have hm' : (if s.session t = some n then none else s.session t) = some m := hm
    split_ifs at hm' with hses
    obtain ⟨halive, hsid, htty⟩ := h.owned t m hm'
    have hne : (s.proc m).sid ≠ n := fun heq => hses (hm'.trans (by rw [← hsid, heq]))
    have hproc : (s.disassociate n).proc m = s.proc m := if_neg hne
    rw [hproc]
    exact ⟨halive, hsid, htty⟩

theorem Valid.giveUp (h : s.Valid) (hp : p ∈ s.alive) : (s.giveUp p).Valid := by
  unfold System.giveUp
  split_ifs with hsid
  · exact h.disassociate p
  · have hfits := h.fits p hp
    refine h.set (fun t ht => hsid (h.owned t p ht).2.1) (Finset.Subset.refl s.led)
      ⟨?_, hfits.leader, fun _ => rfl, hfits.led⟩
    intro t ht
    cases ht

/-- After giving it up the process has no terminal, and no session is its own. -/
theorem giveUp_tty (s : System Tty) (p : ℕ) : ((s.giveUp p).proc p).tty = none := by
  unfold System.giveUp
  split_ifs with hsid
  · simp [System.disassociate, hsid]
  · simp

@[simp] theorem giveUp_alive (s : System Tty) (p : ℕ) : (s.giveUp p).alive = s.alive := by
  unfold System.giveUp
  split_ifs <;> rfl

theorem Valid.exit (h : s.Valid) (hp : p ∈ s.alive) : (s.exit p).Valid := by
  have hgive := h.giveUp hp
  have hp' : p ∈ (s.giveUp p).alive := by rwa [giveUp_alive]
  have hfits := hgive.fits p hp'
  refine hgive.set (fun t ht => ?_) (Finset.Subset.refl _)
    ⟨hfits.held, hfits.leader, fun _ => giveUp_tty s p, hfits.led⟩
  have htty := (hgive.owned t p ht).2.2
  rw [giveUp_tty] at htty
  cases htty

theorem Valid.reap (h : s.Valid) (hp : p ∈ s.alive) (hex : (s.proc p).exited = true) :
    (s.reap p).Valid := by
  refine ⟨fun q hq => ?_, fun t n hn => ?_⟩
  · have hfits := h.fits q (Finset.mem_of_mem_erase hq)
    exact ⟨hfits.held, hfits.leader, hfits.exited,
      fun hin => hfits.led (Finset.mem_of_mem_erase hin)⟩
  · obtain ⟨halive, hsid, htty⟩ := h.owned t n hn
    refine ⟨Finset.mem_erase.mpr ⟨?_, halive⟩, hsid, htty⟩
    rintro rfl
    exact absurd (((h.fits n hp).exited hex).symm.trans htty) (by simp)

theorem Valid.hangup (h : s.Valid) (t : Tty) : (s.hangup t).Valid := by
  unfold System.hangup
  split
  · exact h
  · exact h.disassociate _

theorem Valid.acquire [DecidableEq Tty] (h : s.Valid) (hp : p ∈ s.alive)
    (hex : (s.proc p).exited = false) : (s.acquire shared p t).Valid := by
  unfold System.acquire
  split_ifs with hcan
  swap
  · exact h
  obtain ⟨hsid, htty, hses⟩ := hcan
  refine ⟨fun q hq => ?_, fun t' n hn => ?_⟩
  · have hfits := h.fits q hq
    dsimp only
    split_ifs with hget
    · refine ⟨?_, hfits.leader, ?_, hfits.led⟩
      · rintro t' ⟨⟩
        have hq : (s.proc q).sid = p := by
          rcases hget with rfl | hget
          · exact hsid
          · exact hget.1
        simp [hq]
      · intro hx
        rcases hget with rfl | hget
        · exact absurd (hex.symm.trans hx) (by decide)
        · exact absurd (hget.2.2.symm.trans hx) (by decide)
    · refine ⟨fun t' ht' => ?_, hfits.leader, hfits.exited, hfits.led⟩
      have hold := hfits.held t' ht'
      have hne : t' ≠ t := by
        rintro rfl
        exact absurd (hses.symm.trans hold) (by simp)
      exact (Function.update_of_ne hne _ _).trans hold
  · dsimp only at hn ⊢
    by_cases ht : t' = t
    · subst ht
      rw [Function.update_self] at hn
      obtain rfl : p = n := Option.some.inj hn
      exact ⟨hp, by simp [Gets, hsid], by simp [Gets]⟩
    · rw [Function.update_of_ne ht] at hn
      obtain ⟨halive, hn', htty'⟩ := h.owned t' n hn
      -- the leader of another session gets nothing
      have hne : n ≠ p := by
        rintro rfl
        exact absurd (htty.symm.trans htty') (by simp)
      have hget : ¬ s.Gets shared p n := fun hget => hget.elim hne fun hget =>
        hne (hn'.symm.trans hget.1)
      rw [if_neg hget]
      exact ⟨halive, hn', htty'⟩

@[simp] theorem setsid_alive (s : System Tty) (p : ℕ) : (s.setsid p).2.alive = s.alive := by
  unfold System.setsid
  split_ifs <;> rfl

@[simp] theorem exit_alive (s : System Tty) (p : ℕ) : (s.exit p).alive = s.alive :=
  giveUp_alive s p

@[simp] theorem hangup_alive (s : System Tty) (t : Tty) : (s.hangup t).alive = s.alive := by
  unfold System.hangup
  split <;> rfl

@[simp] theorem acquire_alive [DecidableEq Tty] (s : System Tty) (shared : ℕ → Bool) (p : ℕ)
    (t : Tty) : (s.acquire shared p t).alive = s.alive := by
  unfold System.acquire
  split_ifs <;> rfl

/-! ## What becomes of the leader of a session -/

theorem fork_proc (s : System Tty) (p : ℕ) (h : q ≠ c) : (s.fork p c).proc q = s.proc q :=
  set_of_ne s _ h

theorem setpgid_sid (s : System Tty) (p g q : ℕ) :
    ((s.setpgid p g).proc q).sid = (s.proc q).sid := by
  by_cases h : q = p <;> simp [System.setpgid, h]

theorem setpgid_tty (s : System Tty) (p g q : ℕ) :
    ((s.setpgid p g).proc q).tty = (s.proc q).tty := by
  by_cases h : q = p <;> simp [System.setpgid, h]

theorem setsid_proc (s : System Tty) (h : q ≠ p) : (s.setsid p).2.proc q = s.proc q := by
  unfold System.setsid
  split_ifs
  · rfl
  · exact set_of_ne s _ h

theorem setsid_of_leads (h : s.Leads p) : s.setsid p = (false, s) := if_pos h

/-- A process that leads no group gets a session of its own, and loses its terminal. -/
theorem setsid_self (h : ¬ s.Leads p) : ((s.setsid p).2.proc p).sid = p ∧
    ((s.setsid p).2.proc p).tty = none := by
  simp [System.setsid, h]

/-- Nobody else gives up the terminal of a session. -/
theorem giveUp_proc (hq : (s.proc q).sid = q) (h : q ≠ p) : (s.giveUp p).proc q = s.proc q := by
  unfold System.giveUp
  split_ifs
  · exact if_neg fun heq => h (hq.symm.trans heq)
  · exact set_of_ne s _ h

theorem exit_proc (hq : (s.proc q).sid = q) (h : q ≠ p) : (s.exit p).proc q = s.proc q :=
  (set_of_ne _ _ h).trans (giveUp_proc hq h)

/-- Nobody else gets a terminal for the session. -/
theorem acquire_proc [DecidableEq Tty] (s : System Tty) (shared : ℕ → Bool) (p : ℕ) (t : Tty)
    (hq : (s.proc q).sid = q) (h : q ≠ p) : (s.acquire shared p t).proc q = s.proc q := by
  unfold System.acquire
  split_ifs
  · exact if_neg fun hget => hget.elim h fun hget => h (hq.symm.trans hget.1)
  · rfl

theorem acquire_of_tty [DecidableEq Tty] (shared : ℕ → Bool) (t : Tty)
    (h : (s.proc p).tty ≠ none) : s.acquire shared p t = s := if_neg fun hcan => h hcan.2.1

/-- The leader of a session without a terminal gets one that belongs to no session. -/
theorem acquire_self [DecidableEq Tty] (s : System Tty) (shared : ℕ → Bool)
    (hsid : (s.proc p).sid = p) (htty : (s.proc p).tty = none) :
    ((s.acquire shared p t).proc p).sid = p ∧
      ((s.acquire shared p t).proc p).tty = if s.session t = none then some t else none := by
  unfold System.acquire
  by_cases hses : s.session t = none
  · rw [if_pos ⟨hsid, htty, hses⟩, if_pos hses]
    simp [Gets, hsid]
  · rw [if_neg fun hcan => hses hcan.2.2, if_neg hses]
    exact ⟨hsid, htty⟩

/-- A hangup takes a terminal from the leader of a session only if it is the one hung up. -/
theorem Valid.hangup_proc (h : s.Valid) (hq : (s.proc q).sid = q) (t : Tty) :
    (s.hangup t).proc q = s.proc q ∨
      (s.proc q).tty = some t ∧ (s.hangup t).proc q = { s.proc q with tty := none } := by
  unfold System.hangup
  split
  · exact .inl rfl
  · rename_i n hn
    by_cases hqn : q = n
    · subst hqn
      exact .inr ⟨(h.owned t q hn).2.2, if_pos hq⟩
    · exact .inl (if_neg fun heq => hqn (hq.symm.trans heq))

end System

end JobControl
