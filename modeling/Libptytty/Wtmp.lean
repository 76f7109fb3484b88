import Mathlib
import Libptytty.Lib.Machine
import Libptytty.Lib.RangeLocks

/-!
# Appending to wtmp

`updwtmp` of logging.C, run by any number of processes on one file. Every system call is a step of
its own. The lock covers the file from its end on; a range that starts at the end of file starts
where the end is when the call is made, and the record that has just been appended stays locked
until the file is closed.

The outcome of a system call is part of the action. `F_SETLK` succeeds only without a conflict and
may fail at any time, `write` appends any number of bytes, and `ftruncate` succeeds.

`updwtmp_atomic`: at most one process is past its lock (`Inv.unique`), so whatever follows the whole
records is the beginning of its record.
-/

namespace Libptytty.Wtmp

open Machine RangeLocks

/-- A call of `updwtmp`: its process, and the calls that the process has made before it. -/
abbrev CallId := ℕ × ℕ

/-- A byte of the file and, as history, the call that wrote it. -/
abbrev Cell := UInt8 × Option CallId

/-- The next system call of a process. -/
inductive Pc
  | openFile
  | setLock (retry : ℕ)
  | fstat
  | write (size : ℕ)
  | ftruncate (size : ℕ)
  | unlock
  | close
  deriving DecidableEq

structure Proc where
  pc : Pc
  /-- History: the calls it has finished. -/
  calls : ℕ

structure World where
  file : List Cell
  locks : List (Lock ℕ)
  procs : ℕ → Proc
  /-- The record that a call has been given. -/
  ut : CallId → List UInt8
  /-- History: the calls whose `write` was complete. -/
  written : List CallId

namespace World

def initial (init : List UInt8) : World :=
  ⟨init.map fun b => (b, none), [], fun _ => ⟨.openFile, 0⟩, fun _ => [], []⟩

/-- The call that a process is in, or makes next. -/
def current (w : World) (p : ℕ) : CallId := (p, (w.procs p).calls)

/-- The record of a call, as bytes of the file. -/
def record (w : World) (c : CallId) : List Cell := (w.ut c).map fun b => (b, some c)

def goto (w : World) (p : ℕ) (pc : Pc) : World :=
  { w with procs := Function.update w.procs p { w.procs p with pc := pc } }

/-- The call returns. -/
def return_ (w : World) (p : ℕ) : World :=
  { w with procs := Function.update w.procs p ⟨.openFile, (w.procs p).calls + 1⟩ }

end World

inductive LockAnswer
  | granted
  /-- `EAGAIN` or `EACCES`. -/
  | refused
  | failed

/-- A system call with its outcome. -/
inductive Act
  | openFile (ok : Bool) (ut : List UInt8)
  | setLock (answer : LockAnswer)
  | fstat (ok : Bool)
  /-- The bytes written; `none` is -1. -/
  | write (n : Option ℕ)
  | ftruncate
  | unlock (ok : Bool)
  | close

/-- One system call of the process `p`; `size` is `sizeof (struct utmp)`. -/
def step (size : ℕ) (w : World) : ℕ × Act → Option World
  | (p, act) => match (w.procs p).pc, act with
    | .openFile, .openFile ok ut =>
      if ut.length = size then
        let w := { w with ut := Function.update w.ut (w.current p) ut }
        some (if ok then w.goto p (.setLock 9) else w.return_ p)
      else none
    | .setLock retry, .setLock answer => match answer with
      | .granted => (set w.locks p w.file.length).map fun t => { w with locks := t }.goto p .fstat
      | .refused => some (w.goto p (if retry = 0 then .close else .setLock (retry - 1)))
      | .failed => some (w.goto p .close)
    | .fstat, .fstat ok => some (w.goto p (if ok then .write w.file.length else .unlock))
    | .write st, .write n => match n with
      | none => some (w.goto p (.ftruncate st))
      | some n =>
        if n ≤ size then
          let w := { w with file := w.file ++ (w.record (w.current p)).take n }
          some (if n = size then { w with written := w.written ++ [w.current p] }.goto p .unlock
            else w.goto p (.ftruncate st))
        else none
    | .ftruncate st, .ftruncate =>
      -- a file that is shorter would be filled up with NULs
      some ({ w with
        file := w.file.take st ++ List.replicate (st - w.file.length) (0, none) }.goto p .unlock)
    | .unlock, .unlock ok =>
      some ((if ok then { w with locks := clear w.locks p w.file.length } else w).goto p .close)
    | .close, .close => some ({ w with locks := drop w.locks p }.return_ p)
    | _, _ => none

/-! ## What has to hold -/

/-- The initial content and the records that have been written whole. -/
def World.stable (w : World) (init : List UInt8) : List Cell :=
  (init.map fun b => (b, none)) ++ w.written.flatMap w.record

/-- The file is its initial content, whole records, and the beginning of a record by the process
that holds the lock over the end of file. A finished call has contributed its record once if its
`write` was complete, and else no byte of it. -/
structure AllOrNothing (size : ℕ) (init : List UInt8) (w : World) : Prop where
  content : ∃ rest, w.file = w.stable init ++ rest ∧ (rest = [] ∨ ∃ p k, k < size ∧
    rest = (w.record (w.current p)).take k ∧ ∀ i, w.file.length ≤ i → Covers w.locks p i)
  whole : ∀ c ∈ w.written, (w.ut c).length = size
  finished : ∀ p c, c < (w.procs p).calls → (w.file.filter fun b => b.2 = some (p, c)) =
    if (p, c) ∈ w.written then w.record (p, c) else []

/-- A step of `p` appends bytes of its own record, takes some of these back from the end, or leaves
the file alone. -/
def OwnBytes (w : World) (p : ℕ) (w' : World) : Prop :=
  w'.file = w.file ∨ (∃ k, w'.file = w.file ++ (w.record (w.current p)).take k) ∨
    ∃ k, w.file = w'.file ++ (w.record (w.current p)).take k

/-- `written` gets the call whose `write` is complete, and no other. -/
def CountsWhole (size : ℕ) (w : World) (a : ℕ × Act) (w' : World) : Prop :=
  (a.2 = .write (some size) → w'.written = w.written ++ [w.current a.1]) ∧
    (a.2 ≠ .write (some size) → w'.written = w.written)

/-! ## Steps by what they change -/

/-- Between the lock and its release. -/
def Pc.Inside : Pc → Prop
  | .fstat | .write _ | .ftruncate _ | .unlock => True
  | _ => False

/-- The state after a step of `p`, without the names of the outcomes. -/
inductive Trans (size : ℕ) (w : World) (p : ℕ) : World → Prop
  | start (ut : List UInt8) (hpc : (w.procs p).pc = .openFile) (hut : ut.length = size) :
    Trans size w p ({ w with ut := Function.update w.ut (w.current p) ut }.goto p (.setLock 9))
  | startFailed (ut : List UInt8) (hpc : (w.procs p).pc = .openFile) :
    Trans size w p ({ w with ut := Function.update w.ut (w.current p) ut }.return_ p)
  | lock (retry : ℕ) (t : List (Lock ℕ)) (hpc : (w.procs p).pc = .setLock retry)
    (ht : set w.locks p w.file.length = some t) :
    Trans size w p ({ w with locks := t }.goto p .fstat)
  | noLock (retry : ℕ) (pc : Pc) (hpc : (w.procs p).pc = .setLock retry)
    (hnext : ¬ pc.Inside ∧ pc ≠ .openFile) : Trans size w p (w.goto p pc)
  | stat (pc : Pc) (hpc : (w.procs p).pc = .fstat)
      (hnext : pc = .write w.file.length ∨ pc = .unlock) :
    Trans size w p (w.goto p pc)
  | writeBad (st k : ℕ) (hpc : (w.procs p).pc = .write st) (hk : k = 0 ∨ k < size) :
    Trans size w p ({ w with file := w.file ++ (w.record (w.current p)).take k }.goto p
      (.ftruncate st))
  | writeWhole (st : ℕ) (hpc : (w.procs p).pc = .write st) :
    Trans size w p ({ w with file := w.file ++ (w.record (w.current p)).take size,
                             written := w.written ++ [w.current p] }.goto p .unlock)
  | truncate (st : ℕ) (hpc : (w.procs p).pc = .ftruncate st) :
    Trans size w p ({ w with
      file := w.file.take st ++ List.replicate (st - w.file.length) (0, none) }.goto p .unlock)
  | unlock (t : List (Lock ℕ)) (hpc : (w.procs p).pc = .unlock)
      (ht : Exclusive w.locks → Exclusive t)
    (hothers : ∀ q i, q ≠ p → Covers w.locks q i → Covers t q i) :
    Trans size w p ({ w with locks := t }.goto p .close)
  | close (hpc : (w.procs p).pc = .close) :
    Trans size w p ({ w with locks := drop w.locks p }.return_ p)

theorem trans_of_step {size : ℕ} {w w' : World} {p : ℕ} {act : Act}
    (h : step size w (p, act) = some w') : Trans size w p w' := by
  cases hpc : (w.procs p).pc <;> cases act <;> simp only [step, hpc] at h <;> try cases h
  case openFile.openFile ok ut =>
    split_ifs at h with hut hok <;> cases h
    · exact .start ut hpc hut
    · exact .startFailed ut hpc
  case setLock.setLock retry answer =>
    cases answer with
    | granted =>
      obtain ⟨t, ht, rfl⟩ := Option.map_eq_some_iff.mp h
      exact .lock retry t hpc ht
    | refused =>
      cases h
      refine .noLock retry _ hpc ?_
      split_ifs <;> exact ⟨id, by rintro ⟨⟩⟩
    | failed =>
      cases h
      exact .noLock retry _ hpc ⟨id, by rintro ⟨⟩⟩
  case fstat.fstat ok => exact .stat _ hpc (by cases ok <;> simp)
  case write.write st n =>
    cases n with
    | none =>
      cases h
      have htrans : Trans size w p _ := .writeBad st 0 hpc (.inl rfl)
      simpa using htrans
    | some n =>
      simp only at h
      split_ifs at h with hn hsize <;> cases h
      · subst hsize
        exact .writeWhole st hpc
      · exact .writeBad st n hpc (.inr (by omega))
  case ftruncate.ftruncate st => exact .truncate st hpc
  case unlock.unlock ok =>
    cases ok with
    | false => exact .unlock w.locks hpc id fun _ _ _ h => h
    | true =>
      refine .unlock _ hpc (fun h => h.clear p _) fun q i hq h => ?_
      exact covers_clear.mpr ⟨h, fun hp => absurd hp hq⟩
  case close.close => exact .close hpc

/-! ## The invariant -/

section

variable {size : ℕ} {init : List UInt8} {w w' : World} {p q : ℕ}

/-- What holds in every state. `stable` is where the records end that have been written whole; a
process inside holds the lock from there on, and the size it has sampled is that place. -/
structure Inv (size : ℕ) (init : List UInt8) (w : World) : Prop where
  exclusive : Exclusive w.locks
  length : ∀ p, (w.procs p).pc ≠ .openFile → (w.ut (w.current p)).length = size
  covers : ∀ p, (w.procs p).pc.Inside → ∀ i, (w.stable init).length ≤ i → Covers w.locks p i
  sampled : ∀ p st, (w.procs p).pc = .write st ∨ (w.procs p).pc = .ftruncate st →
    st = (w.stable init).length
  torn : ∀ p st, (w.procs p).pc = .ftruncate st → ∃ k, (k = 0 ∨ k < size) ∧
    w.file = w.stable init ++ (w.record (w.current p)).take k
  clean : (∀ p st, (w.procs p).pc ≠ .ftruncate st) → w.file = w.stable init
  nodup : w.written.Nodup
  whole : ∀ c ∈ w.written, (w.ut c).length = size
  past : ∀ c ∈ w.written, c.2 < (w.procs c.1).calls ∨
    c = w.current c.1 ∧ ((w.procs c.1).pc = .unlock ∨ (w.procs c.1).pc = .close)

/-- At most one process is between the lock and its release. -/
theorem Inv.unique (h : Inv size init w) (hp : (w.procs p).pc.Inside)
    (hq : (w.procs q).pc.Inside) : p = q :=
  h.exclusive p q _ (h.covers p hp _ le_rfl) (h.covers q hq _ le_rfl)

/-- Inside, but for the time between a bad write and its removal, the file has no torn record. -/
theorem Inv.file_eq (h : Inv size init w) (hp : (w.procs p).pc.Inside)
    (hpc : ∀ st, (w.procs p).pc ≠ .ftruncate st) : w.file = w.stable init := by
  apply h.clean
  intro q st hq
  have hin : (w.procs q).pc.Inside := by rw [hq]; trivial
  obtain rfl := h.unique hp hin
  exact hpc st hq

theorem inv_initial (size : ℕ) (init : List UInt8) : Inv size init (World.initial init) where
  exclusive := exclusive_nil
  length p hp := absurd rfl hp
  covers p hp := hp.elim
  sampled p st hp := by rcases hp with hp | hp <;> cases hp
  torn p st hp := by cases hp
  clean _ := (List.append_nil _).symm
  nodup := List.nodup_nil
  whole c hc := by cases hc
  past c hc := by cases hc

/-! Frame lemmas for the process that moves. -/

theorem goto_same (w : World) (p : ℕ) (pc : Pc) : ((w.goto p pc).procs p).pc = pc := by
  simp [World.goto]

theorem goto_other (w : World) (pc : Pc) (hq : q ≠ p) : (w.goto p pc).procs q = w.procs q := by
  simp [World.goto, hq]

theorem goto_calls (w : World) (p q : ℕ) (pc : Pc) :
    ((w.goto p pc).procs q).calls = (w.procs q).calls := by
  by_cases hq : q = p
  · subst hq
    simp [World.goto]
  · rw [goto_other w pc hq]

theorem goto_current (w : World) (p q : ℕ) (pc : Pc) : (w.goto p pc).current q = w.current q := by
  rw [World.current, World.current, goto_calls]

theorem return_other (w : World) (hq : q ≠ p) : (w.return_ p).procs q = w.procs q := by
  simp [World.return_, hq]

theorem current_other (h : w'.procs q = w.procs q) : w'.current q = w.current q := by
  rw [World.current, World.current, h]

theorem Inv.not_current_of_written (h : Inv size init w) (hpc : (w.procs p).pc ≠ .unlock)
    (hpc' : (w.procs p).pc ≠ .close) : w.current p ∉ w.written := by
  intro hc
  rcases h.past _ hc with hlt | ⟨-, hu | hu⟩
  · exact absurd hlt (lt_irrefl _)
  · exact hpc hu
  · exact hpc' hu

/-- The stable part depends on the written calls and their records only. -/
theorem stable_congr (hwritten : w'.written = w.written)
    (hut : ∀ c ∈ w.written, w'.ut c = w.ut c) : w'.stable init = w.stable init := by
  unfold World.stable
  rw [hwritten]
  congr 1
  refine List.flatMap_congr fun c hc => ?_
  unfold World.record
  rw [hut c hc]

/-- A step of `p` outside: the file stays, and the other processes keep their locks. -/
theorem Inv.outside (h : Inv size init w) (hprocs : ∀ q, q ≠ p → w'.procs q = w.procs q)
    (hfile : w'.file = w.file) (hwritten : w'.written = w.written)
    (hut : ∀ c, (c = w.current p → (w.procs p).pc ≠ .openFile) → w'.ut c = w.ut c)
    (hwas : ∀ st, (w.procs p).pc ≠ .ftruncate st) (hnow : ¬ (w'.procs p).pc.Inside)
    (hexcl : Exclusive w'.locks)
    (hlocks : ∀ q i, q ≠ p → Covers w.locks q i → Covers w'.locks q i)
    (hlength : (w'.procs p).pc ≠ .openFile → (w'.ut (w'.current p)).length = size)
    (hpast : ∀ c ∈ w.written, c.1 = p → c.2 < (w'.procs p).calls ∨
      c = w'.current p ∧ ((w'.procs p).pc = .unlock ∨ (w'.procs p).pc = .close)) :
    Inv size init w' := by
  have hwut : ∀ c ∈ w.written, w'.ut c = w.ut c := by
    intro c hc
    apply hut
    rintro rfl hopen
    exact h.not_current_of_written (by simp [hopen]) (by simp [hopen]) hc
  have hstable : w'.stable init = w.stable init := stable_congr hwritten hwut
  have hother : ∀ q, q ≠ p →
      w'.current q = w.current q ∧ w'.ut (w.current q) = w.ut (w.current q) := by
    intro q hq
    refine ⟨current_other (hprocs q hq), hut _ fun hc => ?_⟩
    exact absurd (congrArg Prod.fst hc) hq
  constructor
  case exclusive => exact hexcl
  case length =>
    intro q hq
    by_cases hqp : q = p
    · subst hqp
      exact hlength hq
    · rw [hprocs q hqp] at hq
      rw [(hother q hqp).1, (hother q hqp).2]
      exact h.length q hq
  case covers =>
    intro q hq i hi
    have hqp : q ≠ p := by
      rintro rfl
      exact hnow hq
    rw [hprocs q hqp] at hq
    rw [hstable] at hi
    exact hlocks q i hqp (h.covers q hq i hi)
  case sampled =>
    intro q st hq
    have hqp : q ≠ p := by
      rintro rfl
      apply hnow
      rcases hq with hq | hq <;> rw [hq] <;> trivial
    rw [hprocs q hqp] at hq
    rw [hstable]
    exact h.sampled q st hq
  case torn =>
    intro q st hq
    have hqp : q ≠ p := by
      rintro rfl
      apply hnow
      rw [hq]
      trivial
    rw [hprocs q hqp] at hq
    obtain ⟨k, hk, hrest⟩ := h.torn q st hq
    refine ⟨k, hk, ?_⟩
    rw [hfile, hstable, hrest, (hother q hqp).1, World.record, World.record, (hother q hqp).2]
  case clean =>
    intro hno
    rw [hfile, hstable]
    apply h.clean
    intro q st
    by_cases hqp : q = p
    · subst hqp
      exact hwas st
    · rw [← hprocs q hqp]
      exact hno q st
  case nodup => exact hwritten ▸ h.nodup
  case whole =>
    intro c hc
    rw [hwritten] at hc
    rw [hwut c hc]
    exact h.whole c hc
  case past =>
    intro c hc
    rw [hwritten] at hc
    by_cases hcp : c.1 = p
    · rw [hcp]
      exact hpast c hc hcp
    · rw [current_other (hprocs _ hcp), hprocs _ hcp]
      exact h.past c hc

theorem Inv.length_goto (h : Inv size init w) (hpc : (w.procs p).pc ≠ .openFile) {pc : Pc}
    (hq : ((w.goto p pc).procs q).pc ≠ .openFile) : (w.ut (w.current q)).length = size := by
  apply h.length q
  by_cases hqp : q = p
  · exact hqp ▸ hpc
  · rwa [goto_other _ pc hqp] at hq

/-- A step of `p` inside: the others are outside and notice nothing. -/
theorem Inv.inside (h : Inv size init w) (hwas : (w.procs p).pc.Inside) (pc : Pc)
    (file : List Cell) (written : List CallId) {S : List Cell}
    (hS : ({ w with file := file, written := written }.goto p pc).stable init = S)
    (hstable : (w.stable init).length ≤ S.length)
    (hsampled : ∀ st, pc = .write st ∨ pc = .ftruncate st → st = S.length)
    (htorn : ∀ st, pc = .ftruncate st → ∃ k, (k = 0 ∨ k < size) ∧
      file = S ++ (w.record (w.current p)).take k)
    (hclean : (∀ st, pc ≠ .ftruncate st) → file = S)
    (hnodup : written.Nodup) (hwhole : ∀ c ∈ written, (w.ut c).length = size)
    (hpast : ∀ c ∈ written, c ∈ w.written ∧ c ≠ w.current p ∨ c = w.current p ∧ pc = .unlock) :
    Inv size init ({ w with file := file, written := written }.goto p pc) := by
  subst hS
  have hothers : ∀ q, q ≠ p → ¬ (w.procs q).pc.Inside := fun q hq hin => hq (h.unique hin hwas)
  constructor
  case exclusive => exact h.exclusive
  case length =>
    intro q hq
    rw [goto_current]
    refine h.length_goto (fun hopen => ?_) hq
    rw [hopen] at hwas
    exact hwas
  case covers =>
    intro q hq i hi
    have hqp : q = p := by
      by_contra hqp
      rw [goto_other _ pc hqp] at hq
      exact hothers q hqp hq
    subst hqp
    exact h.covers q hwas i (hstable.trans hi)
  case sampled =>
    intro q st hq
    by_cases hqp : q = p
    · subst hqp
      rw [goto_same] at hq
      exact hsampled st hq
    · rw [goto_other _ pc hqp] at hq
      exact absurd (by rcases hq with hq | hq <;> rw [hq] <;> trivial) (hothers q hqp)
  case torn =>
    intro q st hq
    by_cases hqp : q = p
    · subst hqp
      rw [goto_same] at hq
      rw [goto_current]
      exact htorn st hq
    · rw [goto_other _ pc hqp] at hq
      exact absurd (by rw [hq]; trivial) (hothers q hqp)
  case clean =>
    intro hno
    apply hclean
    intro st hst
    exact hno p st ((goto_same _ p pc).trans hst)
  case nodup => exact hnodup
  case whole => exact hwhole
  case past =>
    intro c hc
    rw [goto_calls, goto_current]
    rcases hpast c hc with ⟨hc, hne⟩ | ⟨rfl, hpc⟩
    · rcases h.past c hc with hlt | ⟨heq, hpc'⟩
      · exact .inl hlt
      · have hcp : c.1 ≠ p := by
          intro hcp
          rw [hcp] at heq
          exact hne heq
        rw [goto_other _ pc hcp]
        exact .inr ⟨heq, hpc'⟩
    · right
      rw [show (w.current p).1 = p from rfl, goto_same]
      exact ⟨rfl, .inl hpc⟩

/-- The lock is granted only when no process is inside. -/
theorem Inv.lock (h : Inv size init w) {retry : ℕ} (hpc : (w.procs p).pc = .setLock retry)
    {t : List (Lock ℕ)} (ht : set w.locks p w.file.length = some t) :
    Inv size init ({ w with locks := t }.goto p .fstat) := by
  have hnone : ∀ q, ¬ (w.procs q).pc.Inside := by
    intro q hq
    have hqp : q ≠ p := by
      rintro rfl
      rw [hpc] at hq
      exact hq
    have hcov := h.covers q hq (max w.file.length (w.stable init).length) (le_max_right _ _)
    exact not_covers_of_set ht hqp (le_max_left _ _) hcov
  have hfile : w.file = w.stable init := h.clean fun q st hq => hnone q (by rw [hq]; trivial)
  have hinside : ∀ q, (({ w with locks := t }.goto p .fstat).procs q).pc.Inside → q = p := by
    intro q hq
    by_contra hqp
    rw [goto_other _ _ hqp] at hq
    exact hnone q hq
  constructor
  case exclusive => exact h.exclusive.set ht
  case length =>
    intro q hq
    rw [goto_current]
    exact h.length_goto (by simp [hpc]) hq
  case covers =>
    intro q hq i hi
    obtain rfl := hinside q hq
    exact (covers_set ht).mpr (.inl ⟨rfl, by rwa [hfile]⟩)
  case sampled =>
    intro q st hq
    obtain rfl := hinside q (by rcases hq with hq | hq <;> rw [hq] <;> trivial)
    rw [goto_same] at hq
    rcases hq with hq | hq <;> cases hq
  case torn =>
    intro q st hq
    obtain rfl := hinside q (by rw [hq]; trivial)
    rw [goto_same] at hq
    cases hq
  case clean => exact fun _ => hfile
  case nodup => exact h.nodup
  case whole => exact h.whole
  case past =>
    intro c hc
    rw [goto_calls, goto_current]
    rcases h.past c hc with hlt | ⟨heq, hpc'⟩
    · exact .inl hlt
    · have hcp : c.1 ≠ p := by
        intro hcp
        rw [hcp, hpc] at hpc'
        rcases hpc' with hpc' | hpc' <;> cases hpc'
      rw [goto_other _ _ hcp]
      exact .inr ⟨heq, hpc'⟩

theorem Inv.past_before (h : Inv size init w) (hpc : (w.procs p).pc ≠ .unlock)
    (hpc' : (w.procs p).pc ≠ .close) {c : CallId} (hc : c ∈ w.written) (hcp : c.1 = p) :
    c.2 < (w.procs p).calls := by
  rcases h.past c hc with hlt | ⟨heq, -⟩
  · rwa [hcp] at hlt
  · rw [hcp] at heq
    exact absurd (heq ▸ hc) (h.not_current_of_written hpc hpc')

/-- The record being written has not been written before. -/
theorem Inv.past_inside (h : Inv size init w) (hpc : (w.procs p).pc ≠ .unlock)
    (hpc' : (w.procs p).pc ≠ .close) {pc : Pc} : ∀ c ∈ w.written,
      c ∈ w.written ∧ c ≠ w.current p ∨ c = w.current p ∧ pc = .unlock := by
  intro c hc
  left
  refine ⟨hc, ?_⟩
  rintro rfl
  exact h.not_current_of_written hpc hpc' hc

theorem Inv.start (h : Inv size init w) (hpc : (w.procs p).pc = .openFile) {ut : List UInt8}
    (hut : ut.length = size) : Inv size init
      ({ w with ut := Function.update w.ut (w.current p) ut }.goto p (.setLock 9)) := by
  refine h.outside (p := p) (fun q hq => goto_other _ _ hq) rfl rfl ?_ ?_ ?_ h.exclusive ?_ ?_ ?_
  · intro c hc
    have hne : c ≠ w.current p := fun heq => hc heq hpc
    exact Function.update_of_ne hne _ _
  · rw [hpc]
    rintro st ⟨⟩
  · rw [goto_same]
    exact id
  · exact fun _ _ _ hcov => hcov
  · intro _
    rw [goto_current]
    show (Function.update w.ut (w.current p) ut (w.current p)).length = size
    rw [Function.update_self, hut]
  · intro c hc hcp
    rw [goto_calls]
    exact .inl (h.past_before (by simp [hpc]) (by simp [hpc]) hc hcp)

theorem Inv.startFailed (h : Inv size init w) (hpc : (w.procs p).pc = .openFile)
    (ut : List UInt8) : Inv size init
      ({ w with ut := Function.update w.ut (w.current p) ut }.return_ p) := by
  refine h.outside (p := p) (fun q hq => return_other _ hq) rfl rfl ?_ ?_ ?_ h.exclusive ?_ ?_ ?_
  · intro c hc
    have hne : c ≠ w.current p := fun heq => hc heq hpc
    exact Function.update_of_ne hne _ _
  · rw [hpc]
    rintro st ⟨⟩
  · simp [World.return_, Pc.Inside]
  · exact fun _ _ _ hcov => hcov
  · simp [World.return_]
  · intro c hc hcp
    have hlt := h.past_before (by simp [hpc]) (by simp [hpc]) hc hcp
    left
    simp [World.return_]
    omega

theorem Inv.noLock (h : Inv size init w) {retry : ℕ} (hpc : (w.procs p).pc = .setLock retry)
    {pc : Pc} (hnext : ¬ pc.Inside ∧ pc ≠ .openFile) : Inv size init (w.goto p pc) := by
  refine h.outside (p := p) (fun q hq => goto_other _ _ hq) rfl rfl (fun _ _ => rfl) ?_ ?_
    h.exclusive ?_ ?_ ?_
  · rw [hpc]
    rintro st ⟨⟩
  · rw [goto_same]
    exact hnext.1
  · exact fun _ _ _ hcov => hcov
  · intro _
    rw [goto_current]
    exact h.length p (by simp [hpc])
  · intro c hc hcp
    rw [goto_calls]
    exact .inl (h.past_before (by simp [hpc]) (by simp [hpc]) hc hcp)

theorem Inv.stat (h : Inv size init w) (hpc : (w.procs p).pc = .fstat) {pc : Pc}
    (hnext : pc = .write w.file.length ∨ pc = .unlock) : Inv size init (w.goto p pc) := by
  have hin : (w.procs p).pc.Inside := by rw [hpc]; trivial
  have hfile : w.file = w.stable init := h.file_eq hin (by simp [hpc])
  refine h.inside hin pc w.file w.written rfl le_rfl ?_ ?_ ?_ h.nodup h.whole
    (h.past_inside (by simp [hpc]) (by simp [hpc]))
  · rintro st (rfl | rfl) <;> rcases hnext with heq | heq <;> cases heq
    exact congrArg List.length hfile
  · rintro st rfl
    rcases hnext with heq | heq <;> cases heq
  · exact fun _ => hfile

theorem Inv.writeBad (h : Inv size init w) {st k : ℕ} (hpc : (w.procs p).pc = .write st)
    (hk : k = 0 ∨ k < size) : Inv size init
      ({ w with file := w.file ++ (w.record (w.current p)).take k }.goto p (.ftruncate st)) := by
  have hin : (w.procs p).pc.Inside := by rw [hpc]; trivial
  have hfile : w.file = w.stable init := h.file_eq hin (by simp [hpc])
  refine h.inside hin (.ftruncate st) _ w.written rfl le_rfl ?_ ?_ ?_ h.nodup h.whole
    (h.past_inside (by simp [hpc]) (by simp [hpc]))
  · rintro st' (heq | heq) <;> cases heq
    exact h.sampled p st (.inl hpc)
  · intro st' _
    exact ⟨k, hk, by rw [hfile]; rfl⟩
  · exact fun hno => absurd rfl (hno st)

theorem Inv.writeWhole (h : Inv size init w) {st : ℕ} (hpc : (w.procs p).pc = .write st) :
    Inv size init ({ w with file := w.file ++ (w.record (w.current p)).take size,
                            written := w.written ++ [w.current p] }.goto p .unlock) := by
  have hin : (w.procs p).pc.Inside := by rw [hpc]; trivial
  have hfile : w.file = w.stable init := h.file_eq hin (by simp [hpc])
  have hlen : (w.ut (w.current p)).length = size := h.length p (by simp [hpc])
  have hnew : w.current p ∉ w.written := h.not_current_of_written (by simp [hpc]) (by simp [hpc])
  have hrecord : (w.record (w.current p)).take size = w.record (w.current p) := by
    apply List.take_of_length_le
    simp [World.record, hlen]
  have hstable : ({ w with file := w.file ++ (w.record (w.current p)).take size,
                           written := w.written ++ [w.current p] }.goto p .unlock).stable init =
      w.stable init ++ w.record (w.current p) := by
    show _ ++ (w.written ++ [w.current p]).flatMap w.record = _
    rw [List.flatMap_append, List.flatMap_singleton, ← List.append_assoc]
    rfl
  refine h.inside hin .unlock _ _ hstable ?_ ?_ ?_ ?_ ?_ ?_ ?_
  · simp
  · rintro st' (heq | heq) <;> cases heq
  · rintro st' ⟨⟩
  · intro _
    rw [hfile, hrecord]
  · rw [List.nodup_append]
    refine ⟨h.nodup, List.nodup_singleton _, ?_⟩
    rintro c hc d hd rfl
    exact hnew (List.mem_singleton.mp hd ▸ hc)
  · intro c hc
    rcases List.mem_append.mp hc with hc | hc
    · exact h.whole c hc
    · rw [List.mem_singleton.mp hc, hlen]
  · intro c hc
    rcases List.mem_append.mp hc with hc | hc
    · exact h.past_inside (by simp [hpc]) (by simp [hpc]) c hc
    · exact .inr ⟨List.mem_singleton.mp hc, rfl⟩

theorem Inv.truncate (h : Inv size init w) {st : ℕ} (hpc : (w.procs p).pc = .ftruncate st) :
    Inv size init ({ w with
      file := w.file.take st ++ List.replicate (st - w.file.length) (0, none) }.goto p
        .unlock) := by
  have hin : (w.procs p).pc.Inside := by rw [hpc]; trivial
  obtain ⟨k, -, hfile⟩ := h.torn p st hpc
  have hst : st = (w.stable init).length := h.sampled p st (.inr hpc)
  have hcut : w.file.take st ++ List.replicate (st - w.file.length) (0, none) = w.stable init := by
    rw [hfile, hst, List.take_left, List.length_append,
      Nat.sub_eq_zero_of_le (Nat.le_add_right _ _),
      List.replicate_zero, List.append_nil]
  refine h.inside hin .unlock _ w.written rfl le_rfl ?_ ?_ ?_ h.nodup h.whole
    (h.past_inside (by simp [hpc]) (by simp [hpc]))
  · rintro st' (heq | heq) <;> cases heq
  · rintro st' ⟨⟩
  · exact fun _ => hcut

theorem Inv.unlock (h : Inv size init w) (hpc : (w.procs p).pc = .unlock) {t : List (Lock ℕ)}
    (ht : Exclusive w.locks → Exclusive t)
    (hothers : ∀ q i, q ≠ p → Covers w.locks q i → Covers t q i) :
    Inv size init ({ w with locks := t }.goto p .close) := by
  refine h.outside (p := p) (fun q hq => goto_other _ _ hq) rfl rfl (fun _ _ => rfl) ?_ ?_
    (ht h.exclusive) hothers ?_ ?_
  · rw [hpc]
    rintro st ⟨⟩
  · rw [goto_same]
    exact id
  · intro _
    rw [goto_current]
    exact h.length p (by simp [hpc])
  · rintro c hc rfl
    rw [goto_calls, goto_current, goto_same]
    rcases h.past c hc with hlt | ⟨heq, -⟩
    · exact .inl hlt
    · exact .inr ⟨heq, .inr rfl⟩

theorem Inv.close (h : Inv size init w) (hpc : (w.procs p).pc = .close) :
    Inv size init ({ w with locks := drop w.locks p }.return_ p) := by
  refine h.outside (p := p) (fun q hq => return_other _ hq) rfl rfl (fun _ _ => rfl) ?_ ?_
    (h.exclusive.drop p) ?_ ?_ ?_
  · rw [hpc]
    rintro st ⟨⟩
  · simp [World.return_, Pc.Inside]
  · exact fun q i hq hcov => covers_drop.mpr ⟨hq, hcov⟩
  · simp [World.return_]
  · rintro c hc rfl
    left
    have hlt : c.2 ≤ (w.procs c.1).calls := by
      rcases h.past c hc with hlt | ⟨heq, -⟩
      · exact hlt.le
      · exact (congrArg Prod.snd heq).le
    simp [World.return_]
    omega

theorem inv_trans (h : Inv size init w) (ht : Trans size w p w') : Inv size init w' := by
  cases ht with
  | start ut hpc hut => exact h.start hpc hut
  | startFailed ut hpc => exact h.startFailed hpc ut
  | lock retry t hpc ht => exact h.lock hpc ht
  | noLock retry pc hpc hnext => exact h.noLock hpc hnext
  | stat pc hpc hnext => exact h.stat hpc hnext
  | writeBad st k hpc hk => exact h.writeBad hpc hk
  | writeWhole st hpc => exact h.writeWhole hpc
  | truncate st hpc => exact h.truncate hpc
  | unlock t hpc ht hothers => exact h.unlock hpc ht hothers
  | close hpc => exact h.close hpc

/-! ## What a finished call has contributed -/

theorem filter_record (w : World) (c d : CallId) :
    (w.record c).filter (fun b => b.2 = some d) = if c = d then w.record c else [] := by
  unfold World.record
  rw [List.filter_map]
  split_ifs with h
  · subst h
    congr 1
    apply List.filter_eq_self.mpr
    simp
  · rw [List.map_eq_nil_iff]
    apply List.filter_eq_nil_iff.mpr
    intro b _
    simpa using h

/-- Among whole records of distinct calls, the bytes of one call are its record or none. -/
theorem filter_flatMap_record (w : World) {l : List CallId} (hl : l.Nodup) (d : CallId) :
    (l.flatMap w.record).filter (fun b => b.2 = some d) = if d ∈ l then w.record d else [] := by
  induction l with
  | nil => rfl
  | cons c l ih =>
    obtain ⟨hc, hl⟩ := List.nodup_cons.mp hl
    rw [List.flatMap_cons, List.filter_append, filter_record, ih hl]
    by_cases h : c = d
    · subst h
      simp [hc]
    · simp [h, Ne.symm h]

theorem Inv.finished (h : Inv size init w) {c : CallId} (hc : c.2 < (w.procs c.1).calls) :
    (w.file.filter fun b => b.2 = some c) = if c ∈ w.written then w.record c else [] := by
  have hinit :
      (init.map fun b => (b, (none : Option CallId))).filter (fun b => b.2 = some c) = [] := by
    apply List.filter_eq_nil_iff.mpr
    simp
  have hstable : (w.stable init).filter (fun b => b.2 = some c) =
      if c ∈ w.written then w.record c else [] := by
    rw [World.stable, List.filter_append, hinit, filter_flatMap_record w h.nodup, List.nil_append]
  have hcases :
      (w.file.filter fun b => b.2 = some c) = (w.stable init).filter fun b => b.2 = some c := by
    by_cases hno : ∀ p st, (w.procs p).pc ≠ .ftruncate st
    · rw [h.clean hno]
    · push Not at hno
      obtain ⟨p, st, hp⟩ := hno
      obtain ⟨k, -, hfile⟩ := h.torn p st hp
      have hne : w.current p ≠ c := by
        rintro rfl
        exact lt_irrefl _ hc
      -- the torn record belongs to a call that is not finished
      have hrest : ((w.record (w.current p)).take k).filter (fun b => b.2 = some c) = [] := by
        have hnone := filter_record w (w.current p) c
        rw [if_neg hne] at hnone
        apply List.filter_eq_nil_iff.mpr
        intro b hb
        exact List.filter_eq_nil_iff.mp hnone b (List.mem_of_mem_take hb)
      rw [hfile, List.filter_append, hrest, List.append_nil]
  rw [hcases, hstable]

theorem Inv.allOrNothing (h : Inv size init w) : AllOrNothing size init w where
  content := by
    by_cases hno : ∀ p st, (w.procs p).pc ≠ .ftruncate st
    · exact ⟨[], by rw [h.clean hno, List.append_nil], .inl rfl⟩
    · push Not at hno
      obtain ⟨p, st, hp⟩ := hno
      obtain ⟨k, hk, hfile⟩ := h.torn p st hp
      refine ⟨_, hfile, ?_⟩
      rcases hk with rfl | hk
      · exact .inl rfl
      · refine .inr ⟨p, k, hk, rfl, fun i hi => h.covers p (by rw [hp]; trivial) i ?_⟩
        rw [hfile, List.length_append] at hi
        omega
  whole := h.whole
  finished p c hc := h.finished (c := (p, c)) hc

theorem Inv.ownBytes (h : Inv size init w) (ht : Trans size w p w') : OwnBytes w p w' := by
  cases ht with
  | writeBad st k hpc hk => exact .inr (.inl ⟨k, rfl⟩)
  | writeWhole st hpc => exact .inr (.inl ⟨size, rfl⟩)
  | truncate st hpc =>
    obtain ⟨k, -, hfile⟩ := h.torn p st hpc
    have hst : st = (w.stable init).length := h.sampled p st (.inr hpc)
    refine .inr (.inr ⟨k, ?_⟩)
    show w.file = w.file.take st ++ List.replicate (st - w.file.length) (0, none) ++ _
    rw [hfile, hst, List.take_left, List.length_append,
      Nat.sub_eq_zero_of_le (Nat.le_add_right _ _),
      List.replicate_zero, List.append_nil]
  | start | startFailed | lock | noLock | stat | unlock | close => exact .inl rfl

theorem countsWhole (a : ℕ × Act) (ha : step size w a = some w') : CountsWhole size w a w' := by
  obtain ⟨p, act⟩ := a
  cases hpc : (w.procs p).pc <;> cases act <;> simp only [step, hpc] at ha <;> try cases ha
  case write.write st n =>
    cases n with
    | none =>
      cases ha
      exact ⟨by rintro ⟨⟩, fun _ => rfl⟩
    | some n =>
      simp only at ha
      split_ifs at ha with hn hsize <;> cases ha
      · exact ⟨fun _ => rfl, fun hne => absurd (by rw [hsize]) hne⟩
      · exact ⟨by rintro ⟨⟩; exact absurd rfl hsize, fun _ => rfl⟩
  case openFile.openFile ok ut =>
    split_ifs at ha <;> cases ha <;> exact ⟨by rintro ⟨⟩, fun _ => rfl⟩
  case setLock.setLock retry answer =>
    refine ⟨by rintro ⟨⟩, fun _ => ?_⟩
    cases answer with
    | granted =>
      obtain ⟨t, -, rfl⟩ := Option.map_eq_some_iff.mp ha
      rfl
    | refused | failed =>
      cases ha
      rfl
  case unlock.unlock ok => exact ⟨by rintro ⟨⟩, fun _ => by split_ifs <;> rfl⟩
  case fstat.fstat | ftruncate.ftruncate | close.close => exact ⟨by rintro ⟨⟩, fun _ => rfl⟩

/-- **Appends are all or nothing.** For any number of processes, in any order of their system calls
and with any outcomes: in every state the file is its initial content, whole records and at most the
beginning of one more, whose writer holds the lock; every finished call has contributed its record
once if its `write` was complete, and else nothing; and no step of a call touches a byte of another
one. -/
theorem updwtmp_atomic (size : ℕ) (init : List UInt8) (acts : List (ℕ × Act)) :
    Always (step size) (AllOrNothing size init) (World.initial init) acts ∧
      Along (step size) (fun w a => ∀ w' ∈ step size w a,
        OwnBytes w a.1 w' ∧ CountsWhole size w a w') (World.initial init) acts := by
  have hstep : ∀ w a w', Inv size init w → step size w a = some w' → Inv size init w' :=
    fun w a w' h ha => inv_trans h (trans_of_step ha)
  have hinv : Always (step size) (Inv size init) (World.initial init) acts :=
    fun pre _ w hw => inv_of_run hstep (inv_initial size init) hw
  refine ⟨hinv.mono fun w h => h.allOrNothing, hinv.along.mono fun w a h w' hw' => ?_⟩
  exact ⟨h.ownBytes (trans_of_step hw'), countsWhole a hw'⟩

end

/-- The first process appends its record while the second one waits; the second one's `write` is
short, and is removed. -/
def twoWriters : List (ℕ × Act) :=
  [(0, .openFile true [1, 2]), (1, .openFile true [3, 4]), (0, .setLock .granted), (0, .fstat true),
    (1, .setLock .refused), (0, .write (some 2)), (0, .unlock true), (0, .close),
    (1, .setLock .granted), (1, .fstat true), (1, .write (some 1)), (1, .ftruncate),
    (1, .unlock true), (1, .close)]

theorem updwtmp_atomic_twoWriters : ∃ w, run (step 2) (World.initial [9]) twoWriters = some w ∧
    AllOrNothing 2 [9] w ∧ w.written = [(0, 0)] ∧
      w.file = [(9, none), (1, some (0, 0)), (2, some (0, 0))] :=
  ⟨_, rfl, (updwtmp_atomic 2 [9] twoWriters).1 twoWriters List.prefix_rfl _ rfl, rfl, rfl⟩

end Libptytty.Wtmp
