import Mathlib

/-!
# Passing a descriptor

`send_fd` and `recv_fd` of fdpass.C, on any platform's layout of control messages. The control
buffer of `recv_fd` has `CMSG_SPACE (sizeof (int))` bytes, and every access to it is checked against
that size. The result of `recv_fd` is what it returns and the arguments of its calls of `close`.

What the kernel does with the descriptors of a message is `Delivers`: it installs those that fit
and says so in `cmsg_len`; if it had to leave some out, the buffer is full and `cmsg_len` may name
the size that would have been needed. `recvFd_exact`: whatever the sender has put into the message,
`recv_fd` returns the first descriptor or closes it, and closes the others.
-/

namespace Libptytty.Fdpass

/-! ## Control messages -/

/-- Where `CMSG_LEN` and `CMSG_SPACE` come from: the size of a `cmsghdr` and the alignment, or the
macros that fdpass.C defines when the system has none. -/
inductive Layout
  | system (sizeofHdr align : ℕ) (h : 0 < align)
  | fallback (sizeofHdr : ℕ)

def roundUp (align n : ℕ) : ℕ := (n + align - 1) / align * align

def sizeofInt : ℕ := 4

namespace Layout

variable (c : Layout)

def sizeofHdr : ℕ := match c with
  | .system s _ _ => s
  | .fallback s => s

/-- Where the data of a message starts. -/
def data : ℕ := match c with
  | .system s a _ => roundUp a s
  | .fallback s => s

def padded (n : ℕ) : ℕ := match c with
  | .system _ a _ => roundUp a n
  | .fallback _ => n

/-- `CMSG_LEN`. -/
def len (n : ℕ) : ℕ := c.data + n

/-- `CMSG_SPACE`. -/
def space (n : ℕ) : ℕ := c.data + c.padded n

/-- How many descriptors fit into the buffer of `recv_fd`. -/
def capacity : ℕ := c.padded sizeofInt / sizeofInt

end Layout

/-- `SOL_SOCKET` and `SCM_RIGHTS`. -/
structure Consts where
  solSocket : ℤ
  scmRights : ℤ

/-- The control buffer after `recvmsg`: the header, and the integers behind it. -/
structure Control where
  level : ℤ
  type : ℤ
  len : ℕ
  ints : ℕ → ℤ

/-- The result of `recvmsg`. Without a control message `CMSG_FIRSTHDR` is null. -/
inductive Recvmsg
  | failed
  | eof
  | byte (data : UInt8) (control : Option Control)

/-! ## The functions -/

/-- The message that `send_fd` hands to `sendmsg`. -/
structure Message where
  data : UInt8
  level : ℤ
  type : ℤ
  len : ℕ
  fd : ℤ

/-- `send_fd` up to the call of `sendmsg`; `none` if there is no memory. -/
def sendFd (c : Layout) (k : Consts) (malloc : Bool) (fd : ℤ) : Option Message :=
  if malloc then some ⟨0, k.solSocket, k.scmRights, c.len sizeofInt, fd⟩ else none

/-- `((int *)CMSG_DATA (cmsg))[i]`. -/
def readInt (c : Layout) (ctl : Control) (i : ℕ) : Option ℤ :=
  if c.data + sizeofInt * i + sizeofInt ≤ c.space sizeofInt then some (ctl.ints i) else none

/-- The loop that closes the descriptors from `fd` on. -/
def closeExtra (c : Layout) (ctl : Control) (len fd : ℕ) : Option (List ℤ) :=
  if c.len (sizeofInt * (fd + 1)) ≤ len then do
    let d ← readInt c ctl fd
    let rest ← closeExtra c ctl len (fd + 1)
    return d :: rest
  else some []
termination_by len + 1 - c.len (sizeofInt * fd)
decreasing_by
  unfold Layout.len sizeofInt at *
  omega

/-- What `recv_fd` finds in a control message: the descriptor, and what it has closed. -/
def takeFd (c : Layout) (k : Consts) (ctl : Control) : Option (ℤ × List ℤ) :=
  if c.sizeofHdr ≤ c.space sizeofInt then
    let len := if ctl.len > c.space sizeofInt then c.space sizeofInt else ctl.len
    if ctl.level = k.solSocket ∧ ctl.type = k.scmRights ∧ c.len sizeofInt ≤ len then do
      let closed ← closeExtra c ctl len 1
      let fd ← readInt c ctl 0
      return (fd, closed)
    else some (-1, [])
  else none

/-- The descriptor that is returned, and the arguments of `close` in order. -/
def recvFd (c : Layout) (k : Consts) (malloc : Bool) (m : Recvmsg) : Option (ℤ × List ℤ) :=
  if malloc then do
    let (data, fd, closed) ← match m with
      | .byte data (some ctl) => (takeFd c k ctl).map fun r => (data, r)
      | .byte data none => some (data, -1, [])
      | .failed | .eof => some (1, -1, [])
    return if data ≠ 0 then (-1, closed ++ [fd]) else (fd, closed)
  else some (-1, [])

/-! ## What the kernel delivers -/

/-- The descriptors `fds` have been installed along with the result of `recvmsg`. -/
def Delivers (c : Layout) (k : Consts) (malloc : Bool) (m : Recvmsg) (fds : List ℤ) : Prop :=
  match malloc, m with
  | true, .byte _ (some ctl) =>
    if ctl.level = k.solSocket ∧ ctl.type = k.scmRights then
      (∀ i (h : i < fds.length), ctl.ints i = fds[i]) ∧
        (ctl.len = c.len (sizeofInt * fds.length) ∧ fds.length ≤ c.capacity ∨
          c.space sizeofInt < ctl.len ∧ fds.length = c.capacity)
    else fds = []
  | _, _ => fds = []

/-- The data byte of `recv_fd` after `recvmsg`. -/
def Recvmsg.data : Recvmsg → UInt8
  | .byte data _ => data
  | _ => 1

/-- What should be returned: the first descriptor of a message with the right byte. -/
def expected (m : Recvmsg) (fds : List ℤ) : ℤ :=
  if m.data = 0 then fds.head?.getD (-1) else -1

/-- Descriptors that the kernel has installed. -/
def Installed (fds : List ℤ) : Prop := fds.Nodup ∧ ∀ d ∈ fds, 0 ≤ d

/-- The message as it is received: `install` gives the receiver's descriptor, and anything may
stand behind it in the buffer. -/
def Message.received (msg : Message) (install : ℤ → ℤ) (rest : ℕ → ℤ) : Recvmsg :=
  .byte msg.data (some ⟨msg.level, msg.type, msg.len, fun i =>
    if i = 0 then install msg.fd else rest i⟩)

section

variable {c : Layout} {k : Consts} {ctl : Control} {fds : List ℤ} {m : Recvmsg}

theorem le_roundUp {align : ℕ} (h : 0 < align) (n : ℕ) : n ≤ roundUp align n := by
  have hdiv := Nat.div_add_mod (n + align - 1) align
  have hmod := Nat.mod_lt (n + align - 1) h
  unfold roundUp
  rw [Nat.mul_comm]
  omega

theorem Layout.le_padded (c : Layout) (n : ℕ) : n ≤ c.padded n := by
  cases c with
  | system s a h => exact le_roundUp h n
  | fallback s => exact le_rfl

theorem Layout.sizeofHdr_le (c : Layout) (n : ℕ) : c.sizeofHdr ≤ c.space n := by
  cases c with
  | system s a h => exact (le_roundUp h s).trans (Nat.le_add_right _ _)
  | fallback s => exact Nat.le_add_right _ _

theorem Layout.capacity_pos (c : Layout) : 1 ≤ c.capacity :=
  (Nat.one_le_div_iff (by decide)).mpr (c.le_padded sizeofInt)

theorem readInt_eq {i : ℕ} (h : i < c.capacity) : readInt c ctl i = some (ctl.ints i) := by
  unfold Layout.capacity sizeofInt at h
  apply if_pos
  unfold Layout.space sizeofInt
  omega

/-- The loop closes what is left when the length in use names just the installed descriptors. -/
theorem closeExtra_eq (hints : ∀ i (h : i < fds.length), ctl.ints i = fds[i])
    (hcap : fds.length ≤ c.capacity) {len : ℕ}
    (hlen : ∀ n, c.len (sizeofInt * (n + 1)) ≤ len ↔ n < fds.length) {n : ℕ}
    (hn : n ≤ fds.length) : closeExtra c ctl len n = some (fds.drop n) := by
  induction hd : fds.length - n generalizing n with
  | zero =>
    rw [closeExtra, if_neg (by rw [hlen]; omega), List.drop_eq_nil_of_le (by omega)]
  | succ d ih =>
    have hlt : n < fds.length := by omega
    rw [closeExtra, if_pos ((hlen n).mpr hlt), readInt_eq (by omega), ih (by omega) (by omega),
      List.drop_eq_getElem_cons hlt, hints n hlt]
    rfl

/-- The length in use after the clamp. -/
theorem inUse_iff {n : ℕ} (h : ctl.len = c.len (sizeofInt * fds.length) ∧ fds.length ≤ c.capacity ∨
      c.space sizeofInt < ctl.len ∧ fds.length = c.capacity) :
    c.len (sizeofInt * (n + 1)) ≤
        (if ctl.len > c.space sizeofInt then c.space sizeofInt else ctl.len) ↔
      n < fds.length := by
  unfold Layout.capacity Layout.len Layout.space sizeofInt at *
  split_ifs <;> omega

/-- All descriptors of a control message are found. -/
theorem takeFd_eq {data : UInt8} (h : Delivers c k true (.byte data (some ctl)) fds) :
    takeFd c k ctl = some (fds.head?.getD (-1), fds.tail) := by
  unfold takeFd
  rw [if_pos (c.sizeofHdr_le sizeofInt)]
  by_cases hrights : ctl.level = k.solSocket ∧ ctl.type = k.scmRights
  · obtain ⟨hints, hlen⟩ := (if_pos hrights).mp h
    have hcap : fds.length ≤ c.capacity := by omega
    have hinUse := inUse_iff (n := 0) hlen
    rw [Nat.zero_add, Nat.mul_one] at hinUse
    cases fds with
    | nil =>
      have hnone := hinUse.not.mpr (Nat.lt_irrefl 0)
      exact if_neg fun h => hnone h.2.2
    | cons fd fds =>
      have hsome := hinUse.mpr (Nat.succ_pos _)
      show ite _ _ _ = _
      rw [if_pos ⟨hrights.1, hrights.2, hsome⟩,
        closeExtra_eq hints hcap (fun n => inUse_iff hlen) (Nat.succ_pos _),
        readInt_eq c.capacity_pos, hints 0 (Nat.succ_pos _)]
      rfl
  · -- somebody else's message has no descriptors
    obtain rfl : fds = [] := (if_neg hrights).mp h
    exact if_neg fun h => hrights ⟨h.1, h.2.1⟩

theorem count_tail_append {d : ℤ} (hd : 0 ≤ d) (fds : List ℤ) :
    (fds.tail ++ [fds.head?.getD (-1)]).count d = fds.count d := by
  cases fds with
  | nil => exact List.count_eq_zero_of_not_mem (by simp; omega)
  | cons fd fds => simp [List.count_append, List.count_cons]

/-- What `recv_fd` does with the descriptors of a message. -/
theorem recvFd_eq {malloc : Bool} (h : Delivers c k malloc m fds) :
    ∃ closed, recvFd c k malloc m = some (expected m fds, closed) ∧
      ∀ d, 0 ≤ d → closed.count d = (if m.data = 0 then fds.tail else fds).count d := by
  have none_closed (d : ℤ) (hd : 0 ≤ d) : [(-1 : ℤ)].count d = 0 :=
    List.count_eq_zero_of_not_mem (by simp; omega)
  cases malloc with
  | false =>
    obtain rfl : fds = [] := h
    exact ⟨[], by simp [recvFd, expected], by simp⟩
  | true =>
    cases m with
    | failed =>
      obtain rfl : fds = [] := h
      exact ⟨[-1], by simp [recvFd, expected], by simpa [Recvmsg.data] using none_closed⟩
    | eof =>
      obtain rfl : fds = [] := h
      exact ⟨[-1], by simp [recvFd, expected], by simpa [Recvmsg.data] using none_closed⟩
    | byte data control =>
      by_cases hdata : data = 0
      · refine ⟨fds.tail, ?_, fun d _ => by rw [Recvmsg.data, if_pos hdata]⟩
        cases control with
        | none =>
          obtain rfl : fds = [] := h
          simp [recvFd, expected, hdata]
        | some ctl => simp [recvFd, takeFd_eq h, expected, Recvmsg.data, hdata]
      · refine ⟨fds.tail ++ [fds.head?.getD (-1)], ?_, fun d hd => by
          rw [Recvmsg.data, if_neg hdata, count_tail_append hd]⟩
        cases control with
        | none =>
          obtain rfl : fds = [] := h
          simp [recvFd, expected, Recvmsg.data, hdata]
        | some ctl => simp [recvFd, takeFd_eq h, expected, Recvmsg.data, hdata]

/-- Each of the descriptors is closed once, but not the one that is returned. -/
theorem count_expected (hfds : Installed fds) {d : ℤ} (hd : 0 ≤ d) :
    (if m.data = 0 then fds.tail else fds).count d =
      if d ∈ fds ∧ d ≠ expected m fds then 1 else 0 := by
  unfold expected
  by_cases hdata : m.data = 0
  · rw [if_pos hdata, if_pos hdata]
    cases fds with
    | nil => simp
    | cons fd fds =>
      have hfd := List.nodup_cons.mp hfds.1
      rw [List.tail_cons, hfd.2.count]
      by_cases hmem : d ∈ fds
      · have hne : d ≠ fd := fun h => hfd.1 (h ▸ hmem)
        simp [hmem, hne]
      · simp [hmem]
  · rw [if_neg hdata, if_neg hdata, hfds.1.count]
    have hne : d ≠ -1 := by omega
    simp [hne]

/-- With memory, what `send_fd` sends is received as a message with one descriptor. -/
theorem exists_sendFd (c : Layout) (k : Consts) (fd : ℤ) :
    ∃ msg, sendFd c k true fd = some msg ∧ msg.data = 0 ∧
      ∀ install rest, Delivers c k true (msg.received install rest) [install fd] := by
  refine ⟨_, rfl, rfl, fun install rest => ?_⟩
  show ite _ _ _
  rw [if_pos ⟨rfl, rfl⟩]
  refine ⟨fun i hi => ?_, Or.inl ⟨rfl, c.capacity_pos⟩⟩
  obtain rfl : i = 0 := Nat.lt_one_iff.mp hi
  rfl

/-- **Descriptor passing.** Whatever has been sent, `recv_fd` stays inside its buffer, returns the
first descriptor of a message with the right byte, and closes the other received descriptors and
nothing else, each of them once. What `send_fd` sends, which is a message whenever it has memory, is
returned. -/
theorem recvFd_exact :
    (∀ (c : Layout) (k : Consts) (malloc : Bool) (m : Recvmsg) (fds : List ℤ),
      Delivers c k malloc m fds → Installed fds →
        ∃ closed, recvFd c k malloc m = some (expected m fds, closed) ∧
          ∀ d, 0 ≤ d → closed.count d = if d ∈ fds ∧ d ≠ expected m fds then 1 else 0) ∧
    ∀ (c : Layout) (k : Consts) (fd : ℤ), ∃ msg, sendFd c k true fd = some msg ∧
      ∀ install rest, recvFd c k true (msg.received install rest) = some (install fd, []) := by
  constructor
  · intro c k malloc m fds h hfds
    obtain ⟨closed, hrecv, hclosed⟩ := recvFd_eq h
    refine ⟨closed, hrecv, fun d hd => ?_⟩
    rw [hclosed d hd, count_expected hfds hd]
  · intro c k fd
    obtain ⟨msg, hmsg, hdata, hdelivers⟩ := exists_sendFd c k fd
    refine ⟨msg, hmsg, fun install rest => ?_⟩
    have htake := takeFd_eq (hdelivers install rest)
    simp [recvFd, Message.received, htake, hdata]

/-- Two descriptors fit where the alignment is 8; and descriptor 3 is sent and received as 7. -/
theorem recvFd_exact_two :
    (∃ closed, recvFd (.system 16 8 (by decide)) ⟨1, 1⟩ true
        (.byte 0 (some ⟨1, 1, 24, fun i => i + 5⟩)) = some (5, closed) ∧
      ∀ d, 0 ≤ d → closed.count d = if d ∈ [5, 6] ∧ d ≠ 5 then 1 else 0) ∧
    ((sendFd (.fallback 12) ⟨1, 1⟩ true 3).map fun msg =>
      recvFd (.fallback 12) ⟨1, 1⟩ true (msg.received (· + 4) fun _ => 0)) =
        some (some (7, [])) := by
  refine ⟨recvFd_exact.1 _ _ _ _ [5, 6] ⟨fun i hi => ?_, Or.inl ⟨rfl, by decide⟩⟩
    ⟨by decide, by decide⟩, ?_⟩
  · match i, hi with
    | 0, _ => rfl
    | 1, _ => rfl
  · obtain ⟨msg, hmsg, hrecv⟩ := recvFd_exact.2 (.fallback 12) ⟨1, 1⟩ 3
    rw [hmsg, Option.map_some, hrecv]
    rfl

end

end Libptytty.Fdpass
