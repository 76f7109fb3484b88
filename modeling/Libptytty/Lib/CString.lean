import Mathlib

/-!
# C strings and character arrays

A C string is the list of its characters before the terminating NUL (`CStr`), a character array
of `n` elements is a list of length `n` (`CharArray`). `strncpy n s` fills an array of `n`
characters the way the C library does: at most `n` characters of `s`, then NULs, and no
terminator when `s` has `n` characters or more.

`decimal n` is the notation of a number; `trailingDigits` finds it again at the end of an array.
-/

namespace CString

/-- A C string by its characters before the NUL. -/
abbrev CStr : Type := {s : List UInt8 // 0 ∉ s}

/-- The empty C string. -/
def empty : CStr := ⟨[], List.not_mem_nil⟩

/-- An array of `n` characters. -/
abbrev CharArray (n : ℕ) : Type := List.Vector UInt8 n

/-- `strncpy (array, s, n)`: the contents of the array. -/
def strncpy (n : ℕ) (s : CStr) : CharArray n :=
  ⟨s.1.take n ++ List.replicate (n - s.1.length) 0, by
    rw [List.length_append, List.length_take, List.length_replicate]; omega⟩

/-- The array of `n` NULs. -/
def zeroed (n : ℕ) : CharArray n := ⟨List.replicate n 0, List.length_replicate⟩

/-- The array contains a NUL, so that it can be read as a C string. -/
def Terminated {n : ℕ} (a : CharArray n) : Prop := 0 ∈ a.toList

/-- The C string that starts a sequence of characters: those before the first NUL. -/
def read (l : List UInt8) : CStr :=
  ⟨l.takeWhile (· ≠ 0), fun h => by simpa using List.mem_takeWhile_imp h⟩

/-- The C string stored in an array. -/
def ofArray {n : ℕ} (a : CharArray n) : CStr := read a.toList

/-- `array[n] = 0` for an array of `n + 1` characters. -/
def terminate {n : ℕ} (a : CharArray (n + 1)) : CharArray (n + 1) :=
  ⟨a.toList.take n ++ [0], by simp⟩

/-- `s + n` for a C string. -/
def advance (n : ℕ) (s : CStr) : CStr := ⟨s.1.drop n, fun h => s.2 (List.mem_of_mem_drop h)⟩

/-- The first `n` characters of a C string. -/
def truncate (n : ℕ) (s : CStr) : CStr := ⟨s.1.take n, fun h => s.2 (List.mem_of_mem_take h)⟩

theorem terminated_terminate {n : ℕ} (a : CharArray (n + 1)) : Terminated (terminate a) := by
  unfold Terminated terminate; simp

/-- Storing `s` in an array of `n + 1` characters and forcing the last one to NUL keeps the first
`n` characters of `s`. -/
theorem ofArray_terminate_strncpy (n : ℕ) (s : CStr) :
    ofArray (terminate (strncpy (n + 1) s)) = truncate n s := by
  apply Subtype.ext
  have hne : ∀ c ∈ s.1.take n, (decide (c ≠ 0)) = true := by
    intro c hc
    refine decide_eq_true ?_
    rintro rfl
    exact s.2 (List.mem_of_mem_take hc)
  show List.takeWhile _ ((s.1.take (n + 1) ++ List.replicate (n + 1 - s.1.length) 0).take n ++ [0])
    = s.1.take n
  rw [List.take_append, List.take_take, List.take_replicate, List.append_assoc,
    Nat.min_eq_left (Nat.le_succ n), List.takeWhile_append_of_pos hne]
  -- what follows the characters of `s` starts with a NUL
  rcases (min (n - (s.1.take (n + 1)).length) (n + 1 - s.1.length)) with _ | k <;>
    simp [List.replicate_succ]

/-- A second truncation to at most as many characters sees no difference. -/
theorem strncpy_truncate {m n : ℕ} (h : m ≤ n) (s : CStr) :
    strncpy m (truncate n s) = strncpy m s := by
  apply Subtype.ext
  show (s.1.take n).take m ++ List.replicate (m - (s.1.take n).length) 0
    = s.1.take m ++ List.replicate (m - s.1.length) 0
  rw [List.take_take, Nat.min_eq_left h, List.length_take]
  congr 2
  omega

/-! ## Decimal notation -/

/-- The decimal notation of a number, without leading zeros. -/
def decimal (n : ℕ) : List UInt8 := (Nat.toDigits 10 n).map fun c => c.toNat.toUInt8

/-- One of the characters "0" to "9". -/
def isDigit (c : UInt8) : Bool := 48 ≤ c && c ≤ 57

/-- A digit fits in a byte. -/
theorem toUInt8_of_isDigit {c : Char} (hc : c.isDigit) :
    isDigit c.toNat.toUInt8 = true ∧ Char.ofNat c.toNat.toUInt8.toNat = c := by
  have hval : 48 ≤ c.toNat ∧ c.toNat ≤ 57 := by
    simpa [Char.isDigit, UInt32.le_iff_toNat_le] using hc
  have hbyte : c.toNat.toUInt8.toNat = c.toNat := by
    show c.toNat % 256 = c.toNat
    omega
  constructor
  · simp only [isDigit, UInt8.le_iff_toNat_le, hbyte]
    simpa using hval
  · rw [hbyte, Char.ofNat_toNat]

theorem decimal_ne_nil (n : ℕ) : decimal n ≠ [] := by simp [decimal]

theorem isDigit_of_mem_decimal {n : ℕ} {c : UInt8} (hc : c ∈ decimal n) : isDigit c = true := by
  obtain ⟨d, hd, rfl⟩ := List.mem_map.mp hc
  exact (toUInt8_of_isDigit (Nat.isDigit_of_mem_toDigits (by decide) (by decide) hd)).1

theorem decimal_injective : Function.Injective decimal := by
  have hback : ∀ n, (decimal n).map (fun b => Char.ofNat b.toNat) = Nat.toDigits 10 n := by
    intro n
    rw [decimal, List.map_map]
    refine (List.map_congr_left fun c hc => ?_).trans (List.map_id _)
    exact (toUInt8_of_isDigit (Nat.isDigit_of_mem_toDigits (by decide) (by decide) hc)).2
  intro n m h
  rw [← Nat.ofDigitChars_ten_toDigits (n := n), ← hback n, h, hback m,
    Nat.ofDigitChars_ten_toDigits]

/-- The digits at the end of an array that is filled up with NULs. -/
def trailingDigits (l : List UInt8) : List UInt8 :=
  ((l.reverse.dropWhile (· = 0)).takeWhile isDigit).reverse

theorem trailingDigits_eq {A ds : List UInt8} (hds : ds ≠ []) (hdigit : ∀ c ∈ ds, isDigit c = true)
    (hA : ∀ c ∈ A.getLast?, isDigit c = false) (k : ℕ) :
    trailingDigits (A ++ ds ++ List.replicate k 0) = ds := by
  have hzeros : ∀ c ∈ List.replicate k (0 : UInt8), decide (c = 0) = true := by simp
  have hdrop : (ds.reverse ++ A.reverse).dropWhile (· = 0) = ds.reverse ++ A.reverse := by
    obtain ⟨c, cs, hcs⟩ := List.exists_cons_of_ne_nil (by simpa using hds : ds.reverse ≠ [])
    have hc : isDigit c = true := hdigit c (by rw [← List.mem_reverse, hcs]; simp)
    have hne : c ≠ 0 := by
      rintro rfl
      cases hc
    rw [hcs, List.cons_append, List.dropWhile_cons_of_neg (by simpa using hne)]
  have htake : A.reverse.takeWhile isDigit = [] := by
    cases h : A.reverse with
    | nil => rfl
    | cons c cs =>
      have hc : isDigit c = false := hA c (by rw [← List.head?_reverse, h]; rfl)
      rw [List.takeWhile_cons_of_neg (by simp [hc])]
  unfold trailingDigits
  rw [List.reverse_append, List.reverse_append, List.reverse_replicate,
    List.dropWhile_append_of_pos hzeros, hdrop,
    List.takeWhile_append_of_pos (by simpa using hdigit), htake, List.append_nil,
    List.reverse_reverse]

end CString
