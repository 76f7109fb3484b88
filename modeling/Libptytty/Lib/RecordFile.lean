import Mathlib

/-!
# Files of records

A file is a list of bytes that reads as zero beyond its end, and a table of records of one size.
`pwrite` replaces bytes at an offset. On the table it is an update of one entry
(`records_pwrite`), and a write that is cut off still touches no other entry
(`records_pwrite_of_ne`).
-/

namespace RecordFile

variable {α : Type*} (zero : α)

/-- What is before the offset `off`. A gap after the end of the file is filled with zeros. -/
def head (off : ℕ) (file : List α) : List α :=
  (file ++ List.replicate (off - file.length) zero).take off

/-- `pwrite` of `data` at the offset `off`. Writing nothing changes nothing. -/
def pwrite (data : List α) (off : ℕ) (file : List α) : List α :=
  if data.isEmpty then file else head zero off file ++ data ++ file.drop (off + data.length)

/-- The record `n`. -/
def records (size : ℕ) (file : List α) (n : ℕ) : List α :=
  (List.range size).map fun i => file.getD (n * size + i) zero

variable {zero} {size : ℕ}

theorem length_head (off : ℕ) (file : List α) : (head zero off file).length = off := by
  rw [head, List.length_take, List.length_append, List.length_replicate]
  omega

theorem getD_head {off i : ℕ} (file : List α) (hi : i < off) :
    (head zero off file).getD i zero = file.getD i zero := by
  rw [head, List.getD_eq_getElem?_getD, List.getElem?_take_of_lt hi]
  by_cases hfile : i < file.length
  · rw [List.getElem?_append_left hfile, List.getD_eq_getElem?_getD]
  · rw [List.getElem?_append_right (not_lt.mp hfile), List.getElem?_replicate,
      List.getD_eq_default _ _ (not_lt.mp hfile)]
    split_ifs <;> rfl

/-- What is read after a write. -/
theorem getD_pwrite (data : List α) (off : ℕ) (file : List α) (i : ℕ) :
    (pwrite zero data off file).getD i zero =
      if off ≤ i ∧ i < off + data.length then data.getD (i - off) zero else file.getD i zero := by
  by_cases hdata : data.isEmpty = true
  · have hnil := List.isEmpty_iff.mp hdata
    rw [pwrite, if_pos hdata, hnil, if_neg (by rw [List.length_nil]; omega)]
  have hlen : (head zero off file ++ data).length = off + data.length := by
    rw [List.length_append, length_head]
  rw [pwrite, if_neg hdata]
  rcases lt_or_ge i off with hlow | hlow
  · rw [List.append_assoc, List.getD_append _ _ _ _ (by rwa [length_head]), getD_head file hlow,
      if_neg fun h => absurd h.1 (not_le.mpr hlow)]
  rcases lt_or_ge i (off + data.length) with hmid | hhigh
  · rw [List.getD_append _ _ _ _ (by rwa [hlen]),
      List.getD_append_right _ _ _ _ (by rwa [length_head]), length_head, if_pos ⟨hlow, hmid⟩]
  · rw [List.getD_append_right _ _ _ _ (by rwa [hlen]), hlen,
      if_neg fun h => absurd h.2 (not_lt.mpr hhigh), List.getD_eq_getElem?_getD,
      List.getElem?_drop, List.getD_eq_getElem?_getD]
    congr 2
    omega

theorem length_records (file : List α) (n : ℕ) : (records zero size file n).length = size := by
  simp [records]

/-- Offsets in different records differ. -/
theorem offset_ne {m n i j : ℕ} (hmn : m ≠ n) (hi : i < size) (hj : j < size) :
    m * size + i ≠ n * size + j := by
  intro h
  rcases Nat.lt_or_gt_of_ne hmn with hlt | hlt
  · have := Nat.mul_le_mul_right size (Nat.succ_le_of_lt hlt)
    rw [Nat.succ_mul] at this
    omega
  · have := Nat.mul_le_mul_right size (Nat.succ_le_of_lt hlt)
    rw [Nat.succ_mul] at this
    omega

/-- The other records stay as they are, also if only a part of `data` is written. -/
theorem records_pwrite_of_ne {data : List α} (hdata : data.length ≤ size) (file : List α)
    {m n : ℕ} (hmn : m ≠ n) :
    records zero size (pwrite zero data (n * size) file) m = records zero size file m := by
  refine List.map_congr_left fun i hi => ?_
  rw [getD_pwrite, if_neg]
  rintro ⟨hle, hlt⟩
  refine offset_ne hmn (List.mem_range.mp hi) (show m * size + i - n * size < size by omega) ?_
  omega

/-- Writing a record is an update of the table. -/
theorem records_pwrite {data : List α} (hdata : data.length = size) (file : List α) (n : ℕ) :
    records zero size (pwrite zero data (n * size) file) =
      Function.update (records zero size file) n data := by
  funext m
  by_cases hmn : m = n
  · subst hmn
    rw [Function.update_self]
    refine List.ext_getElem (by rw [length_records, hdata]) fun i hi hi' => ?_
    rw [length_records] at hi
    simp only [records, List.getElem_map, List.getElem_range]
    rw [getD_pwrite, if_pos ⟨Nat.le_add_right _ _, by omega⟩, Nat.add_sub_cancel_left]
    exact List.getD_eq_getElem data zero hi'
  · rw [Function.update_of_ne hmn]
    exact records_pwrite_of_ne hdata.le file hmn

end RecordFile
