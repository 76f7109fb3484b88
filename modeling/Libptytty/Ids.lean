import Libptytty.Sessions

/-!
# The ids of pts lines

`fill_id` keeps the last characters of the line. For the lines "pts/0", "pts/1" and so on these may
or may not contain a part of "pts/", but as long as they contain all digits, the digits can be found
again (`trailingDigits_fillId`). So different lines have different ids (`fillId_pts`), which is what
sessions on such lines need to be told apart (`ident_ne_of_pts`).
-/

namespace Libptytty

open CString

theorem zero_notMem_append_decimal {s : List UInt8} (hs : 0 ∉ s) (n : ℕ) : 0 ∉ s ++ decimal n := by
  rw [List.mem_append, not_or]
  exact ⟨hs, fun h => by cases isDigit_of_mem_decimal h⟩

/-- "/dev/". -/
def devDir : List UInt8 := [47, 100, 101, 118, 47]

/-- "pts/". -/
def ptsDir : List UInt8 := [112, 116, 115, 47]

/-- The line "pts/n". -/
def ptsLine (n : ℕ) : CStr := ⟨ptsDir ++ decimal n, zero_notMem_append_decimal (by decide) n⟩

/-- The device "/dev/pts/n". -/
def ptsDevice (n : ℕ) : CStr :=
  ⟨devDir ++ ptsDir ++ decimal n, zero_notMem_append_decimal (by decide) n⟩

/-- `log_session` drops "/dev/". -/
theorem lineOf_ptsDevice (n : ℕ) : lineOf (ptsDevice n) = ptsLine n := by
  have hdev : devDir <+: (ptsDevice n).1 := by
    show devDir <+: devDir ++ ptsDir ++ decimal n
    rw [List.append_assoc]
    exact List.prefix_append _ _
  exact if_pos hdev

/-- The last characters of the line, and NULs up to the size of the field. -/
theorem fillId_toList (idSize : ℕ) (line : CStr) : (fillId idSize line).toList =
    line.1.drop (line.1.length - idSize) ++ List.replicate (idSize - line.1.length) 0 := by
  unfold fillId
  dsimp only
  split_ifs with hlen
  · show (line.1.drop _).take idSize ++ List.replicate (idSize - (line.1.drop _).length) 0 = _
    have hdrop : (line.1.drop (line.1.length - idSize)).length = idSize := by
      rw [List.length_drop]
      omega
    rw [List.take_of_length_le hdrop.le, hdrop, Nat.sub_self, Nat.sub_eq_zero_of_le hlen.le]
  · have hle : line.1.length ≤ idSize := not_lt.mp hlen
    show line.1.take idSize ++ List.replicate (idSize - line.1.length) 0 = _
    rw [List.take_of_length_le hle, Nat.sub_eq_zero_of_le hle, List.drop_zero]

theorem fillId_rtake (idSize : ℕ) (line : CStr) : (fillId idSize line).toList =
    line.1.rtake (min line.1.length idSize) ++
      List.replicate (idSize - min line.1.length idSize) 0 := by
  rw [fillId_toList, List.rtake]
  congr 2 <;> omega

/-- A field that has room for the digits of a pts line contains them. -/
theorem trailingDigits_fillId {idSize n : ℕ} (hn : (decimal n).length ≤ idSize) :
    trailingDigits (fillId idSize (ptsLine n)).toList = decimal n := by
  rw [fillId_toList]
  show trailingDigits ((ptsDir ++ decimal n).drop _ ++ _) = _
  have hlen : (ptsLine n).1.length = 4 + (decimal n).length := by
    show (ptsDir ++ decimal n).length = _
    rw [List.length_append]
    rfl
  -- what is dropped is a part of "pts/"
  rw [List.drop_append_of_le_length (by rw [hlen]; show _ ≤ 4; omega)]
  refine trailingDigits_eq (decimal_ne_nil n) (fun c => isDigit_of_mem_decimal) ?_ _
  generalize (ptsLine n).1.length - idSize = k
  match k with
  | 0 | 1 | 2 | 3 =>
    rintro c ⟨⟩
    rfl
  | k + 4 =>
    rw [List.drop_eq_nil_of_le (by show 4 ≤ _; omega)]
    rintro c ⟨⟩

/-- **Ids of pts lines.** Without "/dev/", the line of a device "/dev/pts/n" is "pts/n". Its id is
the end of the line, filled up with NULs to the size of the field. Two such lines whose numbers fit
in the field have the same id only if they are the same. -/
theorem fillId_pts {idSize n m : ℕ} (hn : (decimal n).length ≤ idSize)
    (hm : (decimal m).length ≤ idSize) :
    (lineOf (ptsDevice n)).1 = ptsDir ++ decimal n ∧
      (fillId idSize (lineOf (ptsDevice n))).toList.length = idSize ∧
      (fillId idSize (lineOf (ptsDevice n))).toList =
        (ptsDir ++ decimal n).rtake (min (ptsDir ++ decimal n).length idSize) ++
          List.replicate (idSize - min (ptsDir ++ decimal n).length idSize) 0 ∧
      (fillId idSize (lineOf (ptsDevice n)) = fillId idSize (lineOf (ptsDevice m)) ↔ n = m) := by
  rw [lineOf_ptsDevice, lineOf_ptsDevice]
  refine ⟨rfl, List.Vector.toList_length _, fillId_rtake idSize (ptsLine n), fun h => ?_, ?_⟩
  · apply decimal_injective
    rw [← trailingDigits_fillId hn, h, trailingDigits_fillId hm]
  · rintro rfl
    rfl

/-- In a field of two characters, "pts/7" has the id "/7" and "pts/42" the id "42". -/
theorem fillId_pts_two : fillId 2 (lineOf (ptsDevice 7)) = fillId 2 (lineOf (ptsDevice 42)) ↔
    7 = 42 := (fillId_pts (by decide) (by decide)).2.2.2

/-- Sessions on different pts lines have different records. -/
theorem ident_ne_of_pts {cfg : Config} {x y : PtyttyUnix} {n m : ℕ}
    (hx : x.name = some (ptsDevice n))
    (hy : y.name = some (ptsDevice m)) (hn : (decimal n).length ≤ cfg.idSize)
    (hm : (decimal m).length ≤ cfg.idSize) (hne : n ≠ m) : x.ident cfg ≠ y.ident cfg := by
  unfold PtyttyUnix.ident PtyttyUnix.line
  rw [hx, hy, Option.getD_some, Option.getD_some, lineOf_ptsDevice, lineOf_ptsDevice]
  intro h
  apply hne
  apply decimal_injective
  rw [← trailingDigits_fillId hn, h, trailingDigits_fillId hm]

end Libptytty
