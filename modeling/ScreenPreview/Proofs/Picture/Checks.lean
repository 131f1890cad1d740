import Mathlib.Algebra.Group.Nat.Defs
import ScreenPreview.Picture.Pixels

/-!
What a frame must hold to pass its check.

A side is at least one, and the bytes are at least four for each pixel (`check_iff_holds`). The
number of bytes that the size takes is computed in a word of 64 bits, in which the largest of all
sizes still fits (`lengthWord_eq`), so the check is not misled (`checkInWords_eq`) and the bytes up
to that number can be taken out of every frame that passes (`slice?_of_check`).
-/
namespace ScreenPreview.Picture.Pixels

variable {p : Pixels}

theorem check_eq_ok_iff :
    p.check = .ok () ↔
      1 ≤ p.width ∧ 1 ≤ p.height ∧ p.data ≠ [] ∧ p.expectedLength ≤ p.data.length := by
  simp only [check, ← Int32.not_lt, Bool.or_eq_true, decide_eq_true_eq, List.isEmpty_iff]
  by_cases size : p.width < 1 ∨ p.height < 1
  · simp only [size, if_true, reduceCtorEq, false_iff]
    exact fun ⟨width, height, _⟩ => size.elim width height
  · by_cases empty : p.data = []
    · simp [size, empty]
    · by_cases short : p.data.length < p.expectedLength
      · simp [size, empty, short]
      · obtain ⟨width, height⟩ := not_or.mp size
        simp [width, height, empty, short, Nat.not_lt.mp short]

theorem count_of_sides (width : 1 ≤ p.width) (height : 1 ≤ p.height) :
    p.count = p.width.toNatClampNeg * p.height.toNatClampNeg := by
  have wide : ¬ p.width < 1 := Int32.not_lt.mpr width
  have high : ¬ p.height < 1 := Int32.not_lt.mpr height
  simp only [count, wide, high, decide_false, Bool.or_self, Bool.false_eq_true, if_false]

theorem count_of_degenerate (degenerate : p.width < 1 ∨ p.height < 1) : p.count = 0 := by
  simp [count, degenerate]

theorem one_le_toInt_iff {side : Int32} : 1 ≤ side.toInt ↔ 1 ≤ side := by
  have one : (1 : Int32).toInt = 1 := rfl
  rw [Int32.le_iff_toInt_le, one]

theorem side_pos {side : Int32} (large : 1 ≤ side) :
    0 < side.toNatClampNeg ∧ (side.toNatClampNeg : Int) = side.toInt := by
  have := one_le_toInt_iff.mpr large
  simp only [Int32.toNatClampNeg]
  omega

theorem expectedLength_pos (width : 1 ≤ p.width) (height : 1 ≤ p.height) :
    0 < p.expectedLength := by
  rw [expectedLength, count_of_sides width height]
  exact Nat.mul_pos (Nat.mul_pos (side_pos width).1 (side_pos height).1) (by decide)

theorem expectedLength_eq (width : 1 ≤ p.width) (height : 1 ≤ p.height) :
    (p.expectedLength : Int) = 4 * p.width.toInt * p.height.toInt := by
  rw [expectedLength, count_of_sides width height, pixelSize, Int.natCast_mul, Int.natCast_mul,
    (side_pos width).2, (side_pos height).2, Int.mul_comm, Int.mul_assoc]
  rfl

theorem check_iff_holds :
    p.check = .ok () ↔ 1 ≤ p.width.toInt ∧ 1 ≤ p.height.toInt ∧
      4 * p.width.toInt * p.height.toInt ≤ p.data.length := by
  rw [check_eq_ok_iff, one_le_toInt_iff, one_le_toInt_iff]
  constructor
  · rintro ⟨width, height, -, enough⟩
    refine ⟨width, height, ?_⟩
    rw [← expectedLength_eq width height]
    exact Int.ofNat_le.mpr enough
  · rintro ⟨width, height, enough⟩
    rw [← expectedLength_eq width height] at enough
    have enough : p.expectedLength ≤ p.data.length := Int.ofNat_le.mp enough
    have some : 0 < p.data.length := Nat.lt_of_lt_of_le (expectedLength_pos width height) enough
    exact ⟨width, height, List.length_pos_iff.mp some, enough⟩

theorem four_mul_count_le (valid : p.check = .ok ()) : 4 * p.count ≤ p.data.length := by
  have enough := (check_eq_ok_iff.mp valid).2.2.2
  rwa [expectedLength, pixelSize, Nat.mul_comm] at enough

theorem length_trimmed (valid : p.check = .ok ()) : p.trimmed.data.length = p.expectedLength :=
  List.length_take_of_le (check_eq_ok_iff.mp valid).2.2.2

theorem check_trimmed (valid : p.check = .ok ()) : p.trimmed.check = .ok () := by
  obtain ⟨width, height, -, -⟩ := check_eq_ok_iff.mp valid
  have length := length_trimmed valid
  have some : p.trimmed.data ≠ [] := by
    rw [← List.length_pos_iff, length]
    exact expectedLength_pos width height
  exact check_eq_ok_iff.mpr ⟨width, height, some, Nat.le_of_eq length.symm⟩

/-! ### Words -/

def countWord (p : Pixels) : UInt64 :=
  if p.width < 1 || p.height < 1 then 0
  else p.width.toInt64.toUInt64 * p.height.toInt64.toUInt64

def lengthWord (p : Pixels) : UInt64 := p.countWord * pixelSize.toUInt64

theorem toNat_sideWord {side : Int32} (large : 1 ≤ side) :
    side.toInt64.toUInt64.toNat = side.toNatClampNeg := by
  have positive : 0 ≤ side.toInt64 := by
    have zero : (0 : Int64).toInt = 0 := rfl
    rw [Int64.le_iff_toInt_le, zero, Int32.toInt_toInt64, ← (side_pos large).2]
    exact Int.natCast_nonneg _
  rw [Int64.toNat_toUInt64_of_le positive, Int32.toNatClampNeg_toInt64]

/-- Two sides of 31 bits leave two bits for the bytes of a pixel. -/
theorem count_lt (p : Pixels) : p.count < 2 ^ 62 := by
  have product : p.width.toNatClampNeg * p.height.toNatClampNeg ≤ (2 ^ 31 - 1) * (2 ^ 31 - 1) :=
    Nat.mul_le_mul (Nat.le_pred_of_lt p.width.toNatClampNeg_lt)
      (Nat.le_pred_of_lt p.height.toNatClampNeg_lt)
  rw [count]
  split
  · decide
  · exact Nat.lt_of_le_of_lt product (by decide)

theorem toNat_countWord (p : Pixels) : p.countWord.toNat = p.count := by
  have small := p.count_lt
  by_cases degenerate : p.width < 1 ∨ p.height < 1
  · simp [countWord, count_of_degenerate degenerate, degenerate]
  · obtain ⟨width, height⟩ := not_or.mp degenerate
    rw [count_of_sides (Int32.not_lt.mp width) (Int32.not_lt.mp height)] at small ⊢
    simp only [countWord, width, height, decide_false, Bool.or_self, Bool.false_eq_true, if_false]
    rw [UInt64.toNat_mul, toNat_sideWord (Int32.not_lt.mp width),
      toNat_sideWord (Int32.not_lt.mp height)]
    exact Nat.mod_eq_of_lt (Nat.lt_trans small (by decide))

theorem toNat_lengthWord (p : Pixels) : p.lengthWord.toNat = p.expectedLength := by
  have small := p.count_lt
  have size : pixelSize.toUInt64.toNat = pixelSize := rfl
  rw [lengthWord, UInt64.toNat_mul, toNat_countWord, size, expectedLength, pixelSize]
  exact Nat.mod_eq_of_lt (by omega)

theorem lengthWord_eq (p : Pixels) :
    (p.lengthWord.toNat : Int) = if 1 ≤ p.width.toInt ∧ 1 ≤ p.height.toInt then
      4 * p.width.toInt * p.height.toInt else 0 := by
  simp only [toNat_lengthWord, one_le_toInt_iff]
  split
  · next sides => exact expectedLength_eq sides.1 sides.2
  · next degenerate =>
    rw [Classical.not_and_iff_not_or_not, Int32.not_le, Int32.not_le] at degenerate
    rw [expectedLength, count_of_degenerate degenerate, Nat.zero_mul]
    rfl

def checkInWords (p : Pixels) : Except Failure Unit :=
  if p.width < 1 || p.height < 1 then .error (.frameSize p.width p.height)
  else if p.data.isEmpty then .error .noPixels
  else if p.data.length < p.lengthWord.toNat then
    .error (.shortPixels p.lengthWord.toNat p.data.length)
  else .ok ()

theorem checkInWords_eq (p : Pixels) : p.checkInWords = p.check := by
  rw [checkInWords, check, toNat_lengthWord]

/-- The bytes that the size takes, if the frame holds as many. -/
def slice? (p : Pixels) : Option Bytes :=
  if p.lengthWord.toNat ≤ p.data.length then some (p.data.take p.lengthWord.toNat) else none

theorem slice?_of_check (valid : p.check = .ok ()) : p.slice? = some p.trimmed.data := by
  have enough : p.lengthWord.toNat ≤ p.data.length := by
    rw [toNat_lengthWord]
    exact (check_eq_ok_iff.mp valid).2.2.2
  rw [slice?, if_pos enough, toNat_lengthWord]
  rfl

end ScreenPreview.Picture.Pixels
