import MotionNotation.Scalar

/-!
# The sign of a float

Comparisons of floats are comparisons of what they unpack to.  With zero there
are four outcomes, of which what is not a number has its own.
-/

namespace MotionNotation

namespace Scalar

open Float.Model (UnpackedFloat)

/-- How a float compares with zero; nothing for what is not a number. -/
def sign? (x : Float) : Option Ordering :=
  x.toModel.unpack.compare (.zero .positive)

theorem unpack_zero : (0 : Float).toModel.unpack = .zero .positive := rfl

theorem lt_iff_compare (x y : Float) :
    x < y ↔ x.toModel.unpack.compare y.toModel.unpack = some .lt := by
  have hbool : x < y ↔ x.lt y = true := Iff.rfl
  rw [hbool, Float.lt, decide_eq_true_eq]
  exact beq_iff_eq

theorem beq_iff_compare (x y : Float) :
    (x == y) = true ↔ x.toModel.unpack.compare y.toModel.unpack = some .eq := by
  have hbool : (x == y) = (x.toModel.unpack.compare y.toModel.unpack == some .eq) := rfl
  rw [hbool, beq_iff_eq]

theorem lt_zero_iff (x : Float) : x < 0 ↔ sign? x = some .lt := by
  rw [lt_iff_compare, unpack_zero, sign?]

theorem beq_zero_iff (x : Float) : (x == 0) = true ↔ sign? x = some .eq := by
  rw [beq_iff_compare, unpack_zero, sign?]

theorem compare_zero_left (x : UnpackedFloat) :
    UnpackedFloat.compare (.zero .positive) x =
      (x.compare (.zero .positive)).map Ordering.swap := by
  cases x with
  | finite sign mantissa exponent pos => cases sign <;> rfl
  | zero sign => cases sign <;> rfl
  | infinity sign => cases sign <;> rfl
  | notANumber => rfl

theorem zero_lt_iff (x : Float) : 0 < x ↔ sign? x = some .gt := by
  rw [lt_iff_compare, unpack_zero, compare_zero_left, sign?]
  cases x.toModel.unpack.compare (.zero .positive) with
  | none => simp
  | some order => cases order <;> simp

theorem zero_beq_iff (x : Float) : ((0 : Float) == x) = true ↔ sign? x = some .eq := by
  rw [beq_iff_compare, unpack_zero, compare_zero_left, sign?]
  cases x.toModel.unpack.compare (.zero .positive) with
  | none => simp
  | some order => cases order <;> simp

theorem float_le_of_lt {x y : Float} (h : x < y) : x ≤ y := by
  have hle : x ≤ y ↔
      (x.toModel.unpack.compare y.toModel.unpack).any Ordering.isLE = true := by
    change x.le y = true ↔ _
    rw [Float.le, decide_eq_true_eq]
    rfl
  rw [hle, (lt_iff_compare x y).mp h]
  rfl

theorem isNaN_of_pos {x : Float} (h : 0 < x) : x.isNaN = false := by
  have hnan : x.isNaN = x.toModel.unpack.isNaN := rfl
  rw [zero_lt_iff, sign?] at h
  rw [hnan]
  cases hunpack : x.toModel.unpack with
  | notANumber =>
      rw [hunpack] at h
      cases h
  | _ => rfl

theorem clampNonneg_nonneg (x : Float) : 0 ≤ clampNonneg x ∧ (clampNonneg x).isNaN = false := by
  have hclamp : clampNonneg x = if 0 < x then x else (0 : Float) := rfl
  rw [hclamp]
  split
  · rename_i hpos
    exact ⟨float_le_of_lt hpos, isNaN_of_pos hpos⟩
  · exact ⟨by decide, by decide⟩

section Finite

variable {x : Float} (finite : x.isFinite = true)

include finite

theorem sign_of_isFinite : sign? x = some .lt ∨ sign? x = some .eq ∨ sign? x = some .gt := by
  have hfinite : x.toModel.unpack.isFinite = true := finite
  rw [sign?]
  cases hunpack : x.toModel.unpack with
  | finite sign mantissa exponent pos =>
      cases sign with
      | negative => exact .inl rfl
      | positive => exact .inr (.inr rfl)
  | zero sign => cases sign <;> exact .inr (.inl rfl)
  | infinity sign =>
      rw [hunpack] at hfinite
      cases hfinite
  | notANumber =>
      rw [hunpack] at hfinite
      cases hfinite

theorem beq_self_of_isFinite : (x == x) = true := by
  have hfinite : x.toModel.unpack.isFinite = true := finite
  rw [beq_iff_compare]
  cases hunpack : x.toModel.unpack with
  | finite sign mantissa exponent pos =>
      have hsame : (compare exponent exponent).then (compare mantissa mantissa) = .eq := by simp
      cases sign with
      | negative => exact congrArg (fun order => some order.swap) hsame
      | positive => exact congrArg some hsame
  | zero sign => rfl
  | infinity sign =>
      rw [hunpack] at hfinite
      cases hfinite
  | notANumber =>
      rw [hunpack] at hfinite
      cases hfinite

theorem clampNonneg_beq_iff : (clampNonneg x == x) = true ↔ ¬ x < 0 := by
  have hclamp : clampNonneg x = if 0 < x then x else (0 : Float) := rfl
  rw [hclamp, lt_zero_iff]
  split
  · rename_i hpos
    rw [zero_lt_iff] at hpos
    simp [beq_self_of_isFinite finite, hpos]
  · rename_i hpos
    rw [zero_lt_iff] at hpos
    rw [zero_beq_iff]
    rcases sign_of_isFinite finite with hsign | hsign | hsign <;> simp_all

theorem clampNonneg_beq_zero_iff (nonneg : ¬ x < 0) :
    (clampNonneg x == (0 : Float)) = true ↔ (x == 0) = true := by
  have hclamp : clampNonneg x = if 0 < x then x else (0 : Float) := rfl
  rw [lt_zero_iff] at nonneg
  rw [hclamp, beq_zero_iff x]
  split
  · rw [beq_zero_iff]
  · rename_i hpos
    rw [zero_lt_iff] at hpos
    have hzero : ((0 : Float) == 0) = true := rfl
    rw [hzero]
    rcases sign_of_isFinite finite with hsign | hsign | hsign <;> simp_all

end Finite

end Scalar

end MotionNotation
