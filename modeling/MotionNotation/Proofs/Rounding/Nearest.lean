import Mathlib

/-!
# Rounding to the nearest

Float arithmetic computes a significand that is cut off and remembers how much
was cut off, and from that rounds to the nearest whole significand, halves to the
even one.  The exponent is the one that leaves fifty-three binary digits, or the
least there is.
-/

namespace MotionNotation.Rounding

open Float.Model (Format UnpackedFloat totalExponent)
open Float.Model.UnpackedFloat (Sign Accuracy ExtendedMantissa roundWithAccuracy
  shiftToTargetExponent shiftToExponent)

/-! ## Whole numbers -/

structure Nearest (x : ℚ) (n : ℕ) : Prop where
  below : n ≤ x + 1 / 2
  above : x ≤ n + 1 / 2
  even : x + 1 / 2 = n ∨ x = n + 1 / 2 → n % 2 = 0

theorem Nearest.of_lt {x : ℚ} {n : ℕ} (below : n < x + 1 / 2) (above : x < n + 1 / 2) :
    Nearest x n where
  below := below.le
  above := above.le
  even := by rintro (h | h) <;> linarith

theorem Nearest.of_half {x : ℚ} {n : ℕ} (even : n % 2 = 0)
    (half : x + 1 / 2 = n ∨ x = n + 1 / 2) : Nearest x n where
  below := by rcases half with h | h <;> linarith
  above := by rcases half with h | h <;> linarith
  even _ := even

theorem Nearest.natCast (n : ℕ) : Nearest n n :=
  .of_lt (by linarith) (by linarith)

theorem Nearest.le_of_le {x : ℚ} {n bound : ℕ} (h : Nearest x n) (hx : x ≤ bound) :
    n ≤ bound := by
  have hlt : (n : ℚ) < bound + 1 := by linarith [h.below]
  exact Nat.lt_succ_iff.mp (by exact_mod_cast hlt)

theorem Nearest.ge_of_ge {x : ℚ} {n bound : ℕ} (h : Nearest x n) (hx : bound ≤ x) :
    bound ≤ n := by
  have hlt : (bound : ℚ) < n + 1 := by linarith [h.above]
  exact Nat.lt_succ_iff.mp (by exact_mod_cast hlt)

theorem Nearest.eq_of_natCast {m n : ℕ} (h : Nearest m n) : n = m :=
  le_antisymm (h.le_of_le le_rfl) (h.ge_of_ge le_rfl)

/-- Where `x` lies, of which `mantissa` is the whole part, and `accuracy` tells how
the rest compares with one half. -/
def Within (mantissa : ℕ) (accuracy : Accuracy) (x : ℚ) : Prop :=
  match accuracy with
  | .exact => x = mantissa
  | .inexact .lt => mantissa < x ∧ x < mantissa + 1 / 2
  | .inexact .eq => x = mantissa + 1 / 2
  | .inexact .gt => mantissa + 1 / 2 < x ∧ x < mantissa + 1

namespace Within

variable {mantissa : ℕ} {accuracy : Accuracy} {x : ℚ}

theorem natCast (n : ℕ) : Within n .exact n := rfl

theorem bounds (h : Within mantissa accuracy x) : mantissa ≤ x ∧ x < mantissa + 1 := by
  rcases accuracy with _ | order
  · obtain rfl : x = mantissa := h
    constructor <;> linarith
  · cases order with
    | lt =>
        have hx : mantissa < x ∧ x < mantissa + 1 / 2 := h
        constructor <;> linarith
    | eq =>
        have hx : x = mantissa + 1 / 2 := h
        constructor <;> linarith
    | gt =>
        have hx : mantissa + 1 / 2 < x ∧ x < mantissa + 1 := h
        constructor <;> linarith

theorem nearest (h : Within mantissa accuracy x) :
    Nearest x (accuracy.roundToNearestEven mantissa) := by
  rcases accuracy with _ | order
  · obtain rfl : x = mantissa := h
    exact Nearest.natCast mantissa
  · cases order with
    | lt =>
        have hx : mantissa < x ∧ x < mantissa + 1 / 2 := h
        have hrounded : (Accuracy.inexact .lt).roundToNearestEven mantissa = mantissa := rfl
        rw [hrounded]
        exact .of_lt (by linarith) (by linarith)
    | eq =>
        have hx : x = mantissa + 1 / 2 := h
        have hrounded : (Accuracy.inexact .eq).roundToNearestEven mantissa =
            mantissa + mantissa % 2 := rfl
        have hparity : mantissa % 2 = 0 ∨ mantissa % 2 = 1 := by omega
        rw [hrounded]
        rcases hparity with heven | hodd
        · rw [heven]
          exact .of_half heven (.inr hx)
        · rw [hodd]
          refine .of_half (by omega) (.inl ?_)
          push_cast
          linarith
    | gt =>
        have hx : mantissa + 1 / 2 < x ∧ x < mantissa + 1 := h
        have hrounded : (Accuracy.inexact .gt).roundToNearestEven mantissa = mantissa + 1 := rfl
        rw [hrounded]
        apply Nearest.of_lt <;> push_cast <;> linarith

end Within

/-! ## Cutting off digits -/

theorem shiftRightOne_within {extended : ExtendedMantissa} {x : ℚ}
    (h : Within extended.mantissa extended.accuracy x) :
    Within extended.shiftRightOne.mantissa extended.shiftRightOne.accuracy (x / 2) := by
  obtain ⟨mantissa, roundBit, stickyBit⟩ := extended
  have hsplit : ((mantissa % 2 : ℕ) : ℚ) + 2 * ((mantissa / 2 : ℕ) : ℚ) = mantissa := by
    exact_mod_cast Nat.mod_add_div mantissa 2
  have hparity : mantissa % 2 = 0 ∨ mantissa % 2 = 1 := by omega
  rcases hparity with hparity | hparity <;> cases roundBit <;> cases stickyBit <;>
    simp [Within, ExtendedMantissa.shiftRightOne, ExtendedMantissa.accuracy, hparity]
      at h hsplit ⊢ <;>
    first | linarith | constructor <;> linarith

theorem shiftRight_within {extended : ExtendedMantissa} {x : ℚ}
    (h : Within extended.mantissa extended.accuracy x) (count : ℕ) :
    Within (extended >>> count).mantissa (extended >>> count).accuracy (x / 2 ^ count) := by
  induction count with
  | zero =>
      rw [pow_zero, div_one]
      exact h
  | succ count ih =>
      rw [pow_succ, ← div_div]
      exact shiftRightOne_within ih

theorem mantissa_ofMantissaAndAccuracy (mantissa : ℕ) (accuracy : Accuracy) :
    (ExtendedMantissa.ofMantissaAndAccuracy mantissa accuracy).mantissa = mantissa := by
  rcases accuracy with _ | order
  · rfl
  · cases order <;> rfl

theorem accuracy_ofMantissaAndAccuracy (mantissa : ℕ) (accuracy : Accuracy) :
    (ExtendedMantissa.ofMantissaAndAccuracy mantissa accuracy).accuracy = accuracy := by
  rcases accuracy with _ | order
  · rfl
  · cases order <;> rfl

/-! ## The exponent of the result -/

def target (mantissa : ℕ) (exponent : ℤ) : ℤ :=
  max (mantissa.log2 + exponent - 52) (-1074)

theorem targetExponent_eq (mantissa : ℕ) (exponent : ℤ) :
    Format.binary64.targetExponent (totalExponent mantissa exponent) =
      target mantissa exponent := by
  have hbits : (Format.binary64.mantissaBits : ℤ) = 53 := rfl
  have hleast : Format.binary64.minExponent = -1074 := rfl
  rw [Format.targetExponent, totalExponent, hbits, hleast, target]
  congr 1
  ring

structure Rounded (x : ℚ) (n : ℕ) (exponent : ℤ) : Prop where
  nearest : Nearest (x / 2 ^ exponent) n
  least : -1074 ≤ exponent
  small : x / 2 ^ exponent < 2 ^ 53
  normal : exponent = -1074 ∨ 2 ^ 52 ≤ x / 2 ^ exponent

theorem two_zpow_pos (exponent : ℤ) : (0 : ℚ) < 2 ^ exponent :=
  zpow_pos two_pos exponent

theorem lt_two_pow_log2 {mantissa : ℕ} {accuracy : Accuracy} {x : ℚ}
    (h : Within mantissa accuracy x) : x < 2 ^ (mantissa.log2 + 1) := by
  have hle : mantissa + 1 ≤ 2 ^ (mantissa.log2 + 1) := Nat.lt_log2_self
  have hcast : (mantissa : ℚ) + 1 ≤ 2 ^ (mantissa.log2 + 1) := by exact_mod_cast hle
  linarith [h.bounds.2]

theorem two_pow_log2_le {mantissa : ℕ} {accuracy : Accuracy} {x : ℚ}
    (h : Within mantissa accuracy x) (pos : mantissa ≠ 0) : 2 ^ mantissa.log2 ≤ x := by
  have hle : 2 ^ mantissa.log2 ≤ mantissa := Nat.log2_self_le pos
  have hcast : (2 : ℚ) ^ mantissa.log2 ≤ mantissa := by exact_mod_cast hle
  linarith [h.bounds.1]

theorem mul_zpow_div_zpow (x : ℚ) (first second : ℤ) :
    x * 2 ^ first / 2 ^ second = x / 2 ^ (second - first) := by
  rw [zpow_sub₀ two_ne_zero]
  field_simp

theorem rounded_shift {mantissa : ℕ} {exponent : ℤ} {accuracy : Accuracy} {x : ℚ}
    (h : Within mantissa accuracy x) (fine : exponent ≤ target mantissa exponent) :
    (shiftToTargetExponent .binary64 mantissa exponent accuracy).2 = target mantissa exponent ∧
    Rounded (x * 2 ^ exponent)
      (shiftToTargetExponent .binary64 mantissa exponent accuracy).1.roundedMantissa
      (target mantissa exponent) := by
  obtain ⟨count, hcount⟩ := Int.eq_ofNat_of_zero_le (sub_nonneg.mpr fine)
  have hexponent : exponent + (count : ℤ) = target mantissa exponent := by omega
  have hshift : shiftToTargetExponent .binary64 mantissa exponent accuracy =
      (ExtendedMantissa.ofMantissaAndAccuracy mantissa accuracy >>> count,
        exponent + (count : ℤ)) := by
    simp only [shiftToTargetExponent, shiftToExponent, targetExponent_eq, hcount,
      Int.toNat_natCast]
  have hunit : x * 2 ^ exponent / 2 ^ target mantissa exponent = x / 2 ^ count := by
    rw [mul_zpow_div_zpow, hcount, zpow_natCast]
  have hbinade : x * 2 ^ exponent / 2 ^ target mantissa exponent =
      x / 2 ^ (target mantissa exponent - exponent) := mul_zpow_div_zpow ..
  rw [hshift, hexponent]
  refine ⟨rfl, ?_, le_max_right .., ?_, ?_⟩
  · rw [hunit]
    have hstart : Within (ExtendedMantissa.ofMantissaAndAccuracy mantissa accuracy).mantissa
        (ExtendedMantissa.ofMantissaAndAccuracy mantissa accuracy).accuracy x := by
      rwa [mantissa_ofMantissaAndAccuracy, accuracy_ofMantissaAndAccuracy]
    exact (shiftRight_within hstart count).nearest
  · rw [hbinade, div_lt_iff₀ (two_zpow_pos _)]
    have hlow : mantissa.log2 + exponent - 52 ≤ target mantissa exponent := le_max_left ..
    calc
      x < 2 ^ (mantissa.log2 + 1) := lt_two_pow_log2 h
      _ = (2 : ℚ) ^ ((mantissa.log2 : ℤ) + 1) := by rw [← zpow_natCast]; rfl
      _ ≤ 2 ^ (53 + (target mantissa exponent - exponent)) :=
        zpow_le_zpow_right₀ one_le_two (by omega)
      _ = 2 ^ 53 * 2 ^ (target mantissa exponent - exponent) := by
        rw [zpow_add₀ two_ne_zero]
        rfl
  · rcases max_choice ((mantissa.log2 : ℤ) + exponent - 52) (-1074) with hmax | hmax
    · by_cases hzero : mantissa = 0
      · left
        subst hzero
        have hlog : (Nat.log2 0 : ℤ) = 0 := rfl
        simp only [target, hlog] at fine ⊢
        omega
      · right
        rw [hbinade, le_div_iff₀ (two_zpow_pos _)]
        have htarget : target mantissa exponent = mantissa.log2 + exponent - 52 := hmax
        calc
          (2 : ℚ) ^ 52 * 2 ^ (target mantissa exponent - exponent) =
              2 ^ (52 + (target mantissa exponent - exponent)) := by
            rw [zpow_add₀ two_ne_zero]
            rfl
          _ = 2 ^ mantissa.log2 := by
            rw [htarget, ← zpow_natCast]
            congr 1
            omega
          _ ≤ x := two_pow_log2_le h hzero
    · exact .inl hmax

theorem Rounded.le {x : ℚ} {n : ℕ} {exponent : ℤ} (h : Rounded x n exponent) : n ≤ 2 ^ 53 :=
  h.nearest.le_of_le (by exact_mod_cast h.small.le)

theorem Rounded.canonical {x : ℚ} {n : ℕ} {exponent : ℤ} (h : Rounded x n exponent) :
    2 ^ 52 ≤ n ∨ exponent = -1074 := by
  rcases h.normal with hleast | hnormal
  · exact .inr hleast
  · exact .inl (h.nearest.ge_of_ge (by exact_mod_cast hnormal))

/-- The float of a rounded significand, which rounding may have made a digit longer. -/
def carried (sign : Sign) (n : ℕ) (exponent : ℤ) : UnpackedFloat :=
  if h : n = 0 then .zero sign
  else if n < 2 ^ 53 then .finite sign n exponent (Nat.pos_of_ne_zero h)
  else .finite sign (2 ^ 52) (exponent + 1) (by decide)

theorem shift_of_lt {n : ℕ} (h : n < 2 ^ 53) {exponent : ℤ} (least : -1074 ≤ exponent) :
    shiftToTargetExponent .binary64 n exponent .exact =
      (⟨n, false, false⟩, exponent) := by
  have hlog : n.log2 ≤ 52 := by
    by_cases hzero : n = 0
    · rw [hzero]
      decide
    · exact Nat.lt_succ_iff.mp ((Nat.log2_lt hzero).mpr h)
  have hnone : (target n exponent - exponent).toNat = 0 := by
    unfold target
    omega
  simp only [shiftToTargetExponent, shiftToExponent, targetExponent_eq, hnone]
  exact congrArg (Prod.mk _) (add_zero exponent)

theorem shift_of_carry {exponent : ℤ} (least : -1074 ≤ exponent) :
    shiftToTargetExponent .binary64 (2 ^ 53) exponent .exact =
      (⟨2 ^ 52, false, false⟩, exponent + 1) := by
  have hone : (target (2 ^ 53) exponent - exponent).toNat = 1 := by
    have hlog : (2 ^ 53).log2 = 53 := Nat.log2_two_pow
    unfold target
    omega
  simp only [shiftToTargetExponent, shiftToExponent, targetExponent_eq, hone]
  rfl

theorem roundWithAccuracy_rounded {mantissa : ℕ} {exponent : ℤ} {accuracy : Accuracy} {x : ℚ}
    (h : Within mantissa accuracy x) (fine : exponent ≤ target mantissa exponent) (sign : Sign) :
    ∃ n exponent', Rounded (x * 2 ^ exponent) n exponent' ∧
      roundWithAccuracy .binary64 sign mantissa exponent accuracy =
        carried sign n exponent' := by
  obtain ⟨hexponent, hrounded⟩ := rounded_shift h fine
  refine ⟨_, _, hrounded, ?_⟩
  have hle := hrounded.le
  have hleast := hrounded.least
  rw [← hexponent] at hleast ⊢
  unfold roundWithAccuracy
  generalize shiftToTargetExponent .binary64 mantissa exponent accuracy = first at hle hleast ⊢
  obtain ⟨extended, exponent'⟩ := first
  dsimp only at hle hleast ⊢
  rcases hle.lt_or_eq with hlt | heq
  · rw [shift_of_lt hlt hleast]
    simp only [carried, if_pos hlt]
  · rw [heq, shift_of_carry hleast]
    rfl

end MotionNotation.Rounding
