import MotionNotation.Proofs.Rounding.Exact
import MotionNotation.Scalar

/-!
# Arithmetic of floats

Sums, differences, products and quotients of finite floats are the exact ones,
rounded, and so is the float of a natural.
-/

namespace MotionNotation.Rounding

open Float.Model (Format UnpackedFloat totalExponent)
open Float.Model.UnpackedFloat (Sign Accuracy roundWithAccuracy decreaseExponent divCore
  accuracyOfFraction)

/-! ## Signs -/

theorem signum_mul (first second : Sign) :
    signum (first * second) = signum first * signum second := by
  cases first <;> cases second <;> norm_num [signum]

theorem signum_div (first second : Sign) :
    signum (first / second) = signum first / signum second := by
  have hproduct : first / second = first * second := by
    cases first <;> cases second <;> rfl
  rw [hproduct, signum_mul]
  cases first <;> cases second <;> norm_num [signum]

theorem signum_neg (sign : Sign) : signum (-sign) = -signum sign := by
  cases sign <;> norm_num [signum]

/-! ## Rounding of exact numbers -/

section

variable {mantissa n : ℕ} {exponent : ℤ}

theorem rounds_zero (sign : Sign) : Rounds 0 (.zero sign) := by
  refine ⟨sign, 0, 0, -1074, le_rfl, by simp, ⟨?_, le_rfl, ?_, .inl rfl⟩, rfl⟩
  · rw [zero_div]
    exact_mod_cast Nearest.natCast 0
  · rw [zero_div]
    positivity

theorem rounds_roundWithAccuracy {accuracy : Accuracy} {x : ℚ}
    (h : Within mantissa accuracy x) (fine : exponent ≤ target mantissa exponent)
    (sign : Sign) :
    Rounds (signum sign * (x * 2 ^ exponent))
      (roundWithAccuracy .binary64 sign mantissa exponent accuracy) := by
  obtain ⟨n, exponent', hrounded, hresult⟩ := roundWithAccuracy_rounded h fine sign
  have hx : 0 ≤ x := le_trans (Nat.cast_nonneg mantissa) h.bounds.1
  exact ⟨sign, _, n, exponent', mul_nonneg hx (two_zpow_pos exponent).le, rfl, hrounded, hresult⟩

theorem rounds_finite (h : Canonical n exponent) (pos : 0 < n) (sign : Sign) :
    Rounds (signum sign * (n * 2 ^ exponent)) (.finite sign n exponent pos) := by
  have hunit : (n : ℚ) * 2 ^ exponent / 2 ^ exponent = n :=
    mul_div_cancel_right₀ _ (two_zpow_pos exponent).ne'
  refine ⟨sign, n * 2 ^ exponent, n, exponent,
    mul_nonneg (Nat.cast_nonneg n) (two_zpow_pos exponent).le, rfl, ⟨?_, h.least, ?_, ?_⟩, ?_⟩
  · rw [hunit]
    exact Nearest.natCast n
  · rw [hunit]
    exact_mod_cast h.small
  · rw [hunit]
    exact h.normal.symm.imp_right fun hnormal => by exact_mod_cast hnormal
  · rw [carried, dif_neg (Nat.ne_of_gt pos), if_pos h.small]

theorem rounds_of_regular {u : UnpackedFloat} (h : Regular u) : Rounds (value u) u := by
  cases u with
  | finite sign n exponent pos => exact rounds_finite h.1 pos sign
  | zero sign => exact rounds_zero sign
  | infinity sign => exact h.elim
  | notANumber => exact h.elim

theorem decreaseExponent_value (n : ℕ) (exponent least : ℤ) :
    ((decreaseExponent n exponent least).1 : ℚ) * 2 ^ (decreaseExponent n exponent least).2 =
      n * 2 ^ exponent := by
  have hsplit : (2 : ℚ) ^ exponent =
      2 ^ ((exponent - least).toNat : ℤ) * 2 ^ (exponent - (exponent - least).toNat) := by
    rw [← zpow_add₀ two_ne_zero]
    congr 1
    omega
  rw [decreaseExponent, hsplit, Nat.shiftLeft_eq, zpow_natCast]
  push_cast
  ring

theorem decreaseExponent_exponent {least : ℤ} (n : ℕ) (le : least ≤ exponent) :
    (decreaseExponent n exponent least).2 = least := by
  change exponent - ((exponent - least).toNat : ℤ) = least
  omega

theorem decreaseExponent_fine (pos : n ≠ 0) :
    (decreaseExponent n exponent (target n exponent)).2 ≤
      target (decreaseExponent n exponent (target n exponent)).1
        (decreaseExponent n exponent (target n exponent)).2 := by
  set count := (exponent - target n exponent).toNat with hcount
  have hlog : n.log2 + count ≤ (n <<< count).log2 := by
    have hne : n <<< count ≠ 0 := by
      rw [Nat.shiftLeft_eq]
      exact Nat.mul_ne_zero pos (Nat.two_pow_pos count).ne'
    rw [Nat.le_log2 hne, Nat.shiftLeft_eq, pow_add]
    exact Nat.mul_le_mul_right _ (Nat.log2_self_le pos)
  change exponent - (count : ℤ) ≤ target (n <<< count) (exponent - count)
  unfold target at hcount ⊢
  omega

theorem rounds_round (pos : n ≠ 0) (sign : Sign) (exponent : ℤ) :
    Rounds (signum sign * (n * 2 ^ exponent))
      (UnpackedFloat.round .binary64 sign n exponent) := by
  have hvalue := decreaseExponent_value n exponent (target n exponent)
  have hround : UnpackedFloat.round .binary64 sign n exponent =
      roundWithAccuracy .binary64 sign (decreaseExponent n exponent (target n exponent)).1
        (decreaseExponent n exponent (target n exponent)).2 .exact := by
    rw [← targetExponent_eq]
    rfl
  rw [hround, ← hvalue]
  exact rounds_roundWithAccuracy (Within.natCast _) (decreaseExponent_fine pos) sign

theorem rounds_normalize (whole exponent : ℤ) (zeroSign : Sign) :
    Rounds (whole * 2 ^ exponent) (UnpackedFloat.normalize .binary64 whole exponent zeroSign) := by
  rcases lt_trichotomy whole 0 with hneg | rfl | hpos
  · have hcompare : UnpackedFloat.normalize .binary64 whole exponent zeroSign =
        UnpackedFloat.round .binary64 .negative (-whole).toNat exponent := by
      rw [UnpackedFloat.normalize, compare_lt_iff_lt.mpr hneg]
    have hcast : (whole : ℚ) = signum .negative * ((-whole).toNat : ℕ) := by
      have hnat : ((-whole).toNat : ℤ) = -whole := Int.toNat_of_nonneg (by omega)
      have hrat : (((-whole).toNat : ℕ) : ℚ) = -whole := by exact_mod_cast hnat
      rw [hrat, signum]
      ring
    rw [hcompare, hcast, mul_assoc]
    exact rounds_round (by omega) .negative exponent
  · rw [Int.cast_zero, zero_mul]
    exact rounds_zero zeroSign
  · have hcompare : UnpackedFloat.normalize .binary64 whole exponent zeroSign =
        UnpackedFloat.round .binary64 .positive whole.toNat exponent := by
      rw [UnpackedFloat.normalize, compare_gt_iff_gt.mpr hpos]
    have hcast : (whole : ℚ) = signum .positive * (whole.toNat : ℕ) := by
      have hnat : (whole.toNat : ℤ) = whole := Int.toNat_of_nonneg (by omega)
      have hrat : ((whole.toNat : ℕ) : ℚ) = whole := by exact_mod_cast hnat
      rw [hrat, signum, one_mul]
    rw [hcompare, hcast, mul_assoc]
    exact rounds_round (by omega) .positive exponent

end

/-! ## Operations -/

variable {u v : UnpackedFloat}

theorem apply_decreaseExponent {least exponent : ℤ} (sign : Sign) (n : ℕ)
    (le : least ≤ exponent) :
    ((sign.apply (decreaseExponent n exponent least).1 : ℤ) : ℚ) * 2 ^ least =
      signum sign * (n * 2 ^ exponent) := by
  have hvalue := decreaseExponent_value n exponent least
  rw [decreaseExponent_exponent n le] at hvalue
  rw [cast_apply, Int.cast_natCast, mul_assoc, hvalue]

theorem rounds_add (hu : Regular u) (hv : Regular v) :
    Rounds (value u + value v) (UnpackedFloat.add .binary64 u v) := by
  match u, v, hu, hv with
  | .zero first, .zero second, _, _ =>
      have hresult : UnpackedFloat.add .binary64 (.zero first) (.zero second) =
          .zero (if (first == second) = true then first else .positive) := by
        cases first <;> cases second <;> rfl
      rw [hresult, value_zero, value_zero, add_zero]
      exact rounds_zero _
  | .zero first, .finite sign n exponent pos, _, hv =>
      rw [value_zero, zero_add]
      exact rounds_of_regular hv
  | .finite sign n exponent pos, .zero second, hu, _ =>
      rw [value_zero, add_zero]
      exact rounds_of_regular hu
  | .finite sign n exponent pos, .finite sign' n' exponent' pos', _, _ =>
      have hfirst := apply_decreaseExponent sign n (min_le_left exponent exponent')
      have hsecond := apply_decreaseExponent sign' n' (min_le_right exponent exponent')
      rw [value, value, ← hfirst, ← hsecond, ← add_mul, ← Int.cast_add]
      exact rounds_normalize _ _ .positive

theorem rounds_sub (hu : Regular u) (hv : Regular v) :
    Rounds (value u - value v) (UnpackedFloat.sub .binary64 u v) := by
  match u, v, hu, hv with
  | .zero first, .zero second, _, _ =>
      have hresult : UnpackedFloat.sub .binary64 (.zero first) (.zero second) =
          .zero (if (first == -second) = true then first else .positive) := by
        cases first <;> cases second <;> rfl
      rw [hresult, value_zero, value_zero, sub_zero]
      exact rounds_zero _
  | .zero first, .finite sign n exponent pos, _, hv =>
      have hneg : (0 : ℚ) - signum sign * (n * 2 ^ exponent) =
          signum (-sign) * (n * 2 ^ exponent) := by
        rw [signum_neg]
        ring
      rw [value_zero, value, hneg]
      exact rounds_finite hv.1 pos (-sign)
  | .finite sign n exponent pos, .zero second, hu, _ =>
      rw [value_zero, sub_zero]
      exact rounds_of_regular hu
  | .finite sign n exponent pos, .finite sign' n' exponent' pos', _, _ =>
      have hfirst := apply_decreaseExponent sign n (min_le_left exponent exponent')
      have hsecond := apply_decreaseExponent sign' n' (min_le_right exponent exponent')
      rw [value, value, ← hfirst, ← hsecond, ← sub_mul, ← Int.cast_sub]
      exact rounds_normalize _ _ .positive

theorem mul_fine {n n' : ℕ} {exponent exponent' : ℤ} (pos : 0 < n) (pos' : 0 < n')
    (h : 2 ^ 52 ≤ n ∨ 2 ^ 52 ≤ n' ∨ exponent + exponent' ≤ -1074) :
    exponent + exponent' ≤ target (n * n') (exponent + exponent') := by
  have hlog : 52 ≤ (n * n').log2 ∨ exponent + exponent' ≤ -1074 := by
    rw [Nat.le_log2 (Nat.mul_pos pos pos').ne', ← or_assoc] at *
    exact h.imp_left fun hlarge => hlarge.elim
      (fun hn => hn.trans (Nat.le_mul_of_pos_right n pos'))
      (fun hn => hn.trans (Nat.le_mul_of_pos_left n' pos))
  unfold target
  omega

theorem rounds_mul_finite {n n' : ℕ} {exponent exponent' : ℤ} (pos : 0 < n) (pos' : 0 < n')
    (h : 2 ^ 52 ≤ n ∨ 2 ^ 52 ≤ n' ∨ exponent + exponent' ≤ -1074) (sign sign' : Sign) :
    Rounds (value (.finite sign n exponent pos) * value (.finite sign' n' exponent' pos'))
      (UnpackedFloat.mul .binary64 (.finite sign n exponent pos)
        (.finite sign' n' exponent' pos')) := by
  have hproduct : value (.finite sign n exponent pos) * value (.finite sign' n' exponent' pos') =
      signum (sign * sign') * ((n * n' : ℕ) * 2 ^ (exponent + exponent')) := by
    rw [value, value, signum_mul, zpow_add₀ two_ne_zero]
    push_cast
    ring
  rw [hproduct]
  exact rounds_roundWithAccuracy (Within.natCast _) (mul_fine pos pos' h) (sign * sign')

theorem rounds_mul (hu : Regular u) (hv : Regular v) :
    Rounds (value u * value v) (UnpackedFloat.mul .binary64 u v) := by
  match u, v, hu, hv with
  | .zero first, .zero second, _, _ =>
      rw [value_zero, zero_mul]
      exact rounds_zero (first * second)
  | .zero first, .finite sign n exponent pos, _, _ =>
      rw [value_zero, zero_mul]
      exact rounds_zero (first * sign)
  | .finite sign n exponent pos, .zero second, _, _ =>
      rw [value_zero, mul_zero]
      exact rounds_zero (sign * second)
  | .finite sign n exponent pos, .finite sign' n' exponent' pos', hu, hv =>
      refine rounds_mul_finite pos pos' ?_ sign sign'
      have hfirst := hu.1.normal
      have hsecond := hv.1.normal
      omega

theorem accuracyOfFraction_within (whole : ℕ) {rest divisor : ℕ} (lt : rest < divisor) :
    Within whole (accuracyOfFraction rest divisor) (whole + rest / divisor) := by
  have hdivisor : (0 : ℚ) < divisor := by exact_mod_cast Nat.zero_lt_of_lt lt
  have hone : (rest : ℚ) / divisor < 1 := (div_lt_one hdivisor).mpr (by exact_mod_cast lt)
  unfold accuracyOfFraction
  split
  · rename_i hzero
    change (whole : ℚ) + rest / divisor = whole
    rw [hzero]
    simp
  · rename_i hzero
    have hrest : 0 < (rest : ℚ) := by exact_mod_cast Nat.pos_of_ne_zero hzero
    have hpos : 0 < (rest : ℚ) / divisor := div_pos hrest hdivisor
    rcases lt_trichotomy (2 * rest) divisor with hlt | heq | hgt
    · have hhalf : (rest : ℚ) / divisor < 1 / 2 := by
        rw [div_lt_div_iff₀ hdivisor two_pos]
        exact_mod_cast (by omega : rest * 2 < 1 * divisor)
      rw [compare_lt_iff_lt.mpr hlt]
      constructor <;> linarith
    · have hhalf : (rest : ℚ) / divisor = 1 / 2 := by
        rw [div_eq_div_iff hdivisor.ne' two_ne_zero]
        exact_mod_cast (by omega : rest * 2 = 1 * divisor)
      rw [compare_eq_iff_eq.mpr heq]
      change (whole : ℚ) + rest / divisor = whole + 1 / 2
      rw [hhalf]
    · have hhalf : 1 / 2 < (rest : ℚ) / divisor := by
        rw [div_lt_div_iff₀ two_pos hdivisor]
        exact_mod_cast (by omega : 1 * divisor < rest * 2)
      rw [compare_gt_iff_gt.mpr hgt]
      constructor <;> linarith

theorem quotient_within (n : ℕ) {divisor : ℕ} (pos : 0 < divisor) :
    Within (n / divisor) (accuracyOfFraction (n % divisor) divisor) ((n : ℚ) / divisor) := by
  have hdivisor : (divisor : ℚ) ≠ 0 := by exact_mod_cast pos.ne'
  have hsplit : (n : ℚ) = divisor * (n / divisor : ℕ) + (n % divisor : ℕ) := by
    exact_mod_cast (Nat.div_add_mod n divisor).symm
  have hquotient : (n : ℚ) / divisor = (n / divisor : ℕ) + (n % divisor : ℕ) / divisor := by
    conv_lhs => rw [hsplit]
    rw [add_div, mul_div_cancel_left₀ _ hdivisor]
  rw [hquotient]
  exact accuracyOfFraction_within _ (Nat.mod_lt n pos)

/-- The exponent of a quotient, at which its whole part has fifty-three digits. -/
def quotientExponent (n : ℕ) (exponent : ℤ) (n' : ℕ) (exponent' : ℤ) : ℤ :=
  min (exponent - exponent') (max (n.log2 + exponent - (n'.log2 + exponent') - 53) (-1074))

theorem divCore_eq (n : ℕ) (exponent : ℤ) (n' : ℕ) (exponent' : ℤ) {place : ℤ} {shift : ℕ}
    (hplace : place = quotientExponent n exponent n' exponent')
    (hshift : shift = (exponent - exponent' - place).toNat) :
    divCore .binary64 n exponent n' exponent' =
      (n <<< shift / n', place, accuracyOfFraction (n <<< shift % n') n') := by
  have htarget : Format.binary64.targetExponent
      (totalExponent n exponent - totalExponent n' exponent') =
        max (n.log2 + exponent - (n'.log2 + exponent') - 53) (-1074) := by
    have hbits : (Format.binary64.mantissaBits : ℤ) = 53 := rfl
    have hleast : Format.binary64.minExponent = -1074 := rfl
    rw [Format.targetExponent, totalExponent, totalExponent, hbits, hleast]
    congr 1
    ring
  simp only [divCore, htarget]
  rw [hshift, hplace]
  rfl

theorem div_fine {n n' : ℕ} {exponent exponent' place : ℤ} {shift : ℕ} (pos : 0 < n)
    (pos' : 0 < n') (hplace : place = quotientExponent n exponent n' exponent')
    (hshift : shift = (exponent - exponent' - place).toNat) :
    place ≤ target (n <<< shift / n') place := by
  have hlog : 52 ≤ (n <<< shift / n').log2 ∨ place ≤ -1074 := by
    refine (le_or_gt place (-1074)).symm.imp_left fun hlarge => ?_
    have hdigits : n'.log2 + 53 ≤ n.log2 + shift := by
      unfold quotientExponent at hplace
      omega
    have hquotient : 2 ^ 52 ≤ n <<< shift / n' := by
      rw [Nat.le_div_iff_mul_le pos', Nat.shiftLeft_eq]
      calc
        2 ^ 52 * n' ≤ 2 ^ 52 * 2 ^ (n'.log2 + 1) := Nat.mul_le_mul_left _ Nat.lt_log2_self.le
        _ = 2 ^ (n'.log2 + 53) := by rw [← pow_add]; congr 1; omega
        _ ≤ 2 ^ (n.log2 + shift) := Nat.pow_le_pow_right two_pos hdigits
        _ = 2 ^ n.log2 * 2 ^ shift := pow_add ..
        _ ≤ n * 2 ^ shift := Nat.mul_le_mul_right _ (Nat.log2_self_le pos.ne')
    exact (Nat.le_log2 (by omega)).mpr hquotient
  unfold target
  omega

theorem rounds_div_finite {n n' : ℕ} {exponent exponent' : ℤ} (pos : 0 < n) (pos' : 0 < n')
    (sign sign' : Sign) :
    Rounds (value (.finite sign n exponent pos) / value (.finite sign' n' exponent' pos'))
      (UnpackedFloat.div .binary64 (.finite sign n exponent pos)
        (.finite sign' n' exponent' pos')) := by
  obtain ⟨place, hplace⟩ : ∃ place, place = quotientExponent n exponent n' exponent' := ⟨_, rfl⟩
  obtain ⟨shift, hshift⟩ : ∃ shift, shift = (exponent - exponent' - place).toNat := ⟨_, rfl⟩
  have hquotient : value (.finite sign n exponent pos) / value (.finite sign' n' exponent' pos') =
      signum (sign / sign') * ((n <<< shift : ℕ) / n' * 2 ^ place) := by
    have hscale : (2 : ℚ) ^ exponent = 2 ^ exponent' * (2 ^ shift * 2 ^ place) := by
      rw [← zpow_natCast, ← zpow_add₀ two_ne_zero, ← zpow_add₀ two_ne_zero]
      congr 1
      unfold quotientExponent at hplace
      omega
    have hunit := (two_zpow_pos exponent').ne'
    rw [value, value, signum_div, hscale, Nat.shiftLeft_eq]
    push_cast
    field_simp
  have hdiv : UnpackedFloat.div .binary64 (.finite sign n exponent pos)
      (.finite sign' n' exponent' pos') =
        roundWithAccuracy .binary64 (sign / sign') (n <<< shift / n') place
          (accuracyOfFraction (n <<< shift % n') n') := by
    rw [UnpackedFloat.div, divCore_eq n exponent n' exponent' hplace hshift]
  rw [hquotient, hdiv]
  exact rounds_roundWithAccuracy (quotient_within (n <<< shift) pos')
    (div_fine pos pos' hplace hshift) (sign / sign')

theorem rounds_div (hu : Regular u) (hv : Regular v) (nonzero : value v ≠ 0) :
    Rounds (value u / value v) (UnpackedFloat.div .binary64 u v) := by
  cases v with
  | zero second => exact absurd (value_zero second) nonzero
  | infinity second => exact hv.elim
  | notANumber => exact hv.elim
  | finite sign' n' exponent' pos' =>
      cases u with
      | zero first =>
          rw [value_zero, zero_div]
          exact rounds_zero (first / sign')
      | infinity first => exact hu.elim
      | notANumber => exact hu.elim
      | finite sign n exponent pos => exact rounds_div_finite pos pos' sign sign'

/-! ## Floats -/

section

variable {x y : Float}

theorem roundsTo_add (hx : x.isFinite = true) (hy : y.isFinite = true) :
    RoundsTo (exact x + exact y) (x + y) :=
  ⟨_, rounds_add (regular_unpack hx) (regular_unpack hy), rfl⟩

theorem roundsTo_sub (hx : x.isFinite = true) (hy : y.isFinite = true) :
    RoundsTo (exact x - exact y) (x - y) :=
  ⟨_, rounds_sub (regular_unpack hx) (regular_unpack hy), rfl⟩

theorem roundsTo_mul (hx : x.isFinite = true) (hy : y.isFinite = true) :
    RoundsTo (exact x * exact y) (x * y) :=
  ⟨_, rounds_mul (regular_unpack hx) (regular_unpack hy), rfl⟩

theorem roundsTo_div (hx : x.isFinite = true) (hy : y.isFinite = true)
    (nonzero : exact y ≠ 0) : RoundsTo (exact x / exact y) (x / y) :=
  ⟨_, rounds_div (regular_unpack hx) (regular_unpack hy) nonzero, rfl⟩

theorem value_neg (u : UnpackedFloat) : value u.neg = -value u := by
  cases u with
  | finite sign n exponent pos =>
      rw [UnpackedFloat.neg, value, value, signum_neg]
      ring
  | zero sign => simp [UnpackedFloat.neg]
  | infinity sign => simp [UnpackedFloat.neg, value]
  | notANumber => simp [UnpackedFloat.neg, value]

theorem Regular.neg {u : UnpackedFloat} (h : Regular u) : Regular u.neg := by
  cases u <;> exact h

theorem roundsTo_neg (hx : x.isFinite = true) : RoundsTo (-exact x) (-x) := by
  refine ⟨x.toModel.unpack.neg, ?_, rfl⟩
  rw [exact, ← value_neg]
  exact rounds_of_regular (regular_unpack hx).neg

end

/-! ## Naturals -/

theorem roundsTo_toFloat (n : UInt64) : RoundsTo n.toNat n.toFloat := by
  refine ⟨UnpackedFloat.normalize .binary64 n.toNat 0 .positive, ?_, rfl⟩
  have hexact : (n.toNat : ℚ) = ((n.toNat : ℤ) : ℚ) * 2 ^ (0 : ℤ) := by
    rw [zpow_zero, mul_one, Int.cast_natCast]
  rw [hexact]
  exact rounds_normalize n.toNat 0 .positive

theorem unpack_one : Float.exactlyRepresentablePowersOfTen[0].toModel.unpack =
    .finite .positive (2 ^ 52) (-52) (by decide) :=
  rfl

theorem exact_one : exact Float.exactlyRepresentablePowersOfTen[0] = 1 := by
  rw [exact, unpack_one, value, signum]
  norm_num

theorem roundsTo_ofNat (n : ℕ) : RoundsTo n (Float.ofNat n) := by
  by_cases hsmall : n < 2 ^ 53
  · have hfloat : Float.ofNat n =
        n.toUInt64.toFloat * Float.exactlyRepresentablePowersOfTen[0] :=
      dif_pos ⟨hsmall, by decide⟩
    have hword : n.toUInt64.toNat = n := by
      rw [Nat.toUInt64, UInt64.toNat_ofNat']
      exact Nat.mod_eq_of_lt (by omega)
    have hrounded := roundsTo_toFloat n.toUInt64
    rw [hword] at hrounded
    obtain ⟨hfinite, hexact⟩ := hrounded.exact_eq_natCast hsmall.le
    have hone : Float.exactlyRepresentablePowersOfTen[0].isFinite = true := by decide +kernel
    have hproduct := roundsTo_mul hfinite hone
    rwa [hexact, exact_one, mul_one, ← hfloat] at hproduct
  · have hpos : 0 < n := by omega
    have hshift : 0 < n <<< 53 := by
      rw [Nat.shiftLeft_eq]
      positivity
    have hscientific : UnpackedFloat.ofScientific .binary64 n 0 =
        UnpackedFloat.mul .binary64 (.finite .positive (n <<< 53) (-53) hshift)
          (.finite .positive (10 ^ 0) 0 (by decide)) := by
      rw [UnpackedFloat.ofScientific, dif_neg hpos.ne', if_neg (by decide), if_neg, if_pos le_rfl]
      · rfl
      · have hbits : (0 : ℤ) < 2 ^ Format.binary64.exponentBits := by positivity
        omega
    have hfloat : Float.ofNat n = ⟨Float.Model.ofScientific n 0⟩ :=
      dif_neg fun h => hsmall h.1
    have hrounded := rounds_mul_finite hshift (by decide : 0 < 10 ^ 0)
      (.inl (by rw [Nat.shiftLeft_eq]; omega) :
        2 ^ 52 ≤ n <<< 53 ∨ 2 ^ 52 ≤ 10 ^ 0 ∨ (-53 : ℤ) + 0 ≤ -1074) .positive .positive
    have hvalue : value (.finite .positive (n <<< 53) (-53) hshift) *
        value (.finite .positive (10 ^ 0) 0 (by decide)) = n := by
      have hshifted : ((n <<< 53 : ℕ) : ℚ) * 2 ^ (-53 : ℤ) = n := by
        rw [Nat.shiftLeft_eq, Nat.cast_mul, Nat.cast_pow, mul_assoc]
        norm_num
      rw [value, value, signum, hshifted]
      norm_num
    rw [hvalue, ← hscientific] at hrounded
    exact ⟨_, hrounded, congrArg Float.toModel hfloat⟩

theorem isFinite_ofNat {n : ℕ} (lt : n < 2 ^ 64) : (Float.ofNat n).isFinite = true := by
  rw [(roundsTo_ofNat n).isFinite_iff, abs_of_nonneg (Nat.cast_nonneg n)]
  calc
    (n : ℚ) < 2 ^ 64 := by exact_mod_cast lt
    _ < limit := two_pow_lt_limit

end MotionNotation.Rounding
