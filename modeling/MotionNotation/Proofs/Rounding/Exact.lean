import MotionNotation.Proofs.Rounding.Packing

/-!
# Exact numbers

A finite float is a rational number.  The float that an exact number is rounded to
is as near as the digits allow, and finite exactly as long as the number stays below
a fixed limit.
-/

namespace MotionNotation.Rounding

open Float.Model (UnpackedFloat)
open Float.Model.UnpackedFloat (Sign)

/-! ## Exact numbers -/

def signum : Sign → ℚ
  | .negative => -1
  | .positive => 1

theorem cast_apply (sign : Sign) (n : ℤ) : ((sign.apply n : ℤ) : ℚ) = signum sign * n := by
  cases sign <;> simp [signum, Sign.apply]

theorem abs_signum (sign : Sign) : |signum sign| = 1 := by
  cases sign <;> simp [signum]

theorem abs_signum_mul (sign : Sign) {x : ℚ} (nonneg : 0 ≤ x) : |signum sign * x| = x := by
  rw [abs_mul, abs_signum, one_mul, abs_of_nonneg nonneg]

/-- The number that an unpacked float is; what is no number counts as zero. -/
def value : UnpackedFloat → ℚ
  | .finite sign n exponent _ => signum sign * (n * 2 ^ exponent)
  | .zero _ | .infinity _ | .notANumber => 0

@[simp] theorem value_zero (sign : Sign) : value (.zero sign) = 0 := rfl

def exact (x : Float) : ℚ :=
  value x.toModel.unpack

def Regular : UnpackedFloat → Prop
  | .finite _ n exponent _ => Canonical n exponent ∧ exponent ≤ 971
  | .zero _ => True
  | .infinity _ | .notANumber => False

theorem regular_unpack {x : Float} (finite : x.isFinite = true) : Regular x.toModel.unpack := by
  have hfinite : x.toModel.unpack.isFinite = true := finite
  cases hunpack : x.toModel.unpack with
  | finite sign n exponent pos => exact canonical_of_unpack hunpack
  | zero sign => exact trivial
  | infinity sign =>
      rw [hunpack] at hfinite
      cases hfinite
  | notANumber =>
      rw [hunpack] at hfinite
      cases hfinite

/-! ## The largest numbers -/

/-- What is not below this is rounded to what is no number.  It lies halfway between
the largest float and the next power of two. -/
def limit : ℚ := (2 ^ 54 - 1) * 2 ^ (970 : ℤ)

theorem limit_eq_last : limit = (2 ^ 53 - 1 / 2) * 2 ^ (971 : ℤ) := by
  have hstep : (2 : ℚ) ^ (971 : ℤ) = 2 * 2 ^ (970 : ℤ) := zpow_one_add₀ two_ne_zero 970
  rw [limit, hstep]
  ring

theorem limit_le_next : limit ≤ 2 ^ 52 * 2 ^ (972 : ℤ) := by
  have hstep : (2 : ℚ) ^ (972 : ℤ) = 2 * 2 ^ (971 : ℤ) := zpow_one_add₀ two_ne_zero 971
  rw [limit_eq_last, hstep, ← mul_assoc]
  exact mul_le_mul_of_nonneg_right (by norm_num) (two_zpow_pos 971).le

theorem le_limit_last : 2 ^ 53 * 2 ^ (970 : ℤ) ≤ limit :=
  mul_le_mul_of_nonneg_right (by norm_num) (two_zpow_pos 970).le

theorem two_pow_lt_limit : (2 : ℚ) ^ 64 < limit := by
  have hsplit : (2 : ℚ) ^ 64 = 2 ^ 53 * 2 ^ (11 : ℤ) := by norm_num
  have hpower : (2 : ℚ) ^ (11 : ℤ) < 2 ^ (970 : ℤ) := zpow_lt_zpow_right₀ one_lt_two (by omega)
  rw [hsplit]
  exact (mul_lt_mul_of_pos_left hpower (by positivity)).trans_le le_limit_last

theorem one_le_limit : 1 * 2 ^ (970 : ℤ) ≤ limit :=
  mul_le_mul_of_nonneg_right (by norm_num) (two_zpow_pos 970).le

section

variable {x : ℚ} {n : ℕ} {exponent : ℤ}

theorem div_mul_zpow (x : ℚ) (exponent : ℤ) : x / 2 ^ exponent * 2 ^ exponent = x :=
  div_mul_cancel₀ x (ne_of_gt (two_zpow_pos exponent))

theorem lt_limit_of_lt {bound : ℚ} {top : ℤ} (below : x / 2 ^ exponent < bound)
    (le : exponent ≤ top) (nonneg : 0 ≤ bound) (within : bound * 2 ^ top ≤ limit) : x < limit := by
  calc
    x = x / 2 ^ exponent * 2 ^ exponent := (div_mul_zpow x exponent).symm
    _ < bound * 2 ^ exponent := mul_lt_mul_of_pos_right below (two_zpow_pos exponent)
    _ ≤ bound * 2 ^ top :=
      mul_le_mul_of_nonneg_left (zpow_le_zpow_right₀ one_le_two le) nonneg
    _ ≤ limit := within

theorem limit_le_of_le {bound : ℚ} {bottom : ℤ} (above : bound ≤ x / 2 ^ exponent)
    (le : bottom ≤ exponent) (nonneg : 0 ≤ bound) (beyond : limit ≤ bound * 2 ^ bottom) :
    limit ≤ x := by
  calc
    limit ≤ bound * 2 ^ bottom := beyond
    _ ≤ bound * 2 ^ exponent :=
      mul_le_mul_of_nonneg_left (zpow_le_zpow_right₀ one_le_two le) nonneg
    _ ≤ x / 2 ^ exponent * 2 ^ exponent :=
      mul_le_mul_of_nonneg_right above (two_zpow_pos exponent).le
    _ = x := div_mul_zpow x exponent

theorem Rounded.lt_of_lt (h : Rounded x n exponent) (lt : n < 2 ^ 53) :
    x / 2 ^ exponent < 2 ^ 53 - 1 / 2 := by
  have hcast : (n : ℚ) + 1 ≤ 2 ^ 53 := by exact_mod_cast lt
  have habove := h.nearest.above
  apply lt_of_le_of_ne (by linarith)
  intro heq
  have hlast : (n : ℚ) = 2 ^ 53 - 1 := by linarith
  have hnat : n + 1 = 2 ^ 53 := by
    have hsucc : ((n + 1 : ℕ) : ℚ) = ((2 ^ 53 : ℕ) : ℚ) := by
      push_cast
      linarith
    exact_mod_cast hsucc
  have heven := h.nearest.even (.inr (by linarith))
  omega

theorem Rounded.of_zero (h : Rounded x 0 exponent) :
    exponent = -1074 ∧ x / 2 ^ exponent ≤ 1 / 2 := by
  have hsmall : x / 2 ^ exponent ≤ 1 / 2 := by simpa using h.nearest.above
  refine ⟨h.normal.resolve_right fun hnormal => ?_, hsmall⟩
  norm_num at hnormal
  linarith

theorem Rounded.pos_of_le (h : Rounded x n exponent) (le : 2 ^ (-1074 : ℤ) ≤ x) : 0 < n := by
  rw [Nat.pos_iff_ne_zero]
  rintro rfl
  obtain ⟨rfl, hsmall⟩ := h.of_zero
  have hunit := two_zpow_pos (-1074)
  rw [div_le_iff₀ hunit] at hsmall
  linarith

/-- What is rounded is found again after it was packed, unless it is too large. -/
theorem Rounded.unpack_pack (h : Rounded x n exponent) (sign : Sign) :
    x < limit ∧ (Float.Model.pack (carried sign n exponent)).unpack = carried sign n exponent ∨
    limit ≤ x ∧ (Float.Model.pack (carried sign n exponent)).unpack = .infinity sign := by
  have hleast := h.least
  by_cases hzero : n = 0
  · subst hzero
    obtain ⟨hexponent, hsmall⟩ := h.of_zero
    left
    have hone : x / 2 ^ exponent < 1 := by linarith
    exact ⟨lt_limit_of_lt hone (by omega : exponent ≤ 970) zero_le_one one_le_limit,
      unpack_pack_zero sign⟩
  · have hpos := Nat.pos_of_ne_zero hzero
    rcases h.le.lt_or_eq with hlt | heq
    · have hcarried : carried sign n exponent = .finite sign n exponent hpos := by
        rw [carried, dif_neg hzero, if_pos hlt]
      rw [hcarried]
      rcases le_or_gt exponent 971 with hfits | hlarge
      · left
        exact ⟨lt_limit_of_lt (h.lt_of_lt hlt) hfits (by norm_num) limit_eq_last.ge,
          unpack_pack_of_canonical sign hpos ⟨hlt, hleast, h.canonical⟩ hfits⟩
      · right
        have hnormal : 2 ^ 52 ≤ x / 2 ^ exponent := h.normal.resolve_left (by omega)
        exact ⟨limit_le_of_le hnormal (by omega : 972 ≤ exponent) (by norm_num) limit_le_next,
          unpack_pack_of_large sign hpos hlarge⟩
    · have hcarried : carried sign n exponent =
          .finite sign (2 ^ 52) (exponent + 1) (by decide) := by
        rw [heq]
        rfl
      rw [hcarried]
      rcases le_or_gt exponent 970 with hfits | hlarge
      · left
        exact ⟨lt_limit_of_lt h.small hfits (by norm_num) le_limit_last,
          unpack_pack_of_canonical sign (by decide) ⟨by decide, by omega, .inl le_rfl⟩
            (by omega)⟩
      · right
        have hbelow : (2 : ℚ) ^ 53 - 1 / 2 ≤ x / 2 ^ exponent := by
          have hnearest := h.nearest.below
          rw [heq] at hnearest
          push_cast at hnearest
          linarith
        exact ⟨limit_le_of_le hbelow (by omega : 971 ≤ exponent) (by norm_num)
          limit_eq_last.le, unpack_pack_of_large sign (by decide) (by omega)⟩

theorem Rounded.abs_sub_le (h : Rounded x n exponent) (nonneg : 0 ≤ x) :
    |n * 2 ^ exponent - x| ≤ x / 2 ^ 53 + 2 ^ (-1075 : ℤ) := by
  have hunit := two_zpow_pos exponent
  have hleast := two_zpow_pos (-1075)
  have hscaled : n * 2 ^ exponent - x = (n - x / 2 ^ exponent) * 2 ^ exponent := by
    rw [sub_mul, div_mul_zpow]
  have hhalf : |(n : ℚ) - x / 2 ^ exponent| ≤ 1 / 2 := by
    rw [abs_le]
    constructor <;> linarith [h.nearest.below, h.nearest.above]
  have hplace : 1 / 2 * (2 : ℚ) ^ exponent ≤ x / 2 ^ 53 + 2 ^ (-1075 : ℤ) := by
    rcases h.normal with rfl | hnormal
    · have hstep : (2 : ℚ) ^ (-1074 : ℤ) = 2 * 2 ^ (-1075 : ℤ) :=
        zpow_one_add₀ two_ne_zero (-1075)
      have hrest : 0 ≤ x / 2 ^ 53 := div_nonneg nonneg (by positivity)
      rw [hstep]
      linarith
    · have hx := (le_div_iff₀ hunit).mp hnormal
      linarith
  calc
    |n * 2 ^ exponent - x| = |(n : ℚ) - x / 2 ^ exponent| * 2 ^ exponent := by
      rw [hscaled, abs_mul, abs_of_pos hunit]
    _ ≤ 1 / 2 * 2 ^ exponent := mul_le_mul_of_nonneg_right hhalf hunit.le
    _ ≤ x / 2 ^ 53 + 2 ^ (-1075 : ℤ) := hplace

theorem Rounded.natCast {k : ℕ} (h : Rounded k n exponent) (le : k ≤ 2 ^ 53) :
    (n : ℚ) * 2 ^ exponent = k := by
  suffices hwhole : ∃ m : ℕ, (k : ℚ) / 2 ^ exponent = m by
    obtain ⟨m, hm⟩ := hwhole
    have hnearest := h.nearest
    rw [hm] at hnearest
    rw [hnearest.eq_of_natCast, ← hm, div_mul_zpow]
  rcases le_or_gt exponent 0 with hexponent | hexponent
  · obtain ⟨count, hcount⟩ := Int.eq_ofNat_of_zero_le (neg_nonneg.mpr hexponent)
    refine ⟨k * 2 ^ count, ?_⟩
    rw [div_eq_mul_inv, ← zpow_neg, hcount, zpow_natCast]
    push_cast
    rfl
  · have hnormal : 2 ^ 52 ≤ (k : ℚ) / 2 ^ exponent := h.normal.resolve_left (by omega)
    have hhalf : (k : ℚ) / 2 ^ exponent ≤ 2 ^ 52 := by
      have hk : (k : ℚ) ≤ 2 ^ 53 := by exact_mod_cast le
      have htwo : (2 : ℚ) ^ (1 : ℤ) ≤ 2 ^ exponent := zpow_le_zpow_right₀ one_le_two (by omega)
      rw [div_le_iff₀ (two_zpow_pos exponent)]
      rw [zpow_one] at htwo
      linarith
    exact ⟨2 ^ 52, by push_cast; exact le_antisymm hhalf hnormal⟩

theorem isFinite_carried (sign : Sign) (n : ℕ) (exponent : ℤ) :
    (carried sign n exponent).isFinite = true := by
  unfold carried
  split
  · rfl
  · split <;> rfl

theorem value_carried (sign : Sign) (le : n ≤ 2 ^ 53) (exponent : ℤ) :
    value (carried sign n exponent) = signum sign * (n * 2 ^ exponent) := by
  unfold carried
  split
  · rename_i hzero
    simp [value, hzero]
  · split
    · rfl
    · rename_i hlarge
      have heq : n = 2 ^ 53 := by omega
      have hstep : (2 : ℚ) ^ (exponent + 1) = 2 ^ exponent * 2 := zpow_add_one₀ two_ne_zero exponent
      rw [value, heq, hstep]
      push_cast
      ring

end

theorem abs_exact_lt (x : Float) : |exact x| < limit := by
  have hzero : |(0 : ℚ)| < limit := by
    rw [abs_zero]
    calc
      (0 : ℚ) < 1 * 2 ^ (970 : ℤ) := mul_pos one_pos (two_zpow_pos 970)
      _ ≤ limit := one_le_limit
  cases hunpack : x.toModel.unpack with
  | finite sign n exponent pos =>
      obtain ⟨hcanonical, hgreatest⟩ := canonical_of_unpack hunpack
      have hlast : (n : ℚ) < 2 ^ 53 - 1 / 2 := by
        have hcast : (n : ℚ) + 1 ≤ 2 ^ 53 := by exact_mod_cast hcanonical.small
        linarith
      have hunit : (n : ℚ) * 2 ^ exponent / 2 ^ exponent = n :=
        mul_div_cancel_right₀ _ (two_zpow_pos exponent).ne'
      rw [exact, hunpack, value,
        abs_signum_mul sign (mul_nonneg (Nat.cast_nonneg n) (two_zpow_pos exponent).le)]
      exact lt_limit_of_lt (hunit.trans_lt hlast) hgreatest (by norm_num) limit_eq_last.ge
  | zero sign =>
      rw [exact, hunpack]
      exact hzero
  | infinity sign =>
      rw [exact, hunpack]
      exact hzero
  | notANumber =>
      rw [exact, hunpack]
      exact hzero

/-! ## The float of an exact number -/

def Rounds (q : ℚ) (u : UnpackedFloat) : Prop :=
  ∃ sign x n exponent, 0 ≤ x ∧ q = signum sign * x ∧ Rounded x n exponent ∧
    u = carried sign n exponent

def RoundsTo (q : ℚ) (x : Float) : Prop :=
  ∃ u, Rounds q u ∧ x.toModel = Float.Model.pack u

namespace RoundsTo

variable {q : ℚ} {x : Float}

/-- Exact numbers below the limit are the ones with a float. -/
theorem isFinite_iff (h : RoundsTo q x) : x.isFinite = true ↔ |q| < limit := by
  obtain ⟨_, ⟨sign, y, n, exponent, hnonneg, rfl, hrounded, rfl⟩, hmodel⟩ := h
  have hfinite : x.isFinite = (Float.Model.pack (carried sign n exponent)).unpack.isFinite :=
    congrArg (fun model => model.unpack.isFinite) hmodel
  rw [hfinite, abs_signum_mul sign hnonneg]
  rcases hrounded.unpack_pack sign with ⟨hlt, hunpack⟩ | ⟨hle, hunpack⟩
  · simp only [hunpack, isFinite_carried, hlt]
  · simp only [hunpack, not_lt.mpr hle, iff_false]
    exact Bool.false_ne_true

theorem unpack (h : RoundsTo q x) (finite : x.isFinite = true) :
    ∃ sign y n exponent, 0 ≤ y ∧ q = signum sign * y ∧ Rounded y n exponent ∧
      x.toModel.unpack = carried sign n exponent := by
  have hlimit := h.isFinite_iff.mp finite
  obtain ⟨_, ⟨sign, y, n, exponent, hnonneg, rfl, hrounded, rfl⟩, hmodel⟩ := h
  rw [abs_signum_mul sign hnonneg] at hlimit
  refine ⟨sign, y, n, exponent, hnonneg, rfl, hrounded, ?_⟩
  rcases hrounded.unpack_pack sign with ⟨_, hunpack⟩ | ⟨hle, _⟩
  · rw [hmodel, hunpack]
  · exact absurd hlimit (not_lt.mpr hle)

theorem unpack_of_limit_le (h : RoundsTo q x) (beyond : limit ≤ |q|) :
    ∃ sign, x.toModel.unpack = .infinity sign := by
  obtain ⟨_, ⟨sign, y, n, exponent, hnonneg, rfl, hrounded, rfl⟩, hmodel⟩ := h
  rw [abs_signum_mul sign hnonneg] at beyond
  rcases hrounded.unpack_pack sign with ⟨hlt, _⟩ | ⟨_, hunpack⟩
  · exact absurd hlt (not_lt.mpr beyond)
  · exact ⟨sign, by rw [hmodel, hunpack]⟩

theorem abs_sub_le (h : RoundsTo q x) (finite : x.isFinite = true) :
    |exact x - q| ≤ |q| / 2 ^ 53 + 2 ^ (-1075 : ℤ) := by
  obtain ⟨sign, y, n, exponent, hnonneg, rfl, hrounded, hunpack⟩ := h.unpack finite
  have hexact : exact x - signum sign * y = signum sign * (n * 2 ^ exponent - y) := by
    rw [exact, hunpack, value_carried sign hrounded.le, mul_sub]
  rw [hexact, abs_mul, abs_signum, one_mul, abs_signum_mul sign hnonneg]
  exact hrounded.abs_sub_le hnonneg

theorem exact_eq_whole {sign : Sign} {k : ℕ} (h : RoundsTo (signum sign * k) x)
    (le : k ≤ 2 ^ 53) : x.isFinite = true ∧ exact x = signum sign * k := by
  have hk := abs_signum_mul sign (Nat.cast_nonneg (α := ℚ) k)
  have hfinite : x.isFinite = true := by
    rw [h.isFinite_iff, hk]
    calc
      (k : ℚ) ≤ 2 ^ 53 := by exact_mod_cast le
      _ < 2 ^ 64 := by norm_num
      _ < limit := two_pow_lt_limit
  refine ⟨hfinite, ?_⟩
  obtain ⟨sign', y, n, exponent, hnonneg, hsame, hrounded, hunpack⟩ := h.unpack hfinite
  have hy : y = k := by
    rw [← abs_signum_mul sign' hnonneg, ← hsame, hk]
  subst hy
  rw [exact, hunpack, value_carried sign' hrounded.le, hrounded.natCast le, hsame]

theorem exact_eq_natCast {k : ℕ} (h : RoundsTo k x) (le : k ≤ 2 ^ 53) :
    x.isFinite = true ∧ exact x = k := by
  have hpositive : signum .positive * (k : ℚ) = k := one_mul _
  rw [← hpositive] at h ⊢
  exact h.exact_eq_whole le

end RoundsTo

end MotionNotation.Rounding
