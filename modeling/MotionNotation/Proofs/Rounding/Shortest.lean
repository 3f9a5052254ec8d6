import MotionNotation.Decimal.Shortest
import MotionNotation.Proofs.Rounding.Exact

/-!
# Decimals in the basin of a float

The shortest decimal of a float lies in its basin, and is at least as coarse as any
decimal in it that the search comes across.  A multiple of a ten-thousandth is found,
or something coarser: above the reach of the search the basin is wide enough for it.
-/

namespace MotionNotation.Decimal

open Rounding (two_zpow_pos)

/-! ## Points of a basin -/

namespace Basin

def Holds (basin : Basin) (x : ℚ) : Prop :=
  if basin.closed then basin.lower * 2 ^ basin.unit ≤ x ∧ x ≤ basin.upper * 2 ^ basin.unit
  else basin.lower * 2 ^ basin.unit < x ∧ x < basin.upper * 2 ^ basin.unit

variable {basin : Basin} {x y z : ℚ}

theorem Holds.bounds (h : basin.Holds x) :
    basin.lower * 2 ^ basin.unit ≤ x ∧ x ≤ basin.upper * 2 ^ basin.unit := by
  unfold Holds at h
  split at h
  · exact h
  · exact ⟨h.1.le, h.2.le⟩

theorem holds_of_lt (lower : basin.lower * 2 ^ basin.unit < x)
    (upper : x < basin.upper * 2 ^ basin.unit) : basin.Holds x := by
  unfold Holds
  split
  · exact ⟨lower.le, upper.le⟩
  · exact ⟨lower, upper⟩

theorem holds_of_quarters {quarters : ℚ}
    (inside : basin.lower ≤ quarters ∧ quarters ≤ basin.upper)
    (opened : basin.closed = false → basin.lower < quarters ∧ quarters < basin.upper) :
    basin.Holds (quarters * 2 ^ basin.unit) := by
  have hunit := two_zpow_pos basin.unit
  cases hclosed : basin.closed with
  | true =>
      rw [Holds, if_pos hclosed]
      exact ⟨mul_le_mul_of_nonneg_right inside.1 hunit.le,
        mul_le_mul_of_nonneg_right inside.2 hunit.le⟩
  | false =>
      have hopened := opened hclosed
      exact holds_of_lt (mul_lt_mul_of_pos_right hopened.1 hunit)
        (mul_lt_mul_of_pos_right hopened.2 hunit)

theorem Holds.between (hx : basin.Holds x) (hz : basin.Holds z) (lower : x ≤ y)
    (upper : y ≤ z) : basin.Holds y := by
  unfold Holds at *
  split at hx
  · rw [if_pos ‹_›] at hz ⊢
    exact ⟨hx.1.trans lower, upper.trans hz.2⟩
  · rw [if_neg ‹_›] at hz ⊢
    exact ⟨hx.1.trans_le lower, upper.trans_lt hz.2⟩

/-! ## The basin of a float -/

section

variable (value : Binary)

@[simp] theorem ofBinary_centre : (ofBinary value).centre = 4 * value.significand := rfl

@[simp] theorem ofBinary_upper : (ofBinary value).upper = 4 * value.significand + 2 := rfl

@[simp] theorem ofBinary_unit : (ofBinary value).unit = value.exponent - 2 := rfl

theorem le_ofBinary_lower : 4 * value.significand ≤ (ofBinary value).lower + 2 := by
  simp only [ofBinary]
  split <;> omega

theorem ofBinary_lower_le : (ofBinary value).lower ≤ 4 * value.significand := by
  simp only [ofBinary]
  split <;> omega

variable {value} (positive : 0 < value.significand)

include positive

theorem ofBinary_lower_pos : 0 < (ofBinary value).lower := by
  have hlower := le_ofBinary_lower value
  omega

theorem ofBinary_lower_lt : (ofBinary value).lower < 4 * value.significand := by
  simp only [ofBinary]
  split <;> omega

theorem Holds.pos (h : (ofBinary value).Holds x) : 0 < x :=
  (mul_pos (by exact_mod_cast ofBinary_lower_pos positive) (two_zpow_pos _)).trans_le h.bounds.1

theorem holds_centre :
    (ofBinary value).Holds ((ofBinary value).centre * 2 ^ (ofBinary value).unit) := by
  have hunit := two_zpow_pos (ofBinary value).unit
  have hlower := ofBinary_lower_lt positive
  have hupper : (ofBinary value).centre < (ofBinary value).upper := by
    rw [ofBinary_centre, ofBinary_upper]
    omega
  exact holds_of_lt (mul_lt_mul_of_pos_right (by exact_mod_cast hlower) hunit)
    (mul_lt_mul_of_pos_right (by exact_mod_cast hupper) hunit)

end

theorem two_zpow_eq_quarters (exponent : ℤ) : (2 : ℚ) ^ exponent = 4 * 2 ^ (exponent - 2) := by
  rw [zpow_sub₀ two_ne_zero]
  norm_num
  ring

theorem Holds.near {value : Binary} (h : (ofBinary value).Holds x) :
    |x - value.significand * 2 ^ value.exponent| ≤ 2 ^ value.exponent / 2 := by
  obtain ⟨hlower, hupper⟩ := h.bounds
  have hunit := two_zpow_pos (value.exponent - 2)
  have hcast : 4 * (value.significand : ℚ) ≤ (ofBinary value).lower + 2 := by
    exact_mod_cast le_ofBinary_lower value
  have hscaled := mul_le_mul_of_nonneg_right hcast hunit.le
  rw [ofBinary_unit] at hlower hupper
  rw [ofBinary_upper] at hupper
  push_cast at hupper
  rw [two_zpow_eq_quarters, abs_le]
  constructor <;> linarith

/-! ## Multiples of a power of ten -/

/-- The common denominator of the basin and of the multiples of a power of ten. -/
def scale (basin : Basin) (exponent : ℤ) : ℚ :=
  2 ^ (-basin.unit).toNat * 10 ^ (-exponent).toNat

theorem scale_pos (basin : Basin) (exponent : ℤ) : 0 < basin.scale exponent := by
  unfold scale
  positivity

theorem zpow_mul_pow_toNat {base : ℚ} (nonzero : base ≠ 0) (exponent : ℤ) :
    base ^ exponent * base ^ (-exponent).toNat = base ^ exponent.toNat := by
  rw [← zpow_natCast, ← zpow_natCast, ← zpow_add₀ nonzero]
  congr 1
  omega

theorem place_scale (basin : Basin) (exponent : ℤ) (n : ℕ) :
    n * 2 ^ basin.unit * basin.scale exponent =
      (n * (2 ^ basin.unit.toNat * 10 ^ (-exponent).toNat) : ℕ) := by
  have hpower := zpow_mul_pow_toNat two_ne_zero basin.unit
  push_cast
  rw [← hpower, scale]
  ring

theorem multiple_scale (basin : Basin) (exponent : ℤ) (n : ℕ) :
    n * 10 ^ exponent * basin.scale exponent =
      (n * (10 ^ exponent.toNat * 2 ^ (-basin.unit).toNat) : ℕ) := by
  have hpower := zpow_mul_pow_toNat (by norm_num : (10 : ℚ) ≠ 0) exponent
  push_cast
  rw [← hpower, scale]
  ring

theorem place_le_multiple_iff (basin : Basin) (exponent : ℤ) (first n : ℕ) :
    (first : ℚ) * 2 ^ basin.unit ≤ n * 10 ^ exponent ↔
      first * (2 ^ basin.unit.toNat * 10 ^ (-exponent).toNat) ≤
        n * (10 ^ exponent.toNat * 2 ^ (-basin.unit).toNat) := by
  rw [← mul_le_mul_iff_left₀ (basin.scale_pos exponent), place_scale, multiple_scale,
    Nat.cast_le]

theorem multiple_le_place_iff (basin : Basin) (exponent : ℤ) (n last : ℕ) :
    (n : ℚ) * 10 ^ exponent ≤ last * 2 ^ basin.unit ↔
      n * (10 ^ exponent.toNat * 2 ^ (-basin.unit).toNat) ≤
        last * (2 ^ basin.unit.toNat * 10 ^ (-exponent).toNat) := by
  rw [← mul_le_mul_iff_left₀ (basin.scale_pos exponent), place_scale, multiple_scale,
    Nat.cast_le]

theorem contains_iff (basin : Basin) (exponent : ℤ) (n : ℕ) :
    contains (basin.lower * (2 ^ basin.unit.toNat * 10 ^ (-exponent).toNat))
        (basin.upper * (2 ^ basin.unit.toNat * 10 ^ (-exponent).toNat)) basin.closed
        (n * (10 ^ exponent.toNat * 2 ^ (-basin.unit).toNat)) = true ↔
      basin.Holds (n * 10 ^ exponent) := by
  unfold contains Holds
  split
  · rw [decide_eq_true_eq, place_le_multiple_iff, multiple_le_place_iff]
  · rw [decide_eq_true_eq, ← not_le, ← not_le, ← not_le, ← not_le, place_le_multiple_iff,
      multiple_le_place_iff]

variable {tie : Tie} {exponent : ℤ}

theorem nearestMultiple_eq_some {numeral : Numeral}
    (h : basin.nearestMultiple tie exponent = some numeral) :
    numeral.exponent = exponent ∧ basin.Holds (numeral.digits * 10 ^ exponent) := by
  have hcontains := basin.contains_iff exponent
  unfold nearestMultiple at h
  dsimp only at h
  split at h
  · rename_i hbelow habove
    split at h
    · cases h
      exact ⟨rfl, (hcontains _).mp habove⟩
    · cases h
      exact ⟨rfl, (hcontains _).mp hbelow⟩
  · rename_i hbelow _
    cases h
    exact ⟨rfl, (hcontains _).mp hbelow⟩
  · rename_i _ habove
    cases h
    exact ⟨rfl, (hcontains _).mp habove⟩
  · cases h

theorem nearestMultiple_isSome (centre : basin.Holds (basin.centre * 2 ^ basin.unit)) {n : ℕ}
    (hit : basin.Holds (n * 10 ^ exponent)) :
    (basin.nearestMultiple tie exponent).isSome = true := by
  have hcontains := basin.contains_iff exponent
  have hstep : 0 < 10 ^ exponent.toNat * 2 ^ (-basin.unit).toNat := by positivity
  have hten : (0 : ℚ) ≤ 10 ^ exponent := by positivity
  obtain ⟨below, hbelow⟩ : ∃ below, below = basin.centre *
      (2 ^ basin.unit.toNat * 10 ^ (-exponent).toNat) /
        (10 ^ exponent.toNat * 2 ^ (-basin.unit).toNat) := ⟨_, rfl⟩
  have hneighbour : basin.Holds (below * 10 ^ exponent) ∨
      basin.Holds ((below + 1 : ℕ) * 10 ^ exponent) := by
    rcases Nat.lt_or_ge below n with hlt | hge
    · have hcast : ((below + 1 : ℕ) : ℚ) ≤ n := by exact_mod_cast hlt
      refine .inr (centre.between hit ?_ (mul_le_mul_of_nonneg_right hcast hten))
      rw [place_le_multiple_iff, hbelow]
      exact (Nat.lt_mul_of_div_lt (Nat.lt_succ_self _) hstep).le
    · have hcast : (n : ℚ) ≤ below := by exact_mod_cast hge
      refine .inl (hit.between centre (mul_le_mul_of_nonneg_right hcast hten) ?_)
      rw [multiple_le_place_iff, hbelow]
      exact Nat.div_mul_le_self _ _
  rw [← hcontains, ← hcontains, hbelow] at hneighbour
  unfold nearestMultiple
  dsimp only
  split
  · split <;> rfl
  · rfl
  · rfl
  · rename_i hfirst hsecond
    rcases hneighbour with hfound | hfound
    · exact absurd (hfirst.symm.trans hfound) Bool.false_ne_true
    · exact absurd (hsecond.symm.trans hfound) Bool.false_ne_true

end Basin

/-! ## The search -/

theorem exists_findSome?_range {β : Type} {f : ℕ → Option β} {count place : ℕ}
    (lt : place < count) (hit : (f place).isSome = true) :
    ∃ first ≤ place, ∃ found, f first = some found ∧
      (List.range count).findSome? f = some found := by
  induction count with
  | zero => omega
  | succ count ih =>
      rw [List.range_succ, List.findSome?_append]
      rcases Nat.lt_succ_iff_lt_or_eq.mp lt with hlt | rfl
      · obtain ⟨first, hle, found, hfirst, hfound⟩ := ih hlt
        exact ⟨first, hle, found, hfirst, by rw [hfound]; rfl⟩
      · cases hrest : (List.range place).findSome? f with
        | some found =>
            obtain ⟨first, hmem, hfirst⟩ := List.exists_of_findSome?_eq_some hrest
            exact ⟨first, (List.mem_range.mp hmem).le, found, hfirst, rfl⟩
        | none =>
            obtain ⟨found, hfound⟩ := Option.isSome_iff_exists.mp hit
            exact ⟨place, le_rfl, found, hfound, by simp [hfound]⟩

namespace Binary

variable {value : Binary}

theorem shortest_of_hit
    (centre : (Basin.ofBinary value).Holds
      ((Basin.ofBinary value).centre * 2 ^ (Basin.ofBinary value).unit))
    {place : ℕ} (lt : place < 20) {n : ℕ}
    (hit : (Basin.ofBinary value).Holds (n * 10 ^ (value.decimalBound - place)))
    (tie : Tie) :
    value.decimalBound - place ≤ (value.shortest tie).exponent ∧
      (Basin.ofBinary value).Holds
        ((value.shortest tie).digits * 10 ^ (value.shortest tie).exponent) := by
  obtain ⟨first, hle, numeral, hfirst, hfound⟩ := exists_findSome?_range
    (f := fun place : ℕ =>
      (Basin.ofBinary value).nearestMultiple tie (value.decimalBound - place))
    lt (Basin.nearestMultiple_isSome centre hit)
  have hshortest : value.shortest tie = numeral := by
    rw [shortest, candidateExponents, List.findSome?_map]
    exact congrArg (Option.getD · ⟨0, 0⟩) hfound
  obtain ⟨hexponent, hholds⟩ := Basin.nearestMultiple_eq_some hfirst
  rw [hshortest, hexponent]
  exact ⟨by omega, hholds⟩

/-! ## Ten-thousandths -/

theorem ten_pow_le_two_pow {bound place : ℕ} (le : 100000 * bound ≤ 30103 * (place + 2))
    (small : place ≤ 2000) : 10 ^ bound ≤ 2 ^ (place + 6) := by
  have hexponent : 196 * bound ≤ (place + 6) * 59 := by omega
  have hpower : (10 ^ bound) ^ 59 ≤ (2 ^ (place + 6)) ^ 59 := by
    calc
      (10 ^ bound) ^ 59 = (10 ^ 59) ^ bound := by rw [← pow_mul, ← pow_mul, Nat.mul_comm]
      _ ≤ (2 ^ 196) ^ bound := Nat.pow_le_pow_left (by norm_num) bound
      _ = 2 ^ (196 * bound) := (pow_mul 2 196 bound).symm
      _ ≤ 2 ^ ((place + 6) * 59) := Nat.pow_le_pow_right two_pos hexponent
      _ = (2 ^ (place + 6)) ^ 59 := pow_mul 2 (place + 6) 59
  exact (Nat.pow_le_pow_iff_left (by omega)).mp hpower

/-- Where the search does not reach down to the ten-thousandths, its last power of ten
is less than half of the last binary place. -/
theorem ten_zpow_lt (small : value.significand < 2 ^ 53) (greatest : value.exponent ≤ 971)
    (large : 15 < value.decimalBound) :
    (10 : ℚ) ^ (value.decimalBound - 19) < 2 ^ (value.exponent - 1) := by
  have hlog : value.significand.log2 ≤ 52 := by
    by_cases hzero : value.significand = 0
    · rw [hzero]
      decide
    · exact Nat.lt_succ_iff.mp ((Nat.log2_lt hzero).mpr small)
  unfold decimalBound at large ⊢
  obtain ⟨place, hplace⟩ := Int.eq_ofNat_of_zero_le
    (by omega : 0 ≤ (value.significand.log2 : ℤ) + value.exponent)
  obtain ⟨bound, hbound⟩ := Int.eq_ofNat_of_zero_le
    (by omega : 0 ≤ ((value.significand.log2 : ℤ) + value.exponent + 2) * 30103 / 100000)
  have hpower : (10 : ℚ) ^ bound ≤ 2 ^ (place + 6) := by
    exact_mod_cast ten_pow_le_two_pow (by omega : 100000 * bound ≤ 30103 * (place + 2)) (by omega)
  have hten : (10 : ℚ) ^ ((bound : ℤ) + 1 - 19) = 10 ^ bound / 10 ^ 18 := by
    rw [← zpow_natCast, ← zpow_natCast, ← zpow_sub₀ (by norm_num)]
    congr 1
    push_cast
    ring
  have htwo : (2 : ℚ) ^ (place + 6) / 2 ^ 59 = 2 ^ ((place : ℤ) - 53) := by
    rw [← zpow_natCast, ← zpow_natCast, ← zpow_sub₀ two_ne_zero]
    congr 1
    push_cast
    ring
  rw [hbound, hten]
  calc
    (10 : ℚ) ^ bound / 10 ^ 18 ≤ 2 ^ (place + 6) / 10 ^ 18 :=
      div_le_div_of_nonneg_right hpower (by positivity)
    _ < 2 ^ (place + 6) / 2 ^ 59 :=
      div_lt_div_of_pos_left (by positivity) (by positivity) (by norm_num)
    _ = 2 ^ ((place : ℤ) - 53) := htwo
    _ ≤ 2 ^ (value.exponent - 1) := zpow_le_zpow_right₀ one_le_two (by omega)

theorem le_decimalBound {n : ℕ} (pos : 0 < n)
    (hit : (Basin.ofBinary value).Holds (n * 10 ^ (-4 : ℤ))) : -4 ≤ value.decimalBound := by
  have hone : (1 : ℚ) ≤ n := by exact_mod_cast pos
  have hleast : (10 : ℚ) ^ (-4 : ℤ) ≤ n * 10 ^ (-4 : ℤ) :=
    le_mul_of_one_le_left (by positivity) hone
  have hdigits : 4 * value.significand + 2 ≤ 2 ^ (value.significand.log2 + 3) := by
    have hlt : value.significand < 2 ^ (value.significand.log2 + 1) := Nat.lt_log2_self
    have hpower : 2 ^ (value.significand.log2 + 3) = 4 * 2 ^ (value.significand.log2 + 1) := by
      rw [pow_add, pow_add]
      omega
    omega
  have hplace : (2 : ℚ) ^ (-14 : ℤ) <
      2 ^ ((value.significand.log2 : ℤ) + value.exponent + 1) := by
    calc
      (2 : ℚ) ^ (-14 : ℤ) < 10 ^ (-4 : ℤ) := by norm_num
      _ ≤ n * 10 ^ (-4 : ℤ) := hleast
      _ ≤ (4 * value.significand + 2 : ℕ) * 2 ^ (value.exponent - 2) := hit.bounds.2
      _ ≤ (2 ^ (value.significand.log2 + 3) : ℕ) * 2 ^ (value.exponent - 2) :=
        mul_le_mul_of_nonneg_right (by exact_mod_cast hdigits) (two_zpow_pos _).le
      _ = 2 ^ ((value.significand.log2 : ℤ) + value.exponent + 1) := by
        rw [Nat.cast_pow, Nat.cast_ofNat, ← zpow_natCast, ← zpow_add₀ two_ne_zero]
        congr 1
        push_cast
        ring
  have hlt := (zpow_lt_zpow_iff_right₀ one_lt_two).mp hplace
  unfold decimalBound
  omega

theorem exists_last_of_large (small : value.significand < 2 ^ 53)
    (positive : 0 < value.significand) (greatest : value.exponent ≤ 971)
    (large : 15 < value.decimalBound) :
    ∃ n : ℕ, (Basin.ofBinary value).Holds (n * 10 ^ (value.decimalBound - (19 : ℕ))) := by
  have hten : (0 : ℚ) < 10 ^ (value.decimalBound - 19) := by positivity
  have hstep := ten_zpow_lt small greatest large
  have hunit := two_zpow_pos (value.exponent - 2)
  obtain ⟨centre, hcentre⟩ : ∃ centre : ℚ,
      centre = (4 * value.significand : ℕ) * 2 ^ (value.exponent - 2) := ⟨_, rfl⟩
  have hfloor := Nat.lt_floor_add_one (centre / 10 ^ (value.decimalBound - 19))
  have hle := Nat.floor_le (show 0 ≤ centre / 10 ^ (value.decimalBound - 19) by
    rw [hcentre]
    positivity)
  rw [div_lt_iff₀ hten] at hfloor
  rw [le_div_iff₀ hten] at hle
  refine ⟨⌊centre / 10 ^ (value.decimalBound - 19)⌋₊ + 1, ?_⟩
  have hlower : ((Basin.ofBinary value).lower : ℚ) * 2 ^ (value.exponent - 2) ≤ centre := by
    rw [hcentre]
    exact mul_le_mul_of_nonneg_right (by exact_mod_cast Basin.ofBinary_lower_le value) hunit.le
  have hupper : ((Basin.ofBinary value).upper : ℚ) * 2 ^ (value.exponent - 2) =
      centre + 2 ^ (value.exponent - 1) := by
    have hhalf : (2 : ℚ) ^ (value.exponent - 1) = 2 * 2 ^ (value.exponent - 2) := by
      rw [← zpow_one_add₀ two_ne_zero]
      congr 1
      ring
    rw [hcentre, hhalf, Basin.ofBinary_upper]
    push_cast
    ring
  refine Basin.holds_of_lt ?_ ?_
  · push_cast
    exact hlower.trans_lt hfloor
  · push_cast
    change _ < ((Basin.ofBinary value).upper : ℚ) * 2 ^ (value.exponent - 2)
    rw [hupper]
    linarith

/-- The shortest decimal of a float with ten-thousandths in its basin has at most four
decimal places. -/
theorem shortest_of_tenThousandths (small : value.significand < 2 ^ 53)
    (positive : 0 < value.significand) (greatest : value.exponent ≤ 971) {n : ℕ} (pos : 0 < n)
    (hit : (Basin.ofBinary value).Holds (n * 10 ^ (-4 : ℤ))) (tie : Tie) :
    -4 ≤ (value.shortest tie).exponent ∧
      (Basin.ofBinary value).Holds
        ((value.shortest tie).digits * 10 ^ (value.shortest tie).exponent) := by
  have hcentre := Basin.holds_centre positive
  have hbound := le_decimalBound pos hit
  rcases le_or_gt value.decimalBound 15 with hsmall | hlarge
  · obtain ⟨place, hplace⟩ := Int.eq_ofNat_of_zero_le (by omega : 0 ≤ value.decimalBound + 4)
    have hexponent : value.decimalBound - place = -4 := by omega
    rw [← hexponent] at hit ⊢
    exact shortest_of_hit hcentre (by omega) hit tie
  · obtain ⟨last, hlast⟩ := exists_last_of_large small positive greatest hlarge
    obtain ⟨hexponent, hholds⟩ := shortest_of_hit hcentre (by omega) hlast tie
    exact ⟨by omega, hholds⟩

end Binary

end MotionNotation.Decimal

namespace MotionNotation.Rounding

open Decimal (Basin Binary)
open Float.Model.UnpackedFloat (Sign)

variable {x : ℚ} {n : ℕ} {exponent : ℤ}

theorem quarter_zpow (x : ℚ) (exponent : ℤ) :
    4 * (x / 2 ^ exponent) * 2 ^ (exponent - 2) = x := by
  have hunit := two_zpow_pos (exponent - 2)
  rw [Basin.two_zpow_eq_quarters]
  field_simp

theorem Rounded.holds (h : Rounded x n exponent) (pos : 0 < n) (negative : Bool) :
    (Basin.ofBinary ⟨negative, n, exponent⟩).Holds x := by
  have hbelow := h.nearest.below
  have habove := h.nearest.above
  have heven := h.nearest.even
  have hpower : n = Binary.normalBound ∧ exponent ≠ Binary.leastExponent →
      (n : ℚ) ≤ x / 2 ^ exponent := by
    rintro ⟨hn, hexponent⟩
    have hnormal := h.normal.resolve_left hexponent
    rw [hn]
    exact_mod_cast hnormal
  rw [← quarter_zpow x exponent]
  generalize x / 2 ^ exponent = quotient at hbelow habove heven hpower
  have hlower : ((4 * n - 1 : ℕ) : ℚ) = 4 * n - 1 ∧ ((4 * n - 2 : ℕ) : ℚ) = 4 * n - 2 := by
    rw [Nat.cast_sub (by omega), Nat.cast_sub (by omega)]
    push_cast
    exact ⟨rfl, rfl⟩
  refine @Basin.holds_of_quarters (Basin.ofBinary ⟨negative, n, exponent⟩) _ ⟨?_, ?_⟩
    fun hopened => ⟨?_, ?_⟩
  · simp only [Basin.ofBinary]
    split
    · rename_i hbound
      linarith [hpower hbound, hlower.1]
    · linarith [hlower.2]
  · simp only [Basin.ofBinary]
    push_cast
    linarith
  · have hodd : ¬ n % 2 = 0 := by simpa [Basin.ofBinary] using hopened
    simp only [Basin.ofBinary]
    split
    · rename_i hbound
      linarith [hpower hbound, hlower.1]
    · have hne : quotient + 1 / 2 ≠ n := fun heq => hodd (heven (.inl heq))
      have hlt := lt_of_le_of_ne hbelow hne.symm
      linarith [hlower.2]
  · have hodd : ¬ n % 2 = 0 := by simpa [Basin.ofBinary] using hopened
    have hne : quotient ≠ n + 1 / 2 := fun heq => hodd (heven (.inr heq))
    have hlt := lt_of_le_of_ne habove hne
    simp only [Basin.ofBinary]
    push_cast
    linarith

theorem Rounded.holds_of_carry (h : Rounded x (2 ^ 53) exponent) (negative : Bool) :
    (Basin.ofBinary ⟨negative, 2 ^ 52, exponent + 1⟩).Holds x := by
  have hbelow := h.nearest.below
  have hsmall := h.small
  push_cast at hbelow
  have hhalf : x / 2 ^ (exponent + 1) = x / 2 ^ exponent / 2 := by
    rw [zpow_add_one₀ two_ne_zero, div_mul_eq_div_div]
  have hinside : ((4 * 2 ^ 52 - 1 : ℕ) : ℚ) ≤ 4 * (x / 2 ^ (exponent + 1)) ∧
      4 * (x / 2 ^ (exponent + 1)) ≤ ((4 * 2 ^ 52 + 2 : ℕ) : ℚ) := by
    rw [hhalf]
    push_cast
    constructor <;> linarith
  have hleast : exponent + 1 ≠ Binary.leastExponent := by
    have hexponent := h.least
    unfold Binary.leastExponent
    omega
  rw [← quarter_zpow x (exponent + 1)]
  refine @Basin.holds_of_quarters (Basin.ofBinary ⟨negative, 2 ^ 52, exponent + 1⟩) _ ?_
    fun hopened => absurd (show (2 ^ 52 % 2 == 0) = false from hopened) (by decide)
  simp only [Basin.ofBinary]
  rw [if_pos ⟨rfl, hleast⟩]
  exact hinside

theorem Rounded.exists_holds (h : Rounded x n exponent) (pos : 0 < n) (sign : Sign) :
    ∃ (n' : ℕ) (exponent' : ℤ) (pos' : 0 < n'),
      carried sign n exponent = .finite sign n' exponent' pos' ∧
        ∀ negative, (Basin.ofBinary ⟨negative, n', exponent'⟩).Holds x := by
  rcases h.le.lt_or_eq with hlt | rfl
  · exact ⟨n, exponent, pos, by rw [carried, dif_neg pos.ne', if_pos hlt], h.holds pos⟩
  · exact ⟨2 ^ 52, exponent + 1, by decide, rfl, h.holds_of_carry⟩

theorem Canonical.abs_sub_le_of_holds (h : Canonical n exponent) (pos : 0 < n) {negative : Bool}
    {y : ℚ} (hx : (Basin.ofBinary ⟨negative, n, exponent⟩).Holds x)
    (hy : (Basin.ofBinary ⟨negative, n, exponent⟩).Holds y) :
    |x - y| ≤ y / 2 ^ 51 + 2 ^ (-1074 : ℤ) := by
  have hxnear : |x - n * 2 ^ exponent| ≤ 2 ^ exponent / 2 := hx.near
  have hynear : |y - n * 2 ^ exponent| ≤ 2 ^ exponent / 2 := hy.near
  have hypos : 0 < y := hy.pos pos
  have hwide : |x - y| ≤ 2 ^ exponent := by
    rw [abs_sub_comm] at hynear
    linarith [abs_sub_le x (n * 2 ^ exponent) y]
  refine hwide.trans ?_
  have hleast := two_zpow_pos (-1074)
  rcases h.normal with hnormal | rfl
  · have hn : (2 : ℚ) ^ 52 ≤ n := by exact_mod_cast hnormal
    have hplaces : (2 : ℚ) ^ 52 * 2 ^ exponent ≤ n * 2 ^ exponent :=
      mul_le_mul_of_nonneg_right hn (two_zpow_pos exponent).le
    have hbelow := (abs_le.mp hynear).1
    linarith
  · have hshare : 0 ≤ y / 2 ^ 51 := by positivity
    linarith

end MotionNotation.Rounding
