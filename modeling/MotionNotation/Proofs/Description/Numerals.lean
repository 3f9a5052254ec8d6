import MotionNotation.Description.Number
import MotionNotation.Proofs.Notation.Overflow
import MotionNotation.Proofs.Rounding.Shortest

/-!
# Numerals in sentences

A number is scaled, rounded, scaled back and written as the shortest decimal of what
has come out.  As long as scaling does not overflow the text is a numeral with at most
four decimal places, and for numbers of ordinary size it is close to the number.
-/

namespace MotionNotation.Description

open Decimal (Basin Binary Layout Reading)
open Rounding (exact limit signum RoundsTo)
open Float.Model.UnpackedFloat (Sign)

/-! ## Numerals -/

structure Figures where
  whole : List Char
  fraction : List Char
  nonempty : whole ≠ []
  digits : ∀ c ∈ whole ++ fraction, c.isDigit = true
  short : fraction.length ≤ 4

namespace Figures

/-- Without digits behind it the point is not written. -/
def letters (figures : Figures) : List Char :=
  figures.whole ++ if figures.fraction = [] then [] else '.' :: figures.fraction

def value (figures : Figures) : ℚ :=
  Nat.ofDigitChars 10 (figures.whole ++ figures.fraction) 0 / 10 ^ figures.fraction.length

theorem value_eq (figures : Figures) {n count : ℕ}
    (number : Nat.ofDigitChars 10 (figures.whole ++ figures.fraction) 0 = n)
    (places : figures.fraction.length = count) : figures.value = n / 10 ^ count := by
  rw [value, number, places]

end Figures

structure Spelling extends Figures where
  negative : Bool
  signed : negative = true → toFigures.value ≠ 0

namespace Spelling

def letters (spelling : Spelling) : List Char :=
  if spelling.negative then '-' :: spelling.toFigures.letters else spelling.toFigures.letters

def value (spelling : Spelling) : ℚ :=
  if spelling.negative then -spelling.toFigures.value else spelling.toFigures.value

theorem of_mem_letters (spelling : Spelling) {c : Char} (h : c ∈ spelling.letters) :
    c = '-' ∨ c = '.' ∨ c.isDigit = true := by
  have hdigits := spelling.digits
  have hfigures (hmem : c ∈ spelling.toFigures.letters) : c = '.' ∨ c.isDigit = true := by
    rw [Figures.letters, List.mem_append] at hmem
    rcases hmem with hmem | hmem
    · exact .inr (hdigits c (List.mem_append_left _ hmem))
    · split at hmem
      · cases hmem
      · rcases List.mem_cons.mp hmem with rfl | hmem
        · exact .inl rfl
        · exact .inr (hdigits c (List.mem_append_right _ hmem))
  unfold letters at h
  split at h
  · rcases List.mem_cons.mp h with rfl | h
    · exact .inl rfl
    · exact .inr (hfigures h)
  · exact .inr (hfigures h)

end Spelling

def Spells (text : String) (value : ℚ) : Prop :=
  ∃ spelling : Spelling, text.toList = spelling.letters ∧ spelling.value = value

theorem not_spells_of_mem {text : String} {c : Char} (mem : c ∈ text.toList) (sign : c ≠ '-')
    (point : c ≠ '.') (digit : c.isDigit = false) (value : ℚ) : ¬ Spells text value := by
  rintro ⟨spelling, htext, -⟩
  rw [htext] at mem
  rcases spelling.of_mem_letters mem with h | h | h
  · exact sign h
  · exact point h
  · exact Bool.false_ne_true (digit.symm.trans h)

theorem spells_zero : Spells "0" 0 := by
  have hdigit : ∀ c ∈ ['0'] ++ [], c.isDigit = true := by
    intro c hmem
    rw [List.mem_singleton.mp hmem]
    rfl
  refine ⟨⟨⟨['0'], [], nofun, hdigit, Nat.zero_le 4⟩, false, nofun⟩, rfl, ?_⟩
  rw [Spelling.value, if_neg Bool.false_ne_true, Figures.value]
  norm_num [Nat.ofDigitChars]

/-! ## Layout -/

theorem isDigit_of_mem_toDigits {n : ℕ} {c : Char} (h : c ∈ Nat.toDigits 10 n) :
    c.isDigit = true :=
  Nat.isDigit_of_mem_toDigits (by omega) (by omega) h

theorem isDigit_of_mem_replicate {n : ℕ} {c : Char} (h : c ∈ List.replicate n '0') :
    c.isDigit = true := by
  rw [List.eq_of_mem_replicate h]
  decide

section

variable {digits : List Char} {n : ℕ} {exponent : ℤ} (nonempty : digits ≠ [])
  (digit : ∀ c ∈ digits, c.isDigit = true) (number : Nat.ofDigitChars 10 digits 0 = n)

include nonempty digit number

theorem exists_figures_of_nonneg (whole : 0 ≤ exponent) :
    ∃ figures : Figures, figures.value = n * 10 ^ exponent ∧
      (Layout.plain.positionalDigits digits (digits.length + exponent)).toList =
        figures.letters := by
  have hpos := List.length_pos_of_ne_nil nonempty
  obtain ⟨count, rfl⟩ := Int.eq_ofNat_of_zero_le whole
  refine ⟨⟨digits ++ List.replicate count '0', [], by simp [nonempty], ?_, by simp⟩, ?_, ?_⟩
  · intro c hmem
    rw [List.append_nil, List.mem_append] at hmem
    exact hmem.elim (digit c) isDigit_of_mem_replicate
  · have hnumber : Nat.ofDigitChars 10 (digits ++ List.replicate count '0' ++ []) 0 =
        10 ^ count * n := by
      rw [List.append_nil, Nat.ofDigitChars_append, number, Nat.ofDigitChars_replicate_zero]
    rw [Figures.value_eq _ hnumber rfl]
    push_cast
    rw [List.length_nil, pow_zero, div_one, mul_comm, zpow_natCast]
  · have hcount : ((digits.length : ℤ) + (count : ℤ)).toNat - digits.length = count := by omega
    rw [Layout.positionalDigits, if_neg (by omega), if_pos (by omega)]
    simp [hcount, Figures.letters, Layout.plain]

theorem exists_figures_of_small (least : -4 ≤ exponent)
    (small : (digits.length : ℤ) + exponent ≤ 0) :
    ∃ figures : Figures, figures.value = n / 10 ^ (-exponent).toNat ∧
      (Layout.plain.positionalDigits digits (digits.length + exponent)).toList =
        figures.letters := by
  obtain ⟨zeros, hzeros⟩ : ∃ zeros, zeros = (-((digits.length : ℤ) + exponent)).toNat :=
    ⟨_, rfl⟩
  have hplaces : zeros + digits.length = (-exponent).toNat := by omega
  refine ⟨⟨['0'], List.replicate zeros '0' ++ digits, by simp, ?_, by simp; omega⟩, ?_, ?_⟩
  · intro c hmem
    rw [List.singleton_append, List.mem_cons, List.mem_append] at hmem
    rcases hmem with rfl | hmem | hmem
    · decide
    · exact isDigit_of_mem_replicate hmem
    · exact digit c hmem
  · refine Figures.value_eq _ ?_ (by simpa using hplaces)
    rw [Nat.ofDigitChars_append, Nat.ofDigitChars_append, Nat.ofDigitChars_replicate_zero]
    simp [Nat.ofDigitChars_cons, number]
  · rw [Layout.positionalDigits, if_pos small, ← hzeros]
    simp [Figures.letters, nonempty]

theorem exists_figures_of_split (least : -4 ≤ exponent) (fraction : exponent < 0)
    (large : 0 < (digits.length : ℤ) + exponent) :
    ∃ figures : Figures, figures.value = n / 10 ^ (-exponent).toNat ∧
      (Layout.plain.positionalDigits digits (digits.length + exponent)).toList =
        figures.letters := by
  obtain ⟨point, hpoint⟩ : ∃ point, point = ((digits.length : ℤ) + exponent).toNat := ⟨_, rfl⟩
  have htake : digits.take point ≠ [] := by
    simp [nonempty]
    omega
  have hdrop : digits.drop point ≠ [] := by
    simp
    omega
  refine ⟨⟨digits.take point, digits.drop point, htake, ?_, ?_⟩, ?_, ?_⟩
  · rwa [List.take_append_drop]
  · rw [List.length_drop]
    omega
  · refine Figures.value_eq _ ?_ ?_
    · rw [List.take_append_drop, number]
    · rw [List.length_drop]
      omega
  · rw [Layout.positionalDigits, if_neg (by omega), if_neg (by omega), ← hpoint]
    simp [Figures.letters, hdrop]

end

/-- The digits of a decimal with at most four places are laid out as figures for it. -/
theorem exists_figures (n : ℕ) {exponent : ℤ} (least : -4 ≤ exponent) :
    ∃ figures : Figures, figures.value = n * 10 ^ exponent ∧
      (Layout.plain.positionalDigits (Nat.toDigits 10 n)
        ((Nat.toDigits 10 n).length + exponent)).toList = figures.letters := by
  have hnumber : Nat.ofDigitChars 10 (Nat.toDigits 10 n) 0 = n := Nat.ofDigitChars_ten_toDigits
  have hne : Nat.toDigits 10 n ≠ [] := Nat.toDigits_ne_nil
  have hdigit : ∀ c ∈ Nat.toDigits 10 n, c.isDigit = true := fun c => isDigit_of_mem_toDigits
  rcases le_or_gt 0 exponent with hwhole | hfraction
  · exact exists_figures_of_nonneg hne hdigit hnumber hwhole
  · have hpower : (n : ℚ) * 10 ^ exponent = n / 10 ^ (-exponent).toNat := by
      rw [← zpow_natCast, Int.toNat_of_nonneg (by omega), zpow_neg, div_inv_eq_mul]
    rw [hpower]
    rcases le_or_gt ((Nat.toDigits 10 n).length + exponent) 0 with hsmall | hlarge
    · exact exists_figures_of_small hne hdigit hnumber least hsmall
    · exact exists_figures_of_split hne hdigit hnumber least hfraction hlarge

/-- A float whose shortest decimal has at most four places is written as a numeral. -/
theorem spells_plain {x : Float} {sign : Sign} {n : ℕ} {exponent : ℤ} {pos : 0 < n}
    (hunpack : x.toModel.unpack = .finite sign n exponent pos) {value : Binary}
    (hvalue : value = ⟨sign == .negative, n, exponent⟩)
    (least : -4 ≤ (value.shortest .up).exponent) (positive : 0 < (value.shortest .up).digits) :
    Spells (Decimal.plain x)
      (signum sign * ((value.shortest .up).digits * 10 ^ (value.shortest .up).exponent)) := by
  obtain ⟨figures, hfigures, htext⟩ := exists_figures (value.shortest .up).digits least
  have hreading : Reading.ofFloat x = .finite value := by
    rw [Rounding.ofFloat_eq_reading, hunpack, hvalue]
    rfl
  have hmagnitude : (Layout.plain.magnitude value).toList = figures.letters := by
    have hnonzero : value.significand ≠ 0 := by
      rw [hvalue]
      exact pos.ne'
    rw [Layout.magnitude, if_neg hnonzero, ← htext]
    rfl
  have hten : (10 : ℚ) ^ (value.shortest .up).exponent ≠ 0 := by positivity
  have hnonzero : figures.value ≠ 0 := by
    rw [hfigures]
    exact mul_ne_zero (by exact_mod_cast positive.ne') hten
  refine ⟨⟨figures, value.negative, fun _ => hnonzero⟩, ?_, ?_⟩
  · rw [Decimal.plain, Layout.text, hreading, Spelling.letters, ← hmagnitude]
    dsimp only
    split <;> simp
  · rw [Spelling.value, ← hfigures, hvalue]
    cases sign with
    | negative => exact (neg_one_mul _).symm
    | positive => exact (one_mul _).symm

/-! ## The nearest whole number -/

theorem exists_reading {x : Float} (finite : x.isFinite = true) :
    ∃ (sign : Sign) (n : ℕ) (exponent : ℤ), n < 2 ^ 53 ∧
      exact x = signum sign * (n * 2 ^ exponent) ∧
      Reading.ofFloat x = .finite ⟨sign == .negative, n, exponent⟩ := by
  have hregular := Rounding.regular_unpack finite
  rw [Rounding.ofFloat_eq_reading, exact]
  cases hunpack : x.toModel.unpack with
  | finite sign n exponent pos =>
      rw [hunpack] at hregular
      exact ⟨sign, n, exponent, hregular.1.small, rfl, rfl⟩
  | zero sign => exact ⟨sign, 0, -1074, by decide, by simp, rfl⟩
  | infinity sign =>
      rw [hunpack] at hregular
      exact hregular.elim
  | notANumber =>
      rw [hunpack] at hregular
      exact hregular.elim

theorem nearestNat_spec {value : Binary} (below : value.exponent < 0) :
    value.nearestNat ≤ value.significand ∧
      |(value.nearestNat : ℚ) - value.significand * 2 ^ value.exponent| ≤ 1 / 2 := by
  have hlower := Decimal.roundDiv_lower .up value.numerator value.denominator
  have hupper := Decimal.roundDiv_upper .up value.numerator value.denominator
    value.denominator_pos
  have hnumerator : value.numerator = value.significand := by
    rw [Binary.numerator, Int.toNat_of_nonpos below.le]
    exact Nat.mul_one _
  have hpos := value.denominator_pos
  change 2 * value.denominator * value.nearestNat ≤ _ at hlower
  change _ ≤ 2 * value.denominator * value.nearestNat + _ at hupper
  rw [hnumerator] at hlower hupper
  have hpower : (2 : ℚ) ^ value.exponent = 1 / value.denominator := by
    have hcast : (value.denominator : ℚ) = 2 ^ (-value.exponent).toNat := by
      exact_mod_cast rfl
    rw [hcast, ← zpow_natCast, Int.toNat_of_nonneg (by omega), zpow_neg, one_div, inv_inv]
  generalize value.denominator = denominator at *
  generalize value.nearestNat = nearest at *
  constructor
  · by_contra hlt
    have hmore := Nat.mul_le_mul_left (2 * denominator) (Nat.not_le.mp hlt)
    have hless := Nat.mul_le_mul_right value.significand hpos
    rw [Nat.mul_succ] at hmore
    have hdouble : 2 * denominator * value.significand = 2 * (denominator * value.significand) :=
      Nat.mul_assoc ..
    omega
  · have hdenominator : (0 : ℚ) < denominator := by exact_mod_cast hpos
    have hlow : 2 * (denominator : ℚ) * nearest ≤ 2 * value.significand + denominator := by
      exact_mod_cast hlower
    have hhigh : 2 * (value.significand : ℚ) ≤ 2 * denominator * nearest + denominator := by
      exact_mod_cast hupper
    rw [hpower, mul_one_div, abs_le]
    constructor
    · rw [neg_le_sub_iff_le_add, div_le_iff₀ hdenominator]
      linarith
    · rw [sub_le_iff_le_add, ← sub_le_iff_le_add', le_div_iff₀ hdenominator]
      linarith

theorem nearestWhole_spec {x : Float} (finite : x.isFinite = true) :
    (Decimal.nearestWhole x).isFinite = true ∧ ∃ (sign : Sign) (k : ℕ),
      exact (Decimal.nearestWhole x) = signum sign * k ∧
        |signum sign * k - exact x| ≤ 1 / 2 := by
  obtain ⟨sign, n, exponent, hsmall, hexact, hreading⟩ := exists_reading finite
  rw [Decimal.nearestWhole, hreading]
  dsimp only
  split
  · rename_i hwhole
    obtain ⟨count, rfl⟩ := Int.eq_ofNat_of_zero_le hwhole
    have hk : exact x = signum sign * (n * 2 ^ count : ℕ) := by
      rw [hexact]
      push_cast
      rw [zpow_natCast]
    refine ⟨finite, sign, n * 2 ^ count, hk, ?_⟩
    rw [← hk, sub_self, abs_zero]
    norm_num
  · rename_i hfraction
    obtain ⟨hle, hnear⟩ :=
      @nearestNat_spec ⟨sign == .negative, n, exponent⟩ (Int.not_le.mp hfraction)
    generalize Binary.nearestNat ⟨sign == .negative, n, exponent⟩ = k at hle hnear ⊢
    dsimp only at hle hnear
    have hsignificand : k ≤ 2 ^ 53 := hle.trans hsmall.le
    obtain ⟨hfinite, hnat⟩ := (Rounding.roundsTo_ofNat k).exact_eq_natCast hsignificand
    have hclose : |signum sign * k - exact x| ≤ 1 / 2 := by
      rwa [hexact, ← mul_sub, abs_mul, Rounding.abs_signum, one_mul]
    cases sign with
    | negative =>
        have hneg := Rounding.roundsTo_neg hfinite
        rw [hnat, ← neg_one_mul] at hneg
        obtain ⟨hfinite', hexact'⟩ :=
          (show RoundsTo (signum .negative * k) _ from hneg).exact_eq_whole hsignificand
        exact ⟨hfinite', .negative, k, hexact', hclose⟩
    | positive =>
        exact ⟨hfinite, .positive, k, hnat.trans (one_mul _).symm, hclose⟩

/-! ## Numbers -/

theorem exact_tenThousand : (10000 : Float).isFinite = true ∧ exact 10000 = 10000 :=
  (Rounding.roundsTo_ofNat 10000).exact_eq_natCast (by norm_num)

theorem exists_tenThousandths {x : Float} (finite : x.isFinite = true)
    (below : 10000 * |exact x| < limit) :
    ∃ (sign : Sign) (k : ℕ) (rounded : Float),
      roundToPlaces x = (if rounded == 0 then 0 else rounded) ∧ rounded.isFinite = true ∧
      RoundsTo (signum sign * (k * 10 ^ (-4 : ℤ))) rounded ∧
      |signum sign * k - 10000 * exact x| ≤
        1 / 2 + (10000 * |exact x| / 2 ^ 53 + 2 ^ (-1075 : ℤ)) := by
  obtain ⟨hfactor, hten⟩ := exact_tenThousand
  have hscaled := Rounding.roundsTo_mul finite hfactor
  rw [hten, mul_comm] at hscaled
  have habs : |10000 * exact x| = 10000 * |exact x| := by
    rw [abs_mul, abs_of_pos (by norm_num)]
  have hscaledFinite : (x * 10000).isFinite = true := by
    rw [hscaled.isFinite_iff, habs]
    exact below
  have herror := hscaled.abs_sub_le hscaledFinite
  rw [habs] at herror
  obtain ⟨hwhole, sign, k, hexact, hhalf⟩ := nearestWhole_spec hscaledFinite
  have hquotient := Rounding.roundsTo_div hwhole hfactor (by rw [hten]; norm_num)
  rw [hexact, hten] at hquotient
  have hplaces : signum sign * k / 10000 = signum sign * (k * 10 ^ (-4 : ℤ)) := by
    have hplace : (10 : ℚ) ^ (-4 : ℤ) = 1 / 10000 := by norm_num
    rw [hplace]
    ring
  rw [hplaces] at hquotient
  refine ⟨sign, k, _, rfl, ?_, hquotient, ?_⟩
  · have hk : (k : ℚ) < limit := by
      have habove := Rounding.abs_exact_lt (Decimal.nearestWhole (x * 10000))
      rwa [hexact, Rounding.abs_signum_mul sign (Nat.cast_nonneg k)] at habove
    rw [hquotient.isFinite_iff, Rounding.abs_signum_mul sign (by positivity)]
    refine lt_of_le_of_lt (mul_le_of_le_one_right (Nat.cast_nonneg k) ?_) hk
    norm_num
  · calc
      |signum sign * k - 10000 * exact x| ≤
          |signum sign * k - exact (x * 10000)| + |exact (x * 10000) - 10000 * exact x| :=
        abs_sub_le _ _ _
      _ ≤ 1 / 2 + (10000 * |exact x| / 2 ^ 53 + 2 ^ (-1075 : ℤ)) := add_le_add hhalf herror

theorem plain_zero : Decimal.plain 0 = "0" := by
  decide +kernel

theorem beq_zero_eq (x : Float) :
    (x == 0) = (x.toModel.unpack.compare (.zero .positive) == some .eq) :=
  rfl

theorem beq_zero_of_unpack_finite {x : Float} {sign : Sign} {n : ℕ} {exponent : ℤ}
    {pos : 0 < n} (h : x.toModel.unpack = .finite sign n exponent pos) : (x == 0) = false := by
  rw [beq_zero_eq, h]
  cases sign <;> rfl

theorem beq_zero_of_roundsTo {x : Float} (finite : x.isFinite = true) (h : RoundsTo 0 x) :
    (x == 0) = true := by
  obtain ⟨sign, y, n, exponent, hnonneg, hsame, hrounded, hunpack⟩ := h.unpack finite
  have hy : y = 0 := by
    rw [← Rounding.abs_signum_mul sign hnonneg, ← hsame, abs_zero]
  have hn : n = 0 := by
    refine Nat.le_zero.mp (hrounded.nearest.le_of_le ?_)
    rw [hy, zero_div, Nat.cast_zero]
  subst hn
  rw [beq_zero_eq, hunpack]
  cases sign <;> rfl

theorem exists_basin_of_roundsTo {sign : Sign} {k : ℕ} (pos : 0 < k) {x : Float}
    (finite : x.isFinite = true) (h : RoundsTo (signum sign * (k * 10 ^ (-4 : ℤ))) x) :
    ∃ (sign' : Sign) (n : ℕ) (exponent : ℤ) (pos' : 0 < n),
      signum sign * (k * 10 ^ (-4 : ℤ)) = signum sign' * (k * 10 ^ (-4 : ℤ)) ∧
      x.toModel.unpack = .finite sign' n exponent pos' ∧
      ∀ negative, (Basin.ofBinary ⟨negative, n, exponent⟩).Holds (k * 10 ^ (-4 : ℤ)) := by
  obtain ⟨sign', y, n, exponent, hnonneg, hsame, hrounded, hunpack⟩ := h.unpack finite
  have hy : y = k * 10 ^ (-4 : ℤ) := by
    rw [← Rounding.abs_signum_mul sign' hnonneg, ← hsame,
      Rounding.abs_signum_mul sign (by positivity)]
  subst hy
  have hone : (1 : ℚ) ≤ k := by exact_mod_cast pos
  have hlarge : (2 : ℚ) ^ (-1074 : ℤ) ≤ k * 10 ^ (-4 : ℤ) := by
    calc
      (2 : ℚ) ^ (-1074 : ℤ) ≤ 2 ^ (-14 : ℤ) := zpow_le_zpow_right₀ one_le_two (by omega)
      _ ≤ 1 * 10 ^ (-4 : ℤ) := by norm_num
      _ ≤ k * 10 ^ (-4 : ℤ) := mul_le_mul_of_nonneg_right hone (by positivity)
  obtain ⟨n', exponent', pos', hcarried, hholds⟩ :=
    hrounded.exists_holds (hrounded.pos_of_le hlarge) sign'
  exact ⟨sign', n', exponent', pos', hsame, hunpack.trans hcarried, hholds⟩

/-- A float next to a number of ten-thousandths is written as a numeral close to it. -/
theorem spells_of_roundsTo {sign : Sign} {k : ℕ} {rounded : Float}
    (finite : rounded.isFinite = true)
    (h : RoundsTo (signum sign * (k * 10 ^ (-4 : ℤ))) rounded) :
    ∃ value, Spells (Decimal.plain (if rounded == 0 then 0 else rounded)) value ∧
      |value - signum sign * (k * 10 ^ (-4 : ℤ))| ≤
        k * 10 ^ (-4 : ℤ) / 2 ^ 51 + 2 ^ (-1074 : ℤ) := by
  rcases Nat.eq_zero_or_pos k with rfl | hk
  · have hzero : signum sign * ((0 : ℕ) * 10 ^ (-4 : ℤ)) = 0 := by simp
    rw [hzero] at h ⊢
    rw [if_pos (beq_zero_of_roundsTo finite h), plain_zero]
    exact ⟨0, spells_zero, by simp⟩
  · obtain ⟨sign', n, exponent, hpos, hsame, hunpack, hholds⟩ :=
      exists_basin_of_roundsTo hk finite h
    obtain ⟨hcanonical, hgreatest⟩ := Rounding.canonical_of_unpack hunpack
    have hbasin := hholds (sign' == .negative)
    obtain ⟨hleast, hshortest⟩ := Binary.shortest_of_tenThousandths
      hcanonical.small hpos hgreatest hk hbasin .up
    have hdigits : 0 < (Binary.shortest ⟨sign' == .negative, n, exponent⟩ .up).digits := by
      rw [Nat.pos_iff_ne_zero]
      intro hnone
      have hpositive := hshortest.pos hpos
      rw [hnone, Nat.cast_zero, zero_mul] at hpositive
      exact lt_irrefl _ hpositive
    rw [beq_zero_of_unpack_finite hunpack, if_neg Bool.false_ne_true]
    refine ⟨_, spells_plain hunpack rfl hleast hdigits, ?_⟩
    rw [hsame, ← mul_sub, abs_mul, Rounding.abs_signum, one_mul]
    exact hcanonical.abs_sub_le_of_holds hpos hshortest hbasin

theorem spells_number {x : Float} (finite : x.isFinite = true)
    (below : 10000 * |exact x| < limit) :
    ∃ value, Spells (number x) value ∧ (|exact x| ≤ 2 ^ 31 → |value - exact x| < 1 / 10000) := by
  obtain ⟨sign, k, rounded, hround, hfinite, hroundsTo, herror⟩ :=
    exists_tenThousandths finite below
  obtain ⟨value, hspells, hclose⟩ := spells_of_roundsTo hfinite hroundsTo
  rw [← hround] at hspells
  refine ⟨value, hspells, fun hsize => ?_⟩
  have hplace : (10 : ℚ) ^ (-4 : ℤ) = 1 / 10000 := by norm_num
  have hfirst : (2 : ℚ) ^ (-1075 : ℤ) ≤ 2 ^ (-20 : ℤ) := zpow_le_zpow_right₀ one_le_two (by omega)
  have hsecond : (2 : ℚ) ^ (-1074 : ℤ) ≤ 2 ^ (-20 : ℤ) := zpow_le_zpow_right₀ one_le_two (by omega)
  have hcount : (k : ℚ) ≤ |signum sign * k - 10000 * exact x| + 10000 * |exact x| := by
    have habs := abs_sub_abs_le_abs_sub (signum sign * k) (10000 * exact x)
    rw [Rounding.abs_signum_mul sign (Nat.cast_nonneg k), abs_mul,
      abs_of_pos (by norm_num : (0 : ℚ) < 10000)] at habs
    linarith
  have hscaled : |signum sign * (k * 10 ^ (-4 : ℤ)) - exact x| =
      |signum sign * k - 10000 * exact x| / 10000 := by
    rw [hplace, ← abs_of_pos (by norm_num : (0 : ℚ) < 10000), ← abs_div]
    congr 1
    rw [abs_of_pos (by norm_num : (0 : ℚ) < 10000)]
    ring
  have htriangle := abs_sub_le value (signum sign * (k * 10 ^ (-4 : ℤ))) (exact x)
  rw [hscaled] at htriangle
  rw [hplace] at hclose
  generalize (2 : ℚ) ^ (-1075 : ℤ) = first at hfirst herror
  generalize (2 : ℚ) ^ (-1074 : ℤ) = second at hsecond hclose
  norm_num at hfirst hsecond hsize herror hclose
  linarith

theorem unpack_tenThousand : ∃ (n : ℕ) (exponent : ℤ) (pos : 0 < n),
    (10000 : Float).toModel.unpack = .finite .positive n exponent pos :=
  ⟨_, _, _, rfl⟩

theorem number_of_limit_le {x : Float} (finite : x.isFinite = true)
    (beyond : limit ≤ 10000 * |exact x|) : number x = "inf" ∨ number x = "-inf" := by
  obtain ⟨hfactor, hten⟩ := exact_tenThousand
  obtain ⟨n, exponent, pos, htenThousand⟩ := unpack_tenThousand
  have hscaled := Rounding.roundsTo_mul finite hfactor
  rw [hten] at hscaled
  obtain ⟨sign, hunpack⟩ := hscaled.unpack_of_limit_le
    (by rwa [abs_mul, abs_of_pos (by norm_num : (0 : ℚ) < 10000), mul_comm])
  have hwhole : Decimal.nearestWhole (x * 10000) = x * 10000 := by
    rw [Decimal.nearestWhole, Rounding.ofFloat_eq_reading, hunpack]
    rfl
  have hquotient : (x * 10000 / 10000).toModel.unpack = .infinity (sign / .positive) := by
    change (Float.Model.pack (Float.Model.UnpackedFloat.div .binary64
      (x * 10000).toModel.unpack (10000 : Float).toModel.unpack)).unpack = _
    rw [hunpack, htenThousand]
    exact Rounding.unpack_pack_infinity _
  have hnonzero : (x * 10000 / 10000 == 0) = false := by
    rw [beq_zero_eq, hquotient]
    cases sign <;> rfl
  have htext : number x = Decimal.plain (x * 10000 / 10000) := by
    rw [number, roundToPlaces, hwhole, hnonzero]
    rfl
  rw [htext, Decimal.plain, Layout.text, Rounding.ofFloat_eq_reading, hquotient]
  cases sign with
  | negative => exact .inr rfl
  | positive => exact .inl rfl

/-- The text of a finite number is a numeral exactly if scaling does not overflow, and
close to the number if that is of ordinary size. -/
theorem number_spells_iff (x : Float) (letters : List Char) :
    (Literal.find letters = .number x → x.isFinite = true) ∧
    (x.isFinite = true →
      ((∃ value, Spells (number x) value) ↔ 10000 * |exact x| < limit) ∧
      (|exact x| ≤ 2 ^ 31 →
        ∃ value, Spells (number x) value ∧ |value - exact x| < 1 / 10000)) := by
  refine ⟨fun h => Literal.isFinite_of_find (by rw [h]; rfl), fun finite => ⟨⟨?_, ?_⟩, ?_⟩⟩
  · rintro ⟨value, hspells⟩
    by_contra hbeyond
    have hletter : 'i' ∈ (number x).toList := by
      rcases number_of_limit_le finite (not_lt.mp hbeyond) with htext | htext <;> rw [htext] <;>
        decide
    exact not_spells_of_mem hletter (by decide) (by decide) (by decide) value hspells
  · intro hbelow
    obtain ⟨value, hspells, -⟩ := spells_number finite hbelow
    exact ⟨value, hspells⟩
  · intro hsize
    have hbelow : 10000 * |exact x| < limit := by
      calc
        10000 * |exact x| ≤ 10000 * 2 ^ 31 := mul_le_mul_of_nonneg_left hsize (by norm_num)
        _ < 2 ^ 64 := by norm_num
        _ < limit := Rounding.two_pow_lt_limit
    obtain ⟨value, hspells, hclose⟩ := spells_number finite hbelow
    exact ⟨value, hspells, hclose hsize⟩

theorem number_spells_of_literal :
    ∃ x : Float, Literal.find "-12.5".toList = .number x ∧ exact x = -25 / 2 ∧
      number x = "-12.5" ∧
      ((∃ value, Spells (number x) value) ↔ 10000 * |exact x| < limit) ∧
      ∃ value, Spells (number x) value ∧ |value - exact x| < 1 / 10000 := by
  obtain ⟨x, hx⟩ : ∃ x : Float, x = -12.5 := ⟨_, rfl⟩
  have hfind : Literal.find "-12.5".toList = .number x := by
    rw [hx]
    decide +kernel
  have hexact : exact x = -25 / 2 := by
    have hunpack : x.toModel.unpack =
        .finite .negative 7036874417766400 (-49) (by decide) := by
      rw [hx]
      rfl
    rw [exact, hunpack, Rounding.value, signum]
    norm_num
  have htext : number x = "-12.5" := by
    rw [hx]
    decide +kernel
  obtain ⟨hfinite, hspells⟩ := number_spells_iff x "-12.5".toList
  obtain ⟨hnumeral, hclose⟩ := hspells (hfinite hfind)
  exact ⟨x, hfind, hexact, htext, hnumeral, hclose (by rw [hexact]; norm_num)⟩

theorem number_spells_nothing_of_large :
    ∃ x : Float, x = 1e305 ∧ x.isFinite = true ∧ number x = "inf" ∧
      ∀ value, ¬ Spells (number x) value := by
  have htext : number 1e305 = "inf" := by decide +kernel
  refine ⟨1e305, rfl, by decide +kernel, htext, fun value => ?_⟩
  rw [htext]
  exact not_spells_of_mem (by decide : 'i' ∈ "inf".toList) (by decide) (by decide) (by decide)
    value

end MotionNotation.Description
