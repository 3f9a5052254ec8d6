import MotionNotation.Decimal.Binary
import MotionNotation.Proofs.Rounding.Nearest

/-!
# Floats and their parts

A float is stored as a sign, an exponent and a fraction.  What is packed with
fifty-three binary digits, or with the least exponent, is found again as it was,
as long as the exponent is not too large.
-/

namespace MotionNotation.Rounding

open Float.Model (UnpackedFloat)
open Float.Model.UnpackedFloat (Sign packComponents unpackSign unpackExponent unpackMantissa
  unpackSign_packComponents unpackExponent_packComponents unpackMantissa_packComponents)

/-! ## Reading the parts -/

def ofParts (sign : Sign) (stored fraction : ℕ) : UnpackedFloat :=
  if stored = 2047 then
    if fraction = 0 then .infinity sign else .notANumber
  else if stored = 0 then
    if h : fraction = 0 then .zero sign
    else .finite sign fraction (-1074) (Nat.pos_of_ne_zero h)
  else .finite sign (2 ^ 52 + fraction) (stored - 1075) (by omega)

theorem toNat_one_append (fraction : BitVec 52) :
    (1#1 ++ fraction).toNat = 2 ^ 52 + fraction.toNat := by
  rw [BitVec.toNat_append, ← Nat.shiftLeft_add_eq_or_of_lt fraction.isLt]
  rfl

theorem unpack_eq_ofParts (bits : BitVec 64) :
    UnpackedFloat.unpack .binary64 bits =
      ofParts (Sign.ofBitVec (@unpackSign .binary64 bits))
        (@unpackExponent .binary64 bits).toNat
        (@unpackMantissa .binary64 bits).toNat := by
  have hall (stored : BitVec 11) : stored = -1#11 ↔ stored.toNat = 2047 := by
    rw [← BitVec.toNat_inj]
    rfl
  have hnone (stored : BitVec 11) : stored = 0#11 ↔ stored.toNat = 0 := by
    rw [← BitVec.toNat_inj]
    rfl
  have hzero (fraction : BitVec 52) : fraction = 0#52 ↔ fraction.toNat = 0 := by
    rw [← BitVec.toNat_inj]
    rfl
  unfold UnpackedFloat.unpack ofParts
  simp only [hall, hnone, hzero, toNat_one_append]
  split
  · rfl
  · split
    · rename_i hstored
      split
      · rfl
      · congr 1
        rw [hstored]
        rfl
    · rfl

theorem ofParts_zero (sign : Sign) {fraction : ℕ} (pos : 0 < fraction) :
    ofParts sign 0 fraction = .finite sign fraction (-1074) pos := by
  simp [ofParts, Nat.ne_of_gt pos]

/-! ## Packing and unpacking -/

theorem unpack_packComponents (sign : Sign) (stored : BitVec 11) (fraction : BitVec 52) :
    UnpackedFloat.unpack .binary64 (packComponents .binary64 sign stored fraction) =
      ofParts sign stored.toNat fraction.toNat := by
  rw [unpack_eq_ofParts, unpackSign_packComponents, unpackExponent_packComponents,
    unpackMantissa_packComponents, Sign.ofBitVec_toBitVec]

theorem unpack_pack_zero (sign : Sign) :
    (Float.Model.pack (.zero sign)).unpack = .zero sign := by
  cases sign <;> rfl

theorem unpack_pack_infinity (sign : Sign) :
    (Float.Model.pack (.infinity sign)).unpack = .infinity sign := by
  cases sign <;> rfl

structure Canonical (n : ℕ) (exponent : ℤ) : Prop where
  small : n < 2 ^ 53
  least : -1074 ≤ exponent
  normal : 2 ^ 52 ≤ n ∨ exponent = -1074

variable {n : ℕ} {exponent : ℤ}

theorem unpack_pack_of_large (sign : Sign) (pos : 0 < n) (large : 971 < exponent) :
    (Float.Model.pack (.finite sign n exponent pos)).unpack = .infinity sign := by
  have hpack : Float.Model.pack (.finite sign n exponent pos) =
      Float.Model.pack (.infinity sign) := by
    have hbias : (2 : ℕ) ^ 11 ≤ (exponent + (1023 : ℕ) + (52 : ℕ)).toNat + 1 := by omega
    simp only [Float.Model.pack, UnpackedFloat.pack]
    congr 2
    exact if_pos hbias
  rw [hpack, unpack_pack_infinity]

theorem unpack_pack_of_canonical (sign : Sign) (pos : 0 < n) (h : Canonical n exponent)
    (greatest : exponent ≤ 971) :
    (Float.Model.pack (.finite sign n exponent pos)).unpack = .finite sign n exponent pos := by
  have hleast := h.least
  have hsmall := h.small
  have hbias : ¬ (2 : ℕ) ^ 11 ≤ (exponent + (1023 : ℕ) + (52 : ℕ)).toNat + 1 := by omega
  change UnpackedFloat.unpack .binary64 (if (2 : ℕ) ^ 11 ≤
      (exponent + (1023 : ℕ) + (52 : ℕ)).toNat + 1 then _ else
      if n.log2 + 1 = 53 then packComponents .binary64 sign
        (BitVec.ofNat 11 (exponent + (1023 : ℕ) + (52 : ℕ)).toNat) (BitVec.ofNat 52 n)
      else packComponents .binary64 sign 0#11 (BitVec.ofNat 52 n)) = _
  rw [if_neg hbias]
  by_cases hnormal : 2 ^ 52 ≤ n
  · have hlog : n.log2 + 1 = 53 := by
      have hlower := (Nat.le_log2 (Nat.ne_of_gt pos)).mpr hnormal
      have hupper := (Nat.log2_lt (Nat.ne_of_gt pos)).mpr hsmall
      omega
    rw [if_pos hlog, unpack_packComponents, BitVec.toNat_ofNat, BitVec.toNat_ofNat, ofParts,
      if_neg (by omega), if_neg (by omega)]
    congr 1
    · omega
    · omega
  · have hexponent : exponent = -1074 := h.normal.resolve_left hnormal
    have hlog : ¬ n.log2 + 1 = 53 := by
      have hupper := (Nat.log2_lt (Nat.ne_of_gt pos)).mpr (Nat.lt_of_not_le hnormal)
      omega
    have hfraction : n % 2 ^ 52 = n := Nat.mod_eq_of_lt (Nat.lt_of_not_le hnormal)
    rw [if_neg hlog, unpack_packComponents, BitVec.toNat_ofNat, BitVec.toNat_ofNat, hfraction,
      Nat.zero_mod, ofParts_zero sign pos, hexponent]

theorem canonical_of_unpack {x : Float.Model} {sign : Sign} {pos : 0 < n}
    (h : x.unpack = .finite sign n exponent pos) : Canonical n exponent ∧ exponent ≤ 971 := by
  have hstored := (@unpackExponent .binary64 x.toBits.toBitVec).isLt
  have hfraction := (@unpackMantissa .binary64 x.toBits.toBitVec).isLt
  rw [Float.Model.unpack, unpack_eq_ofParts] at h
  revert h
  generalize (@unpackExponent .binary64 x.toBits.toBitVec).toNat = stored at hstored ⊢
  generalize (@unpackMantissa .binary64 x.toBits.toBitVec).toNat = fraction at hfraction ⊢
  have hstored : stored < 2048 := hstored
  have hfraction : fraction < 2 ^ 52 := hfraction
  unfold ofParts
  split
  · split <;> rintro ⟨⟩
  · split
    · split
      · rintro ⟨⟩
      · rintro ⟨⟩
        exact ⟨⟨by omega, le_refl _, .inr rfl⟩, by omega⟩
    · rintro ⟨⟩
      exact ⟨⟨by omega, by omega, .inl (by omega)⟩, by omega⟩

/-! ## Readings -/

def reading : UnpackedFloat → Decimal.Reading
  | .notANumber => .nan
  | .infinity sign => .infinite (sign == .negative)
  | .zero sign => .finite ⟨sign == .negative, 0, -1074⟩
  | .finite sign n exponent _ => .finite ⟨sign == .negative, n, exponent⟩

theorem toNat_unpackExponent (bits : BitVec 64) :
    (@unpackExponent .binary64 bits).toNat = bits.toNat / 2 ^ 52 % 2048 := by
  simp [unpackExponent, Nat.shiftRight_eq_div_pow]

theorem toNat_unpackMantissa (bits : BitVec 64) :
    (@unpackMantissa .binary64 bits).toNat = bits.toNat % 2 ^ 52 := by
  simp [unpackMantissa]

theorem ofBitVec_unpackSign (bits : BitVec 64) :
    (Sign.ofBitVec (@unpackSign .binary64 bits) == .negative) =
      (bits.toNat / 2 ^ 63 % 2 == 1) := by
  have hsign : (@unpackSign .binary64 bits).toNat = bits.toNat / 2 ^ 63 % 2 := by
    simp [unpackSign, Nat.shiftRight_eq_div_pow]
  have hzero : @unpackSign .binary64 bits = 0#1 ↔ bits.toNat / 2 ^ 63 % 2 = 0 := by
    rw [← BitVec.toNat_inj, hsign]
    rfl
  rw [Sign.ofBitVec]
  split
  · rename_i hbit
    rw [hzero.mp hbit]
    rfl
  · rename_i hbit
    have hone : bits.toNat / 2 ^ 63 % 2 = 1 := by
      have hne := mt hzero.mpr hbit
      omega
    rw [hone]
    rfl

theorem ofFloat_eq_reading (x : Float) :
    Decimal.Reading.ofFloat x = reading x.toModel.unpack := by
  rw [Float.Model.unpack, unpack_eq_ofParts, toNat_unpackExponent, toNat_unpackMantissa]
  have hsign := ofBitVec_unpackSign x.toModel.toBits.toBitVec
  have hnormal : Decimal.Binary.normalBound = 2 ^ 52 := rfl
  have hplace : 2048 * 2 ^ 52 = 2 ^ 63 := rfl
  change Decimal.Reading.ofBits x.toModel.toBits.toBitVec.toNat = _
  unfold Decimal.Reading.ofBits ofParts
  simp only [hnormal, hplace, ← hsign]
  split
  · split <;> rfl
  · split
    · split
      · rename_i hfraction
        rw [hfraction]
        rfl
      · rfl
    · have hexponent (stored : ℤ) :
          Decimal.Binary.leastExponent + stored - 1 = stored - 1075 := by
        unfold Decimal.Binary.leastExponent
        omega
      rw [hexponent]
      rfl

end MotionNotation.Rounding
