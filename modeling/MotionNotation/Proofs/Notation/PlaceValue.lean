import Mathlib.Tactic.FieldSimp
import Mathlib.Tactic.Ring
import MotionNotation.Proofs.Notation.Grammar

/-!
# Place value

What a literal is worth.  Among rationals the digits before the point add up to
the natural that they spell, and the digits behind it to the natural that they
spell over a power of ten.  A byte of a text that is not ASCII is passed over as
its character is, so that the same number is read from the bytes.
-/

namespace MotionNotation

/-! ## Digits that are added up -/

namespace Grammar

theorem foldl_tenfold (digits : List Char) (n : Nat) :
    digits.foldl tenfold (n : Rat) = (Nat.ofDigitChars 10 digits n : Nat) := by
  induction digits generalizing n with
  | nil => rfl
  | cons c rest ih =>
      have hstep : tenfold (n : Rat) c = (10 * n + Tally.digitValue c : Nat) := by
        simp only [tenfold, Scalar.ofNat, Nat.cast_add, Nat.cast_mul]
        rw [mul_comm]
        rfl
      rw [List.foldl_cons, hstep, ih, Nat.ofDigitChars_cons]
      rfl

theorem foldl_fractional (digits : List Char) (value : Rat) {weight : Rat} (h : weight ≠ 0) :
    (digits.foldl fractional (value, weight)).1 =
      value + 10 * Nat.ofDigitChars 10 digits 0 / (weight * 10 ^ digits.length) := by
  induction digits generalizing value weight with
  | nil => simp [Nat.ofDigitChars_nil]
  | cons c rest ih =>
      have hstep : fractional (value, weight) c =
          (value + (Tally.digitValue c : Nat) / weight, weight * 10) := rfl
      have hspelled : Nat.ofDigitChars 10 (c :: rest) 0 =
          10 ^ rest.length * Tally.digitValue c + Nat.ofDigitChars 10 rest 0 := by
        rw [Nat.ofDigitChars_cons, Nat.ofDigitChars_eq_ofDigitChars_zero]
        simp [Tally.digitValue]
      rw [List.foldl_cons, hstep, ih _ (mul_ne_zero h (by norm_num)), hspelled, List.length_cons]
      push_cast
      field_simp
      ring

end Grammar

namespace Literal

/-- The number that the characters of a literal spell behind its sign.  The
first point parts the digits; what is no digit is left out. -/
def decimal (range : List Char) : Rat :=
  let whole := (range.takeWhile (· != '.')).filter Char.isDigit
  let fraction := (range.dropWhile (· != '.')).filter Char.isDigit
  Nat.ofDigitChars 10 whole 0 + Nat.ofDigitChars 10 fraction 0 / 10 ^ fraction.length

theorem magnitude_eq_decimal (range : List Char) :
    (Grammar.magnitude range : Rat) = decimal range := by
  rw [Grammar.magnitude, decimal, Grammar.foldl_fractional _ _ (by norm_num)]
  have hwhole := Grammar.foldl_tenfold ((range.takeWhile (· != '.')).filter Char.isDigit) 0
  rw [Nat.cast_zero] at hwhole
  rw [← hwhole, mul_div_mul_left _ _ (by norm_num)]

def isSign (c : Char) : Bool :=
  c == '-' || c == '+'

def leading (c : Char) : Rat :=
  if c = '-' then -1 else 1

def unsigned : List Char → List Char
  | [] => []
  | c :: rest => if isSign c then rest else c :: rest

theorem readNumber_cons {α : Type} [Scalar α] (c : Char) (rest : List Char) :
    (readNumber (c :: rest) : α × List Char) =
      (if c = '-' then -(Tally.start.read (unsigned (c :: rest))).1.value
        else (Tally.start.read (unsigned (c :: rest))).1.value,
        (Tally.start.read (unsigned (c :: rest)) : Tally α × List Char).2) := by
  by_cases hminus : c = '-'
  · subst hminus
    rfl
  · by_cases hplus : c = '+'
    · subst hplus
      rfl
    · simp [readNumber, unsigned, isSign, hminus, hplus]

theorem readNumber_rat (c : Char) (rest : List Char) :
    (readNumber (c :: rest) : Rat × List Char) =
      (leading c * decimal ((unsigned (c :: rest)).takeWhile fun c => !Mark.isMark c),
        (unsigned (c :: rest)).dropWhile fun c => !Mark.isMark c) := by
  rw [readNumber_cons, Tally.read_rest, Tally.read_tally, Tally.foldl_feed_start,
    magnitude_eq_decimal, leading]
  split <;> ring_nf

end Literal

/-! ## Bytes -/

namespace Text

theorem bytes_ofList_nil : bytes (String.ofList []) = [] := by
  rw [bytes_eq, String.toList_ofList]
  rfl

theorem bytes_ofList_cons (c : Char) (rest : List Char) :
    bytes (String.ofList (c :: rest)) =
      (String.utf8EncodeChar c).map (fun byte => Char.ofNat byte.toNat) ++
        bytes (String.ofList rest) := by
  simp only [bytes_eq, String.toList_ofList, List.flatMap_cons]

theorem bytes_ofList_of_lt {c : Char} (h : c.toNat < 128) (rest : List Char) :
    bytes (String.ofList (c :: rest)) = c :: bytes (String.ofList rest) := by
  have hbyte : (UInt8.ofNat c.toNat).toNat = c.toNat := by
    rw [UInt8.toNat_ofNat']
    omega
  rw [bytes_ofList_cons, utf8EncodeChar_of_lt h, List.map_singleton, hbyte, Char.ofNat_toNat]
  rfl

theorem dropWhile_bytes (text : List Char) :
    (bytes (String.ofList text)).dropWhile (fun c => !Mark.isMark c) =
      bytes (String.ofList (text.dropWhile fun c => !Mark.isMark c)) := by
  have hascii : ∀ c, Mark.isMark c = true → c.toNat < 128 :=
    fun c h => Mark.counts_lt (by simp [Mark.counts, h])
  induction text with
  | nil =>
      rw [List.dropWhile_nil, bytes_ofList_nil]
      rfl
  | cons c rest ih =>
      by_cases hc : c.toNat < 128
      · rw [bytes_ofList_of_lt hc]
        by_cases hmark : Mark.isMark c = true
        · rw [List.dropWhile_cons_of_neg (by simp [hmark]),
            List.dropWhile_cons_of_neg (by simp [hmark]), bytes_ofList_of_lt hc]
        · rw [List.dropWhile_cons_of_pos (by simp [hmark]),
            List.dropWhile_cons_of_pos (by simp [hmark]), ih]
      · have hmark : Mark.isMark c ≠ true := fun h => hc (hascii c h)
        rw [List.dropWhile_cons_of_pos (by simp [hmark]), ← ih, bytes_ofList_cons]
        apply List.dropWhile_append_of_pos
        intro found hfound
        obtain ⟨byte, hbyte, rfl⟩ := List.mem_map.mp hfound
        have hhigh := le_toNat_of_mem_utf8EncodeChar (Nat.le_of_not_lt hc) byte hbyte
        have hleft : Mark.isMark (Char.ofNat byte.toNat) ≠ true := by
          intro hfound
          have hlow := hascii _ hfound
          rw [toNat_ofNat_byte] at hlow
          omega
        simpa using hleft

end Text

namespace Literal

theorem readNumber_bytes {α : Type} [Scalar α] {c : Char} (number : Mark.isNumberChar c = true)
    (rest : List Char) :
    (readNumber (Text.bytes (String.ofList (c :: rest))) : α × List Char) =
      ((readNumber (c :: rest) : α × List Char).1,
        Text.bytes (String.ofList (readNumber (c :: rest) : α × List Char).2)) := by
  have hascii : c.toNat < 128 := Mark.counts_lt (by simp [Mark.counts, number])
  have hunsigned : unsigned (c :: Text.bytes (String.ofList rest)) =
      Text.bytes (String.ofList (unsigned (c :: rest))) := by
    simp only [unsigned]
    split
    · rfl
    · rw [Text.bytes_ofList_of_lt hascii]
  have hvalue : ∀ text : List Char,
      ((Tally.start : Tally α).read (Text.bytes (String.ofList text))).1 =
        ((Tally.start : Tally α).read text).1 := by
    intro text
    rw [Tally.read_value, Tally.read_value, Text.filter_bytes (fun _ => Mark.counts_lt),
      String.toList_ofList]
  rw [Text.bytes_ofList_of_lt hascii, readNumber_cons, readNumber_cons, hunsigned, hvalue,
    Tally.read_rest, Tally.read_rest, Text.dropWhile_bytes]

/-- A number that begins at an index of a text, or of a row of bytes with a character
for each, reaches to the first mark behind its sign, or to the end.  It is its sign
times what its characters spell.  Among the bytes of a text it is the same number, up
to the same mark. -/
theorem readNumber_decimal {text : List Char} {index : Nat} {c : Char}
    (begins : text[index]? = some c) (number : Mark.isNumberChar c = true) :
    let first := if isSign c then index + 1 else index
    let stop := first + (text.drop first).findIdx Mark.isMark
    let read : Rat × List Char := readNumber (text.drop index)
    read = (leading c * decimal (text.extract first stop), text.drop stop) ∧
      readNumber (Text.bytes (String.ofList (text.drop index))) =
        (read.1, Text.bytes (String.ofList (text.drop stop))) := by
  intro first stop read
  obtain ⟨hlength, rfl⟩ := List.getElem?_eq_some_iff.mp begins
  have hdrop : text.drop index = text[index] :: text.drop (index + 1) :=
    List.drop_eq_getElem_cons hlength
  have hunsigned : unsigned (text.drop index) = text.drop first := by
    rw [hdrop, unsigned]
    split <;> simp_all [first]
  have hread : read = (leading text[index] * decimal (text.extract first stop),
      text.drop stop) := by
    have hrange : (text.drop first).takeWhile (fun c => !Mark.isMark c) =
        text.extract first stop := by
      rw [List.takeWhile_eq_take_findIdx_not, List.extract_eq_take_drop]
      simp only [stop, Bool.not_not, Nat.add_sub_cancel_left]
    have hleft : (text.drop first).dropWhile (fun c => !Mark.isMark c) = text.drop stop := by
      rw [List.dropWhile_eq_drop_findIdx_not, List.drop_drop]
      simp only [stop, Bool.not_not]
    rw [← hrange, ← hleft, ← hunsigned, hdrop]
    simp only [read, hdrop]
    exact readNumber_rat text[index] (text.drop (index + 1))
  refine ⟨hread, ?_⟩
  have hbytes := readNumber_bytes (α := Rat) number (text.drop (index + 1))
  rw [← hdrop] at hbytes
  rw [hbytes]
  exact congrArg _ (congrArg _ (congrArg _ (congrArg Prod.snd hread)))

/-- A sign, a letter that is no mark, a second sign, a character that is not ASCII
and a second point. -/
theorem readNumber_decimal_of_junk :
    let text := "x -1q2.3+é4.5e7".toList
    text[2]? = some '-' ∧ Mark.isNumberChar '-' = true ∧
      (readNumber (text.drop 2) : Rat × List Char) = (-12345 / 1000, "e7".toList) ∧
      (readNumber (Text.bytes (String.ofList (text.drop 2))) : Rat × List Char) =
        (-12345 / 1000, Text.bytes "e7") := by
  intro text
  have hbegins : text[2]? = some '-' := by decide
  have hnumber : Mark.isNumberChar '-' = true := by decide
  obtain ⟨hread, hbytes⟩ := readNumber_decimal hbegins hnumber
  have hfound : (text.drop 3).findIdx Mark.isMark = 10 := by decide +kernel
  have hvalue : leading '-' * decimal (text.extract 3 13) = -12345 / 1000 := by decide +kernel
  simp only [isSign, beq_self_eq_true, Bool.true_or, if_true] at hread hbytes
  rw [hfound, hvalue] at hread
  rw [hfound, hread] at hbytes
  exact ⟨hbegins, hnumber, hread, hbytes⟩

end Literal

end MotionNotation
