import MotionNotation.Notation.Mark

/-!
# Notations as bytes

A notation is scanned byte by byte.  Marks and number characters are ASCII, and
the bytes of any other character are not, so that scanning the bytes and
scanning the characters find the same.
-/

namespace MotionNotation

namespace Text

/-- The bytes of a text, each as the character with this code. -/
def bytes (text : String) : List Char :=
  text.toUTF8.data.toList.map fun byte => Char.ofNat byte.toNat

theorem bytes_eq (text : String) :
    bytes text = text.toList.flatMap fun c =>
      (String.utf8EncodeChar c).map fun byte => Char.ofNat byte.toNat := by
  rw [bytes, String.toUTF8_eq_toByteArray, ← String.utf8Encode_toList, List.utf8Encode,
    List.toList_data_toByteArray, List.map_flatMap]

theorem utf8EncodeChar_of_lt {c : Char} (h : c.toNat < 128) :
    String.utf8EncodeChar c = [UInt8.ofNat c.toNat] := by
  have hval : c.val.toNat ≤ 127 := Nat.le_of_lt_succ h
  simp only [String.utf8EncodeChar, hval, if_true]
  rfl

theorem le_toNat_of_mem_utf8EncodeChar {c : Char} (h : 128 ≤ c.toNat) :
    ∀ byte ∈ String.utf8EncodeChar c, 128 ≤ byte.toNat := by
  have hval : ¬ c.val.toNat ≤ 127 := Nat.not_le_of_lt h
  simp only [String.utf8EncodeChar, hval, if_false]
  split
  · simp
    omega
  · split
    · simp
      omega
    · simp
      omega

theorem toNat_ofNat_byte (byte : UInt8) : (Char.ofNat byte.toNat).toNat = byte.toNat := by
  have hvalid : byte.toNat.isValidChar := by
    left
    have := byte.toNat_lt
    omega
  rw [Char.ofNat, dif_pos hvalid]
  rfl

theorem filter_bytes {keep : Char → Bool} (h : ∀ c, keep c = true → c.toNat < 128)
    (text : String) : (bytes text).filter keep = text.toList.filter keep := by
  rw [bytes_eq]
  induction text.toList with
  | nil => rfl
  | cons c rest ih =>
      rw [List.flatMap_cons, List.filter_append, ih, ← List.singleton_append, List.filter_append]
      congr 1
      by_cases hc : c.toNat < 128
      · have hbyte : (UInt8.ofNat c.toNat).toNat = c.toNat := by
          rw [UInt8.toNat_ofNat']
          omega
        rw [utf8EncodeChar_of_lt hc, List.map_singleton, hbyte, Char.ofNat_toNat]
      · have hleft : keep c = false := by
          rw [← Bool.not_eq_true]
          exact fun hkeep => hc (h c hkeep)
        rw [List.filter_cons_of_neg (by simp [hleft]), List.filter_nil,
          List.filter_eq_nil_iff]
        intro found hmem hkeep
        obtain ⟨byte, hbyte, rfl⟩ := List.mem_map.mp hmem
        have hlow := h _ hkeep
        have hhigh := le_toNat_of_mem_utf8EncodeChar (Nat.le_of_not_lt hc) byte hbyte
        rw [toNat_ofNat_byte] at hlow
        omega

end Text

namespace Mark

def symbol : Mark → Char
  | invert => '!'
  | nextPipe => '|'
  | pause => ','
  | ease => 'e'
  | act operator => operator.symbol

theorem symbol_of_ofChar? {c : Char} {mark : Mark} (h : ofChar? c = some mark) :
    mark.symbol = c := by
  unfold ofChar? at h
  split at h
  · rename_i hc
    cases h
    exact hc.symm
  split at h
  · rename_i hc
    cases h
    exact hc.symm
  split at h
  · rename_i hc
    cases h
    exact hc.symm
  split at h
  · rename_i hc
    cases h
    exact hc.symm
  · obtain ⟨operator, hoperator, rfl⟩ := Option.map_eq_some_iff.mp h
    exact Operator.symbol_of_ofSymbol? hoperator

theorem symbol_lt (mark : Mark) : mark.symbol.toNat < 128 := by
  cases mark with
  | act operator =>
      cases operator with
      | position axis => cases axis <;> decide
      | move heading => cases heading <;> decide
      | rotate axis => cases axis <;> decide
      | loop mode => cases mode <;> decide
      | _ => decide
  | _ => decide

def counts (c : Char) : Bool :=
  isMark c || isNumberChar c

theorem counts_lt {c : Char} (h : counts c = true) : c.toNat < 128 := by
  rcases Bool.or_eq_true_iff.mp h with h | h
  · obtain ⟨mark, hmark⟩ := Option.isSome_iff_exists.mp h
    rw [← symbol_of_ofChar? hmark]
    exact mark.symbol_lt
  · simp only [isNumberChar, Char.isDigit, Bool.or_eq_true, Bool.and_eq_true, decide_eq_true_eq,
      beq_iff_eq] at h
    rcases h with ((h | rfl) | rfl) | rfl
    · have hdigit : c.toNat ≤ 57 := h.2
      omega
    · decide
    · decide
    · decide

def letters (text : String) : List Char :=
  (Text.bytes text).filter counts

theorem letters_eq (text : String) : letters text = text.toList.filter counts :=
  Text.filter_bytes (fun _ => counts_lt) text

end Mark

end MotionNotation
