import MotionNotation.Proofs.Notation.Brackets

/-!
# Splitting at brackets

Splitting takes back what bracketing has done.  The groups of a text with an
opening bracket are what stands between its closing brackets, less what is
blank; where the opening brackets stand, and how many there are, has no part in it.
-/

namespace MotionNotation.Groups

/-! ## Cutting at closing brackets -/

structure Cut (text : List Char) (parts : List (List Char)) : Prop where
  nonempty : parts ≠ []
  closed : ∀ part ∈ parts, ']' ∉ part
  joined : [']'].intercalate parts = text

theorem pieces_of_notMem {text : List Char} (h : ']' ∉ text) : pieces text = [text] := by
  induction text with
  | nil => rfl
  | cons c rest ih =>
      rw [List.mem_cons, not_or] at h
      rw [pieces, if_neg (Ne.symm h.1), ih h.2]

theorem pieces_intercalate {parts : List (List Char)} (nonempty : parts ≠ [])
    (closed : ∀ part ∈ parts, ']' ∉ part) : pieces ([']'].intercalate parts) = parts := by
  induction parts with
  | nil => exact absurd rfl nonempty
  | cons part rest ih =>
      have hpart := closed part List.mem_cons_self
      cases rest with
      | nil => simpa [List.intercalate] using pieces_of_notMem hpart
      | cons next others =>
          have hrest := ih (List.cons_ne_nil next others) fun other hmem =>
            closed other (List.mem_cons_of_mem part hmem)
          rw [List.intercalate_cons_cons, List.append_assoc, List.singleton_append,
            pieces_append hpart, hrest]

theorem cut_iff {text : List Char} {parts : List (List Char)} :
    Cut text parts ↔ parts = pieces text := by
  constructor
  · rintro ⟨nonempty, closed, rfl⟩
    exact (pieces_intercalate nonempty closed).symm
  · rintro rfl
    exact ⟨pieces_ne_nil text, fun part hmem => not_mem_of_mem_pieces hmem,
      intercalate_pieces text⟩

theorem flatten_pieces (text : List Char) :
    (pieces text).flatten = text.filter fun c => c != ']' := by
  induction text with
  | nil => rfl
  | cons c rest ih =>
      by_cases hc : c = ']'
      · simp [pieces, hc, ih]
      · cases h : pieces rest with
        | nil => exact absurd h (pieces_ne_nil rest)
        | cons piece others =>
            rw [h] at ih
            simp [pieces, hc, h, ← ih]

theorem mem_of_mem_pieces {text piece : List Char} (h : piece ∈ pieces text) {c : Char}
    (hc : c ∈ piece) : c ∈ text := by
  have hflat : c ∈ (pieces text).flatten := List.mem_flatten_of_mem h hc
  rw [flatten_pieces] at hflat
  exact (List.mem_filter.mp hflat).1

theorem filter_flatten_worded (parts : List (List Char)) :
    (parts.filter fun part => !Text.allBlank part).flatten.filter (fun c => !Text.isBlank c) =
      parts.flatten.filter fun c => !Text.isBlank c := by
  induction parts with
  | nil => rfl
  | cons part rest ih =>
      cases hblank : Text.allBlank part with
      | false => simp [hblank, ih]
      | true =>
          have hnone : part.filter (fun c => !Text.isBlank c) = [] := by
            simpa [Text.allBlank] using hblank
          simp [hblank, hnone, ih]

/-! ## Opening brackets -/

inductive Opened : List Char → List Char → Prop
  | none : Opened [] []
  | keep (c : Char) {text other : List Char} (rest : Opened text other) :
      Opened (c :: text) (c :: other)
  | opening {text other : List Char} (rest : Opened text other) : Opened text ('[' :: other)

namespace Opened

variable {text other : List Char}

theorem filter_eq (h : Opened text other) :
    other.filter (fun c => c != '[') = text.filter fun c => c != '[' := by
  induction h with
  | none => rfl
  | keep c rest ih => rw [List.filter_cons, List.filter_cons, ih]
  | opening rest ih => rw [List.filter_cons_of_neg (by decide), ih]

theorem mem (h : Opened text other) {c : Char} (hc : c ∈ text) : c ∈ other := by
  induction h with
  | none => exact hc
  | keep first rest ih =>
      rcases List.mem_cons.mp hc with rfl | hc
      · exact List.mem_cons_self
      · exact List.mem_cons_of_mem first (ih hc)
  | opening rest ih => exact List.mem_cons_of_mem _ (ih hc)

end Opened

/-! ## The groups of a text -/

theorem toList_ofText {text : String} (h : '[' ∈ text.toList) :
    (ofText text).map String.toList =
      (pieces (text.toList.filter fun c => c != '[')).filter fun part => !Text.allBlank part := by
  rw [ofText, split, if_pos (bracketed_iff.mpr h), List.map_map]
  simp [Function.comp_def]

theorem ofText_of_opened {text other : String} (h : '[' ∈ text.toList)
    (opened : Opened text.toList other.toList) : ofText other = ofText text := by
  rw [ofText, ofText, split, split, if_pos (bracketed_iff.mpr h),
    if_pos (bracketed_iff.mpr (opened.mem h)), opened.filter_eq]

structure Parted (text : String) (groups : List String) : Prop where
  parts : ∃ parts, Cut (text.toList.filter fun c => c != '[') parts ∧
    groups.map String.toList = parts.filter fun part => !Text.allBlank part
  worded : ∀ group ∈ groups, Text.allBlank group.toList = false
  bare : ∀ group ∈ groups, '[' ∉ group.toList ∧ ']' ∉ group.toList
  kept : (groups.flatMap String.toList).filter (fun c => !Text.isBlank c) =
    text.toList.filter fun c => c != '[' && c != ']' && !Text.isBlank c
  opened : ∀ other : String, Opened text.toList other.toList → ofText other = groups

theorem parted_ofText {text : String} (h : '[' ∈ text.toList) : Parted text (ofText text) := by
  have hgroups := toList_ofText h
  have hpiece : ∀ group ∈ ofText text, Text.allBlank group.toList = false ∧
      group.toList ∈ pieces (text.toList.filter fun c => c != '[') := by
    intro group hmem
    have hfound := List.mem_map_of_mem (f := String.toList) hmem
    rw [hgroups, List.mem_filter, Bool.not_eq_true'] at hfound
    exact ⟨hfound.2, hfound.1⟩
  refine ⟨⟨_, cut_iff.mpr rfl, hgroups⟩, fun group hmem => (hpiece group hmem).1, ?_, ?_, ?_⟩
  · intro group hmem
    refine ⟨fun hopening => ?_, not_mem_of_mem_pieces (hpiece group hmem).2⟩
    have hkept := mem_of_mem_pieces (hpiece group hmem).2 hopening
    simp at hkept
  · rw [List.flatMap_def, hgroups, filter_flatten_worded, flatten_pieces, List.filter_filter,
      List.filter_filter]
    congr 1
    funext c
    simp [Bool.and_comm, Bool.and_assoc]
  · exact fun other opened => ofText_of_opened h opened

theorem exists_mem_ofText_iff (text : String) {c : Char} (worded : Text.isBlank c = false)
    (opening : c ≠ '[') (closing : c ≠ ']') :
    (∃ group ∈ ofText text, c ∈ group.toList) ↔ c ∈ text.toList := by
  by_cases h : '[' ∈ text.toList
  · have hkept := congrArg (fun kept => c ∈ kept) (parted_ofText h).kept
    simpa [worded, opening, closing] using hkept
  · rw [ofText_of_notMem h]
    simp

/-- Splitting undoes bracketing, and what it does to any other text. -/
theorem ofText_parts (text : String) (texts : List String) :
    (texts ≠ [] → (∀ part ∈ texts, '[' ∉ part.toList ∧ ']' ∉ part.toList) →
      ofText (bracket texts) = texts.filter fun part => !Text.allBlank part.toList) ∧
    ('[' ∈ text.toList → Parted text (ofText text)) ∧
    ('[' ∉ text.toList → ofText text = [text]) := by
  refine ⟨fun hne bare => ?_, parted_ofText, ofText_of_notMem⟩
  exact ofText_bracket_eq_filter hne (fun part hmem => (bare part hmem).1)
    fun part hmem => (bare part hmem).2

theorem ofText_parts_of_nested :
    ofText (bracket ["x1", " ", "", "y2 "]) = ["x1", "y2 "] ∧
      Parted "x1]] [[y2]" (ofText "x1]] [[y2]") ∧
      ofText "x1]] [[y2]" = ["x1", " y2"] ∧
      ofText "x1]y2" = ["x1]y2"] := by
  obtain ⟨hbracket, hparted, -⟩ := ofText_parts "x1]] [[y2]" ["x1", " ", "", "y2 "]
  obtain ⟨-, -, hplain⟩ := ofText_parts "x1]y2" []
  exact ⟨hbracket (by decide) (by decide), hparted (by decide), by decide, hplain (by decide)⟩

end MotionNotation.Groups
