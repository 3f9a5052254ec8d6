import MotionNotation.Notation.Segment

/-!
# Texts in brackets

Texts without brackets of their own, none of them blank, are the groups of the
notation that has each of them in brackets, and each is the only group of
itself.
-/

namespace MotionNotation

namespace Groups

def bracket (texts : List String) : String :=
  String.join (texts.map fun text => "[" ++ text ++ "]")

structure Bare (text : String) : Prop where
  opening : '[' ∉ text.toList
  closing : ']' ∉ text.toList
  worded : Text.allBlank text.toList = false

instance (text : String) : Decidable (Bare text) :=
  decidable_of_iff
    ('[' ∉ text.toList ∧ ']' ∉ text.toList ∧ Text.allBlank text.toList = false)
    ⟨fun h => ⟨h.1, h.2.1, h.2.2⟩, fun h => ⟨h.opening, h.closing, h.worded⟩⟩

theorem toList_bracket (texts : List String) :
    (bracket texts).toList = texts.flatMap fun text => '[' :: (text.toList ++ [']']) := by
  rw [bracket, String.toList_join, List.flatMap_map]
  simp

theorem filter_of_notMem {text : List Char} (opening : '[' ∉ text) :
    text.filter (fun c => c != '[') = text := by
  rw [List.filter_eq_self]
  intro c hc
  rw [bne_iff_ne]
  exact fun h => opening (h ▸ hc)

theorem filter_bracket {texts : List String} (opening : ∀ text ∈ texts, '[' ∉ text.toList) :
    (bracket texts).toList.filter (fun c => c != '[') =
      texts.flatMap fun text => text.toList ++ [']'] := by
  rw [toList_bracket]
  induction texts with
  | nil => rfl
  | cons text rest ih =>
      have hfirst := filter_of_notMem (opening text List.mem_cons_self)
      have hrest := ih fun other hmem => opening other (List.mem_cons_of_mem text hmem)
      simp [hfirst, hrest]

theorem pieces_append {text : List Char} (h : ']' ∉ text) (rest : List Char) :
    pieces (text ++ ']' :: rest) = text :: pieces rest := by
  induction text with
  | nil => simp [pieces]
  | cons c text ih =>
      rw [List.mem_cons, not_or] at h
      rw [List.cons_append, pieces, if_neg (Ne.symm h.1), ih h.2]

theorem pieces_flatMap {texts : List String} (closing : ∀ text ∈ texts, ']' ∉ text.toList) :
    pieces (texts.flatMap fun text => text.toList ++ [']']) =
      texts.map String.toList ++ [[]] := by
  induction texts with
  | nil => rfl
  | cons text rest ih =>
      have hrest := ih fun other hmem => closing other (List.mem_cons_of_mem text hmem)
      rw [List.flatMap_cons, List.append_assoc, List.singleton_append,
        pieces_append (closing text List.mem_cons_self), hrest, List.map_cons, List.cons_append]

theorem bracketed_iff {text : List Char} : bracketed text = true ↔ '[' ∈ text := by
  rw [bracketed, List.contains_iff_mem]

theorem ofText_bracket_eq_filter {texts : List String} (hne : texts ≠ [])
    (opening : ∀ text ∈ texts, '[' ∉ text.toList) (closing : ∀ text ∈ texts, ']' ∉ text.toList) :
    ofText (bracket texts) = texts.filter fun text => !Text.allBlank text.toList := by
  have hbracketed : bracketed (bracket texts).toList = true := by
    obtain ⟨text, hmem⟩ := List.exists_mem_of_ne_nil texts hne
    rw [bracketed_iff, toList_bracket, List.mem_flatMap]
    exact ⟨text, hmem, List.mem_cons_self⟩
  have hlast : ([[]] : List (List Char)).filter (fun piece => !Text.allBlank piece) = [] := rfl
  rw [ofText, split, if_pos hbracketed, filter_bracket opening, pieces_flatMap closing,
    List.filter_append, hlast, List.append_nil, List.filter_map, List.map_map]
  simp [Function.comp_def]

theorem ofText_bracket {texts : List String} (hne : texts ≠ [])
    (bare : ∀ text ∈ texts, Bare text) : ofText (bracket texts) = texts := by
  rw [ofText_bracket_eq_filter hne (fun text hmem => (bare text hmem).opening)
    fun text hmem => (bare text hmem).closing, List.filter_eq_self]
  intro text hmem
  rw [(bare text hmem).worded, Bool.not_false]

theorem ofText_of_notMem {text : String} (h : '[' ∉ text.toList) : ofText text = [text] := by
  have hbracketed : bracketed text.toList = false := by
    simpa [bracketed] using h
  simp [ofText, split, hbracketed]

theorem ofText_of_bare {text : String} (bare : Bare text) : ofText text = [text] :=
  ofText_of_notMem bare.opening

end Groups

namespace Segment

variable {α : Type} [Scalar α] {config : Config α} {target : Target α}

theorem readEach_ok {found : String → Segment α} {texts : List String}
    (h : ∀ text ∈ texts, read config target text = .ok (found text)) :
    readEach config target texts = .ok (texts.map found) := by
  induction texts with
  | nil => rfl
  | cons text rest ih =>
      have hfirst := h text List.mem_cons_self
      have hrest := ih fun other hmem => h other (List.mem_cons_of_mem text hmem)
      simp only [readEach, hfirst, hrest, List.map_cons]

theorem readAll_bracket {found : String → Segment α} {texts : List String} (hne : texts ≠ [])
    (bare : ∀ text ∈ texts, Groups.Bare text)
    (h : ∀ text ∈ texts, read config target text = .ok (found text)) :
    readAll config target (Groups.bracket texts) = .ok (texts.map found) := by
  rw [readAll, Groups.ofText_bracket hne bare, readEach_ok h]

theorem readAll_of_bare {text : String} (bare : Groups.Bare text) {segment : Segment α}
    (h : read config target text = .ok segment) :
    readAll config target text = .ok [segment] := by
  rw [readAll, Groups.ofText_of_bare bare, readEach, h]
  rfl

end Segment

end MotionNotation
