import MotionNotation.Text.Blank

/-!
# Bracket groups

A notation with an opening bracket consists of groups that run at the same time.
Opening brackets are dropped, closing ones end a group, and blank groups do not
count.
-/

namespace MotionNotation.Groups

def pieces : List Char → List (List Char)
  | [] => [[]]
  | c :: rest =>
    if c = ']' then [] :: pieces rest
    else
      match pieces rest with
      | [] => [[c]]
      | piece :: others => (c :: piece) :: others

theorem pieces_ne_nil (text : List Char) : pieces text ≠ [] := by
  cases text with
  | nil => simp [pieces]
  | cons c rest =>
    simp only [pieces]
    split
    · simp
    · split <;> simp

theorem not_mem_of_mem_pieces {text piece : List Char} (h : piece ∈ pieces text) :
    ']' ∉ piece := by
  induction text generalizing piece with
  | nil => simp_all [pieces]
  | cons c rest ih =>
    simp only [pieces] at h
    split at h
    · rcases List.mem_cons.mp h with rfl | h
      · simp
      · exact ih h
    · rename_i hc
      split at h
      · simp only [List.mem_singleton] at h
        subst h
        simp [Ne.symm hc]
      · rename_i first others heq
        rcases List.mem_cons.mp h with rfl | h
        · have : ']' ∉ first := ih (by simp [heq])
          simp [Ne.symm hc, this]
        · exact ih (by simp [heq, h])

theorem intercalate_pieces (text : List Char) : [']'].intercalate (pieces text) = text := by
  induction text with
  | nil => rfl
  | cons c rest ih =>
    by_cases hc : c = ']'
    · subst hc
      cases h : pieces rest with
      | nil => exact absurd h (pieces_ne_nil rest)
      | cons piece others => simp_all [pieces, List.intercalate]
    · cases h : pieces rest with
      | nil => exact absurd h (pieces_ne_nil rest)
      | cons piece others =>
        rw [h] at ih
        cases others <;> simp_all [pieces, List.intercalate]

def bracketed (text : List Char) : Bool :=
  text.contains '['

def split (text : List Char) : List (List Char) :=
  if bracketed text then
    (pieces (text.filter fun c => c != '[')).filter fun piece => !Text.allBlank piece
  else [text]

def ofText (text : String) : List String :=
  (split text.toList).map String.ofList

end MotionNotation.Groups
