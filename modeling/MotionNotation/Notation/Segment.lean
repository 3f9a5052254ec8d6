import MotionNotation.Notation.Groups
import MotionNotation.Notation.Reader
import MotionNotation.Plan

/-!
# Segments

One group of a notation after reading: its grid and the plan of its pipes.
-/

namespace MotionNotation

structure Segment (α : Type) where
  grid : Grid α
  plan : Plan α
  deriving DecidableEq, Repr

namespace Segment

variable {α : Type} [Scalar α]

def read (config : Config α) (target : Target α) (text : String) :
    Except CapacityExceeded (Segment α) :=
  match Grid.read config target text with
  | .ok grid => .ok ⟨grid, Plan.ofGrid config grid⟩
  | .error full => .error full

/-- Reads groups in order, up to the first that does not fit. -/
def readEach (config : Config α) (target : Target α) :
    List String → Except CapacityExceeded (List (Segment α))
  | [] => .ok []
  | text :: rest =>
    match read config target text with
    | .error full => .error full
    | .ok segment =>
      match readEach config target rest with
      | .error full => .error full
      | .ok segments => .ok (segment :: segments)

def readAll (config : Config α) (target : Target α) (text : String) :
    Except CapacityExceeded (List (Segment α)) :=
  readEach config target (Groups.ofText text)

theorem read_ok {config : Config α} {target : Target α} {text : String} {segment : Segment α}
    (h : read config target text = .ok segment) :
    ∃ grid, Grid.read config target text = .ok grid ∧
      segment = ⟨grid, Plan.ofGrid config grid⟩ := by
  unfold read at h
  split at h
  · rename_i grid hgrid
    cases h
    exact ⟨grid, hgrid, rfl⟩
  · cases h

theorem readEach_cons_ok {config : Config α} {target : Target α} {text : String}
    {rest : List String} {segments : List (Segment α)}
    (h : readEach config target (text :: rest) = .ok segments) :
    ∃ segment others, read config target text = .ok segment ∧
      readEach config target rest = .ok others ∧ segments = segment :: others := by
  simp only [readEach] at h
  split at h
  · cases h
  · rename_i segment hsegment
    split at h
    · cases h
    · rename_i others hothers
      cases h
      exact ⟨segment, others, hsegment, hothers, rfl⟩

end Segment

end MotionNotation
