import MotionNotation.Stage.Identifier
import MotionNotation.Target

/-!
# Rosters

The targets of a stage by their identifiers.
-/

namespace MotionNotation

structure Roster (α : Type) where
  entries : List (TargetId × Target α)
  deriving DecidableEq, Repr

namespace Roster

variable {α : Type}

def empty : Roster α :=
  ⟨[]⟩

def get? (roster : Roster α) (id : TargetId) : Option (Target α) :=
  (roster.entries.find? fun entry => entry.1 == id).map Prod.snd

def put (id : TargetId) (target : Target α) :
    List (TargetId × Target α) → List (TargetId × Target α)
  | [] => [(id, target)]
  | entry :: rest => if entry.1 == id then (id, target) :: rest else entry :: put id target rest

def insert (roster : Roster α) (id : TargetId) (target : Target α) : Roster α :=
  ⟨put id target roster.entries⟩

def erase (roster : Roster α) (id : TargetId) : Roster α :=
  ⟨roster.entries.filter fun entry => entry.1 != id⟩

@[simp] theorem get?_empty (id : TargetId) : (empty : Roster α).get? id = none := rfl

@[simp] theorem get?_insert (roster : Roster α) (id other : TargetId) (target : Target α) :
    (roster.insert id target).get? other = if other = id then some target else roster.get? other := by
  obtain ⟨entries⟩ := roster
  simp only [get?, insert]
  induction entries with
  | nil => by_cases h : other = id <;> simp [put, h, Ne.symm]
  | cons entry rest ih =>
    by_cases he : entry.1 = id
    · by_cases h : other = id
      · simp [put, he, h]
      · have : ¬ id = other := fun e => h e.symm
        simp [put, he, h, this]
    · by_cases hf : entry.1 = other
      · have : ¬ other = id := fun e => he (hf.trans e)
        simp [put, hf, this]
      · simpa [put, he, hf] using ih

@[simp] theorem get?_erase (roster : Roster α) (id other : TargetId) :
    (roster.erase id).get? other = if other = id then none else roster.get? other := by
  obtain ⟨entries⟩ := roster
  simp only [get?, erase]
  induction entries with
  | nil => simp
  | cons entry rest ih =>
    by_cases he : entry.1 = id
    · by_cases h : other = id
      · simp [h]
      · have : ¬ id = other := fun e => h e.symm
        simpa [he, h, this] using ih
    · by_cases hf : entry.1 = other
      · have : ¬ other = id := fun e => he (hf.trans e)
        simp [hf, this]
      · simpa [he, hf] using ih

end Roster

end MotionNotation
