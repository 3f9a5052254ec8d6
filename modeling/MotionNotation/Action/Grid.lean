import MotionNotation.Action.Basic

/-!
# Grids

The actions of a notation, pipe by pipe.  A grid is bounded: `push` refuses an
action beyond the last pipe, or beyond the last place of its pipe.
-/

namespace MotionNotation

structure CapacityExceeded where
  pipe : Nat
  action : Nat
  maxPipes : Nat
  maxActions : Nat
  deriving DecidableEq, Repr

namespace CapacityExceeded

def message (error : CapacityExceeded) : String :=
  "notation exceeds grid capacity at pipe " ++ error.pipe.repr ++ ", action " ++
    error.action.repr ++ " (limit " ++ error.maxPipes.repr ++ " pipes x " ++
    error.maxActions.repr ++ " actions)"

end CapacityExceeded

structure Grid (α : Type) where
  pipes : List (List (Action α))
  maxPipes : Nat
  maxActions : Nat
  deriving DecidableEq, Repr

namespace Grid

variable {α : Type}

/-- Appends to the list at a place, with empty lists before it where there are
none. -/
def appendAt {β : Type} : List (List β) → Nat → β → List (List β)
  | [], 0, item => [[item]]
  | [], place + 1, item => [] :: appendAt [] place item
  | first :: rest, 0, item => (first ++ [item]) :: rest
  | first :: rest, place + 1, item => first :: appendAt rest place item

theorem getElem?_getD_appendAt {β : Type} (lists : List (List β)) (place other : Nat) (item : β) :
    (appendAt lists place item)[other]?.getD [] =
      if other = place then lists[place]?.getD [] ++ [item] else lists[other]?.getD [] := by
  induction lists, place, item using appendAt.induct generalizing other with
  | case1 item => cases other <;> simp [appendAt]
  | case2 place item ih =>
    cases other with
    | zero => simp [appendAt]
    | succ other => simpa [appendAt] using ih other
  | case3 first rest item => cases other <;> simp [appendAt]
  | case4 first rest place item ih =>
    cases other with
    | zero => simp [appendAt]
    | succ other => simpa [appendAt] using ih other

def empty (maxPipes maxActions : Nat) : Grid α :=
  ⟨[], maxPipes, maxActions⟩

/-- The actions of a pipe; a pipe that was never reached has none. -/
def pipe (grid : Grid α) (index : Nat) : List (Action α) :=
  grid.pipes[index]?.getD []

def push (grid : Grid α) (index : Nat) (action : Action α) : Except CapacityExceeded (Grid α) :=
  let held := (grid.pipe index).length
  if index < grid.maxPipes ∧ held < grid.maxActions then
    .ok { grid with pipes := appendAt grid.pipes index action }
  else
    .error ⟨index, held, grid.maxPipes, grid.maxActions⟩

theorem push_eq_ok_iff (grid next : Grid α) (index : Nat) (action : Action α) :
    grid.push index action = .ok next ↔
      (index < grid.maxPipes ∧ (grid.pipe index).length < grid.maxActions) ∧
        next = { grid with pipes := appendAt grid.pipes index action } := by
  simp only [push]
  split
  · simp_all [eq_comm]
  · exact ⟨nofun, fun h => absurd h.1 ‹_›⟩

theorem push_eq_error_iff (grid : Grid α) (index : Nat) (action : Action α)
    (full : CapacityExceeded) :
    grid.push index action = .error full ↔
      (grid.maxPipes ≤ index ∨ grid.maxActions ≤ (grid.pipe index).length) ∧
        full = ⟨index, (grid.pipe index).length, grid.maxPipes, grid.maxActions⟩ := by
  simp only [push, ← Nat.not_lt, ← Decidable.not_and_iff_not_or_not]
  split <;> simp_all [eq_comm]

theorem pipe_push {grid result : Grid α} {index : Nat} {action : Action α}
    (h : grid.push index action = .ok result) (other : Nat) :
    result.pipe other =
      if other = index then grid.pipe index ++ [action] else grid.pipe other := by
  obtain ⟨-, rfl⟩ := (push_eq_ok_iff grid result index action).mp h
  exact getElem?_getD_appendAt ..

def activePipes (grid : Grid α) : List (Nat × List (Action α)) :=
  (grid.pipes.zipIdx.filter fun entry => !entry.1.isEmpty).map fun entry => (entry.2, entry.1)

def isEmpty (grid : Grid α) : Bool :=
  grid.pipes.all List.isEmpty

def actions (grid : Grid α) : List (Action α) :=
  grid.pipes.flatten

end Grid

end MotionNotation
