import MotionNotation.Playback.Timer

/-!
# Beats

The things that happen while a group of a notation runs, in the order in which
they happen.  Events, writes and signals are read off one list of beats.
-/

namespace MotionNotation

namespace GroupEvent

inductive Kind (α : Type) where
  | pipeStarted (pipe : Nat) (duration : α)
  | pipeLooped (pipe : Nat)
  | pipeCompleted (pipe : Nat)
  | groupCompleted
  deriving DecidableEq, Repr

end GroupEvent

structure GroupEvent (α : Type) where
  group : Nat
  kind : GroupEvent.Kind α
  deriving DecidableEq, Repr

inductive Beat (α : Type) where
  | wrote (write : Write α)
  | started (plan : PipePlan α)
  | progressed (pipe : Nat) (progress : α)
  | looped (pipe : Nat)
  | completed (pipe : Nat)
  | groupCompleted
  | signalled (signal : Nat)
  deriving DecidableEq, Repr

namespace Beat

variable {α : Type}

def event? : Beat α → Option (GroupEvent.Kind α)
  | started plan => some (.pipeStarted plan.index plan.duration)
  | looped pipe => some (.pipeLooped pipe)
  | completed pipe => some (.pipeCompleted pipe)
  | groupCompleted => some .groupCompleted
  | wrote _ | progressed .. | signalled _ => none

def write? : Beat α → Option (Write α)
  | wrote write => some write
  | _ => none

def signal? : Beat α → Option Nat
  | signalled signal => some signal
  | _ => none

def events (beats : List (Beat α)) : List (GroupEvent.Kind α) :=
  beats.filterMap event?

def writes (beats : List (Beat α)) : List (Write α) :=
  beats.filterMap write?

def signals (beats : List (Beat α)) : List Nat :=
  beats.filterMap signal?

@[simp] theorem events_append (first second : List (Beat α)) :
    Beat.events (first ++ second) = Beat.events first ++ Beat.events second :=
  List.filterMap_append

@[simp] theorem writes_append (first second : List (Beat α)) :
    Beat.writes (first ++ second) = Beat.writes first ++ Beat.writes second :=
  List.filterMap_append

@[simp] theorem signals_append (first second : List (Beat α)) :
    Beat.signals (first ++ second) = Beat.signals first ++ Beat.signals second :=
  List.filterMap_append

@[simp] theorem writes_map_wrote (writes : List (Write α)) :
    Beat.writes (writes.map wrote) = writes := by
  induction writes with
  | nil => rfl
  | cons first rest ih => simpa [Beat.writes, write?] using ih

@[simp] theorem events_map_wrote (writes : List (Write α)) :
    Beat.events (writes.map wrote) = [] := by
  induction writes with
  | nil => rfl
  | cons first rest ih => simp [Beat.events, event?]

@[simp] theorem signals_map_wrote (writes : List (Write α)) :
    Beat.signals (writes.map wrote) = [] := by
  induction writes with
  | nil => rfl
  | cons first rest ih => simp [Beat.signals, signal?]

end Beat

end MotionNotation
