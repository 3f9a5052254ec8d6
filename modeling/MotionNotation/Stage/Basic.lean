import MotionNotation.Playback.Animation
import MotionNotation.Stage.Report
import MotionNotation.Stage.Roster

/-!
# Stages

A stage owns targets and the animations that run on them.  Between updates a
host adds and removes targets and starts and stops animations; an update
advances every animation and reports what it has written and what has happened.
-/

namespace MotionNotation

structure Script where
  intro : Option String
  main : String
  repeats : Bool
  deriving DecidableEq, Repr

def Script.empty : Script :=
  ⟨none, "", false⟩

inductive Routine where
  | single
  | intro (script : Script)
  | main (script : Script)
  deriving DecidableEq, Repr

namespace Script

/-- The notation that a script begins with, and where that is in the script.  An
empty introduction is none. -/
def opening (script : Script) : String × Routine :=
  match script.intro with
  | some text => if text.isEmpty then (script.main, .main script) else (text, .intro script)
  | none => (script.main, .main script)

end Script

structure Running (α : Type) where
  id : AnimationId
  target : TargetId
  animation : Animation α
  routine : Routine
  deriving DecidableEq, Repr

structure Stage (α : Type) where
  config : Config α
  ids : IdCounter
  targets : Roster α
  running : List (Running α)
  pending : List (StageEvent α)
  report : Report α
  deriving DecidableEq, Repr

namespace Stage

inductive Error where
  | capacityExceeded (error : CapacityExceeded)
  | unknownTarget (id : TargetId)
  deriving DecidableEq, Repr

def Error.message : Error → String
  | .capacityExceeded error => error.message
  | .unknownTarget id => "unknown target " ++ id.label

variable {α : Type}

def start (config : Config α) : Stage α where
  config := config
  ids := .start
  targets := .empty
  running := []
  pending := []
  report := .empty

/-! ## Targets -/

def addTarget (stage : Stage α) (target : Target α) : TargetId × Stage α :=
  let (id, ids) := stage.ids.takeTarget
  (id, { stage with ids, targets := stage.targets.insert id target })

def target? (stage : Stage α) (id : TargetId) : Option (Target α) :=
  stage.targets.get? id

/-- Drops a target and the animations on it, without completing them. -/
def removeTarget (stage : Stage α) (id : TargetId) : Stage α :=
  match stage.target? id with
  | none => stage
  | some _ =>
    { stage with
      targets := stage.targets.erase id
      running := stage.running.filter fun run => run.target != id }

def editTarget (stage : Stage α) (id : TargetId) (edit : Target α → Target α) : Stage α :=
  match stage.target? id with
  | none => stage
  | some target => { stage with targets := stage.targets.insert id (edit target) }

@[simp] theorem target?_addTarget (stage : Stage α) (target : Target α) (id : TargetId) :
    (stage.addTarget target).2.target? id =
      if id = (stage.addTarget target).1 then some target else stage.target? id :=
  Roster.get?_insert ..

@[simp] theorem target?_removeTarget (stage : Stage α) (id other : TargetId) :
    (stage.removeTarget id).target? other =
      if other = id then none else stage.target? other := by
  unfold removeTarget
  split
  · by_cases h : other = id <;> simp_all
  · simp [target?]

@[simp] theorem target?_editTarget (stage : Stage α) (id other : TargetId)
    (edit : Target α → Target α) :
    (stage.editTarget id edit).target? other =
      if other = id then (stage.target? id).map edit else stage.target? other := by
  unfold editTarget
  split
  · by_cases h : other = id <;> simp_all
  · by_cases h : other = id <;> simp_all [target?]

/-! ## Starting and stopping -/

variable [Scalar α] [Eases α]

def eventsOf (animation : AnimationId) (target : TargetId) (beats : List (GroupBeat α)) :
    List (StageEvent α) :=
  (GroupBeat.events beats).map (.group animation target)

def launch (stage : Stage α) (id : TargetId) (text : String) (now : α) (signal : Option Nat)
    (routine : Routine) : Except Error (AnimationId × Stage α) :=
  match stage.target? id with
  | none => .error (.unknownTarget id)
  | some target =>
    match Animation.launch stage.config target text now signal with
    | .error full => .error (.capacityExceeded full)
    | .ok turn =>
      let (animation, ids) := stage.ids.takeAnimation
      .ok (animation, { stage with
        ids
        targets := stage.targets.insert id turn.target
        running := stage.running ++ [⟨animation, id, turn.animation, routine⟩]
        pending := stage.pending ++ eventsOf animation id turn.beats })

def animate (stage : Stage α) (id : TargetId) (text : String) (now : α) (signal : Option Nat) :
    Except Error (AnimationId × Stage α) :=
  stage.launch id text now signal .single

/-- Starts a script on a target.  Its main notation has to fit from the
beginning. -/
def play (stage : Stage α) (id : TargetId) (script : Script) (now : α) :
    Except Error (AnimationId × Stage α) :=
  match stage.target? id with
  | none => .error (.unknownTarget id)
  | some target =>
    match Segment.readAll stage.config target script.main with
    | .error full => .error (.capacityExceeded full)
    | .ok _ =>
      let (text, routine) := script.opening
      stage.launch id text now none routine

def isRunning (stage : Stage α) (id : AnimationId) : Bool :=
  stage.running.any fun run => run.id == id

def stop (stage : Stage α) (id : AnimationId) : Stage α :=
  { stage with running := stage.running.filter fun run => run.id != id }

/-! ## Updates -/

inductive Entry (α : Type) where
  | beat (animation : AnimationId) (target : TargetId) (beat : GroupBeat α)
  | restarted (animation : AnimationId) (target : TargetId)
  /-- The next notation of a script was started on the target as it was. -/
  | continued (text : String) (target : Target α)
  | abandoned (animation : AnimationId) (text : String) (target : Target α)
    (error : CapacityExceeded)
  | completed (animation : AnimationId) (target : TargetId)
  | orphaned (animation : AnimationId) (target : TargetId)
  deriving DecidableEq, Repr

namespace Entry

def event? : Entry α → Option (StageEvent α)
  | beat animation target entry =>
    entry.beat.event?.map fun kind => .group animation target ⟨entry.group, kind⟩
  | restarted animation target => some (.playbackRestarted animation target)
  | completed animation target => some (.animationCompleted animation target)
  | continued .. | abandoned .. | orphaned .. => none

def change? : Entry α → Option (Change α)
  | beat _ target entry =>
    entry.beat.write?.map fun write => ⟨target, write.channel, write.value⟩
  | _ => none

def signal? : Entry α → Option Nat
  | beat _ _ entry => entry.beat.signal?
  | _ => none

end Entry

structure Turn (α : Type) where
  survivor : Option (Running α)
  target : Target α
  entries : List (Entry α)
  deriving DecidableEq, Repr

def continueWith (config : Config α) (run : Running α) (script : Script) (target : Target α)
    (now : α) : Turn α :=
  match Animation.launch config target script.main now none with
  | .ok turn =>
    ⟨some { run with animation := turn.animation, routine := .main script }, turn.target,
      .continued script.main target :: turn.beats.map (.beat run.id run.target)⟩
  | .error full =>
    ⟨none, target,
      [.abandoned run.id script.main target full, .completed run.id run.target]⟩

def Turn.after (turn : Turn α) (entries : List (Entry α)) : Turn α :=
  { turn with entries := entries ++ turn.entries }

def conclude (config : Config α) (run : Running α) (target : Target α) (now : α) : Turn α :=
  match run.routine with
  | .intro script => continueWith config run script target now
  | .main script =>
    if script.repeats then
      (continueWith config run script target now).after [.restarted run.id run.target]
    else ⟨none, target, [.completed run.id run.target]⟩
  | .single => ⟨none, target, [.completed run.id run.target]⟩

def advance (config : Config α) (run : Running α) (target : Target α) (now : α) : Turn α :=
  let turn := run.animation.update target now
  let entries := turn.beats.map (Entry.beat run.id run.target)
  let run := { run with animation := turn.animation }
  match turn.animation.status with
  | .running => ⟨some run, turn.target, entries⟩
  | .finished => (conclude config run turn.target now).after entries

structure Sweep (α : Type) where
  targets : Roster α
  running : List (Running α)
  entries : List (Entry α)
  deriving DecidableEq, Repr

/-- Advances animations one after the other, each on the targets that the ones
before it have left. -/
def sweepFrom (config : Config α) (now : α) (targets : Roster α) :
    List (Running α) → Sweep α
  | [] => ⟨targets, [], []⟩
  | run :: rest =>
    match targets.get? run.target with
    | none =>
      let others := sweepFrom config now targets rest
      { others with entries := .orphaned run.id run.target :: others.entries }
    | some target =>
      let turn := advance config run target now
      let others := sweepFrom config now (targets.insert run.target turn.target) rest
      ⟨others.targets, turn.survivor.toList ++ others.running, turn.entries ++ others.entries⟩

def sweep (stage : Stage α) (now : α) : Sweep α :=
  sweepFrom stage.config now stage.targets stage.running

namespace Sweep

def signals (sweep : Sweep α) : List Nat :=
  sweep.entries.filterMap Entry.signal?

/-- The report of an update, with the events from before it in front. -/
def report (sweep : Sweep α) (pending : List (StageEvent α)) : Report α where
  loaded := []
  written := (sweep.entries.filterMap Entry.change?).foldl Change.record []
  events := pending ++ sweep.entries.filterMap Entry.event?

end Sweep

def update (stage : Stage α) (now : α) : Stage α :=
  let sweep := stage.sweep now
  { stage with
    targets := sweep.targets
    running := sweep.running
    pending := []
    report := sweep.report stage.pending }

end Stage

end MotionNotation
