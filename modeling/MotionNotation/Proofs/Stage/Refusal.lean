import MotionNotation.Description.Staged
import MotionNotation.Easing.Transcendental
import MotionNotation.Proofs.Playback.InPlace
import MotionNotation.Proofs.Stage.Move

/-!
# Refused requests

A start on a stage writes a target of the stage in place, takes a number, and
only then is a running animation.  A request that is refused has done none of
this when it fails, although nothing is undone, and so the host may as well not
have made it.
-/

namespace MotionNotation

theorem Roster.insert_self {α : Type} {roster : Roster α} {id : TargetId} {target : Target α}
    (h : roster.get? id = some target) : roster.insert id target = roster := by
  obtain ⟨entries⟩ := roster
  simp only [get?, insert, Roster.mk.injEq] at h ⊢
  induction entries with
  | nil => cases h
  | cons entry rest ih =>
      obtain ⟨other, found⟩ := entry
      by_cases hfirst : other = id
      · subst hfirst
        obtain rfl : found = target := by simpa using h
        simp [put]
      · simp only [put, beq_iff_eq, if_neg hfirst]
        rw [ih (by simpa [hfirst] using h)]

namespace Stage

variable {α β : Type}

/-- Lends a target to a program.  What the program writes is on the stage, even
if it fails. -/
def lend (id : TargetId) (program : InPlace (Scene α) CapacityExceeded β) :
    InPlace (Stage α) Error (β × List (GroupBeat α)) := do
  let stage ← get
  match stage.target? id with
  | none => throw (.unknownTarget id)
  | some target =>
    let (answer, scene) := program.exec ⟨target, []⟩
    modify fun stage => { stage with targets := stage.targets.insert id scene.target }
    match answer with
    | .error full => throw (.capacityExceeded full)
    | .ok value => return (value, scene.told)

theorem exec_lend {stage : Stage α} {id : TargetId} {target : Target α}
    (h : stage.target? id = some target)
    (program : InPlace (Scene α) CapacityExceeded β) {answer : Except CapacityExceeded β}
    {scene : Scene α} (hexec : program.exec ⟨target, []⟩ = (answer, scene)) :
    (lend id program).exec stage =
      ((answer.mapError .capacityExceeded).map fun value => (value, scene.told),
        { stage with targets := stage.targets.insert id scene.target }) := by
  simp only [lend, InPlace.exec_bind, InPlace.exec_get, h, InPlace.exec_modify, hexec]
  cases answer <;> rfl

theorem exec_lend_of_unknown {stage : Stage α} {id : TargetId} (h : stage.target? id = none)
    (program : InPlace (Scene α) CapacityExceeded β) :
    (lend id program).exec stage = (.error (.unknownTarget id), stage) := by
  simp only [lend, InPlace.exec_bind, InPlace.exec_get, h, InPlace.exec_throw]

variable [Scalar α] [Eases α]

def launchInPlace (id : TargetId) (text : String) (now : α) (signal : Option Nat)
    (routine : Routine) : InPlace (Stage α) Error AnimationId := do
  let stage ← get
  let (started, told) ← lend id (Animation.launchInPlace stage.config text now signal)
  let animation := (← get).ids.takeAnimation.1
  modify fun stage => { stage with ids := stage.ids.takeAnimation.2 }
  modify fun stage => { stage with pending := stage.pending ++ eventsOf animation id told }
  modify fun stage =>
    { stage with running := stage.running ++ [⟨animation, id, started, routine⟩] }
  return animation

def playInPlace (id : TargetId) (script : Script) (now : α) :
    InPlace (Stage α) Error AnimationId := do
  let stage ← get
  let _ ← lend id (Animation.readInPlace stage.config (Groups.ofText script.main))
  launchInPlace id script.opening.1 now none script.opening.2

def leaves (stage : Stage α) : Except Error (β × Stage α) → Except Error β × Stage α
  | .ok (value, next) => (.ok value, next)
  | .error error => (.error error, stage)

omit [Scalar α] [Eases α] in
theorem leaves_stage (stage : Stage α) (attempt : Except Error (AnimationId × Stage α)) :
    (stage.leaves attempt).2 = stage.settle attempt := by
  cases attempt <;> rfl

theorem exec_launchInPlace (stage : Stage α) (id : TargetId) (text : String) (now : α)
    (signal : Option Nat) (routine : Routine) :
    (launchInPlace id text now signal routine).exec stage =
      stage.leaves (stage.launch id text now signal routine) := by
  simp only [launchInPlace, launch, InPlace.exec_bind, InPlace.exec_get]
  cases htarget : stage.target? id with
  | none =>
      rw [exec_lend_of_unknown htarget]
      rfl
  | some target =>
      have hexec := Animation.exec_launchInPlace stage.config text now signal ⟨target, []⟩
      cases hturn : Animation.launch stage.config target text now signal with
      | error full =>
          rw [hturn] at hexec
          rw [exec_lend htarget _ hexec, Roster.insert_self htarget]
          simp only [hturn]
          rfl
      | ok turn =>
          rw [hturn] at hexec
          rw [exec_lend htarget _ hexec]
          simp only [hturn]
          rfl

theorem exec_playInPlace (stage : Stage α) (id : TargetId) (script : Script) (now : α) :
    (playInPlace id script now).exec stage = stage.leaves (stage.play id script now) := by
  simp only [playInPlace, play, InPlace.exec_bind, InPlace.exec_get]
  cases htarget : stage.target? id with
  | none =>
      rw [exec_lend_of_unknown htarget]
      rfl
  | some target =>
      have hexec : (Animation.readInPlace stage.config (Groups.ofText script.main)).exec
          ⟨target, []⟩ = (Segment.readAll stage.config target script.main, ⟨target, []⟩) :=
        Animation.exec_readInPlace ..
      rw [exec_lend htarget _ hexec, Roster.insert_self htarget]
      dsimp only
      cases Segment.readAll stage.config target script.main with
      | error full => rfl
      | ok segments => exact exec_launchInPlace stage id script.opening.1 now none script.opening.2

end Stage

/-! ## The requests of a host -/

inductive Request where
  | move (move : Stage.Move Float)
  | describe (id : TargetId) (text : String)

inductive Answer where
  | done
  | added (id : TargetId)
  | removed (target : Option (Target Float))
  | started (id : AnimationId)
  | stopped (found : Bool)
  | reported (report : Report Float)
  | described (text : String)
  deriving DecidableEq, Repr

namespace Request

open Stage (Error)

def inPlace : Request → InPlace (Stage Float) Error Answer
  | .move (.operate (.addTarget target)) => do
    let stage ← get
    modify fun stage => (stage.addTarget target).2
    return .added (stage.addTarget target).1
  | .move (.operate (.removeTarget id)) => do
    let stage ← get
    modify (Stage.removeTarget · id)
    return .removed (stage.target? id)
  | .move (.operate (.animate id text now signal)) =>
    .started <$> Stage.launchInPlace id text now signal .single
  | .move (.operate (.play id script now)) => .started <$> Stage.playInPlace id script now
  | .move (.operate (.stop id)) => do
    let stage ← get
    modify (Stage.stop · id)
    return .stopped (stage.isRunning id)
  | .move (.operate (.update now)) => do
    modify (Stage.update · now)
    return .reported (← get).report
  | .move (.edit id change) => do
    modify (Stage.editTarget · id change)
    return .done
  | .describe id text => do
    let stage ← get
    .described <$> liftM (stage.describe id text)

def error? {β : Type} : Except Error β → Option Error
  | .ok _ => none
  | .error error => some error

def refusal? (stage : Stage Float) : Request → Option Error
  | .move (.operate (.animate id text now signal)) => error? (stage.animate id text now signal)
  | .move (.operate (.play id script now)) => error? (stage.play id script now)
  | .describe id text => error? (stage.describe id text)
  | _ => none

theorem exec_inPlace_error_iff (request : Request) (stage after : Stage Float) (error : Error) :
    request.inPlace.exec stage = (.error error, after) ↔
      request.refusal? stage = some error ∧ after = stage := by
  cases request with
  | describe id text =>
      simp only [inPlace, refusal?, InPlace.exec_bind, InPlace.exec_get, InPlace.exec_map,
        InPlace.exec_lift]
      cases stage.describe id text <;> simp [error?, eq_comm]
  | move move =>
      cases move with
      | edit id change => simp [inPlace, refusal?, InPlace.exec_map]
      | operate operation =>
          cases operation with
          | animate id text now signal =>
              simp only [inPlace, refusal?, InPlace.exec_map, Stage.exec_launchInPlace,
                Stage.animate]
              cases stage.launch id text now signal .single <;> simp [Stage.leaves, error?, eq_comm]
          | play id script now =>
              simp only [inPlace, refusal?, InPlace.exec_map, Stage.exec_playInPlace]
              cases stage.play id script now <;> simp [Stage.leaves, error?, eq_comm]
          | _ => simp [inPlace, refusal?, InPlace.exec_bind, InPlace.exec_map]

theorem exec_inPlace_move (move : Stage.Move Float) (stage : Stage Float) :
    ((Request.move move).inPlace.exec stage).2 = stage.make move := by
  cases move with
  | edit id change => rfl
  | operate operation =>
      cases operation with
      | animate id text now signal =>
          rw [inPlace, InPlace.exec_map, Stage.exec_launchInPlace, Stage.make, Stage.perform,
            Stage.animate, ← Stage.leaves_stage]
          cases stage.launch id text now signal .single <;> rfl
      | play id script now =>
          rw [inPlace, InPlace.exec_map, Stage.exec_playInPlace, Stage.make, Stage.perform,
            ← Stage.leaves_stage]
          cases stage.play id script now <;> rfl
      | _ => rfl

def session (stage : Stage Float) : List Request → List (Except Error Answer) × Stage Float
  | [] => ([], stage)
  | request :: rest =>
    let (answer, after) := request.inPlace.exec stage
    let (answers, last) := session after rest
    (answer :: answers, last)

theorem session_append (stage : Stage Float) (first second : List Request) :
    session stage (first ++ second) =
      ((session stage first).1 ++ (session (session stage first).2 second).1,
        (session (session stage first).2 second).2) := by
  induction first generalizing stage with
  | nil => rfl
  | cons request rest ih => simp only [List.cons_append, session, ih]

theorem length_session (stage : Stage Float) (requests : List Request) :
    (session stage requests).1.length = requests.length := by
  induction requests generalizing stage with
  | nil => rfl
  | cons request rest ih => simp only [session, List.length_cons, ih]

theorem session_without_refused (stage : Stage Float) (before : List Request)
    {request : Request} {error : Error} (after : List Request)
    (refused : request.refusal? (session stage before).2 = some error) :
    ∃ answers others last,
      session stage (before ++ request :: after) = (answers ++ .error error :: others, last) ∧
        session stage (before ++ after) = (answers ++ others, last) ∧
        answers.length = before.length := by
  have hexec := (request.exec_inPlace_error_iff (session stage before).2
    (session stage before).2 error).mpr ⟨refused, rfl⟩
  refine ⟨_, _, _, ?_, session_append stage before after, length_session stage before⟩
  rw [session_append, session, hexec]

end Request

/-- A start that fails leaves its target as it was, and tells nothing.  A request
that a stage refuses leaves the stage as it was, as the moves have it, so that all
later requests are answered as if it had not been made. -/
theorem Request.refused_leaves_all :
    (∀ (config : Config Float) (text : String) (now : Float) (signal : Option Nat)
        (scene after : Scene Float) (full : CapacityExceeded),
      (Animation.launchInPlace config text now signal).exec scene = (.error full, after) ↔
        Animation.launch config scene.target text now signal = .error full ∧ after = scene) ∧
      (∀ (request : Request) (stage after : Stage Float) (error : Stage.Error),
        request.inPlace.exec stage = (.error error, after) ↔
          request.refusal? stage = some error ∧ after = stage) ∧
      (∀ (move : Stage.Move Float) (stage : Stage Float),
        ((Request.move move).inPlace.exec stage).2 = stage.make move) ∧
      ∀ (stage : Stage Float) (before after : List Request) (request : Request)
        (error : Stage.Error), request.refusal? (session stage before).2 = some error →
        ∃ answers others last,
          session stage (before ++ request :: after) = (answers ++ .error error :: others, last) ∧
            session stage (before ++ after) = (answers ++ others, last) ∧
            answers.length = before.length := by
  refine ⟨?_, exec_inPlace_error_iff, exec_inPlace_move,
    fun stage before after request error refused =>
      session_without_refused stage before after refused⟩
  intro config text now signal scene after full
  rw [Animation.exec_launchInPlace]
  cases Animation.launch config scene.target text now signal <;> simp [eq_comm]

theorem Request.refused_leaves_all_of_large_intro :
    let stage : Stage Float := .start { Config.standard with maxActions := 1 }
    let before : List Request :=
      [.move (.operate (.addTarget .standard)), .move (.operate (.animate ⟨0⟩ "x5" 0 none))]
    let refused : Request := .move (.operate (.play ⟨0⟩ ⟨some "[x5][x1y1]", "y3", true⟩ 0))
    let after : List Request := [.move (.operate (.update 1)), .describe ⟨0⟩ "x5"]
    let error : Stage.Error := .capacityExceeded ⟨0, 1, 40, 1⟩
    refused.inPlace.exec (session stage before).2 = (.error error, (session stage before).2) ∧
      ∃ answers others last,
        session stage (before ++ refused :: after) = (answers ++ .error error :: others, last) ∧
          session stage (before ++ after) = (answers ++ others, last) ∧
          answers.length = before.length := by
  intro stage before refused after error
  obtain ⟨-, hrequests, -, hsessions⟩ := refused_leaves_all
  have hrefused : refused.refusal? (session stage before).2 = some error := by decide +kernel
  exact ⟨(hrequests refused _ _ error).mpr ⟨hrefused, rfl⟩,
    hsessions stage before after refused error hrefused⟩

end MotionNotation
