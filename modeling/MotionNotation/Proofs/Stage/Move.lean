import Mathlib.Data.List.Induction
import MotionNotation.Proofs.Stage.Operation

/-!
# Moves

A host moves a stage by operations and by changes that it makes to a target by
itself.  A course is a list of moves.  Of the seven kinds of moves only three
take an animation away or bring one in; an update is the only one that makes an
animation go on, and the only one that tells events.
-/

namespace MotionNotation

def Routine.script? : Routine → Option Script
  | .single => none
  | .intro script | .main script => some script

namespace Stage

inductive Move (α : Type) where
  | operate (operation : Operation α)
  | edit (id : TargetId) (change : Target α → Target α)

structure Launch where
  id : AnimationId
  target : TargetId
  text : String
  routine : Routine
  deriving DecidableEq, Repr

variable {α : Type}

def accepted? (attempt : Except Error (AnimationId × Stage α)) (target : TargetId) (text : String)
    (routine : Routine) : Option Launch :=
  match attempt with
  | .ok (id, _) => some ⟨id, target, text, routine⟩
  | .error _ => none

variable [Scalar α] [Eases α]

def make (stage : Stage α) : Move α → Stage α
  | .operate operation => stage.perform operation
  | .edit id change => stage.editTarget id change

def course (stage : Stage α) (moves : List (Move α)) : Stage α :=
  moves.foldl make stage

@[simp] theorem course_nil (stage : Stage α) : stage.course [] = stage := rfl

@[simp] theorem course_cons (stage : Stage α) (move : Move α) (rest : List (Move α)) :
    stage.course (move :: rest) = (stage.make move).course rest := rfl

theorem course_append (stage : Stage α) (first second : List (Move α)) :
    stage.course (first ++ second) = (stage.course first).course second :=
  List.foldl_append

theorem course_concat (stage : Stage α) (moves : List (Move α)) (move : Move α) :
    stage.course (moves ++ [move]) = (stage.course moves).make move :=
  course_append ..

def launched? (stage : Stage α) : Move α → Option Launch
  | .operate (.animate id text now signal) =>
    accepted? (stage.animate id text now signal) id text .single
  | .operate (.play id script now) =>
    accepted? (stage.play id script now) id script.opening.1 script.opening.2
  | _ => none

def heard (stage : Stage α) : Move α → List (StageEvent α)
  | .operate (.update now) => (stage.update now).report.events
  | _ => []

/-! ## What a move does -/

structure Untouched (stage next : Stage α) : Prop where
  config : next.config = stage.config
  nextAnimation : next.ids.nextAnimation = stage.ids.nextAnimation
  running : next.running = stage.running
  pending : next.pending = stage.pending
  registered : ∀ id, (stage.target? id).isSome = true → (next.target? id).isSome = true

structure Launched (stage next : Stage α) (launch : Launch) (target : Target α)
    (turn : Animation.Turn α) : Prop where
  found : stage.target? launch.target = some target
  read : ∃ now signal, Animation.launch stage.config target launch.text now signal = .ok turn
  id : launch.id = ⟨stage.ids.nextAnimation⟩
  fits : ∀ script, launch.routine.script? = some script →
    ∃ segments, Segment.readAll stage.config target script.main = .ok segments
  next : next = { stage with
    ids := stage.ids.takeAnimation.2
    targets := stage.targets.insert launch.target turn.target
    running := stage.running ++ [⟨launch.id, launch.target, turn.animation, launch.routine⟩]
    pending := stage.pending ++ eventsOf launch.id launch.target turn.beats }

inductive Outcome (stage : Stage α) (move : Move α) : Prop
  | settles (launched : stage.launched? move = none) (heard : stage.heard move = [])
      (untouched : stage.Untouched (stage.make move))
  | launches (launch : Launch) (target : Target α) (turn : Animation.Turn α)
      (launched : stage.launched? move = some launch) (heard : stage.heard move = [])
      (made : stage.Launched (stage.make move) launch target turn)
  | removes (id : TargetId) (move_eq : move = .operate (.removeTarget id))
      (made : stage.make move = { stage with
        targets := stage.targets.erase id
        running := stage.running.filter fun run => run.target != id })
  | stops (id : AnimationId) (move_eq : move = .operate (.stop id))
  | updates (now : α) (move_eq : move = .operate (.update now))

omit [Scalar α] [Eases α] in
theorem Untouched.refl (stage : Stage α) : stage.Untouched stage where
  config := rfl
  nextAnimation := rfl
  running := rfl
  pending := rfl
  registered := fun _ h => h

theorem script_of_opening {script found : Script}
    (h : script.opening.2.script? = some found) : found = script := by
  unfold Script.opening at h
  split at h
  · split at h <;> exact (Option.some.inj h).symm
  · exact (Option.some.inj h).symm

theorem make_outcome (stage : Stage α) (move : Move α) : stage.Outcome move := by
  cases move with
  | edit id change =>
      refine .settles rfl rfl ?_
      have htargets : ∀ other, (stage.target? other).isSome = true →
          ((stage.editTarget id change).target? other).isSome = true := by
        intro other h
        rw [target?_editTarget]
        split
        · rename_i hid
          rw [Option.isSome_map, ← hid]
          exact h
        · exact h
      refine ⟨?_, ?_, ?_, ?_, htargets⟩
      all_goals
        simp only [make, editTarget]
        split <;> rfl
  | operate operation =>
      cases operation with
      | addTarget target =>
          refine .settles rfl rfl ⟨rfl, rfl, rfl, rfl, fun other h => ?_⟩
          have hadd := stage.target?_addTarget target other
          simp only [make, perform, hadd]
          split
          · rfl
          · exact h
      | removeTarget id =>
          cases htarget : stage.target? id with
          | none =>
              have hmake : stage.make (.operate (.removeTarget id)) = stage := by
                simp only [make, perform, removeTarget, htarget]
              exact .settles rfl rfl (by rw [hmake]; exact .refl stage)
          | some target =>
              refine .removes id rfl ?_
              simp only [make, perform, removeTarget, htarget]
      | animate id text now signal =>
          cases hattempt : stage.animate id text now signal with
          | error error =>
              have hmake : stage.make (.operate (.animate id text now signal)) = stage := by
                simp only [make, perform, hattempt, settle]
              refine .settles ?_ rfl (by rw [hmake]; exact .refl stage)
              simp only [launched?, hattempt, accepted?]
          | ok result =>
              obtain ⟨animation, next⟩ := result
              have hmake : stage.make (.operate (.animate id text now signal)) = next := by
                simp only [make, perform, hattempt, settle]
              obtain ⟨target, turn, htarget, hturn, hid, hnext⟩ := launch_ok hattempt
              refine .launches ⟨animation, id, text, .single⟩ target turn ?_ rfl ?_
              · simp only [launched?, hattempt, accepted?]
              · rw [hmake]
                refine ⟨htarget, ⟨now, signal, hturn⟩, hid, ?_, hnext⟩
                intro script hscript
                cases hscript
      | play id script now =>
          cases hattempt : stage.play id script now with
          | error error =>
              have hmake : stage.make (.operate (.play id script now)) = stage := by
                simp only [make, perform, hattempt, settle]
              refine .settles ?_ rfl (by rw [hmake]; exact .refl stage)
              simp only [launched?, hattempt, accepted?]
          | ok result =>
              obtain ⟨animation, next⟩ := result
              have hmake : stage.make (.operate (.play id script now)) = next := by
                simp only [make, perform, hattempt, settle]
              obtain ⟨target, turn, htarget, hturn, hid, hnext⟩ := launch_ok (play_ok hattempt)
              refine .launches ⟨animation, id, script.opening.1, script.opening.2⟩ target turn
                ?_ rfl ?_
              · simp only [launched?, hattempt, accepted?]
              · rw [hmake]
                refine ⟨htarget, ⟨now, none, hturn⟩, hid, ?_, hnext⟩
                intro found hscript
                rw [script_of_opening hscript]
                exact fits_of_play_ok hattempt htarget
      | stop id => exact .stops id rfl
      | update now => exact .updates now rfl

theorem launched_of_launched? {stage : Stage α} {move : Move α} {launch : Launch}
    (h : stage.launched? move = some launch) :
    ∃ target turn, stage.heard move = [] ∧
      stage.Launched (stage.make move) launch target turn := by
  cases stage.make_outcome move with
  | settles launched => rw [launched] at h; cases h
  | launches other target turn launched heard made =>
      rw [launched] at h
      cases h
      exact ⟨target, turn, heard, made⟩
  | removes id move_eq => subst move_eq; cases h
  | stops id move_eq => subst move_eq; cases h
  | updates now move_eq => subst move_eq; cases h

end Stage

end MotionNotation
