import MotionNotation.Proofs.Stage.Orderly

/-!
# What the counters count

The two counters of a stage count the targets that were added and the animations
that were started, up to full turns of a machine word.
-/

namespace MotionNotation

namespace Stage

variable {α : Type}

def Move.adds : Move α → Bool
  | .operate (.addTarget _) => true
  | _ => false

def additions (moves : List (Move α)) : Nat :=
  moves.countP Move.adds

@[simp] theorem additions_append (first second : List (Move α)) :
    additions (first ++ second) = additions first + additions second :=
  List.countP_append

theorem settle_nextTarget {stage : Stage α} {attempt : Except Error (AnimationId × Stage α)}
    (h : ∀ animation next, attempt = .ok (animation, next) →
      next.ids.nextTarget = stage.ids.nextTarget) :
    (stage.settle attempt).ids.nextTarget = stage.ids.nextTarget :=
  settle_cases (motive := (·.ids.nextTarget = stage.ids.nextTarget)) rfl h

variable [Scalar α] [Eases α]

theorem launch_nextTarget {stage next : Stage α} {id : TargetId} {text : String} {now : α}
    {signal : Option Nat} {routine : Routine} {animation : AnimationId}
    (h : stage.launch id text now signal routine = .ok (animation, next)) :
    next.ids.nextTarget = stage.ids.nextTarget := by
  obtain ⟨target, turn, -, -, -, rfl⟩ := launch_ok h
  rfl

theorem nextTarget_make (stage : Stage α) (move : Move α) :
    (stage.make move).ids.nextTarget = stage.ids.nextTarget + .ofNat (additions [move]) := by
  cases move with
  | edit id change =>
      simp only [make, editTarget]
      split <;> exact (UInt32.add_zero _).symm
  | operate operation =>
      cases operation with
      | addTarget target => rfl
      | removeTarget id =>
          simp only [make, perform, removeTarget]
          split <;> exact (UInt32.add_zero _).symm
      | animate id text now signal =>
          rw [make, perform, animate, settle_nextTarget fun _ _ => launch_nextTarget]
          exact (UInt32.add_zero _).symm
      | play id script now =>
          rw [make, perform, settle_nextTarget fun _ _ h => launch_nextTarget (play_ok h)]
          exact (UInt32.add_zero _).symm
      | stop id => exact (UInt32.add_zero _).symm
      | update now => exact (UInt32.add_zero _).symm

theorem nextTarget_make_of_not_adds {stage : Stage α} {move : Move α} (h : move.adds = false) :
    (stage.make move).ids.nextTarget = stage.ids.nextTarget := by
  rw [nextTarget_make]
  simp [additions, h]

theorem nextTarget_course (stage : Stage α) (moves : List (Move α)) :
    (stage.course moves).ids.nextTarget = stage.ids.nextTarget + .ofNat (additions moves) := by
  induction moves generalizing stage with
  | nil => exact (UInt32.add_zero _).symm
  | cons move rest ih =>
      rw [course_cons, ih, nextTarget_make, UInt32.add_assoc, ← UInt32.ofNat_add,
        ← additions_append]
      rfl

theorem nextAnimation_make (stage : Stage α) (move : Move α) :
    (stage.make move).ids.nextAnimation =
      stage.ids.nextAnimation + .ofNat (stage.launches [move]).length := by
  have hlaunches : stage.launches [move] = (stage.launched? move).toList := by simp [launches]
  rw [hlaunches]
  cases stage.make_outcome move with
  | settles launched _ untouched =>
      rw [launched, untouched.nextAnimation]
      exact (UInt32.add_zero _).symm
  | launches launch target turn launched _ made =>
      rw [launched, made.next]
      rfl
  | removes id move_eq made =>
      rw [made, move_eq]
      exact (UInt32.add_zero _).symm
  | stops id move_eq =>
      rw [move_eq]
      exact (UInt32.add_zero _).symm
  | updates now move_eq =>
      rw [move_eq]
      exact (UInt32.add_zero _).symm

theorem nextAnimation_course (stage : Stage α) (moves : List (Move α)) :
    (stage.course moves).ids.nextAnimation =
      stage.ids.nextAnimation + .ofNat (stage.launches moves).length := by
  induction moves generalizing stage with
  | nil => exact (UInt32.add_zero _).symm
  | cons move rest ih =>
      have hlaunches := stage.launches_append [move] rest
      rw [course_cons, course_nil, List.singleton_append] at hlaunches
      rw [course_cons, ih, nextAnimation_make, UInt32.add_assoc, ← UInt32.ofNat_add, hlaunches,
        List.length_append]

theorem nextTarget_of_start (config : Config α) (moves : List (Move α)) :
    ((start config).course moves).ids.nextTarget = .ofNat (additions moves) := by
  rw [nextTarget_course]
  exact UInt32.zero_add _

theorem nextAnimation_of_start (config : Config α) (moves : List (Move α)) :
    ((start config).course moves).ids.nextAnimation =
      .ofNat ((start config).launches moves).length := by
  rw [nextAnimation_course]
  exact UInt32.zero_add _

end Stage

end MotionNotation
