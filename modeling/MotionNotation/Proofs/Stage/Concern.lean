import MotionNotation.Proofs.Stage.Alone
import MotionNotation.Proofs.Stage.Move

/-!
# Moves and one target

A move either concerns a target, and then it does to the target alone what it
does to it on the stage, or it is of no concern to the target, and then nothing
is seen of it there.
-/

namespace MotionNotation

namespace Stage

variable {α : Type}

def Operation.renamed (names : Alias) : Operation α → Operation α
  | .addTarget target => .addTarget target
  | .removeTarget _ => .removeTarget names.target
  | .animate _ text now signal => .animate names.target text now signal
  | .play _ script now => .play names.target script now
  | .stop animation => .stop (names.animation animation)
  | .update now => .update now

def Move.renamed (names : Alias) : Move α → Move α
  | .operate operation => .operate (operation.renamed names)
  | .edit _ change => .edit names.target change

/-- Whether a move has to do with a target, on which these animations were
started before. -/
def concerns (stage : Stage α) (id : TargetId) (own : List AnimationId) : Move α → Bool
  | .operate (.addTarget target) => (stage.addTarget target).1 == id
  | .operate (.removeTarget other) | .operate (.animate other _ _ _)
  | .operate (.play other _ _) | .edit other _ => other == id
  | .operate (.stop animation) => own.contains animation
  | .operate (.update _) => true

/-! ## What a move of the target's own does -/

section Own

variable (stage : Stage α) (id : TargetId) (names : Alias)

@[simp] theorem target?_alone :
    (stage.alone id names).target? names.target = stage.target? id :=
  Roster.get?_only ..

theorem alone_removeTarget :
    (stage.removeTarget id).alone id names = (stage.alone id names).removeTarget names.target := by
  unfold removeTarget
  rw [target?_alone]
  cases htarget : stage.target? id with
  | none => rfl
  | some target =>
      have hgone : Running.ofTarget id (stage.running.filter fun run => run.target != id) = [] := by
        simp [Running.ofTarget]
      have hnone : (stage.alone id names).running.filter (fun run => run.target != names.target) =
          [] := by
        simp [alone, Running.renamed]
      simp only [hnone]
      simp only [alone, target?, Roster.get?_erase, if_true, Roster.erase_only, hgone, List.map_nil]

theorem alone_editTarget (edit : Target α → Target α) :
    (stage.editTarget id edit).alone id names =
      (stage.alone id names).editTarget names.target edit := by
  unfold editTarget
  rw [target?_alone]
  cases htarget : stage.target? id with
  | none => rfl
  | some target => simp [alone, target?]

theorem alone_stop {animation : AnimationId}
    (distinct : ∀ run ∈ stage.running, run.target = id →
      names.animation run.id = names.animation animation → run.id = animation) :
    (stage.stop animation).alone id names =
      (stage.alone id names).stop (names.animation animation) := by
  have hrunning : (Running.ofTarget id (stage.stop animation).running).map
      (Running.renamed names) =
        ((stage.alone id names).stop (names.animation animation)).running := by
    simp only [stop, alone, Running.ofTarget, List.filter_map, List.filter_filter]
    congr 1
    apply List.filter_congr
    intro run hrun
    by_cases hmine : run.target = id
    · have hsame : names.animation run.id = names.animation animation ↔ run.id = animation :=
        ⟨distinct run hrun hmine, congrArg names.animation⟩
      simp [hmine, Running.renamed, bne, hsame]
    · rw [beq_eq_false_iff_ne.mpr hmine, Bool.false_and, Bool.and_false]
  rw [alone, hrunning]
  rfl

inductive Answers (id : TargetId) (names : Alias) :
    Except Error (AnimationId × Stage α) → Except Error (AnimationId × Stage α) → Prop
  | refused (error own : Error) : Answers id names (.error error) (.error own)
  | accepted (animation : AnimationId) {next own : Stage α}
      (alone : next.alone id { names with ids := names.ids.takeAnimation.2 } = own) :
      Answers id names (.ok (animation, next)) (.ok (names.animation animation, own))

variable [Scalar α] [Eases α]

omit [Scalar α] [Eases α] in
theorem eventsOf_alone (animation : AnimationId) (beats : List (GroupBeat α)) :
    (StageEvent.ofTarget id (eventsOf animation id beats)).map (StageEvent.renamed names) =
      eventsOf (names.animation animation) names.target beats := by
  have hall : StageEvent.ofTarget id (eventsOf animation id beats) = eventsOf animation id beats :=
    List.filter_eq_self.mpr fun event hmem => by
      obtain ⟨found, -, rfl⟩ := List.mem_map.mp hmem
      simp [StageEvent.target]
  rw [hall, eventsOf, eventsOf, List.map_map]
  rfl

omit [Scalar α] [Eases α] in
theorem alone_started (ids : IdCounter) (animation : AnimationId) (turn : Animation.Turn α)
    (routine : Routine) :
    alone { stage with
        ids
        targets := stage.targets.insert id turn.target
        running := stage.running ++ [⟨animation, id, turn.animation, routine⟩]
        pending := stage.pending ++ eventsOf animation id turn.beats } id names =
      { stage.alone id names with
        targets := (stage.alone id names).targets.insert names.target turn.target
        running := (stage.alone id names).running ++
          [⟨names.animation animation, names.target, turn.animation, routine⟩]
        pending := (stage.alone id names).pending ++
          eventsOf (names.animation animation) names.target turn.beats } := by
  have hrun : Running.ofTarget id [(⟨animation, id, turn.animation, routine⟩ : Running α)] =
      [⟨animation, id, turn.animation, routine⟩] := by
    simp [Running.ofTarget]
  simp only [alone, target?, Roster.get?_insert, if_true, Roster.insert_only,
    Running.ofTarget_append, StageEvent.ofTarget_append, List.map_append, hrun, List.map_singleton,
    eventsOf_alone]
  rfl

theorem answers_launch {text : String} {now : α} {signal : Option Nat} {routine : Routine}
    (hname : ∀ animation next, stage.launch id text now signal routine = .ok (animation, next) →
      names.animation animation = names.ids.takeAnimation.1) :
    Answers id names (stage.launch id text now signal routine)
      ((stage.alone id names).launch names.target text now signal routine) := by
  have hconfig : (stage.alone id names).config = stage.config := rfl
  cases htarget : stage.target? id with
  | none =>
      simp only [launch, target?_alone, htarget]
      exact .refused ..
  | some target =>
      cases hturn : Animation.launch stage.config target text now signal with
      | error full =>
          simp only [launch, target?_alone, htarget, hconfig, hturn]
          exact .refused ..
      | ok turn =>
          simp only [launch, target?_alone, htarget, hconfig, hturn] at hname ⊢
          have hids : (stage.alone id names).ids.takeAnimation.1 =
              names.animation stage.ids.takeAnimation.1 := (hname _ _ rfl).symm
          rw [hids]
          exact .accepted _ (stage.alone_started id _ _ _ turn routine)

theorem answers_play {script : Script} {now : α}
    (hname : ∀ animation next, stage.play id script now = .ok (animation, next) →
      names.animation animation = names.ids.takeAnimation.1) :
    Answers id names (stage.play id script now)
      ((stage.alone id names).play names.target script now) := by
  have hconfig : (stage.alone id names).config = stage.config := rfl
  cases htarget : stage.target? id with
  | none =>
      simp only [play, target?_alone, htarget]
      exact .refused ..
  | some target =>
      cases hread : Segment.readAll stage.config target script.main with
      | error full =>
          simp only [play, target?_alone, htarget, hconfig, hread]
          exact .refused ..
      | ok segments =>
          simp only [play, target?_alone, htarget, hconfig, hread] at hname ⊢
          exact stage.answers_launch id names hname

end Own

/-! ## What a move of the others does -/

structure Unseen (stage next : Stage α) (id : TargetId) : Prop extends next.Alike stage id where
  report : next.report = stage.report

section Others

variable {stage next : Stage α} {id other : TargetId}

theorem Unseen.refl (stage : Stage α) (id : TargetId) : stage.Unseen stage id :=
  ⟨⟨rfl, rfl, rfl, rfl⟩, rfl⟩

theorem unseen_removeTarget (hne : other ≠ id) : stage.Unseen (stage.removeTarget other) id := by
  have htarget : (stage.removeTarget other).target? id = stage.target? id := by
    rw [target?_removeTarget, if_neg hne.symm]
  have hstay : Running.ofTarget id (stage.running.filter fun run => run.target != other) =
      Running.ofTarget id stage.running := by
    rw [Running.ofTarget, Running.ofTarget, List.filter_filter]
    apply List.filter_congr
    intro run _
    by_cases hmine : run.target = id
    · simp [hmine, hne.symm]
    · simp [hmine]
  unfold removeTarget at htarget ⊢
  split at htarget
  · exact .refl stage id
  · exact ⟨⟨rfl, htarget, hstay, rfl⟩, rfl⟩

theorem unseen_editTarget (hne : other ≠ id) (edit : Target α → Target α) :
    stage.Unseen (stage.editTarget other edit) id := by
  have htarget : (stage.editTarget other edit).target? id = stage.target? id := by
    rw [target?_editTarget, if_neg hne.symm]
  unfold editTarget at htarget ⊢
  split at htarget
  · exact .refl stage id
  · exact ⟨⟨rfl, htarget, rfl, rfl⟩, rfl⟩

theorem unseen_stop {animation : AnimationId}
    (foreign : ∀ run ∈ stage.running, run.target = id → run.id ≠ animation) :
    stage.Unseen (stage.stop animation) id := by
  refine ⟨⟨rfl, rfl, ?_, rfl⟩, rfl⟩
  rw [stop, Running.ofTarget, Running.ofTarget, List.filter_filter]
  apply List.filter_congr
  intro run hrun
  by_cases hmine : run.target = id
  · simp [foreign run hrun hmine]
  · simp [hmine]

variable [Scalar α] [Eases α]

theorem unseen_launch (hne : other ≠ id) {text : String} {now : α} {signal : Option Nat}
    {routine : Routine} {animation : AnimationId}
    (h : stage.launch other text now signal routine = .ok (animation, next)) :
    stage.Unseen next id := by
  obtain ⟨target, turn, -, -, -, rfl⟩ := launch_ok h
  refine ⟨⟨rfl, ?_, ?_, ?_⟩, rfl⟩
  · rw [target?, Roster.get?_insert, if_neg hne.symm, target?]
  · simp [Running.ofTarget, hne]
  · have hforeign : StageEvent.ofTarget id (eventsOf animation other turn.beats) = [] :=
      List.filter_eq_nil_iff.mpr fun event hmem => by
        obtain ⟨found, -, rfl⟩ := List.mem_map.mp hmem
        simpa [StageEvent.target] using hne
    rw [StageEvent.ofTarget_append, hforeign, List.append_nil]

theorem unseen_make {own : List AnimationId} {move : Move α}
    (foreign : stage.concerns id own move = false)
    (known : ∀ run ∈ stage.running, run.target = id → run.id ∈ own) :
    stage.Unseen (stage.make move) id := by
  cases move with
  | edit other change => exact unseen_editTarget (by simpa [concerns] using foreign) change
  | operate operation =>
      cases operation with
      | addTarget target =>
          have hne : (stage.addTarget target).1 ≠ id := by simpa [concerns] using foreign
          refine ⟨⟨rfl, ?_, rfl, rfl⟩, rfl⟩
          rw [make, perform, target?_addTarget, if_neg hne.symm]
      | removeTarget other => exact unseen_removeTarget (by simpa [concerns] using foreign)
      | animate other text now signal =>
          have hne : other ≠ id := by simpa [concerns] using foreign
          exact settle_cases (.refl stage id) fun _ _ hok => unseen_launch hne hok
      | play other script now =>
          have hne : other ≠ id := by simpa [concerns] using foreign
          exact settle_cases (.refl stage id) fun _ _ hok => unseen_launch hne (play_ok hok)
      | stop animation =>
          have hforeign : animation ∉ own := by simpa [concerns] using foreign
          exact unseen_stop fun run hrun hmine hid => hforeign (hid ▸ known run hrun hmine)
      | update now => cases foreign

end Others

end Stage

end MotionNotation
