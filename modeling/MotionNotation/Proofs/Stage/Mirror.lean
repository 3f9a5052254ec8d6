import MotionNotation.Easing.Transcendental
import MotionNotation.Proofs.Stage.Operation
import MotionNotation.Proofs.Stage.Replay

/-!
# Mirrors

A host copies every target that it adds and overwrites its copies from the
report of each update.  A start writes its target at once and tells nothing, so
the host is behind until the next update, which writes the same channels again.
If the animation is stopped before, they are adrift until something else writes
them.
-/

namespace MotionNotation

def Running.cells {α : Type} [Scalar α] (run : Running α) : List (TargetId × Channel) :=
  run.animation.channels.map fun channel => (run.target, channel)

section Cells

variable {α : Type}

theorem Stage.valueAt?_removeTarget (stage : Stage α) (id other : TargetId) (channel : Channel) :
    (stage.removeTarget id).targets.valueAt? other channel =
      if other = id then none else stage.targets.valueAt? other channel := by
  have h := stage.target?_removeTarget id other
  rw [Stage.target?, Stage.target?] at h
  rw [Roster.valueAt?, h]
  split <;> rfl

variable [Scalar α]

theorem Running.target_of_mem_cells {runs : List (Running α)} {id : TargetId} {channel : Channel}
    (h : (id, channel) ∈ runs.flatMap Running.cells) :
    ∃ run ∈ runs, run.target = id ∧ channel ∈ run.animation.channels := by
  obtain ⟨run, hrun, hcell⟩ := List.mem_flatMap.mp h
  obtain ⟨found, hchannel, heq⟩ := List.mem_map.mp hcell
  cases heq
  exact ⟨run, hrun, rfl, hchannel⟩

theorem Running.mem_cells {runs : List (Running α)} {run : Running α} {channel : Channel}
    (hrun : run ∈ runs) (h : channel ∈ run.animation.channels) :
    (run.target, channel) ∈ runs.flatMap Running.cells :=
  List.mem_flatMap.mpr ⟨run, hrun, List.mem_map_of_mem h⟩

end Cells

structure Mirror (α : Type) where
  stage : Stage α
  copies : Roster α
  fresh : List (Running α)
  /-- What an animation has written that was started and stopped between two
  updates. -/
  adrift : List (TargetId × Channel)
  deriving DecidableEq, Repr

namespace Mirror

open Stage (Operation)

variable {α : Type}

def start (config : Config α) : Mirror α :=
  ⟨.start config, .empty, [], []⟩

variable [Scalar α] [Eases α]

def perform (mirror : Mirror α) (operation : Operation α) : Mirror α :=
  let next := mirror.stage.perform operation
  match operation with
  | .addTarget target =>
    let id := (mirror.stage.addTarget target).1
    ⟨next, mirror.copies.insert id target, mirror.fresh,
      mirror.adrift.filter fun cell => cell.1 != id⟩
  | .removeTarget id =>
    ⟨next, mirror.copies, mirror.fresh.filter fun run => run.target != id, mirror.adrift⟩
  | .animate .. | .play .. =>
    ⟨next, mirror.copies, mirror.fresh ++ next.running.drop mirror.stage.running.length,
      mirror.adrift⟩
  | .stop id =>
    ⟨next, mirror.copies, mirror.fresh.filter fun run => run.id != id,
      mirror.adrift ++ (mirror.fresh.filter fun run => run.id == id).flatMap Running.cells⟩
  | .update _ =>
    ⟨next, Change.replay mirror.copies next.report.changes, [],
      mirror.adrift.filter fun cell =>
        (Change.valueAt? next.report.changes cell.1 cell.2).isNone⟩

def run (mirror : Mirror α) (operations : List (Operation α)) : Mirror α :=
  operations.foldl perform mirror

@[simp] theorem run_concat (mirror : Mirror α) (operations : List (Operation α))
    (operation : Operation α) :
    mirror.run (operations ++ [operation]) = (mirror.run operations).perform operation := by
  simp [run]

@[simp] theorem perform_stage (mirror : Mirror α) (operation : Operation α) :
    (mirror.perform operation).stage = mirror.stage.perform operation := by
  cases operation <;> rfl

theorem run_stage (mirror : Mirror α) (operations : List (Operation α)) :
    (mirror.run operations).stage = mirror.stage.run operations := by
  induction operations using List.reverseRecOn with
  | nil => rfl
  | append_singleton operations operation ih => simp [ih]

/-! ## The invariant -/

/-- The host has a copy of every target, and is behind where something was
started or is adrift and nowhere else. -/
structure Holds (mirror : Mirror α) : Prop where
  running : mirror.fresh ⊆ mirror.stage.running
  kept : ∀ id channel, (mirror.stage.targets.valueAt? id channel).isSome = true →
    (mirror.copies.valueAt? id channel).isSome = true
  agrees : ∀ id channel, (mirror.stage.targets.valueAt? id channel).isSome = true →
    (id, channel) ∉ mirror.adrift →
    (id, channel) ∉ mirror.fresh.flatMap Running.cells →
      mirror.copies.valueAt? id channel = mirror.stage.targets.valueAt? id channel

namespace Holds

variable {mirror : Mirror α}

omit [Eases α] in
theorem start (config : Config α) : (Mirror.start config).Holds where
  running := List.nil_subset _
  kept := by simp [Mirror.start, Stage.start, Roster.valueAt?]
  agrees := by simp [Mirror.start, Stage.start, Roster.valueAt?]

theorem addTarget (h : mirror.Holds) (target : Target α) :
    (mirror.perform (.addTarget target)).Holds where
  running := h.running
  kept := by
    intro id channel
    simp only [perform, Stage.perform, Stage.addTarget, Roster.valueAt?_insert]
    split
    · simp
    · exact h.kept id channel
  agrees := by
    intro id channel
    simp only [perform, Stage.perform, Stage.addTarget, Roster.valueAt?_insert]
    intro hsome hadrift hfresh
    split
    · rfl
    · rename_i hid
      rw [if_neg hid] at hsome
      refine h.agrees id channel hsome (fun hmem => hadrift ?_) hfresh
      exact List.mem_filter.mpr ⟨hmem, by simpa using hid⟩

theorem removeTarget (h : mirror.Holds) (id : TargetId) :
    (mirror.perform (.removeTarget id)).Holds where
  running := by
    intro run hmem
    obtain ⟨hfresh, htarget⟩ := List.mem_filter.mp hmem
    have hrunning := h.running hfresh
    simp only [perform, Stage.perform, Stage.removeTarget]
    split
    · exact hrunning
    · exact List.mem_filter.mpr ⟨hrunning, htarget⟩
  kept := by
    intro other channel
    simp only [perform, Stage.perform, Stage.valueAt?_removeTarget]
    split
    · simp
    · exact h.kept other channel
  agrees := by
    intro other channel
    simp only [perform, Stage.perform, Stage.valueAt?_removeTarget]
    intro hsome hadrift hfresh
    split
    · rename_i hid
      simp [hid] at hsome
    · rename_i hid
      rw [if_neg hid] at hsome
      refine h.agrees other channel hsome hadrift fun hmem => hfresh ?_
      obtain ⟨run, hrun, rfl, hchannel⟩ := Running.target_of_mem_cells hmem
      exact Running.mem_cells (List.mem_filter.mpr ⟨hrun, by simpa using hid⟩) hchannel

theorem launch (h : mirror.Holds) {next : Stage α} {id : TargetId} {text : String} {now : α}
    {signal : Option Nat} {routine : Routine} {animation : AnimationId}
    (hok : mirror.stage.launch id text now signal routine = .ok (animation, next)) :
    Holds ⟨next, mirror.copies,
      mirror.fresh ++ next.running.drop mirror.stage.running.length, mirror.adrift⟩ := by
  obtain ⟨target, turn, htarget, hturn, -, rfl⟩ := Stage.launch_ok hok
  have hwrites : turn.target = target.writeAll (GroupBeat.writes turn.beats) ∧
      (GroupBeat.writes turn.beats).map Write.channel = turn.animation.channels := by
    obtain ⟨segments, -, rfl⟩ := Animation.launch_ok hturn
    exact ⟨Animation.startFrom_target .., Animation.startFrom_channels ..⟩
  have hvalue := Stage.valueAt?_of_target? htarget
  simp only [List.drop_left]
  constructor
  case running =>
    exact List.append_subset.mpr
      ⟨List.subset_append_of_subset_left _ h.running, List.subset_append_right ..⟩
  case kept =>
    intro other channel
    rw [Roster.valueAt?_insert]
    split
    · rename_i hid
      intro _
      exact h.kept other channel (by rw [hid, hvalue]; rfl)
    · exact h.kept other channel
  case agrees =>
    intro other channel hsome hadrift hfresh
    rw [List.flatMap_append, List.mem_append, not_or] at hfresh
    rw [Roster.valueAt?_insert] at hsome ⊢
    by_cases hid : other = id
    · subst hid
      have hchannel : channel ∉ (GroupBeat.writes turn.beats).map Write.channel := by
        rw [hwrites.2]
        intro hmem
        exact hfresh.2 (Running.mem_cells List.mem_cons_self hmem)
      rw [if_pos rfl, hwrites.1, Target.get_writeAll_of_notMem hchannel, ← hvalue channel]
      exact h.agrees other channel (by rw [hvalue]; rfl) hadrift hfresh.1
    · rw [if_neg hid] at hsome ⊢
      exact h.agrees other channel hsome hadrift hfresh.1

theorem settle (h : mirror.Holds) (attempt : Except Stage.Error (AnimationId × Stage α))
    (hattempt : ∀ animation next, attempt = .ok (animation, next) →
      ∃ id text now signal routine,
        mirror.stage.launch id text now signal routine = .ok (animation, next)) :
    Holds ⟨mirror.stage.settle attempt, mirror.copies,
      mirror.fresh ++ (mirror.stage.settle attempt).running.drop mirror.stage.running.length,
      mirror.adrift⟩ := by
  cases attempt with
  | ok result =>
      obtain ⟨animation, next⟩ := result
      obtain ⟨id, text, now, signal, routine, hok⟩ := hattempt animation next rfl
      exact h.launch hok
  | error error =>
      simpa [Stage.settle] using h

theorem stop (h : mirror.Holds) (id : AnimationId) : (mirror.perform (.stop id)).Holds where
  running := by
    intro run hmem
    obtain ⟨hfresh, hid⟩ := List.mem_filter.mp hmem
    exact List.mem_filter.mpr ⟨h.running hfresh, hid⟩
  kept := h.kept
  agrees := by
    intro other channel hsome hadrift hfresh
    simp only [perform, List.mem_append, not_or] at hadrift hfresh
    refine h.agrees other channel hsome hadrift.1 fun hmem => ?_
    obtain ⟨run, hrun, rfl, hchannel⟩ := Running.target_of_mem_cells hmem
    by_cases hid : run.id = id
    · exact hadrift.2 (Running.mem_cells (List.mem_filter.mpr ⟨hrun, by simpa using hid⟩) hchannel)
    · exact hfresh (Running.mem_cells (List.mem_filter.mpr ⟨hrun, by simpa using hid⟩) hchannel)

theorem update (h : mirror.Holds) (now : α) : (mirror.perform (.update now)).Holds := by
  have hchanges : (mirror.stage.update now).report.changes =
      (mirror.stage.sweep now).changes.foldl Change.record [] := rfl
  have hdistinct := Change.foldl_record_distinct (mirror.stage.sweep now).changes
  rw [← hchanges] at hdistinct
  have htargets := mirror.stage.valueAt?_update now
  constructor
  case running => exact List.nil_subset _
  case kept =>
    intro id channel
    simp only [perform, Stage.perform, htargets,
      Change.valueAt?_replay_of_distinct hdistinct, Option.isSome_map]
    exact h.kept id channel
  case agrees =>
    intro id channel
    simp only [perform, Stage.perform, htargets,
      Change.valueAt?_replay_of_distinct hdistinct, Option.isSome_map]
    intro hsome hadrift _
    cases hvalue : Change.valueAt? (mirror.stage.update now).report.changes id channel with
    | some value =>
        obtain ⟨old, hold⟩ := Option.isSome_iff_exists.mp hsome
        obtain ⟨copied, hcopied⟩ := Option.isSome_iff_exists.mp (h.kept id channel hsome)
        simp [hold, hcopied]
    | none =>
        have hunwritten : ¬ ∃ change ∈ (mirror.stage.sweep now).changes,
            change.target = id ∧ change.channel = channel := by
          rw [← Change.valueAt?_foldl_record_isSome_iff, ← hchanges, hvalue]
          simp
        rw [h.agrees id channel hsome]
        · intro hmem
          exact hadrift (List.mem_filter.mpr ⟨hmem, by simp [hvalue]⟩)
        · intro hmem
          obtain ⟨run, hrun, rfl, hchannel⟩ := Running.target_of_mem_cells hmem
          apply hunwritten
          refine Stage.mem_changes_sweepFrom (h.running hrun) ?_ hchannel
          simpa [Roster.valueAt?] using hsome

theorem perform (h : mirror.Holds) (operation : Operation α) :
    (mirror.perform operation).Holds := by
  cases operation with
  | addTarget target => exact h.addTarget target
  | removeTarget id => exact h.removeTarget id
  | animate id text now signal =>
      exact h.settle (mirror.stage.animate id text now signal) fun animation next hok =>
        ⟨id, text, now, signal, .single, hok⟩
  | play id script now =>
      exact h.settle (mirror.stage.play id script now) fun animation next hok =>
        ⟨id, script.opening.1, now, none, script.opening.2, Stage.play_ok hok⟩
  | stop id => exact h.stop id
  | update now => exact h.update now

theorem run (h : mirror.Holds) (operations : List (Operation α)) :
    (mirror.run operations).Holds := by
  induction operations using List.reverseRecOn with
  | nil => exact h
  | append_singleton operations operation ih =>
      rw [run_concat]
      exact ih.perform operation

omit [Eases α] in
theorem copy_agrees (h : mirror.Holds) (hfresh : mirror.fresh = []) {id : TargetId}
    {target : Target α} (htarget : mirror.stage.target? id = some target) :
    ∃ copy, mirror.copies.get? id = some copy ∧
      ∀ channel, (id, channel) ∉ mirror.adrift → copy.get channel = target.get channel := by
  have hvalue := Stage.valueAt?_of_target? htarget
  have hkept := h.kept id .scale (by rw [hvalue]; rfl)
  rw [Roster.valueAt?, Option.isSome_map] at hkept
  obtain ⟨copy, hcopy⟩ := Option.isSome_iff_exists.mp hkept
  refine ⟨copy, hcopy, fun channel hadrift => ?_⟩
  have hagrees := h.agrees id channel (by rw [hvalue]; rfl) hadrift
    (by rw [hfresh]; exact List.not_mem_nil)
  rw [hvalue, Roster.valueAt?, hcopy] at hagrees
  exact Option.some.inj hagrees

end Holds

/-! ## Runs -/

theorem adrift_run_of_no_stop (config : Config α) (operations : List (Operation α))
    (h : ∀ id, .stop id ∉ operations) : ((start config).run operations).adrift = [] := by
  induction operations using List.reverseRecOn with
  | nil => rfl
  | append_singleton operations operation ih =>
      have hbefore : ((start config).run operations).adrift = [] :=
        ih fun id hmem => h id (List.mem_append_left _ hmem)
      rw [run_concat]
      cases operation with
      | stop id => exact absurd (List.mem_append_right _ (List.mem_singleton_self _)) (h id)
      | addTarget target => simp [perform, hbefore]
      | update now => simp [perform, hbefore]
      | removeTarget id => exact hbefore
      | animate id text now signal => exact hbefore
      | play id script now => exact hbefore

/-- Right after an update the host has every registered target as the stage has
it, up to what is adrift. -/
theorem copies_agree (config : Config α) (operations : List (Operation α)) (now : α) :
    let mirror := (start config).run (operations ++ [.update now])
    mirror.stage = (Stage.start config).run (operations ++ [.update now]) ∧
      ∀ id target, mirror.stage.target? id = some target →
        ∃ copy, mirror.copies.get? id = some copy ∧
          ∀ channel, (id, channel) ∉ mirror.adrift → copy.get channel = target.get channel := by
  have holds := (Holds.start config).run (operations ++ [.update now])
  have hfresh : ((start config).run (operations ++ [.update now])).fresh = [] := by
    rw [run_concat]
    rfl
  exact ⟨run_stage .., fun id target htarget => holds.copy_agrees hfresh htarget⟩

theorem copies_agree_of_late_stop :
    let operations : List (Operation Float) :=
      [.addTarget .standard, .animate ⟨0⟩ "!x5o2,y3" 0 none, .update 0, .stop ⟨0⟩,
        .play ⟨0⟩ ⟨some "z4", "r90", true⟩ 0, .update 1]
    let mirror := (start .standard).run operations
    mirror.adrift = [] ∧
      ∃ target copy, mirror.stage.target? ⟨0⟩ = some target ∧
        mirror.copies.get? ⟨0⟩ = some copy ∧
        ∀ channel, copy.get channel = target.get channel := by
  intro operations mirror
  have hadrift : mirror.adrift = [] := by decide +kernel
  have htarget : (mirror.stage.target? ⟨0⟩).isSome = true := by decide +kernel
  obtain ⟨target, htarget⟩ := Option.isSome_iff_exists.mp htarget
  obtain ⟨-, hcopies⟩ := copies_agree (Config.standard : Config Float) operations.dropLast 1
  obtain ⟨copy, hcopy, hagrees⟩ := hcopies ⟨0⟩ target htarget
  refine ⟨hadrift, target, copy, htarget, hcopy, fun channel => hagrees channel ?_⟩
  have hnone : (⟨0⟩, channel) ∉ mirror.adrift := by
    rw [hadrift]
    exact List.not_mem_nil
  exact hnone

/-- A start that is stopped at once: the target has moved and the host has not
been told. -/
theorem copies_differ_of_early_stop :
    let mirror := (start (Config.standard : Config Float)).run
      [.addTarget .standard, .animate ⟨0⟩ "!x5" 0 none, .stop ⟨0⟩, .update 0]
    mirror.stage.report.changes = [] ∧
      mirror.stage.targets.valueAt? ⟨0⟩ (.translation .x) = some 5 ∧
      mirror.copies.valueAt? ⟨0⟩ (.translation .x) = some 0 := by
  decide +kernel

end Mirror

end MotionNotation
