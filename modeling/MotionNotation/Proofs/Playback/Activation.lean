import MotionNotation.Proofs.Playback.Chronicle

/-!
# Activations

The events that an animation tells from its start on, when each update may find
a target that others have changed.  The groups tell their events in any order
among each other, but each of them tells a beginning of its score, and all of it
when the animation has finished.
-/

namespace MotionNotation

open Stream' (Seq)

variable {α : Type}

namespace GroupEvent

def ofGroup (group : Nat) (events : List (GroupEvent α)) : List (Kind α) :=
  events.filterMap fun event => if event.group = group then some event.kind else none

@[simp] theorem ofGroup_append (group : Nat) (first second : List (GroupEvent α)) :
    ofGroup group (first ++ second) = ofGroup group first ++ ofGroup group second :=
  List.filterMap_append

end GroupEvent

namespace Plan

structure Begun (plans : List (Plan α)) (told : List (GroupEvent α)) : Prop where
  groups : ∀ event ∈ told, event.group < plans.length
  score : ∀ group plan, plans[group]? = some plan →
    ∃ rest, plan.score = (Seq.ofList (GroupEvent.ofGroup group told)).append rest

structure Played (plans : List (Plan α)) (told : List (GroupEvent α)) : Prop where
  groups : ∀ event ∈ told, event.group < plans.length
  score : ∀ group plan, plans[group]? = some plan →
    plan.score = Seq.ofList (GroupEvent.ofGroup group told)

theorem Begun.of_append {plans : List (Plan α)} {first second : List (GroupEvent α)}
    (h : Begun plans (first ++ second)) : Begun plans first where
  groups := fun event hmem => h.groups event (List.mem_append_left _ hmem)
  score := by
    intro group plan hplan
    obtain ⟨rest, hrest⟩ := h.score group plan hplan
    refine ⟨(Seq.ofList (GroupEvent.ofGroup group second)).append rest, ?_⟩
    rw [hrest, GroupEvent.ofGroup_append, Seq.ofList_append, Seq.append_assoc]

end Plan

variable [Scalar α] [Eases α]

namespace Animation

inductive Activation (segments : List (Segment α)) : List (GroupEvent α) → Animation α → Prop
  | start (target : Target α) (now : α) (signal : Option Nat) :
      Activation segments (GroupBeat.events (start segments target now signal).beats)
        (start segments target now signal).animation
  | update {told : List (GroupEvent α)} {animation : Animation α}
      (activation : Activation segments told animation) (target : Target α) (now : α) :
      Activation segments (told ++ GroupBeat.events (animation.update target now).beats)
        (animation.update target now).animation

namespace Activation

variable {segments : List (Segment α)} {told : List (GroupEvent α)} {animation : Animation α}

theorem groups (activation : Activation segments told animation) :
    animation.groupCount = segments.length ∧ ∀ event ∈ told, event.group < segments.length := by
  induction activation with
  | start target now signal =>
      refine ⟨length_startFrom .., fun event hmem => ?_⟩
      obtain ⟨entry, hentry, hgroup⟩ := GroupBeat.group_of_mem_events hmem
      have hbound := (group_of_mem_startFrom hentry).2
      omega
  | @update told animation _ target now ih =>
      obtain ⟨hcount, htold⟩ := ih
      refine ⟨by rw [groupCount_update, hcount], fun event hmem => ?_⟩
      rcases List.mem_append.mp hmem with hmem | hmem
      · exact htold event hmem
      · obtain ⟨entry, hentry, hgroup⟩ := GroupBeat.group_of_mem_events hmem
        have hbound := (group_of_mem_updateFrom hentry).2
        rw [groupCount] at hcount
        omega

theorem track (activation : Activation segments told animation) {group : Nat}
    {segment : Segment α} (h : segments[group]? = some segment) :
    ∃ track signal heard, animation.tracks[group]? = some track ∧
      Track.Run segment.steps signal heard track ∧
      GroupEvent.ofGroup group told = Beat.events heard.flatten := by
  induction activation with
  | start target now signal =>
      obtain ⟨found, htrack, hbeats⟩ := startFrom_getElem? h 0 signal target now
      rw [Nat.zero_add] at hbeats
      refine ⟨_, _, _, htrack, .start found now, ?_⟩
      rw [List.flatten_singleton, ← hbeats]
      exact (GroupBeat.events_ofGroup group _).symm
  | @update told animation _ target now ih =>
      obtain ⟨track, signal, heard, htrack, run, htold⟩ := ih
      obtain ⟨found, hnext, hbeats⟩ := updateFrom_getElem? htrack 0 target now
      rw [Nat.zero_add] at hbeats
      refine ⟨_, signal, _, hnext, run.update found now, ?_⟩
      rw [GroupEvent.ofGroup_append, htold, List.flatten_append, Beat.events_append,
        List.flatten_singleton, ← hbeats]
      congr 1
      exact (GroupBeat.events_ofGroup group _).symm

theorem begun (activation : Activation segments told animation) :
    Plan.Begun (segments.map Segment.plan) told where
  groups := by
    rw [List.length_map]
    exact activation.groups.2
  score := by
    intro group plan hplan
    rw [List.getElem?_map, Option.map_eq_some_iff] at hplan
    obtain ⟨segment, hsegment, rfl⟩ := hplan
    obtain ⟨track, signal, heard, -, run, htold⟩ := activation.track hsegment
    refine ⟨track.phase.score, ?_⟩
    rw [htold, ← run.score, segment.steps_plan, Plan.score]

theorem played (activation : Activation segments told animation)
    (finished : animation.status = .finished) :
    Plan.Played (segments.map Segment.plan) told where
  groups := activation.begun.groups
  score := by
    intro group plan hplan
    rw [List.getElem?_map, Option.map_eq_some_iff] at hplan
    obtain ⟨segment, hsegment, rfl⟩ := hplan
    obtain ⟨track, signal, heard, htrack, run, htold⟩ := activation.track hsegment
    have hall : animation.isFinished = true := by
      rw [status] at finished
      by_contra hunfinished
      rw [if_neg hunfinished] at finished
      cases finished
    have hfinished : track.isFinished = true :=
      List.all_eq_true.mp hall track (List.mem_of_getElem? htrack)
    rw [htold, ← run.isFinished_iff.mp hfinished, segment.steps_plan, Plan.score]

end Activation

end Animation

end MotionNotation
