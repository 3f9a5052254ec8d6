import MotionNotation.Description.Basic
import MotionNotation.Proofs.Playback.Timekeeping
import MotionNotation.Proofs.Rounding.Sign

/-!
# Told and kept times

A description tells the planned duration of each pipe, and so does the event
that starts it.  The timer of the pipe keeps to it unless the duration is
negative: then the timer takes no time, and what was told is not what happens.
-/

namespace MotionNotation

/-! ## The end of a sentence -/

theorem append_instantly_ne (first second : String) :
    first ++ " instantly." ≠ second ++ " seconds." := by
  intro h
  have hlast := congrArg (fun text => text.toList.reverse[1]?) h
  simp at hlast

namespace PipePlan

def ToldInstantly (plan : PipePlan Float) (actions : List (Action Float)) : Prop :=
  ∃ beginning, plan.sentence actions = beginning ++ " instantly."

theorem toldInstantly_iff (plan : PipePlan Float) (actions : List (Action Float)) :
    plan.ToldInstantly actions ↔ plan.deeds actions ≠ "" ∧ (plan.duration == 0) = true := by
  unfold ToldInstantly sentence
  constructor
  · rintro ⟨beginning, h⟩
    dsimp only at h
    split at h
    · exact absurd h.symm (append_instantly_ne beginning _)
    · rename_i hdeeds
      refine ⟨hdeeds, ?_⟩
      by_contra hduration
      rw [ending, if_neg hduration, ← String.append_assoc, ← String.append_assoc,
        ← String.append_assoc] at h
      exact append_instantly_ne beginning _ h.symm
  · rintro ⟨hdeeds, hduration⟩
    dsimp only
    rw [if_neg hdeeds, ending, if_pos hduration, ← String.append_assoc]
    exact ⟨_, rfl⟩

structure Punctual (plan : PipePlan Float) (actions : List (Action Float))
    (timer : Timer Float) : Prop where
  duration : (timer.duration == plan.duration) = true
  instantly : plan.deeds actions ≠ "" →
    (plan.ToldInstantly actions ↔ (timer.duration == 0) = true)

theorem punctual_iff {plan : PipePlan Float} (finite : plan.duration.isFinite = true)
    (actions : List (Action Float)) {timer : Timer Float}
    (length : timer.duration = Scalar.clampNonneg plan.duration) :
    plan.Punctual actions timer ↔ ¬ plan.duration < 0 := by
  constructor
  · intro h
    have hduration := h.duration
    rw [length] at hduration
    exact (Scalar.clampNonneg_beq_iff finite).mp hduration
  · intro nonneg
    refine ⟨?_, fun hdeeds => ?_⟩
    · rw [length]
      exact (Scalar.clampNonneg_beq_iff finite).mpr nonneg
    · rw [toldInstantly_iff, length, Scalar.clampNonneg_beq_zero_iff finite nonneg]
      exact and_iff_right hdeeds

end PipePlan

/-! ## A whole notation -/

namespace Segment

def staged (segment : Segment Float) (target : Target Float) (plan : PipePlan Float) :
    List (Action Float) :=
  (segment.grid.pipe plan.index).map (·.rebase target)

theorem sentences_eq (segment : Segment Float) (target : Target Float) :
    segment.sentences target =
      segment.plan.pipes.map fun plan => plan.sentence (segment.staged target plan) := rfl

end Segment

namespace Animation

/-- What is told of the time of a pipe is kept in exactly the pipes whose planned
duration is not negative, whenever they start and however they are updated. -/
theorem launch_punctual_iff {config : Config Float} {target : Target Float} {text : String}
    {segments : List (Segment Float)} (hread : Segment.readAll config target text = .ok segments)
    (finite : ∀ segment ∈ segments, ∀ plan ∈ segment.plan.pipes,
      plan.duration.isFinite = true) (now : Float) (signal : Option Nat) :
    ∃ turn, launch config target text now signal = .ok turn ∧
      ∀ group segment, segments[group]? = some segment →
        turn.KeepsTime now group segment.plan.pipes ∧
        segment.sentences target =
          segment.plan.pipes.map (fun plan => plan.sentence (segment.staged target plan)) ∧
        ∀ plan ∈ segment.plan.pipes,
          (∀ time, plan.Punctual (segment.staged target plan) (plan.timer time) ↔
            ¬ plan.duration < 0) ∧
          ∀ times track timer, (turn.last times).animation.tracks[group]? = some track →
            track.Plays plan timer →
              (plan.Punctual (segment.staged target plan) timer ↔ ¬ plan.duration < 0) := by
  have hlaunch : launch config target text now signal =
      .ok (start segments target now signal) := by
    rw [launch, hread]
  refine ⟨_, hlaunch, fun group segment hsegment => ?_⟩
  have htime := start_keepsTime hsegment target now signal
  refine ⟨htime, segment.sentences_eq target, fun plan hplan => ?_⟩
  have hfinite := finite segment (List.mem_of_getElem? hsegment) plan hplan
  constructor
  · intro time
    exact PipePlan.punctual_iff hfinite _ rfl
  · intro times track timer htrack hplays
    exact PipePlan.punctual_iff hfinite _ (htime.plays times track plan timer htrack hplays).2

theorem launch_punctual_of_two_pipes :
    ∃ segments : List (Segment Float),
      Segment.readAll Config.standard Target.standard "d-1>50|d2x3" = .ok segments ∧
      (∀ segment ∈ segments, ∀ plan ∈ segment.plan.pipes, plan.duration.isFinite = true) ∧
      ∃ turn, launch Config.standard Target.standard "d-1>50|d2x3" 0 none = .ok turn ∧
        ∀ group segment, segments[group]? = some segment →
          turn.KeepsTime 0 group segment.plan.pipes ∧
          segment.sentences Target.standard =
            segment.plan.pipes.map
              (fun plan => plan.sentence (segment.staged Target.standard plan)) ∧
          ∀ plan ∈ segment.plan.pipes,
            (∀ time, plan.Punctual (segment.staged Target.standard plan) (plan.timer time) ↔
              ¬ plan.duration < 0) ∧
            ∀ times track timer, (turn.last times).animation.tracks[group]? = some track →
              track.Plays plan timer →
                (plan.Punctual (segment.staged Target.standard plan) timer ↔
                  ¬ plan.duration < 0) := by
  have hok : (Segment.readAll Config.standard (Target.standard : Target Float)
      "d-1>50|d2x3").toOption.any (fun segments => segments.all fun segment =>
        segment.plan.pipes.all fun plan => plan.duration.isFinite) = true := by decide +kernel
  cases hread : Segment.readAll Config.standard (Target.standard : Target Float)
      "d-1>50|d2x3" with
  | error full =>
      rw [hread] at hok
      cases hok
  | ok segments =>
      simp only [hread, Except.toOption, Option.any_some, List.all_eq_true] at hok
      exact ⟨segments, rfl, hok, launch_punctual_iff hread hok 0 none⟩

/-- A move in minus one second is told to take minus one second, and takes none. -/
theorem launch_unpunctual_of_negative :
    ∃ (turn : Turn Float) (segment : Segment Float) (plan : PipePlan Float)
      (track : Track Float) (timer : Timer Float),
      (Config.standard : Config Float).fault? = none ∧
      launch Config.standard Target.standard "d-1>50" 0 none = .ok turn ∧
      Segment.readAll Config.standard Target.standard "d-1>50" = .ok [segment] ∧
      segment.plan.pipes = [plan] ∧
      plan.duration.isFinite = true ∧
      GroupBeat.events turn.beats = [⟨0, .pipeStarted 0 (-1)⟩] ∧
      turn.animation.tracks[0]? = some track ∧
      track.Plays plan timer ∧
      timer.duration = 0 ∧
      Description.describe Config.standard Target.standard "d-1>50" =
        .ok "Move right 50 units, ease in/out quad over -1 seconds." ∧
      ¬ plan.Punctual (segment.staged Target.standard plan) timer := by
  refine ⟨_, _, _, _, _, by decide +kernel, rfl, rfl, rfl, by decide +kernel,
    by decide +kernel, rfl, ⟨_, _, rfl, rfl⟩, by decide +kernel, by decide +kernel, ?_⟩
  intro h
  exact absurd h.duration (by decide +kernel)

end Animation

end MotionNotation
