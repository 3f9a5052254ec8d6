import MotionNotation.Proofs.Notation.Matching
import MotionNotation.Proofs.Playback.Score

/-!
# Handing over

A pipe that completes hands over to the pipes behind it.  From then on the track
is one that has just been started for them, on the target that the pipe has left,
and has been told the time once.  Nothing of the pipes before is carried along,
and neither are the endpoints that the actions of later pipes had before.
-/

namespace MotionNotation

variable {α : Type}

namespace Beat

def completion? : Beat α → Option Nat
  | completed pipe => some pipe
  | _ => none

def completions (beats : List (Beat α)) : List Nat :=
  beats.filterMap completion?

@[simp] theorem completions_append (first second : List (Beat α)) :
    completions (first ++ second) = completions first ++ completions second :=
  List.filterMap_append

@[simp] theorem completions_map_wrote (writes : List (Write α)) :
    completions (writes.map wrote) = [] := by
  induction writes with
  | nil => rfl
  | cons write rest ih => simp [completions, completion?]

theorem completions_cons_completed (pipe : Nat) (beats : List (Beat α)) :
    completions (completed pipe :: beats) = pipe :: completions beats := rfl

theorem writes_cons_completed (pipe : Nat) (beats : List (Beat α)) :
    writes (completed pipe :: beats) = writes beats := rfl

theorem completions_ne_nil {beats before after : List (Beat α)} {pipe : Nat}
    (h : beats = before ++ completed pipe :: after) : completions beats ≠ [] := by
  simp [h, completions_cons_completed]

theorem completion_of_silent {silent rest before after : List (Beat α)} {pipe : Nat}
    (hsilent : completions silent = []) (h : silent ++ rest = before ++ completed pipe :: after) :
    ∃ between, before = silent ++ between ∧ rest = between ++ completed pipe :: after := by
  rcases List.append_eq_append_iff.mp h with ⟨between, hbefore, hrest⟩ | ⟨between, hsplit, hrest⟩
  · exact ⟨between, hbefore, hrest⟩
  · cases between with
    | nil => exact ⟨[], by simpa using hsplit.symm, by simpa using hrest.symm⟩
    | cons beat later =>
        obtain rfl : completed pipe = beat := (List.cons.inj hrest).1
        exact absurd hsilent (completions_ne_nil hsplit)

end Beat

namespace Track

@[simp] theorem after_after (turn : Turn α) (first second : List (Beat α)) :
    (turn.after second).after first = turn.after (first ++ second) := by
  simp [Turn.after]

@[simp] theorem completions_finishBeats (signal : Option Nat) :
    Beat.completions (finishBeats signal : List (Beat α)) = [] := by
  cases signal <;> rfl

def Phase.Reached (steps : List (Step α)) (told : List Nat) : Phase α → Prop
  | .playing step _ upcoming =>
      steps.map (·.plan.index) = told ++ step.plan.index :: upcoming.map (·.plan.index) ∧
        upcoming = steps.drop (told.length + 1)
  | .vacant | .finished => True

variable [Scalar α] [Eases α]

/-- A fresh track that is told the time at which it starts. -/
def resume (steps : List (Step α)) (signal : Option Nat) (target : Target α) (now : α) : Turn α :=
  let fresh := start steps signal target now
  (fresh.track.update fresh.target now).after fresh.beats

theorem resume_cons (next : Step α) (rest : List (Step α)) (signal : Option Nat)
    (target : Target α) (now : α) :
    resume (next :: rest) signal target now =
      (play signal (enter next target).1 ((enter next target).1.arm now) (enter next target).2.1
        now rest).after (enter next target).2.2 := rfl

@[simp] theorem completions_enter (step : Step α) (target : Target α) :
    Beat.completions (enter step target).2.2 = [] := by
  simp only [enter, Beat.completions_append, Beat.completions_map_wrote]
  rfl

theorem completions_stride_of_not_passed {step : Step α} {timer : Timer α} {target : Target α}
    {now : α} (h : (stride step timer target now).passed = false) :
    Beat.completions (stride step timer target now).beats = [] := by
  unfold stride at h ⊢
  split
  · exact Beat.completions_map_wrote _
  · simp only [loop, Beat.completions_append, Beat.completions_map_wrote]
    rfl
  all_goals
    rename_i hadvance
    simp [hadvance, pass] at h

theorem stride_of_passed {step : Step α} {timer : Timer α} {target : Target α} {now : α}
    (h : (stride step timer target now).passed = true) :
    (stride step timer target now).target = target.writeAll (step.writes 1) ∧
      (stride step timer target now).beats =
        (step.writes 1).map .wrote ++ [.completed step.plan.index] := by
  unfold stride at h ⊢
  split <;> simp_all [loop, pass]

theorem play_eq (signal : Option Nat) (step : Step α) (timer : Timer α) (target : Target α)
    (now : α) (upcoming : List (Step α)) :
    play signal step timer target now upcoming =
      if (stride step timer target now).passed then
        (resume upcoming signal (stride step timer target now).target now).after
          (stride step timer target now).beats
      else (stride step timer target now).stay upcoming signal := by
  cases upcoming with
  | nil => rfl
  | cons next rest =>
      simp only [play, resume, start, update, after_after]

theorem Phase.Reached.stay {steps upcoming : List (Step α)} {told : List Nat} {step : Step α}
    {timer : Timer α} {target : Target α} {now : α}
    (h : Reached steps told (.playing step timer upcoming))
    (hpassed : ¬(stride step timer target now).passed = true) :
    Reached steps (told ++ Beat.completions (stride step timer target now).beats)
      (.playing (stride step timer target now).step (stride step timer target now).timer
        upcoming) := by
  rw [completions_stride_of_not_passed (by simpa using hpassed), List.append_nil]
  simpa only [Reached, stride_plan] using h

theorem Phase.Reached.pass {steps rest : List (Step α)} {told : List Nat} {step next : Step α}
    {timer : Timer α} (h : Reached steps told (.playing step timer (next :: rest)))
    (target : Target α) (now : α) :
    Reached steps (told ++ [step.plan.index])
      (.playing (enter next target).1 ((enter next target).1.arm now) rest) := by
  obtain ⟨hplans, hupcoming⟩ := h
  refine ⟨by rw [hplans, List.append_assoc]; rfl, ?_⟩
  rw [List.length_append, List.length_singleton, ← List.drop_drop, ← hupcoming]
  rfl

omit [Scalar α] [Eases α] in
theorem Phase.Reached.take {steps upcoming : List (Step α)} {told : List Nat} {step : Step α}
    {timer : Timer α} (h : Reached steps told (.playing step timer upcoming)) :
    (steps.map (·.plan.index)).take (told.length + 1) = told ++ [step.plan.index] := by
  rw [h.1, List.append_cons, List.take_left' (by simp)]

theorem play_of_passed {step : Step α} {timer : Timer α} {target : Target α} {now : α}
    (h : (stride step timer target now).passed = true) (signal : Option Nat)
    (upcoming : List (Step α)) :
    play signal step timer target now upcoming =
      (resume upcoming signal (target.writeAll (step.writes 1)) now).after
        ((step.writes 1).map .wrote ++ [.completed step.plan.index]) := by
  obtain ⟨htarget, hbeats⟩ := stride_of_passed h
  rw [play_eq, if_pos h, htarget, hbeats]

theorem play_reached (signal : Option Nat) {steps : List (Step α)} {told : List Nat}
    {step : Step α} {timer : Timer α} {upcoming : List (Step α)}
    (h : Phase.Reached steps told (.playing step timer upcoming)) (target : Target α) (now : α) :
    (play signal step timer target now upcoming).track.phase.Reached steps
      (told ++ Beat.completions (play signal step timer target now upcoming).beats) := by
  induction upcoming generalizing told step timer target with
  | nil =>
      simp only [play]
      split
      · trivial
      · rename_i hpassed
        exact h.stay hpassed
  | cons next rest ih =>
      simp only [play]
      split
      · rename_i hpassed
        simp only [after_track, after_beats, (stride_of_passed hpassed).2,
          Beat.completions_append, Beat.completions_map_wrote, completions_enter,
          List.nil_append, List.append_nil, ← List.append_assoc]
        exact ih (h.pass (stride step timer target now).target now) _
      · rename_i hpassed
        exact h.stay hpassed

theorem play_completion {signal : Option Nat} {step : Step α} {timer : Timer α}
    {target : Target α} {now : α} {upcoming : List (Step α)} {before after : List (Beat α)}
    {pipe : Nat}
    (h : (play signal step timer target now upcoming).beats =
      before ++ .completed pipe :: after) :
    (stride step timer target now).passed = true ∧
      ((before = (step.writes 1).map .wrote ∧ pipe = step.plan.index) ∨
        ∃ between, before = (step.writes 1).map .wrote ++ .completed step.plan.index :: between ∧
          (resume upcoming signal (target.writeAll (step.writes 1)) now).beats =
            between ++ .completed pipe :: after) := by
  rw [play_eq] at h
  split at h
  · rename_i hpassed
    obtain ⟨htarget, hbeats⟩ := stride_of_passed hpassed
    rw [htarget, hbeats, after_beats, List.append_assoc] at h
    refine ⟨hpassed, ?_⟩
    obtain ⟨between, rfl, hbetween⟩ :=
      Beat.completion_of_silent (Beat.completions_map_wrote (step.writes 1)) h
    cases between with
    | nil =>
        simp only [List.singleton_append, List.nil_append, List.cons.injEq,
          Beat.completed.injEq] at hbetween
        exact .inl ⟨List.append_nil _, hbetween.1.symm⟩
    | cons beat later =>
        simp only [List.cons_append, List.cons.injEq] at hbetween
        obtain ⟨rfl, hlater⟩ := hbetween
        exact .inr ⟨later, rfl, hlater⟩
  · rename_i hpassed
    exact absurd (completions_stride_of_not_passed (by simpa using hpassed))
      (Beat.completions_ne_nil h)

theorem play_of_completed (signal : Option Nat) {steps : List (Step α)} {told : List Nat}
    {step : Step α} {timer : Timer α} {upcoming : List (Step α)}
    (h : Phase.Reached steps told (.playing step timer upcoming)) (target : Target α) (now : α)
    {before after : List (Beat α)} {pipe : Nat}
    (hbeats : (play signal step timer target now upcoming).beats =
      before ++ .completed pipe :: after) :
    let passed := told ++ Beat.completions before
    (steps.map (·.plan.index)).take (passed.length + 1) = passed ++ [pipe] ∧
      play signal step timer target now upcoming =
        (resume (steps.drop (passed.length + 1)) signal (target.writeAll (Beat.writes before))
          now).after (before ++ [.completed pipe]) := by
  -- The pipes that pass before this one move over from what is upcoming to what has
  -- been told, so that the steps behind the completion stay the same.
  induction upcoming generalizing told step timer target before with
  | nil =>
      obtain ⟨hpassed, ⟨rfl, rfl⟩ | ⟨between, rfl, hbetween⟩⟩ := play_completion hbeats
      · simp only [Beat.completions_map_wrote, List.append_nil, Beat.writes_map_wrote, ← h.2]
        exact ⟨h.take, play_of_passed hpassed signal []⟩
      · exact absurd (completions_finishBeats signal) (Beat.completions_ne_nil hbetween)
  | cons next rest ih =>
      obtain ⟨hpassed, ⟨rfl, rfl⟩ | ⟨between, rfl, hbetween⟩⟩ := play_completion hbeats
      · simp only [Beat.completions_map_wrote, List.append_nil, Beat.writes_map_wrote, ← h.2]
        exact ⟨h.take, play_of_passed hpassed signal (next :: rest)⟩
      · rw [resume_cons, after_beats] at hbetween
        obtain ⟨later, rfl, hlater⟩ := Beat.completion_of_silent (completions_enter next _) hbetween
        obtain ⟨htake, hplay⟩ := ih (h.pass (target.writeAll (step.writes 1)) now) _ hlater
        have htold : told ++ Beat.completions ((step.writes 1).map .wrote ++
            .completed step.plan.index ::
              ((enter next (target.writeAll (step.writes 1))).2.2 ++ later)) =
            told ++ [step.plan.index] ++ Beat.completions later := by
          simp [Beat.completions_cons_completed]
        have hleft : target.writeAll (Beat.writes ((step.writes 1).map .wrote ++
            .completed step.plan.index ::
              ((enter next (target.writeAll (step.writes 1))).2.2 ++ later))) =
            (enter next (target.writeAll (step.writes 1))).2.1.writeAll (Beat.writes later) := by
          rw [enter_target, Beat.writes_append, Beat.writes_map_wrote,
            Beat.writes_cons_completed, Beat.writes_append, Target.writeAll_append,
            Target.writeAll_append]
        simp only [htold, hleft]
        refine ⟨htake, ?_⟩
        rw [play_of_passed hpassed, resume_cons, hplay, after_after, after_after]
        simp

theorem update_reached {steps : List (Step α)} {told : List Nat} {track : Track α}
    (h : track.phase.Reached steps told) (target : Target α) (now : α) :
    (track.update target now).track.phase.Reached steps
      (told ++ Beat.completions (track.update target now).beats) := by
  obtain ⟨phase, signal⟩ := track
  cases phase with
  | playing step timer upcoming => exact play_reached signal h target now
  | vacant => trivial
  | finished => trivial

theorem Run.reached {steps : List (Step α)} {signal : Option Nat} {heard : List (List (Beat α))}
    {track : Track α} (run : Run steps signal heard track) :
    track.phase.Reached steps (Beat.completions heard.flatten) := by
  induction run with
  | start target now =>
      cases steps with
      | nil => trivial
      | cons first upcoming =>
          have hsilent : Beat.completions
              [(Track.start (first :: upcoming) signal target now).beats].flatten = [] := by
            simp [Track.start]
          rw [hsilent]
          exact ⟨rfl, rfl⟩
  | update run target now ih =>
      simpa using update_reached ih target now

end Track

/-! ## Endpoints that nothing reads -/

def Action.unbased (action : Action α) : Action α :=
  { action with origin := action.value, goal := action.value }

namespace Step

def unbased (step : Step α) : Step α :=
  { step with actions := step.actions.map Action.unbased }

theorem rebase_unbased [Scalar α] (step : Step α) (target : Target α) :
    step.unbased.rebase target = step.rebase target := by
  simp only [rebase, unbased, List.map_map]
  rfl

end Step

namespace Track

def unbased (track : Track α) : Track α :=
  match track.phase with
  | .playing step timer upcoming =>
    { track with phase := .playing step timer (upcoming.map Step.unbased) }
  | .vacant | .finished => track

def Turn.unbased (turn : Turn α) : Turn α :=
  { turn with track := turn.track.unbased }

@[simp] theorem isFinished_unbased (track : Track α) :
    track.unbased.isFinished = track.isFinished := by
  obtain ⟨phase, signal⟩ := track
  cases phase <;> rfl

variable [Scalar α] [Eases α]

/-- What a track does at some times, each with the target that it then finds. -/
def shows (track : Track α) : List (Target α × α) → List (Target α × List (Beat α) × Bool)
  | [] => []
  | (target, now) :: rest =>
    let turn := track.update target now
    (turn.target, turn.beats, turn.track.isFinished) :: turn.track.shows rest

theorem enter_unbased (step : Step α) (target : Target α) :
    enter step.unbased target = enter step target := by
  simp only [enter, step.rebase_unbased target]
  rfl

theorem play_unbased (signal : Option Nat) (step : Step α) (timer : Timer α) (target : Target α)
    (now : α) (upcoming : List (Step α)) :
    play signal step timer target now (upcoming.map Step.unbased) =
      (play signal step timer target now upcoming).unbased := by
  induction upcoming generalizing step timer target with
  | nil =>
      simp only [List.map_nil, play]
      split <;> rfl
  | cons next rest ih =>
      simp only [List.map_cons, play, enter_unbased, ih]
      split <;> rfl

theorem update_unbased (track : Track α) (target : Target α) (now : α) :
    track.unbased.update target now = (track.update target now).unbased := by
  obtain ⟨phase, signal⟩ := track
  cases phase with
  | playing step timer upcoming => exact play_unbased signal step timer target now upcoming
  | vacant => rfl
  | finished => rfl

theorem shows_unbased (track : Track α) (schedule : List (Target α × α)) :
    track.unbased.shows schedule = track.shows schedule := by
  induction schedule generalizing track with
  | nil => rfl
  | cons entry rest ih =>
      simp only [shows, update_unbased]
      rw [Turn.unbased, ih, isFinished_unbased]

theorem start_unbased (steps : List (Step α)) (signal : Option Nat) (target : Target α) (now : α) :
    start (steps.map Step.unbased) signal target now = (start steps signal target now).unbased := by
  cases steps with
  | nil => rfl
  | cons first upcoming =>
      simp only [List.map_cons, start, enter_unbased]
      rfl

theorem resume_unbased (steps : List (Step α)) (signal : Option Nat) (target : Target α)
    (now : α) :
    resume (steps.map Step.unbased) signal target now =
      (resume steps signal target now).unbased := by
  rw [resume, start_unbased]
  simp only [Turn.unbased, update_unbased]
  rfl

end Track

theorem Segment.steps_unbased {first second : Grid α} (h : first.Matches Action.unbased second)
    (plan : Plan α) :
    (Segment.steps ⟨first, plan⟩).map Step.unbased =
      (Segment.steps ⟨second, plan⟩).map Step.unbased := by
  simp only [steps, List.map_map]
  apply List.map_congr_left
  intro pipe _
  simp only [Function.comp_apply, Step.unbased, h.pipe]

namespace Track

variable [Scalar α] [Eases α]

theorem update_of_completed {segment : Segment α} {signal : Option Nat}
    {heard : List (List (Beat α))} {track : Track α} (run : Run segment.steps signal heard track)
    {target : Target α} {now : α} {before after : List (Beat α)} {pipe : Nat}
    (h : (track.update target now).beats = before ++ .completed pipe :: after) :
    let passed := Beat.completions (heard.flatten ++ before)
    (segment.plan.pipes.map PipePlan.index).take (passed.length + 1) = passed ++ [pipe] ∧
      track.update target now =
        (resume (Segment.steps ⟨segment.grid, ⟨segment.plan.pipes.drop (passed.length + 1)⟩⟩)
          signal (target.writeAll (Beat.writes before)) now).after
            (before ++ [.completed pipe]) := by
  intro passed
  have hpipes : segment.steps.map (·.plan.index) = segment.plan.pipes.map PipePlan.index := by
    simp [Segment.steps, Function.comp_def]
  have hsteps : segment.steps.drop (passed.length + 1) =
      Segment.steps ⟨segment.grid, ⟨segment.plan.pipes.drop (passed.length + 1)⟩⟩ := by
    rw [Segment.steps, ← List.map_drop]
    rfl
  have hreached := run.reached
  obtain ⟨phase, given⟩ := track
  cases phase with
  | playing step timer upcoming =>
      obtain rfl : given = signal := run.keeps_signal rfl
      have hplay := play_of_completed given hreached target now h
      rw [← Beat.completions_append, hpipes] at hplay
      rw [← hsteps]
      exact hplay
  | vacant => exact absurd (completions_finishBeats given) (Beat.completions_ne_nil h)
  | finished => exact absurd rfl (Beat.completions_ne_nil h)

/-- The rest of a track behind a pipe that completes is a fresh track for the
pipes behind it, started on what the pipe has left and told the time once.  The
endpoints that its actions have before are read by no one. -/
theorem Run.hands_over {segment : Segment α} {signal : Option Nat}
    {heard : List (List (Beat α))} {track : Track α} (run : Run segment.steps signal heard track)
    {target : Target α} {now : α} {before after : List (Beat α)} {pipe : Nat}
    (h : (track.update target now).beats = before ++ .completed pipe :: after) :
    let passed := Beat.completions (heard.flatten ++ before)
    let coming : Plan α := ⟨segment.plan.pipes.drop (passed.length + 1)⟩
    let left := target.writeAll (Beat.writes before)
    let turn := track.update target now
    (segment.plan.pipes.map PipePlan.index).take (passed.length + 1) = passed ++ [pipe] ∧
      (let fresh := Track.start (Segment.steps ⟨segment.grid, coming⟩) signal left now
        let next := fresh.track.update fresh.target now
        turn = next.after (before ++ .completed pipe :: fresh.beats)) ∧
      ∀ grid : Grid α, grid.Matches Action.unbased segment.grid →
        let fresh := Track.start (Segment.steps ⟨grid, coming⟩) signal left now
        let next := fresh.track.update fresh.target now
        next.target = turn.target ∧ fresh.beats ++ next.beats = after ∧
          next.track.isFinished = turn.track.isFinished ∧
          ∀ schedule, next.track.shows schedule = turn.track.shows schedule := by
  intro passed coming left turn
  obtain ⟨htake, hturn⟩ := update_of_completed run h
  change turn = (resume (Segment.steps ⟨segment.grid, coming⟩) signal left now).after
    (before ++ [.completed pipe]) at hturn
  refine ⟨htake, ?_, fun grid hgrid => ?_⟩
  · rw [hturn, resume, after_after, List.append_assoc]
    rfl
  · have hsame : (resume (Segment.steps ⟨grid, coming⟩) signal left now).unbased =
        (resume (Segment.steps ⟨segment.grid, coming⟩) signal left now).unbased := by
      rw [← resume_unbased, ← resume_unbased, Segment.steps_unbased hgrid]
    have htrack : (resume (Segment.steps ⟨grid, coming⟩) signal left now).track.unbased =
        turn.track.unbased := by
      rw [hturn]
      exact congrArg Turn.track hsame
    have hafter : after = (resume (Segment.steps ⟨segment.grid, coming⟩) signal left now).beats := by
      have hbeats := h.symm.trans (congrArg Turn.beats hturn)
      rw [after_beats, List.append_assoc] at hbeats
      exact (List.cons.inj (List.append_cancel_left hbeats)).2
    refine ⟨?_, ?_, ?_, fun schedule => ?_⟩
    · exact (congrArg Turn.target hsame).trans (congrArg Turn.target hturn).symm
    · rw [hafter]
      exact congrArg Turn.beats hsame
    · rw [← isFinished_unbased turn.track, ← htrack, isFinished_unbased]
      rfl
    · rw [← shows_unbased turn.track, ← htrack, shows_unbased]
      rfl

omit [Scalar α] [Eases α] in
theorem Run.hands_over_of_three_pipes :
    letI : Eases Rat := ⟨fun _ progress => progress⟩
    let text := "e0x5d0|y7d0|s2d1"
    let large : Target Rat := { Target.standard with scale := 9 }
    ∃ segment other : Segment Rat,
      Segment.readAll Config.standard Target.standard text = .ok [segment] ∧
      Segment.readAll Config.standard large text = .ok [other] ∧
      other.grid.Matches Action.unbased segment.grid ∧ other.grid ≠ segment.grid ∧
      let opening := Track.start segment.steps (some 3) Target.standard 0
      let turn := opening.track.update opening.target 0
      ∃ before after, turn.beats = before ++ .completed 1 :: after ∧
        let fresh := Track.start (Segment.steps ⟨other.grid, ⟨segment.plan.pipes.drop 2⟩⟩) (some 3)
          (opening.target.writeAll (Beat.writes before)) 0
        let next := fresh.track.update fresh.target 0
        next.target = turn.target ∧ fresh.beats ++ next.beats = after ∧
          ∀ schedule, next.track.shows schedule = turn.track.shows schedule := by
  let : Eases Rat := ⟨fun _ progress => progress⟩
  intro text large
  let first (target : Target Rat) : Segment Rat :=
    ((Segment.readAll Config.standard target text).toOption.bind List.head?).getD
      ⟨.empty 0 0, ⟨[]⟩⟩
  have hmatches : (first large).grid.Matches Action.unbased (first Target.standard).grid :=
    ⟨by decide +kernel, by decide +kernel, by decide +kernel⟩
  let opening := Track.start (first Target.standard).steps (some 3) Target.standard 0
  let turn := opening.track.update opening.target 0
  let before : List (Beat Rat) := turn.beats.take 5
  let after : List (Beat Rat) := turn.beats.drop 6
  have hbeats : turn.beats = before ++ .completed 1 :: after := by decide +kernel
  have run : Run (first Target.standard).steps (some 3) [opening.beats] opening.track :=
    .start Target.standard 0
  have hpassed : (Beat.completions ([opening.beats].flatten ++ before)).length = 1 := by
    decide +kernel
  obtain ⟨-, -, hfresh⟩ := run.hands_over hbeats
  rw [hpassed] at hfresh
  obtain ⟨htarget, hafter, -, hshows⟩ := hfresh (first large).grid hmatches
  exact ⟨first Target.standard, first large, by decide +kernel, by decide +kernel, hmatches,
    by decide +kernel, before, after, hbeats, htarget, hafter, hshows⟩

end Track

end MotionNotation
