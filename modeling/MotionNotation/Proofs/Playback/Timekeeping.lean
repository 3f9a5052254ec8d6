import MotionNotation.Proofs.Playback.Chronicle

/-!
# Timekeeping

The timer of a pipe is armed when the pipe starts, with the planned duration or,
if that is negative, with none, and it keeps its duration through all its runs.
A pipe that starts in an update is told the time of that update at once: either
its timer completes there, or the track goes on with it.
-/

namespace MotionNotation

variable {α : Type} [Scalar α]

def PipePlan.timer (plan : PipePlan α) (now : α) : Timer α :=
  Timer.start now plan.duration plan.repetition

namespace Timer

@[simp] theorem duration_endRun (timer : Timer α) (now : α) :
    (timer.endRun now).2.duration = timer.duration := by
  unfold endRun
  split
  · rfl
  · split <;> rfl

@[simp] theorem duration_advance (timer : Timer α) (now : α) :
    (timer.advance now).2.duration = timer.duration := by
  unfold advance
  split
  · rfl
  · dsimp only
    split
    · rfl
    · exact duration_endRun timer now

end Timer

namespace Track

omit [Scalar α] in
def Plays (track : Track α) (plan : PipePlan α) (timer : Timer α) : Prop :=
  ∃ step upcoming, track.phase = .playing step timer upcoming ∧ step.plan = plan

/-- The pipes of a track are among these, and its timer has the length that the
plan of the current pipe gives it. -/
def Phase.Timed (plans : List (PipePlan α)) : Phase α → Prop
  | .playing step timer upcoming =>
      timer.duration = Scalar.clampNonneg step.plan.duration ∧
        ∀ found ∈ step :: upcoming, found.plan ∈ plans
  | .vacant | .finished => True

theorem Phase.Timed.of_plays {plans : List (PipePlan α)} {track : Track α}
    (h : track.phase.Timed plans) {plan : PipePlan α} {timer : Timer α}
    (hplays : track.Plays plan timer) :
    plan ∈ plans ∧ timer.duration = Scalar.clampNonneg plan.duration := by
  obtain ⟨step, upcoming, hphase, rfl⟩ := hplays
  rw [hphase] at h
  obtain ⟨hduration, hplans⟩ := h
  exact ⟨hplans step List.mem_cons_self, hduration⟩

inductive Starts (plan : PipePlan α) (now : α) (track : Track α) : Prop
  | passed (h : ((plan.timer now).advance now).1 = .completed)
  | plays (h : track.Plays plan ((plan.timer now).advance now).2)

variable [Eases α]

theorem stride_timer (step : Step α) (timer : Timer α) (target : Target α) (now : α) :
    (stride step timer target now).timer = (timer.advance now).2 := by
  unfold stride
  split <;> simp_all [loop, pass]

theorem stride_passed_iff {step : Step α} {timer : Timer α} {target : Target α} {now : α}
    (hrunning : timer.state = .running) :
    (stride step timer target now).passed = true ↔ (timer.advance now).1 = .completed := by
  have hanswer := timer.advance_answer hrunning now
  generalize hadvance : timer.advance now = reply at hanswer
  cases hanswer <;> simp [stride, hadvance, loop, pass]

theorem play_of_not_passed {step : Step α} {timer : Timer α} {target : Target α} {now : α}
    (h : (stride step timer target now).passed = false) (signal : Option Nat)
    (upcoming : List (Step α)) :
    play signal step timer target now upcoming =
      (stride step timer target now).stay upcoming signal := by
  cases upcoming <;> simp [play, h]

theorem started_notMem_stride (step : Step α) (timer : Timer α) (target : Target α) (now : α)
    (plan : PipePlan α) : .started plan ∉ (stride step timer target now).beats := by
  unfold stride
  split <;> simp [loop, pass]

theorem started_mem_enter_iff {step : Step α} {target : Target α} {plan : PipePlan α} :
    .started plan ∈ (enter step target).2.2 ↔ plan = step.plan := by
  simp [enter]

/-! ## One update -/

theorem play_timed {plans : List (PipePlan α)} (signal : Option Nat) {step : Step α}
    {timer : Timer α} {upcoming : List (Step α)}
    (h : Phase.Timed plans (.playing step timer upcoming)) (target : Target α) (now : α) :
    (play signal step timer target now upcoming).track.phase.Timed plans := by
  induction upcoming generalizing step timer target with
  | nil =>
      simp only [play]
      split
      · exact trivial
      · refine ⟨?_, ?_⟩
        · rw [stride_timer, Timer.duration_advance, stride_plan]
          exact h.1
        · simpa [stride_plan] using h.2
  | cons next rest ih =>
      simp only [play]
      split
      · refine ih ⟨rfl, ?_⟩ _
        intro found hfound
        rcases List.mem_cons.mp hfound with rfl | hfound
        · exact h.2 next (by simp)
        · exact h.2 found (by simp [hfound])
      · refine ⟨?_, ?_⟩
        · rw [stride_timer, Timer.duration_advance, stride_plan]
          exact h.1
        · simpa [stride_plan] using h.2

theorem play_starts (signal : Option Nat) (step : Step α) {timer : Timer α}
    (hrunning : timer.state = .running) (target : Target α) (now : α)
    (upcoming : List (Step α)) :
    let turn := play signal step timer target now upcoming
    ((timer.advance now).1 = .completed ∨ turn.track.Plays step.plan (timer.advance now).2) ∧
      ∀ plan, .started plan ∈ turn.beats →
        plan ∈ upcoming.map Step.plan ∧ Starts plan now turn.track := by
  induction upcoming generalizing step timer target with
  | nil =>
      simp only [play]
      split
      · rename_i hpassed
        refine ⟨.inl ((stride_passed_iff hrunning).mp hpassed), fun plan hmem => ?_⟩
        rw [after_beats, List.mem_append] at hmem
        rcases hmem with hmem | hmem
        · exact (started_notMem_stride step timer target now plan hmem).elim
        · cases signal <;> simp [finish, finishBeats] at hmem
      · refine ⟨.inr ⟨_, _, by rw [← stride_timer]; rfl, stride_plan ..⟩, fun plan hmem => ?_⟩
        exact (started_notMem_stride step timer target now plan hmem).elim
  | cons next rest ih =>
      simp only [play]
      split
      · rename_i hpassed
        have harmed : (Step.arm (enter next (stride step timer target now).target).1 now).state =
            .running := rfl
        obtain ⟨hfirst, hrest⟩ := ih (enter next (stride step timer target now).target).1 harmed
          (enter next (stride step timer target now).target).2.1
        refine ⟨.inl ((stride_passed_iff hrunning).mp hpassed), fun plan hmem => ?_⟩
        rw [after_beats, List.mem_append, List.mem_append] at hmem
        rcases hmem with (hmem | hmem) | hmem
        · exact (started_notMem_stride step timer target now plan hmem).elim
        · obtain rfl := started_mem_enter_iff.mp hmem
          refine ⟨by simp, ?_⟩
          rcases hfirst with hpass | hplays
          · exact .passed hpass
          · exact .plays hplays
        · obtain ⟨hplan, hstarts⟩ := hrest plan hmem
          exact ⟨List.mem_cons_of_mem _ hplan, hstarts⟩
      · refine ⟨.inr ⟨_, _, by rw [← stride_timer]; rfl, stride_plan ..⟩, fun plan hmem => ?_⟩
        exact (started_notMem_stride step timer target now plan hmem).elim

theorem update_timed {plans : List (PipePlan α)} {track : Track α}
    (h : track.phase.Timed plans) (target : Target α) (now : α) :
    (track.update target now).track.phase.Timed plans := by
  obtain ⟨phase, signal⟩ := track
  cases phase with
  | vacant => exact trivial
  | playing step timer upcoming => exact play_timed signal h target now
  | finished => exact trivial

theorem update_starts {plans : List (PipePlan α)} {track : Track α}
    (armed : track.phase.Armed) (h : track.phase.Timed plans) (target : Target α) (now : α)
    {plan : PipePlan α} (hmem : .started plan ∈ (track.update target now).beats) :
    plan ∈ plans ∧ Starts plan now (track.update target now).track := by
  obtain ⟨phase, signal⟩ := track
  cases phase with
  | vacant => cases signal <;> simp [update, finish, finishBeats] at hmem
  | playing step timer upcoming =>
      obtain ⟨hplan, hstarts⟩ := (play_starts signal step armed target now upcoming).2 plan hmem
      obtain ⟨found, hfound, rfl⟩ := List.mem_map.mp hplan
      exact ⟨h.2 found (List.mem_cons_of_mem step hfound), hstarts⟩
  | finished => cases hmem

/-! ## From the start on -/

theorem start_timed (steps : List (Step α)) (signal : Option Nat) (target : Target α) (now : α) :
    (start steps signal target now).track.phase.Timed (steps.map Step.plan) := by
  cases steps with
  | nil => exact trivial
  | cons first upcoming =>
      refine ⟨rfl, fun found hfound => ?_⟩
      rcases List.mem_cons.mp hfound with rfl | hfound
      · exact List.mem_cons_self
      · exact List.mem_cons_of_mem _ (List.mem_map_of_mem hfound)

theorem start_plays {steps : List (Step α)} {signal : Option Nat} {target : Target α} {now : α}
    {plan : PipePlan α} (h : .started plan ∈ (start steps signal target now).beats) :
    plan ∈ steps.map Step.plan ∧
      (start steps signal target now).track.Plays plan (plan.timer now) := by
  cases steps with
  | nil => cases h
  | cons first upcoming =>
      obtain rfl := started_mem_enter_iff.mp h
      exact ⟨List.mem_cons_self, _, _, rfl, rfl⟩

theorem Run.timed {steps : List (Step α)} {signal : Option Nat} {heard : List (List (Beat α))}
    {track : Track α} (run : Run steps signal heard track) :
    track.phase.Timed (steps.map Step.plan) := by
  induction run with
  | start target now => exact start_timed steps signal target now
  | update run target now ih => exact update_timed ih target now

end Track

namespace Animation

omit [Scalar α] in
theorem pipeStarted_mem_events {beats : List (Beat α)} {pipe : Nat} {duration : α}
    (h : .pipeStarted pipe duration ∈ Beat.events beats) :
    ∃ plan, .started plan ∈ beats ∧ plan.index = pipe ∧ plan.duration = duration := by
  obtain ⟨beat, hmem, hevent⟩ := List.mem_filterMap.mp h
  cases beat with
  | started plan =>
      cases hevent
      exact ⟨plan, hmem, rfl, rfl⟩
  | _ => cases hevent

variable [Eases α]

structure Turn.KeepsTime (turn : Turn α) (now : α) (group : Nat) (pipes : List (PipePlan α)) :
    Prop where
  starts : ∀ pipe duration, ⟨group, .pipeStarted pipe duration⟩ ∈ GroupBeat.events turn.beats →
    ∃ plan ∈ pipes, plan.index = pipe ∧ plan.duration = duration ∧
      ∃ track, turn.animation.tracks[group]? = some track ∧ track.Plays plan (plan.timer now)
  startsLater : ∀ times time pipe duration,
    ⟨group, .pipeStarted pipe duration⟩ ∈ GroupBeat.events ((turn.last times).next time).beats →
    ∃ plan ∈ pipes, plan.index = pipe ∧ plan.duration = duration ∧
      ∃ track, ((turn.last times).next time).animation.tracks[group]? = some track ∧
        Track.Starts plan time track
  plays : ∀ times track plan timer, (turn.last times).animation.tracks[group]? = some track →
    track.Plays plan timer →
      plan ∈ pipes ∧ timer.duration = Scalar.clampNonneg plan.duration

theorem start_keepsTime {segments : List (Segment α)} {group : Nat} {segment : Segment α}
    (h : segments[group]? = some segment) (target : Target α) (now : α) (signal : Option Nat) :
    (start segments target now signal).KeepsTime now group segment.plan.pipes := by
  have hplans := segment.steps_plan
  constructor
  case starts =>
    intro pipe duration hevent
    obtain ⟨found, htrack, hbeats⟩ := startFrom_getElem? h 0 signal target now
    rw [GroupBeat.mem_events_iff] at hevent
    obtain ⟨plan, hmem, hindex, hduration⟩ := pipeStarted_mem_events hevent
    rw [Nat.zero_add] at hbeats
    rw [start, hbeats] at hmem
    obtain ⟨hplan, hplays⟩ := Track.start_plays hmem
    exact ⟨plan, hplans ▸ hplan, hindex, hduration, _, htrack, hplays⟩
  case startsLater =>
    intro times time pipe duration hevent
    obtain ⟨track, htrack, run⟩ := start_run h target now signal times
    obtain ⟨found, hnext, hbeats⟩ := updateFrom_getElem? htrack 0
      ((start segments target now signal).last times).target time
    rw [GroupBeat.mem_events_iff] at hevent
    obtain ⟨plan, hmem, hindex, hduration⟩ := pipeStarted_mem_events hevent
    rw [Nat.zero_add] at hbeats
    rw [Turn.next, update, hbeats] at hmem
    obtain ⟨hplan, hstarts⟩ := Track.update_starts run.armed run.timed found time hmem
    exact ⟨plan, hplans ▸ hplan, hindex, hduration, _, hnext, hstarts⟩
  case plays =>
    intro times track plan timer htrack hplays
    obtain ⟨found, hfound, run⟩ := start_run h target now signal times
    rw [hfound] at htrack
    cases htrack
    obtain ⟨hplan, hduration⟩ := run.timed.of_plays hplays
    exact ⟨hplans ▸ hplan, hduration⟩

end Animation

end MotionNotation
