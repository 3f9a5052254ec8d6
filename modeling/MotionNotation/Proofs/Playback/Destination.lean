import MotionNotation.Proofs.Playback.Rational

/-!
# Destinations

Where a single pipe leaves its channels.  On the way a channel is written at
whatever progress the updates find, but each run is ended at its goal, and a
relative run starts from the goal of the one before it.
-/

namespace MotionNotation

namespace Action

structure IsLast {α : Type} (actions : List (Action α)) (channel : Channel) (action : Action α) :
    Prop where
  writes : action.operator.channel? = some channel
  split : ∃ before after, actions = before ++ action :: after ∧
    ∀ other ∈ after, other.operator.channel? ≠ some channel

section

variable {α : Type} [Scalar α] {actions : List (Action α)} {channel : Channel}
  {action : Action α}

theorem IsLast.rebase (h : IsLast actions channel action) (target : Target α) :
    IsLast (actions.map (·.rebase target)) channel (action.rebase target) := by
  obtain ⟨before, after, rfl, hafter⟩ := h.split
  refine ⟨h.writes, before.map (·.rebase target), after.map (·.rebase target), by simp, ?_⟩
  intro other hmem
  obtain ⟨found, hfound, rfl⟩ := List.mem_map.mp hmem
  exact hafter found hfound

theorem IsLast.get_writeAll [Eases α] (h : IsLast actions channel action) (target : Target α)
    (progress : α) :
    (target.writeAll (Action.writes actions progress)).get channel =
      Scalar.lerp action.origin action.goal (Eases.ease action.easing progress) := by
  obtain ⟨before, after, rfl, hafter⟩ := h.split
  have hwrite : action.write? progress = some
      ⟨channel, Scalar.lerp action.origin action.goal (Eases.ease action.easing progress)⟩ := by
    rw [write?, h.writes, Option.map_some]
  have hlater : channel ∉ (Action.writes after progress).map Write.channel := by
    rintro hmem
    obtain ⟨write, hmem, hchannel⟩ := List.mem_map.mp hmem
    obtain ⟨other, hother, hfound⟩ := List.mem_filterMap.mp hmem
    obtain ⟨found, hwrites, rfl⟩ := Option.map_eq_some_iff.mp hfound
    exact hafter other hother (hwrites.trans (congrArg some hchannel))
  simp only [Action.writes, List.filterMap_append, List.filterMap_cons, hwrite,
    Target.writeAll_append, Target.writeAll_cons]
  exact (Target.get_writeAll_of_notMem hlater _).trans (by simp)

end

/-- Where an action brings its channel in some laps, each of which starts where the
one before has arrived.  An inverse move or rotation ends where it started. -/
def destination (action : Action Rat) (current : Rat) (laps : Nat) : Rat :=
  match action.operator with
  | .position _ => if action.inverse then current else action.value
  | .move .left | .move .up | .rotate _ =>
    if action.inverse then current else current - laps * action.value
  | .move .right | .move .down =>
    if action.inverse then current else current + laps * action.value
  | .scale | .fade => action.value
  | .duration | .stagger | .loop _ => current

theorem goal_rebase {action : Action Rat} {channel : Channel}
    (h : action.operator.channel? = some channel) (target : Target Rat) :
    (action.rebase target).goal = action.destination (target.get channel) 1 := by
  obtain ⟨operator, inverse, literal, value, origin, goal, easing⟩ := action
  cases operator with
  | position axis =>
      cases h
      cases inverse <;> rfl
  | move heading =>
      cases heading <;> cases h <;> cases inverse <;>
        simp [rebase, Operator.endpoints, Operator.endpoints.retreat, Operator.endpoints.advance,
          destination, Target.get, Triple.get]
  | rotate axis =>
      cases h
      cases inverse <;>
        simp [rebase, Operator.endpoints, Operator.endpoints.retreat, destination, Target.get]
  | scale | fade => cases inverse <;> rfl
  | duration | stagger | loop mode => cases h

theorem destination_succ (action : Action Rat) (current : Rat) (laps : Nat) :
    action.destination (action.destination current 1) laps =
      action.destination current (laps + 1) := by
  obtain ⟨operator, inverse, literal, value, origin, goal, easing⟩ := action
  cases operator with
  | position axis => cases inverse <;> rfl
  | move heading => cases heading <;> cases inverse <;> simp [destination] <;> ring
  | rotate axis =>
      cases inverse with
      | false =>
          simp [destination]
          ring
      | true => rfl
  | scale | fade | duration | stagger | loop mode => rfl

end Action

/-- The laps that a pipe makes in some runs: an absolute one starts each time from
the same place. -/
def PipePlan.laps (plan : PipePlan Rat) (count : Nat) : Nat :=
  if plan.isRelative then count else 1

theorem Step.rebase_rebase (step : Step Rat) (first second : Target Rat) :
    (step.rebase first).rebase second = step.rebase second := by
  simp [rebase, Function.comp_def]

variable [Eases Rat]

theorem Step.get_writeAll_one {step : Step Rat} {channel : Channel} {action : Action Rat}
    (h : Action.IsLast step.actions channel action)
    (pinned : Eases.ease action.easing (1 : Rat) = 1) (base target : Target Rat) :
    (target.writeAll ((step.rebase base).writes 1)).get channel =
      action.destination (base.get channel) 1 := by
  have hlast := h.rebase base
  calc
    _ = Scalar.lerp (action.rebase base).origin (action.rebase base).goal
          (Eases.ease action.easing 1) := hlast.get_writeAll target 1
    _ = (action.rebase base).goal := by
      rw [show Eases.ease action.easing _ = _ from pinned]
      exact Scalar.lerp_one _ _
    _ = _ := Action.goal_rebase h.writes base

namespace Track

def HeadsFor (first : Step Rat) (channel : Channel) (action : Action Rat) (place : Rat)
    (target : Target Rat) : Phase Rat → Prop
  | .playing step timer upcoming =>
      upcoming = [] ∧ timer.state = .running ∧ ∃ base count, step = first.rebase base ∧
        timer.remaining = .finite count ∧ 1 ≤ count ∧
          action.destination (base.get channel) (first.plan.laps count) = place
  | .finished => target.get channel = place
  | .vacant => False

theorem loop_step (first : Step Rat) (timer : Timer Rat) (base target : Target Rat) :
    (loop (first.rebase base) timer target).step = first.rebase
      (if first.plan.isRelative then target.writeAll ((first.rebase base).writes 1) else base) := by
  have hplan : (first.rebase base).plan = first.plan := rfl
  simp only [loop, hplan, Step.rebase_rebase]
  split <;> rfl

theorem update_headsFor {first : Step Rat} {channel : Channel} {action : Action Rat}
    {place : Rat} (last : Action.IsLast first.actions channel action)
    (pinned : Eases.ease action.easing (1 : Rat) = 1) {track : Track Rat} {target : Target Rat}
    (h : HeadsFor first channel action place target track.phase) (now : Rat) :
    HeadsFor first channel action place (track.update target now).target
      (track.update target now).track.phase := by
  obtain ⟨phase, signal⟩ := track
  cases phase with
  | vacant => exact h.elim
  | finished => exact h
  | playing step timer upcoming =>
      obtain ⟨rfl, hrunning, base, count, rfl, hremaining, hcount, hplace⟩ := h
      have harrived := Step.get_writeAll_one last pinned base target
      have hanswer := timer.advance_answer hrunning now
      generalize hadvance : timer.advance now = reply at hanswer
      cases hanswer with
      | goesOn early =>
          simp only [update, play, stride, hadvance]
          exact ⟨rfl, hrunning, base, count, rfl, hremaining, hcount, hplace⟩
      | restarts late follows =>
          rw [hremaining] at follows
          cases follows with
          | counted hmany =>
              simp only [update, play, stride, hadvance]
              refine ⟨rfl, hrunning, _, count - 1, loop_step .., rfl, by omega, ?_⟩
              rw [← hplace]
              unfold PipePlan.laps
              split
              · rw [harrived, Action.destination_succ, Nat.sub_add_cancel hcount]
              · rfl
      | ends late counted hlast =>
          obtain rfl : count = 1 := by
            rw [hremaining] at counted
            cases counted
            omega
          have honce : first.plan.laps 1 = 1 := ite_self 1
          simp only [update, play, stride, hadvance]
          rw [honce] at hplace
          exact harrived.trans hplace

end Track

namespace Animation

theorem Turn.Sole.last_headsFor {turn : Turn Rat} {track : Track Rat} (sole : turn.Sole track)
    {first : Step Rat} {channel : Channel} {action : Action Rat} {place : Rat}
    (last : Action.IsLast first.actions channel action)
    (pinned : Eases.ease action.easing (1 : Rat) = 1)
    (h : Track.HeadsFor first channel action place turn.target track.phase) (times : List Rat) :
    ∃ track, (turn.last times).Sole track ∧
      Track.HeadsFor first channel action place (turn.last times).target track.phase := by
  induction times generalizing turn track with
  | nil => exact ⟨track, sole, h⟩
  | cons time rest ih =>
      obtain ⟨hsole, htarget⟩ := sole.next time
      apply ih hsole
      rw [htarget]
      exact Track.update_headsFor last pinned h time

/-- A single pipe that ends leaves a channel where the last of its actions on that
channel brings it, whatever the updates were that it took to get there. -/
theorem launch_destination {config : Config Rat} {target : Target Rat} {text : String}
    {now : Rat} {signal : Option Nat} {turn : Turn Rat} {segment : Segment Rat}
    {plan : PipePlan Rat} {count : Nat} {before after : List (Action Rat)} {action : Action Rat}
    {channel : Channel} (launched : launch config target text now signal = .ok turn)
    (read : Segment.readAll config target text = .ok [segment])
    (single : segment.plan.pipes = [plan]) (counted : plan.repetition = .finite count)
    (pipe : segment.grid.pipe plan.index = before ++ action :: after)
    (writes : action.operator.channel? = some channel)
    (last : ∀ other ∈ after, other.operator.channel? ≠ some channel)
    (pinned : Eases.ease action.easing (1 : Rat) = 1) {times : List Rat}
    (finished : (turn.last times).animation.status = .finished) :
    (turn.last times).target.get channel =
      action.destination (target.get channel) (plan.laps count) := by
  obtain rfl := launch_eq_start launched read
  have hlast : Action.IsLast (segment.grid.pipe plan.index) channel action :=
    ⟨writes, before, after, pipe, last⟩
  have hcount : 1 ≤ count := by
    have hplan := Segment.plan_of_readEach read segment List.mem_cons_self
    have hcounts := Plan.ofGrid_counts config segment.grid plan (by simp [← hplan, single])
    rwa [counted] at hcounts
  have hsteps : segment.steps = [⟨plan, segment.grid.pipe plan.index⟩] := by
    rw [Segment.steps, single]
    rfl
  have hstart : Track.HeadsFor ⟨plan, segment.grid.pipe plan.index⟩ channel action
      (action.destination (target.get channel) (plan.laps count))
      (start [segment] target now signal).target
      (Track.start segment.steps signal target now).track.phase := by
    rw [hsteps]
    exact ⟨rfl, rfl, target, count, rfl, counted, hcount, rfl⟩
  obtain ⟨track, hsole, hplace⟩ :=
    (start_sole segment target now signal).last_headsFor hlast pinned hstart times
  have hfinished := hsole.status_eq_finished_iff.mp finished
  obtain ⟨phase, given⟩ := track
  cases phase with
  | finished => exact hplace
  | vacant | playing => cases hfinished

omit [Eases Rat] in
theorem launch_destination_of_three_laps :
    letI : Eases Rat := ⟨fun _ progress => progress⟩
    let times : List Rat := [1 / 2, 1, 5 / 2, 7 / 2]
    ∃ turn : Turn Rat,
      launch Config.standard Target.standard "e0>10d1l3" 0 none = .ok turn ∧
      (turn.last times).animation.status = .finished ∧
      (turn.last times).target.get (.translation .x) = 30 := by
  let : Eases Rat := ⟨fun _ progress => progress⟩
  intro times
  let move : Action Rat := ⟨.move .right, false, some 10, 10, 0, 10, .linear⟩
  let seconds : Action Rat := ⟨.duration, false, some 1, 1, 1, 1, .linear⟩
  let laps : Action Rat := ⟨.loop .relative, false, some 3, 3, 3, 3, .linear⟩
  let plan : PipePlan Rat := ⟨0, 1, .finite 3, .relative⟩
  let segment : Segment Rat := ⟨⟨[[move, seconds, laps]], 40, 40⟩, ⟨[plan]⟩⟩
  have hread : Segment.readAll Config.standard Target.standard "e0>10d1l3" = .ok [segment] := by
    decide +kernel
  have hlaunch : launch Config.standard Target.standard "e0>10d1l3" 0 none =
      .ok (start [segment] Target.standard 0 none) := by
    rw [launch, hread]
  have hfinished : ((start [segment] Target.standard 0 none).last times).animation.status =
      .finished := by decide +kernel
  refine ⟨_, hlaunch, hfinished, ?_⟩
  have hpipe : segment.grid.pipe plan.index = [] ++ move :: [seconds, laps] := rfl
  have hplace := launch_destination hlaunch hread rfl rfl hpipe rfl (by decide) rfl hfinished
  rw [hplace]
  decide +kernel

end Animation

end MotionNotation
