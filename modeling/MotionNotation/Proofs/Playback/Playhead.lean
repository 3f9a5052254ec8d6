import MotionNotation.Proofs.Playback.Ticks
import MotionNotation.Proofs.Playback.Timekeeping

/-!
# Playheads

A track as a machine that stands at a place among its steps.  An update is a
loop of rounds, each of which does one thing: it finishes behind the last step,
starts the step at its place, or tells the timer of this step the time.  All
rounds together come to the update of the track.
-/

namespace MotionNotation

variable {α : Type}

structure Playhead (α : Type) where
  steps : List (Step α)
  place : Nat
  timer : Option (Timer α)
  signal : Option Nat
  finished : Bool

namespace Playhead

structure Turn (α : Type) where
  head : Playhead α
  target : Target α
  beats : List (Beat α)

def Turn.after (turn : Turn α) (beats : List (Beat α)) : Turn α :=
  { turn with beats := beats ++ turn.beats }

structure Round (α : Type) extends Turn α where
  tick : Option (Timer.Tick α)
  last : Bool

def fresh (steps : List (Step α)) (signal : Option Nat) : Playhead α :=
  ⟨steps, 0, none, signal, false⟩

def finish (head : Playhead α) (target : Target α) : Turn α :=
  ⟨{ head with timer := none, signal := none, finished := true }, target,
    Track.finishBeats head.signal⟩

def follow (head : Playhead α) (stride : Track.Stride α) : Turn α :=
  let steps := head.steps.set head.place stride.step
  ⟨if stride.passed then { head with steps, place := head.place + 1, timer := none }
    else { head with steps, timer := some stride.timer }, stride.target, stride.beats⟩

def track (head : Playhead α) : Track α where
  phase :=
    if head.finished then .finished
    else match head.steps[head.place]?, head.timer with
      | some step, some timer => .playing step timer (head.steps.drop (head.place + 1))
      | none, _ | _, none => .vacant
  signal := head.signal

def Turn.shown (turn : Turn α) : Track.Turn α :=
  ⟨turn.head.track, turn.target, turn.beats⟩

/-- A bound of the rounds that are left. -/
def left (head : Playhead α) : Nat :=
  2 * (head.steps.length - head.place) + if head.timer.isNone then 1 else 0

variable [Scalar α] [Eases α]

def enter (head : Playhead α) (step : Step α) (target : Target α) (now : α) : Turn α :=
  let (based, target, beats) := Track.enter step target
  ⟨{ head with steps := head.steps.set head.place based, timer := some (based.arm now) },
    target, beats⟩

def start (steps : List (Step α)) (signal : Option Nat) (target : Target α) (now : α) : Turn α :=
  match steps.head? with
  | none => ⟨fresh steps signal, target, []⟩
  | some step => (fresh steps signal).enter step target now

def round (head : Playhead α) (target : Target α) (now : α) : Round α :=
  match head.steps[head.place]? with
  | none => { head.finish target with tick := none, last := true }
  | some step =>
    match head.timer with
    | none => { head.enter step target now with tick := none, last := false }
    | some timer =>
      let stride := Track.stride step timer target now
      { head.follow stride with tick := some (timer.advance now).1, last := !stride.passed }

inductive Round.Outcome (head : Playhead α) (target : Target α) (now : α) : Round α → Prop
  | finishes (beyond : head.steps.length ≤ head.place) :
      Outcome head target now { head.finish target with tick := none, last := true }
  | enters {step : Step α} (place : head.steps[head.place]? = some step)
      (unarmed : head.timer = none) :
      Outcome head target now { head.enter step target now with tick := none, last := false }
  | tells {step : Step α} {timer : Timer α} (place : head.steps[head.place]? = some step)
      (armed : head.timer = some timer) :
      Outcome head target now
        { head.follow (Track.stride step timer target now) with
          tick := some (timer.advance now).1
          last := !(Track.stride step timer target now).passed }

theorem round_outcome (head : Playhead α) (target : Target α) (now : α) :
    Round.Outcome head target now (head.round target now) := by
  unfold round
  split
  · rename_i hplace
    exact .finishes (List.getElem?_eq_none_iff.mp hplace)
  · rename_i step hplace
    split
    · rename_i hunarmed
      exact .enters hplace hunarmed
    · rename_i timer harmed
      exact .tells hplace harmed

/-- A round that is not the last one brings the end nearer: a step is started that
was not, or passed. -/
theorem left_round {head : Playhead α} {target : Target α} {now : α}
    (h : (head.round target now).last = false) :
    0 < (head.round target now).head.left ∧ (head.round target now).head.left < head.left := by
  have houtcome := head.round_outcome target now
  generalize head.round target now = round at h houtcome
  cases houtcome with
  | finishes => cases h
  | enters place unarmed =>
      obtain ⟨hplace, -⟩ := List.getElem?_eq_some_iff.mp place
      simp only [enter, left, List.length_set, unarmed, Option.isNone_some, Option.isNone_none,
        Bool.false_eq_true, if_false, if_true]
      omega
  | @tells step timer place armed =>
      obtain ⟨hplace, -⟩ := List.getElem?_eq_some_iff.mp place
      have hpassed : (Track.stride step timer target now).passed = true := by simpa using h
      simp only [follow, hpassed, left, List.length_set, armed, Option.isNone_some,
        Option.isNone_none, Bool.false_eq_true, if_false, if_true]
      omega

def loop (head : Playhead α) (target : Target α) (now : α) : List (Round α) :=
  if (head.round target now).last then [head.round target now]
  else head.round target now ::
    (head.round target now).head.loop (head.round target now).target now
termination_by head.left
decreasing_by
  rename_i hlast
  exact (left_round (by simpa using hlast)).2

def rounds (head : Playhead α) (target : Target α) (now : α) : List (Round α) :=
  if head.finished then [] else head.loop target now

/-- All of some rounds that begin with a head. -/
def conclude (head : Playhead α) (target : Target α) : List (Round α) → Turn α
  | [] => ⟨head, target, []⟩
  | round :: rest => (conclude round.head round.target rest).after round.beats

def update (head : Playhead α) (target : Target α) (now : α) : Turn α :=
  conclude head target (head.rounds target now)

theorem rounds_of_unfinished {head : Playhead α} (h : head.finished = false) (target : Target α)
    (now : α) : head.rounds target now = head.loop target now := by
  simp [rounds, h]

theorem rounds_of_finished {head : Playhead α} (h : head.finished = true) (target : Target α)
    (now : α) : head.rounds target now = [] := by
  simp [rounds, h]

/-! ## The loop of an update -/

theorem length_loop_le (head : Playhead α) (target : Target α) (now : α) :
    (head.loop target now).length ≤ 2 * (head.steps.length - head.place) + 1 := by
  have hleft : (head.loop target now).length ≤ max head.left 1 := by
    induction head, target using loop.induct now with
    | case1 head target hlast =>
        rw [loop, if_pos hlast]
        exact Nat.le_max_right _ _
    | case2 head target hlast ih =>
        obtain ⟨hpos, hless⟩ := left_round (by simpa using hlast)
        rw [loop, if_neg hlast, List.length_cons]
        omega
  have hbound : head.left ≤ 2 * (head.steps.length - head.place) + 1 := by
    unfold left
    split <;> omega
  omega

theorem length_rounds_le (head : Playhead α) (target : Target α) (now : α) :
    (head.rounds target now).length ≤ 2 * (head.steps.length - head.place) + 1 := by
  unfold rounds
  split
  · exact Nat.zero_le _
  · exact head.length_loop_le target now

end Playhead

/-! ## Where a head stands -/

/-- The timer is the one of the plan, after some times that it was told. -/
def PipePlan.Drives [Scalar α] (plan : PipePlan α) (timer : Timer α) : Prop :=
  ∃ began times, timer = (plan.timer began).last times

theorem PipePlan.Drives.advance [Scalar α] {plan : PipePlan α} {timer : Timer α}
    (h : plan.Drives timer) (now : α) : plan.Drives (timer.advance now).2 := by
  obtain ⟨began, times, rfl⟩ := h
  exact ⟨began, times ++ [now], (Timer.last_append _ times [now]).symm⟩

namespace Playhead

section Standing

variable [Scalar α]

structure Plays (head : Playhead α) : Prop where
  unfinished : head.finished = false
  place : head.place < head.steps.length
  timer : ∃ timer, head.timer = some timer ∧ timer.state = .running ∧
    head.steps[head.place].plan.Drives timer

structure Rests (head : Playhead α) : Prop where
  finished : head.finished = true
  place : head.place = head.steps.length
  timer : head.timer = none

structure Vacant (head : Playhead α) : Prop where
  unfinished : head.finished = false
  steps : head.steps = []
  place : head.place = 0
  timer : head.timer = none

structure Poised (head : Playhead α) : Prop where
  unfinished : head.finished = false
  place : head.place ≤ head.steps.length
  timer : ∀ timer, head.timer = some timer → timer.state = .running ∧
    ∃ place : head.place < head.steps.length, head.steps[head.place].plan.Drives timer

end Standing

variable [Scalar α]

theorem Plays.poised {head : Playhead α} (h : head.Plays) : head.Poised where
  unfinished := h.unfinished
  place := Nat.le_of_lt h.place
  timer := by
    intro timer htimer
    obtain ⟨found, hfound, hrunning, hdrives⟩ := h.timer
    obtain rfl : found = timer := Option.some.inj (hfound.symm.trans htimer)
    exact ⟨hrunning, h.place, hdrives⟩

theorem Vacant.poised {head : Playhead α} (h : head.Vacant) : head.Poised where
  unfinished := h.unfinished
  place := by simp [h.place]
  timer := by simp [h.timer]

variable [Eases α]

theorem enter_plays {head : Playhead α} {step : Step α} (unfinished : head.finished = false)
    (place : head.steps[head.place]? = some step) (target : Target α) (now : α) :
    (head.enter step target now).head.Plays where
  unfinished := unfinished
  place := by
    obtain ⟨hplace, -⟩ := List.getElem?_eq_some_iff.mp place
    simpa [enter] using hplace
  timer := by
    refine ⟨_, rfl, rfl, ?_⟩
    simp only [enter, List.getElem_set_self]
    exact ⟨now, [], rfl⟩

theorem follow_poised {head : Playhead α} (h : head.Poised) {step : Step α} {timer : Timer α}
    (place : head.steps[head.place]? = some step) (armed : head.timer = some timer)
    (target : Target α) (now : α) :
    let stride := Track.stride step timer target now
    if stride.passed then (head.follow stride).head.Poised
    else (head.follow stride).head.Plays := by
  obtain ⟨hplace, rfl⟩ := List.getElem?_eq_some_iff.mp place
  obtain ⟨hrunning, _, hdrives⟩ := h.timer timer armed
  dsimp only
  split
  · rename_i hpassed
    simp only [follow, hpassed, if_true]
    exact ⟨h.unfinished, by simpa using hplace, by simp⟩
  · rename_i hpassed
    have hdriven := hdrives.advance now
    rw [← Track.stride_timer head.steps[head.place] timer target now] at hdriven
    have hstate : (Track.stride head.steps[head.place] timer target now).timer.state =
        .running := by
      have houtcome := Track.stride_outcome hrunning head.steps[head.place] target now
      cases houtcome with
      | goesOn _ armed => exact armed
      | restarts _ armed => exact armed
      | ends passed => exact absurd passed hpassed
    simp only [follow, hpassed]
    refine ⟨h.unfinished, by simpa using hplace, _, rfl, hstate, ?_⟩
    simpa using hdriven

theorem Poised.stands_of_round {head : Playhead α} (h : head.Poised) (target : Target α) (now : α) :
    (head.round target now).tick ≠ some .idle ∧
      if (head.round target now).last then
        (head.round target now).head.Plays ∨ (head.round target now).head.Rests
      else (head.round target now).head.Poised := by
  have houtcome := head.round_outcome target now
  generalize head.round target now = round at houtcome
  cases houtcome with
  | finishes beyond =>
      refine ⟨by simp, ?_⟩
      exact .inr ⟨rfl, Nat.le_antisymm h.place beyond, rfl⟩
  | enters place unarmed =>
      exact ⟨by simp, (enter_plays h.unfinished place target now).poised⟩
  | @tells step timer place armed =>
      obtain ⟨hrunning, -⟩ := h.timer timer armed
      have hfollow := follow_poised h place armed target now
      constructor
      · have hanswer := Timer.advance_answer hrunning now
        generalize timer.advance now = reply at hanswer
        cases hanswer <;> simp
      · cases hpassed : (Track.stride step timer target now).passed with
        | true => simpa [hpassed] using hfollow
        | false => exact .inl (by simpa [hpassed] using hfollow)

theorem Poised.stands_of_loop {head : Playhead α} (h : head.Poised) (target : Target α) (now : α) :
    (∀ round ∈ head.loop target now, round.tick ≠ some .idle) ∧
      ((conclude head target (head.loop target now)).head.Plays ∨
        (conclude head target (head.loop target now)).head.Rests) := by
  induction head, target using loop.induct now with
  | case1 head target hlast =>
      obtain ⟨htick, hstand⟩ := h.stands_of_round target now
      rw [if_pos hlast] at hstand
      rw [loop, if_pos hlast]
      exact ⟨by simpa using htick, hstand⟩
  | case2 head target hlast ih =>
      obtain ⟨htick, hpoised⟩ := h.stands_of_round target now
      rw [if_neg hlast] at hpoised
      obtain ⟨hticks, hstand⟩ := ih hpoised
      rw [loop, if_neg hlast]
      exact ⟨List.forall_mem_cons.mpr ⟨htick, hticks⟩, hstand⟩

theorem rounds_stand {head : Playhead α} (h : head.Plays ∨ head.Rests ∨ head.Vacant)
    (target : Target α) (now : α) :
    (∀ round ∈ head.rounds target now, round.tick ≠ some .idle) ∧
      ((head.update target now).head.Plays ∨ (head.update target now).head.Rests) := by
  rcases h with hplays | hrests | hvacant
  · rw [update, rounds_of_unfinished hplays.unfinished]
    exact hplays.poised.stands_of_loop target now
  · rw [update, rounds_of_finished hrests.finished]
    exact ⟨by simp, .inr hrests⟩
  · rw [update, rounds_of_unfinished hvacant.unfinished]
    exact hvacant.poised.stands_of_loop target now

theorem start_stands (steps : List (Step α)) (signal : Option Nat) (target : Target α) (now : α) :
    (start steps signal target now).head.Plays ∨ (start steps signal target now).head.Vacant := by
  cases steps with
  | nil => exact .inr ⟨rfl, rfl, rfl, rfl⟩
  | cons first upcoming => exact .inl (enter_plays rfl rfl target now)

/-! ## The track that is shown -/

omit [Scalar α] [Eases α] in
theorem getElem?_of_drop {steps upcoming : List (Step α)} {step : Step α} {place : Nat}
    (h : steps.drop place = step :: upcoming) : steps[place]? = some step := by
  rw [← List.head?_drop, h]
  rfl

omit [Scalar α] [Eases α] in
theorem track_of_playing {head : Playhead α} {step : Step α} {timer : Timer α}
    {upcoming : List (Step α)} (unfinished : head.finished = false)
    (steps : head.steps.drop head.place = step :: upcoming) (armed : head.timer = some timer) :
    head.track = ⟨.playing step timer upcoming, head.signal⟩ := by
  have hplace := getElem?_of_drop steps
  have hrest : head.steps.drop (head.place + 1) = upcoming := by
    rw [← List.tail_drop, steps]
    rfl
  simp [track, unfinished, hplace, armed, hrest]

omit [Scalar α] [Eases α] in
theorem drop_set_succ {steps upcoming : List (Step α)} {step : Step α} {place : Nat}
    (h : steps.drop place = step :: upcoming) (next : Step α) :
    (steps.set place next).drop (place + 1) = upcoming := by
  rw [List.drop_set, if_pos (Nat.lt_succ_self place), ← List.tail_drop, h]
  rfl

omit [Scalar α] [Eases α] in
theorem drop_set {steps upcoming : List (Step α)} {step : Step α} {place : Nat}
    (h : steps.drop place = step :: upcoming) (next : Step α) :
    (steps.set place next).drop place = next :: upcoming := by
  rw [List.drop_set, if_neg (Nat.lt_irrefl place), h, Nat.sub_self]
  rfl

theorem conclude_of_last {head : Playhead α} {target : Target α} {now : α}
    (h : (head.round target now).last = true) :
    conclude head target (head.loop target now) = (head.round target now).toTurn := by
  rw [loop, if_pos h]
  simp [conclude, Turn.after]

theorem conclude_of_not_last {head : Playhead α} {target : Target α} {now : α}
    (h : (head.round target now).last = false) :
    conclude head target (head.loop target now) =
      (conclude (head.round target now).head (head.round target now).target
        ((head.round target now).head.loop (head.round target now).target now)).after
          (head.round target now).beats := by
  rw [loop, if_neg (by simp [h])]
  rfl

omit [Scalar α] [Eases α] in
theorem shown_after (turn : Turn α) (beats : List (Beat α)) :
    (turn.after beats).shown = turn.shown.after beats := rfl

theorem conclude_of_beyond {head : Playhead α} (beyond : head.steps.length ≤ head.place)
    (target : Target α) (now : α) :
    (conclude head target (head.loop target now)).shown = Track.finish head.signal target := by
  have hround : head.round target now =
      { head.finish target with tick := none, last := true } := by
    simp [round, List.getElem?_eq_none_iff.mpr beyond]
  rw [conclude_of_last (by rw [hround]), hround]
  simp [finish, Turn.shown, track, Track.finish]

theorem conclude_of_unarmed {head : Playhead α} {step : Step α}
    (place : head.steps[head.place]? = some step) (unarmed : head.timer = none)
    (target : Target α) (now : α) :
    let entered := head.enter step target now
    conclude head target (head.loop target now) =
      (conclude entered.head entered.target (entered.head.loop entered.target now)).after
        entered.beats := by
  have hround : head.round target now =
      { head.enter step target now with tick := none, last := false } := by
    simp [round, place, unarmed]
  rw [conclude_of_not_last (by rw [hround]), hround]

theorem round_of_armed {head : Playhead α} {step : Step α} {timer : Timer α}
    (place : head.steps[head.place]? = some step) (armed : head.timer = some timer)
    (target : Target α) (now : α) :
    head.round target now =
      { head.follow (Track.stride step timer target now) with
        tick := some (timer.advance now).1
        last := !(Track.stride step timer target now).passed } := by
  simp [round, place, armed]

theorem conclude_of_staying {head : Playhead α} {step : Step α} {timer : Timer α}
    {upcoming : List (Step α)} (unfinished : head.finished = false)
    (steps : head.steps.drop head.place = step :: upcoming) (armed : head.timer = some timer)
    {target : Target α} {now : α} (stays : (Track.stride step timer target now).passed = false) :
    (conclude head target (head.loop target now)).shown =
      (Track.stride step timer target now).stay upcoming head.signal := by
  have hplace := getElem?_of_drop steps
  have hround := round_of_armed hplace armed target now
  have htrack : (head.follow (Track.stride step timer target now)).head.track =
      ⟨.playing (Track.stride step timer target now).step
        (Track.stride step timer target now).timer upcoming, head.signal⟩ := by
    simp only [follow, stays]
    exact track_of_playing unfinished (drop_set steps _) rfl
  rw [conclude_of_last (by simp [hround, stays]), hround, Turn.shown, htrack]
  rfl

theorem conclude_of_passing {head : Playhead α} {step : Step α} {timer : Timer α}
    (place : head.steps[head.place]? = some step) (armed : head.timer = some timer)
    {target : Target α} {now : α} (passes : (Track.stride step timer target now).passed = true) :
    let followed := head.follow (Track.stride step timer target now)
    conclude head target (head.loop target now) =
      (conclude followed.head followed.target (followed.head.loop followed.target now)).after
        followed.beats := by
  have hround := round_of_armed place armed target now
  rw [conclude_of_not_last (by simp [hround, passes]), hround]

theorem conclude_of_playing {head : Playhead α} {step : Step α} {timer : Timer α}
    {upcoming : List (Step α)} (unfinished : head.finished = false)
    (steps : head.steps.drop head.place = step :: upcoming) (armed : head.timer = some timer)
    (target : Target α) (now : α) :
    (conclude head target (head.loop target now)).shown =
      Track.play head.signal step timer target now upcoming := by
  -- On the steps behind the current one: a step that is passed takes two rounds, its own
  -- and the start of the next one.
  induction upcoming generalizing head step timer target with
  | nil =>
      cases hpassed : (Track.stride step timer target now).passed with
      | false =>
          rw [conclude_of_staying unfinished steps armed hpassed,
            Track.play_of_not_passed hpassed]
      | true =>
          have hbeyond : (head.follow (Track.stride step timer target now)).head.steps.length ≤
              (head.follow (Track.stride step timer target now)).head.place := by
            have hlength := congrArg List.length steps
            simp only [List.length_drop, List.length_singleton] at hlength
            simp only [follow, hpassed, if_true, List.length_set]
            omega
          rw [conclude_of_passing (getElem?_of_drop steps) armed hpassed, shown_after,
            conclude_of_beyond hbeyond, Track.play, if_pos hpassed]
          simp [follow, hpassed]
  | cons next rest ih =>
      cases hpassed : (Track.stride step timer target now).passed with
      | false =>
          rw [conclude_of_staying unfinished steps armed hpassed,
            Track.play_of_not_passed hpassed]
      | true =>
          have hrest : (head.follow (Track.stride step timer target now)).head.steps.drop
              (head.follow (Track.stride step timer target now)).head.place = next :: rest := by
            simp only [follow, hpassed, if_true]
            exact drop_set_succ steps _
          have hunarmed : (head.follow (Track.stride step timer target now)).head.timer = none := by
            simp [follow, hpassed]
          rw [conclude_of_passing (getElem?_of_drop steps) armed hpassed, shown_after,
            conclude_of_unarmed (getElem?_of_drop hrest) hunarmed, shown_after]
          have hunfinished : ((head.follow (Track.stride step timer target now)).head.enter next
              (head.follow (Track.stride step timer target now)).target now).head.finished =
                false := by
            simpa [follow, hpassed, enter] using unfinished
          rw [ih hunfinished (drop_set hrest _) rfl, Track.play, if_pos hpassed]
          simp [follow, hpassed, enter, Track.enter, Track.Turn.after]

theorem update_shown {head : Playhead α} (h : head.Plays ∨ head.Rests ∨ head.Vacant)
    (target : Target α) (now : α) :
    (head.update target now).shown = head.track.update target now := by
  rcases h with hplays | hrests | hvacant
  · obtain ⟨timer, htimer, -⟩ := hplays.timer
    have hsteps := List.drop_eq_getElem_cons hplays.place
    rw [update, rounds_of_unfinished hplays.unfinished,
      track_of_playing hplays.unfinished hsteps htimer]
    exact conclude_of_playing hplays.unfinished hsteps htimer target now
  · have htrack : head.track = ⟨.finished, head.signal⟩ := by simp [track, hrests.finished]
    rw [update, rounds_of_finished hrests.finished]
    simp [conclude, Turn.shown, Track.update, htrack]
  · have htrack : head.track = ⟨.vacant, head.signal⟩ := by
      simp [track, hvacant.unfinished, hvacant.steps]
    rw [update, rounds_of_unfinished hvacant.unfinished, htrack]
    exact conclude_of_beyond (by simp [hvacant.steps]) target now

theorem start_shown (steps : List (Step α)) (signal : Option Nat) (target : Target α) (now : α) :
    (start steps signal target now).shown = Track.start steps signal target now := by
  cases steps with
  | nil => rfl
  | cons first upcoming => rfl

/-! ## All updates -/

omit [Scalar α] [Eases α] in
theorem map_plan_set {steps : List (Step α)} {place : Nat} {step next : Step α}
    (h : steps[place]? = some step) (plan : next.plan = step.plan) :
    (steps.set place next).map Step.plan = steps.map Step.plan := by
  obtain ⟨hplace, rfl⟩ := List.getElem?_eq_some_iff.mp h
  calc
    _ = (steps.set place steps[place]).map Step.plan := by rw [List.map_set, List.map_set, plan]
    _ = _ := by rw [List.set_getElem_self]

theorem plans_start (steps : List (Step α)) (signal : Option Nat) (target : Target α) (now : α) :
    (start steps signal target now).head.steps.map Step.plan = steps.map Step.plan := by
  cases steps with
  | nil => rfl
  | cons first upcoming => rfl

theorem plans_round (head : Playhead α) (target : Target α) (now : α) :
    (head.round target now).head.steps.map Step.plan = head.steps.map Step.plan := by
  have houtcome := head.round_outcome target now
  generalize head.round target now = round at houtcome
  cases houtcome with
  | finishes => rfl
  | enters place => exact map_plan_set place rfl
  | @tells step timer place =>
      have hplans := map_plan_set place (Track.stride_plan step timer target now)
      simp only [follow]
      split <;> exact hplans

theorem plans_update (head : Playhead α) (target : Target α) (now : α) :
    (head.update target now).head.steps.map Step.plan = head.steps.map Step.plan := by
  have hloop : (conclude head target (head.loop target now)).head.steps.map Step.plan =
      head.steps.map Step.plan := by
    induction head, target using loop.induct now with
    | case1 head target hlast =>
        rw [conclude_of_last hlast, plans_round]
    | case2 head target hlast ih =>
        rw [conclude_of_not_last (by simpa using hlast)]
        exact ih.trans (plans_round head target now)
  rw [update, rounds]
  split
  · rfl
  · exact hloop

inductive Run (steps : List (Step α)) (signal : Option Nat) :
    List (List (Beat α)) → Playhead α → Prop
  | start (target : Target α) (now : α) :
      Run steps signal [(start steps signal target now).beats] (start steps signal target now).head
  | update {heard : List (List (Beat α))} {head : Playhead α} (run : Run steps signal heard head)
      (target : Target α) (now : α) :
      Run steps signal (heard ++ [(head.update target now).beats]) (head.update target now).head

namespace Run

variable {steps : List (Step α)} {signal : Option Nat} {heard : List (List (Beat α))}
  {head : Playhead α}

theorem stands (run : Run steps signal heard head) :
    head.Plays ∨ head.Rests ∨ head.Vacant ∧ heard.length = 1 := by
  induction run with
  | start target now =>
      rcases start_stands steps signal target now with hplays | hvacant
      · exact .inl hplays
      · exact .inr (.inr ⟨hvacant, rfl⟩)
  | update run target now ih =>
      have hstands := (rounds_stand (ih.imp_right (·.imp_right And.left)) target now).2
      exact hstands.imp_right .inl

theorem stands_or_vacant (run : Run steps signal heard head) :
    head.Plays ∨ head.Rests ∨ head.Vacant :=
  run.stands.imp_right (·.imp_right And.left)

theorem plans (run : Run steps signal heard head) :
    head.steps.map Step.plan = steps.map Step.plan := by
  induction run with
  | start target now => exact plans_start steps signal target now
  | update run target now ih => rw [plans_update, ih]

end Run

/-- Every track is shown by a head that has lived the same life. -/
theorem exists_run {steps : List (Step α)} {signal : Option Nat} {heard : List (List (Beat α))}
    {track : Track α} (run : Track.Run steps signal heard track) :
    ∃ head : Playhead α, Run steps signal heard head ∧ head.track = track := by
  induction run with
  | start target now =>
      have hshown := start_shown steps signal target now
      rw [← hshown]
      exact ⟨_, .start target now, rfl⟩
  | update run target now ih =>
      obtain ⟨head, hrun, rfl⟩ := ih
      have hshown := update_shown hrun.stands_or_vacant target now
      rw [← hshown]
      exact ⟨_, hrun.update target now, rfl⟩

structure Orderly (head : Playhead α) (fresh : Prop) : Prop where
  stands : head.Plays ∨ head.Rests ∨ head.Vacant ∧ fresh
  shown : ∀ target now, (head.update target now).shown = head.track.update target now
  ends : ∀ target now,
    (head.rounds target now).length ≤ 2 * (head.steps.length - head.place) + 1
  ticks : ∀ target now, ∀ round ∈ head.rounds target now, round.tick ≠ some .idle

end Playhead

theorem Plan.valid_of_ofGrid [Scalar α] (config : Config α) (grid : Grid α) :
    ∀ plan ∈ (Plan.ofGrid config grid).pipes,
      plan.index < grid.pipes.length ∧ grid.pipe plan.index ≠ [] := by
  intro plan hmem
  obtain ⟨entry, hentry, rfl⟩ := List.mem_map.mp hmem
  obtain ⟨hpipe, hactive⟩ := Grid.pipe_of_mem_activePipes hentry
  have hheld : grid.pipe (PipePlan.ofActions config entry.1 entry.2).index ≠ [] := by
    rw [PipePlan.ofActions, hpipe]
    exact hactive
  refine ⟨?_, hheld⟩
  by_contra hbeyond
  rw [Grid.pipe, List.getElem?_eq_none_iff.mpr (Nat.le_of_not_lt hbeyond)] at hheld
  exact hheld rfl

namespace Animation

variable [Scalar α] [Eases α]

/-- Whatever the plan of a group and the times are, its track is one that a playhead
shows. -/
theorem start_orderly {segments : List (Segment α)} {group : Nat} {segment : Segment α}
    (h : segments[group]? = some segment) (target : Target α) (now : α) (signal : Option Nat)
    (times : List α) :
    (∀ config read text, Segment.readAll config read text = .ok segments →
      ∀ plan ∈ segment.plan.pipes,
        plan.index < segment.grid.pipes.length ∧ segment.grid.pipe plan.index ≠ []) ∧
    ∃ head : Playhead α,
      ((start segments target now signal).last times).animation.tracks[group]? =
          some head.track ∧
        Playhead.Run segment.steps (if group = 0 then signal else none)
          (((start segments target now signal).history times).map fun turn =>
            GroupBeat.ofGroup group turn.beats) head ∧
        head.steps.map Step.plan = segment.plan.pipes ∧ head.Orderly (times = []) := by
  constructor
  · intro config read text hread
    rw [Segment.plan_of_readEach hread segment (List.mem_of_getElem? h)]
    exact Plan.valid_of_ofGrid config segment.grid
  · obtain ⟨track, htrack, run⟩ := start_run h target now signal times
    obtain ⟨head, hrun, rfl⟩ := Playhead.exists_run run
    refine ⟨head, htrack, hrun, hrun.plans.trans segment.steps_plan, ?_⟩
    constructor
    case stands =>
      refine hrun.stands.imp_right (·.imp_right fun ⟨hvacant, hlength⟩ => ⟨hvacant, ?_⟩)
      cases times with
      | nil => rfl
      | cons time rest => simp [Turn.history, Turn.updates] at hlength
    case shown => exact Playhead.update_shown hrun.stands_or_vacant
    case ends => exact head.length_rounds_le
    case ticks =>
      exact fun target now => (Playhead.rounds_stand hrun.stands_or_vacant target now).1

theorem start_orderly_of_endless_pipe :
    ∃ (segments : List (Segment Float)) (segment : Segment Float),
      Segment.readAll Config.standard Target.standard "[x1d0l-1|y3][,e7z]" = .ok segments ∧
      segments[0]? = some segment ∧
      (∀ config read text, Segment.readAll config read text = .ok segments →
        ∀ plan ∈ segment.plan.pipes,
          plan.index < segment.grid.pipes.length ∧ segment.grid.pipe plan.index ≠ []) ∧
      ∃ head : Playhead Float,
        ((start segments Target.standard 0 (some 7)).last [0 / 0, 1]).animation.tracks[0]? =
            some head.track ∧
          Playhead.Run segment.steps (if (0 : Nat) = 0 then some 7 else none)
            (((start segments Target.standard 0 (some 7)).history [0 / 0, 1]).map fun turn =>
              GroupBeat.ofGroup 0 turn.beats) head ∧
          head.steps.map Step.plan = segment.plan.pipes ∧
          head.Orderly (([0 / 0, 1] : List Float) = []) := by
  have hok : ((Segment.readAll Config.standard (Target.standard : Target Float)
      "[x1d0l-1|y3][,e7z]").toOption.bind (·[0]?)).isSome = true := by decide +kernel
  cases hread : Segment.readAll Config.standard (Target.standard : Target Float)
      "[x1d0l-1|y3][,e7z]" with
  | error full =>
      rw [hread] at hok
      cases hok
  | ok segments =>
      rw [hread] at hok
      obtain ⟨segment, hsegment⟩ := Option.isSome_iff_exists.mp hok
      exact ⟨segments, segment, rfl, hsegment,
        start_orderly hsegment Target.standard 0 (some 7) [0 / 0, 1]⟩

end Animation

end MotionNotation
