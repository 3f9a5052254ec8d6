import Mathlib.Data.Seq.Basic
import MotionNotation.Proofs.Playback.History

/-!
# Scores

The score of a plan is the sequence of all events that a group with this plan
can ever tell; it has no end if one of the pipes has none.  Each phase of a
track has a score too, of what is still to come, and an update tells exactly
the part of it that the next phase no longer has.
-/

namespace MotionNotation

open Stream' (Seq)

variable {α : Type}

theorem append_ofList_right_injective {β : Type} (told : List β) :
    Function.Injective fun rest : Seq β => (Seq.ofList told).append rest := by
  induction told with
  | nil => intro first second h; simpa using h
  | cons item told ih =>
      intro first second h
      simp only [Seq.ofList_cons, Seq.cons_append] at h
      exact ih (Seq.cons_right_injective item h)

namespace Repetition

/-- The events of a pipe from one of its runs on, and what follows the pipe. -/
def score (repetition : Repetition) (pipe : Nat) (rest : Seq (GroupEvent.Kind α)) :
    Seq (GroupEvent.Kind α) :=
  match repetition with
  | .finite count =>
      (Seq.ofList (List.replicate (count - 1) (.pipeLooped pipe))).append
        (.cons (.pipeCompleted pipe) rest)
  | .infinite => Seq.ofStream (Stream'.const (.pipeLooped pipe))

theorem score_finite_of_le {count : Nat} (h : count ≤ 1) (pipe : Nat)
    (rest : Seq (GroupEvent.Kind α)) :
    (finite count).score pipe rest = .cons (.pipeCompleted pipe) rest := by
  have hzero : count - 1 = 0 := by omega
  simp [score, hzero]

theorem score_finite_of_lt {count : Nat} (h : 1 < count) (pipe : Nat)
    (rest : Seq (GroupEvent.Kind α)) :
    (finite count).score pipe rest =
      .cons (.pipeLooped pipe) ((finite (count - 1)).score pipe rest) := by
  have hsucc : count - 1 = count - 1 - 1 + 1 := by omega
  rw [score, hsucc, List.replicate_succ, Seq.ofList_cons, Seq.cons_append]
  rfl

theorem score_infinite (pipe : Nat) (rest : Seq (GroupEvent.Kind α)) :
    infinite.score pipe rest = .cons (.pipeLooped pipe) (infinite.score pipe rest) := by
  have hconst : Stream'.const (GroupEvent.Kind.pipeLooped (α := α) pipe) =
      Stream'.cons (.pipeLooped pipe) (Stream'.const (.pipeLooped pipe)) :=
    Stream'.const_eq _
  rw [score]
  conv => lhs; rw [hconst, Seq.ofStream_cons]

theorem score_ne_nil (repetition : Repetition) (pipe : Nat)
    (rest : Seq (GroupEvent.Kind α)) : repetition.score pipe rest ≠ .nil := by
  cases repetition with
  | finite count =>
      by_cases h : 1 < count
      · simp [score_finite_of_lt h]
      · simp [score_finite_of_le (Nat.le_of_not_lt h)]
  | infinite =>
      rw [score_infinite]
      exact Seq.cons_ne_nil

end Repetition

namespace Plan

def scoreOf : List (PipePlan α) → Seq (GroupEvent.Kind α)
  | [] => .cons .groupCompleted .nil
  | plan :: rest =>
      .cons (.pipeStarted plan.index plan.duration)
        (plan.repetition.score plan.index (scoreOf rest))

/-- Each pipe in its order is started, restarted for each of its runs but the
first, and completed; at the end the group is completed. -/
def score (plan : Plan α) : Seq (GroupEvent.Kind α) :=
  scoreOf plan.pipes

end Plan

/-! ## One step of a track -/

inductive Repetition.Follows : Repetition → Repetition → Prop
  | counted {count : Nat} (h : 1 < count) : Follows (.finite count) (.finite (count - 1))
  | endless : Follows .infinite .infinite

theorem Repetition.Follows.score {first second : Repetition} (h : first.Follows second)
    (pipe : Nat) (rest : Seq (GroupEvent.Kind α)) :
    first.score pipe rest = .cons (.pipeLooped pipe) (second.score pipe rest) := by
  cases h with
  | counted hcount => exact score_finite_of_lt hcount pipe rest
  | endless => exact score_infinite pipe rest

namespace Timer

variable [Scalar α]

inductive Answer (timer : Timer α) (now : α) : Tick α × Timer α → Prop
  | goesOn (early : timer.progress now < 1) :
      Answer timer now (.progress (timer.progress now), timer)
  | restarts {remaining : Repetition} (late : ¬ timer.progress now < 1)
      (follows : timer.remaining.Follows remaining) :
      Answer timer now (.looped, { timer with remaining }.restart now)
  | ends {count : Nat} (late : ¬ timer.progress now < 1)
      (counted : timer.remaining = .finite count) (last : count ≤ 1) :
      Answer timer now (.completed, { timer with state := .completed })

theorem advance_answer {timer : Timer α} (h : timer.state = .running) (now : α) :
    timer.Answer now (timer.advance now) := by
  obtain ⟨begins, ends, duration, remaining, state⟩ := timer
  obtain rfl : state = .running := h
  simp only [advance]
  split
  · rename_i early
    exact .goesOn early
  · rename_i late
    cases remaining with
    | infinite => exact .restarts late .endless
    | finite count =>
        simp only [endRun]
        split
        · rename_i hcount
          exact .restarts late (.counted hcount)
        · rename_i hcount
          exact .ends late rfl (Nat.le_of_not_lt hcount)

theorem advance_cases {timer : Timer α} (h : timer.state = .running) (now : α) :
    (∃ progress, timer.advance now = (.progress progress, timer)) ∨
    (∃ next, timer.advance now = (.looped, next) ∧ next.state = .running ∧
      ∀ pipe (rest : Seq (GroupEvent.Kind α)), timer.remaining.score pipe rest =
        .cons (.pipeLooped pipe) (next.remaining.score pipe rest)) ∨
    (∃ next, timer.advance now = (.completed, next) ∧
      ∀ pipe (rest : Seq (GroupEvent.Kind α)),
        timer.remaining.score pipe rest = .cons (.pipeCompleted pipe) rest) := by
  have hanswer := advance_answer h now
  generalize timer.advance now = reply at hanswer
  cases hanswer with
  | goesOn early => exact .inl ⟨_, rfl⟩
  | restarts late follows => exact .inr (.inl ⟨_, rfl, h, follows.score⟩)
  | ends late counted last =>
      refine .inr (.inr ⟨_, rfl, fun pipe rest => ?_⟩)
      rw [counted]
      exact Repetition.score_finite_of_le last pipe rest

end Timer

namespace Track

inductive Stride.Outcome (step : Step α) (timer : Timer α) (stride : Stride α) : Prop
  | goesOn (passed : stride.passed = false) (armed : stride.timer.state = .running)
      (events : Beat.events stride.beats = [])
      (score : ∀ rest : Seq (GroupEvent.Kind α),
        timer.remaining.score step.plan.index rest =
          stride.timer.remaining.score step.plan.index rest)
  | restarts (passed : stride.passed = false) (armed : stride.timer.state = .running)
      (events : Beat.events stride.beats = [.pipeLooped step.plan.index])
      (score : ∀ rest : Seq (GroupEvent.Kind α),
        timer.remaining.score step.plan.index rest =
          .cons (.pipeLooped step.plan.index)
            (stride.timer.remaining.score step.plan.index rest))
  | ends (passed : stride.passed = true)
      (events : Beat.events stride.beats = [.pipeCompleted step.plan.index])
      (score : ∀ rest : Seq (GroupEvent.Kind α),
        timer.remaining.score step.plan.index rest =
          .cons (.pipeCompleted step.plan.index) rest)

section Steps

variable [Scalar α] [Eases α]

@[simp] theorem stride_plan (step : Step α) (timer : Timer α) (target : Target α) (now : α) :
    (stride step timer target now).step.plan = step.plan := by
  unfold stride
  split <;> simp only [pass, loop]
  split <;> rfl

@[simp] theorem signals_stride (step : Step α) (timer : Timer α) (target : Target α) (now : α) :
    Beat.signals (stride step timer target now).beats = [] := by
  unfold stride
  split <;> simp [loop, pass, Beat.signals, Beat.signal?, List.filterMap_append]

@[simp] theorem events_enter (step : Step α) (target : Target α) :
    Beat.events (enter step target).2.2 =
      [.pipeStarted step.plan.index step.plan.duration] := by
  simp only [enter, Beat.events_append, Beat.events_map_wrote]
  rfl

@[simp] theorem signals_enter (step : Step α) (target : Target α) :
    Beat.signals (enter step target).2.2 = [] := by
  simp only [enter, Beat.signals_append, Beat.signals_map_wrote]
  rfl

theorem stride_outcome {timer : Timer α} (h : timer.state = .running) (step : Step α)
    (target : Target α) (now : α) :
    Stride.Outcome step timer (stride step timer target now) := by
  rcases timer.advance_cases h now with ⟨progress, heq⟩ | ⟨next, heq, hrunning, hscore⟩ |
    ⟨next, heq, hscore⟩
  · have hevents : Beat.events (stride step timer target now).beats = [] := by
      simp only [stride, heq]
      exact Beat.events_map_wrote (step.writes progress)
    refine .goesOn ?_ ?_ hevents ?_ <;> simp only [stride, heq]
    · exact h
    · exact fun _ => trivial
  · have hevents : Beat.events (stride step timer target now).beats =
        [.pipeLooped step.plan.index] := by
      simp only [stride, heq, loop, Beat.events_append, Beat.events_map_wrote]
      rfl
    refine .restarts ?_ ?_ hevents ?_ <;> simp only [stride, heq, loop]
    · exact hrunning
    · exact hscore step.plan.index
  · have hevents : Beat.events (stride step timer target now).beats =
        [.pipeCompleted step.plan.index] := by
      simp only [stride, heq, pass, Beat.events_append, Beat.events_map_wrote]
      rfl
    refine .ends ?_ hevents (hscore step.plan.index)
    simp only [stride, heq, pass]

end Steps

/-! ## One update of a track -/

namespace Phase

def score : Phase α → Seq (GroupEvent.Kind α)
  | .vacant => .cons .groupCompleted .nil
  | .playing step timer upcoming =>
      timer.remaining.score step.plan.index (Plan.scoreOf (upcoming.map Step.plan))
  | .finished => .nil

def Armed : Phase α → Prop
  | .playing _ timer _ => timer.state = .running
  | .vacant | .finished => True

theorem score_eq_nil_iff (phase : Phase α) : phase.score = .nil ↔ phase = .finished := by
  cases phase with
  | vacant => simp [score]
  | playing step timer upcoming => simp [score, Repetition.score_ne_nil]
  | finished => simp [score]

end Phase

structure Turn.Outcome (phase : Phase α) (signal : Option Nat) (turn : Turn α) : Prop where
  score : phase.score =
    (Seq.ofList (Beat.events turn.beats)).append turn.track.phase.score
  armed : turn.track.phase.Armed
  lastLoop : ∀ pipe, .pipeLooped pipe ∉ (Beat.events turn.beats).dropLast
  completed : .groupCompleted ∈ Beat.events turn.beats ↔ turn.track.isFinished = true
  signals : Beat.signals turn.beats = if turn.track.isFinished then signal.toList else []
  kept : turn.track.isFinished = false → turn.track.signal = signal

namespace Turn.Outcome

variable {phase : Phase α} {signal : Option Nat}

theorem finish (target : Target α) (h : phase.score = .cons .groupCompleted .nil) :
    Outcome phase signal (finish signal target) where
  score := by
    rw [h, Track.finish, events_finishBeats, Seq.ofList_cons, Seq.cons_append, Seq.ofList_nil,
      Seq.nil_append]
    rfl
  armed := trivial
  lastLoop := by simp [Track.finish]
  completed := by simp [Track.finish, isFinished]
  signals := by simp [Track.finish, isFinished]
  kept := by simp

theorem after {turn : Turn α} {next : Phase α} (h : Outcome next signal turn)
    {beats : List (Beat α)} (silent : Beat.signals beats = [])
    (loops : ∀ pipe, .pipeLooped pipe ∉ Beat.events beats)
    (goesOn : .groupCompleted ∉ Beat.events beats)
    (score : phase.score = (Seq.ofList (Beat.events beats)).append next.score) :
    Outcome phase signal (turn.after beats) where
  score := by
    rw [score, h.score, after_beats, Beat.events_append, Seq.ofList_append, Seq.append_assoc,
      after_track]
  armed := h.armed
  lastLoop := by
    intro pipe hmem
    rw [after_beats, Beat.events_append, List.dropLast_append] at hmem
    split at hmem
    · exact loops pipe (List.dropLast_subset _ hmem)
    · rcases List.mem_append.mp hmem with hmem | hmem
      · exact loops pipe hmem
      · exact h.lastLoop pipe hmem
  completed := by
    rw [after_beats, Beat.events_append, List.mem_append, after_track, ← h.completed]
    exact or_iff_right goesOn
  signals := by
    rw [after_beats, Beat.signals_append, silent, List.nil_append, after_track, h.signals]
  kept := h.kept

end Turn.Outcome

namespace Stride.Outcome

variable {step : Step α} {timer : Timer α} {stride : Stride α}

theorem stay (h : Outcome step timer stride) (plan : stride.step.plan = step.plan)
    (silent : Beat.signals stride.beats = []) (passed : stride.passed = false)
    (upcoming : List (Step α)) (signal : Option Nat) :
    Turn.Outcome (.playing step timer upcoming) signal (stride.stay upcoming signal) := by
  cases h with
  | goesOn _ armed events score =>
      refine ⟨?_, armed, ?_, ?_, ?_, fun _ => rfl⟩
      · simpa [Stride.stay, events, Phase.score, plan] using score _
      · simp [events]
      · simp [events]
      · simp [silent]
  | restarts _ armed events score =>
      refine ⟨?_, armed, ?_, ?_, ?_, fun _ => rfl⟩
      · simpa [Stride.stay, events, Phase.score, plan] using score _
      · simp [events]
      · simp [events]
      · simp [silent]
  | ends hpassed => simp [passed] at hpassed

theorem of_passed (h : Outcome step timer stride) (passed : stride.passed = true) :
    Beat.events stride.beats = [.pipeCompleted step.plan.index] ∧
      ∀ rest : Seq (GroupEvent.Kind α), timer.remaining.score step.plan.index rest =
        .cons (.pipeCompleted step.plan.index) rest := by
  cases h with
  | goesOn hpassed => simp [passed] at hpassed
  | restarts hpassed => simp [passed] at hpassed
  | ends _ events score => exact ⟨events, score⟩

end Stride.Outcome

variable [Scalar α] [Eases α]

theorem play_outcome (signal : Option Nat) (step : Step α) {timer : Timer α}
    (h : timer.state = .running) (target : Target α) (now : α) (upcoming : List (Step α)) :
    Turn.Outcome (.playing step timer upcoming) signal
      (play signal step timer target now upcoming) := by
  -- A step that is passed arms the timer of the next one, so that the
  -- hypothesis on the timer is there again for the rest of the chain.
  induction upcoming generalizing step timer target with
  | nil =>
      have hstride := stride_outcome h step target now
      simp only [play]
      split
      · rename_i hpassed
        obtain ⟨events, score⟩ := hstride.of_passed hpassed
        have hfinish : Turn.Outcome .vacant signal
            (finish signal (stride step timer target now).target) := .finish _ rfl
        refine hfinish.after (signals_stride ..) ?_ ?_ ?_
        · simp [events]
        · simp [events]
        · rw [events, Seq.ofList_cons, Seq.cons_append, Seq.ofList_nil, Seq.nil_append]
          exact score _
      · rename_i hpassed
        exact hstride.stay (stride_plan ..) (signals_stride ..) (by simpa using hpassed) [] signal
  | cons next rest ih =>
      have hstride := stride_outcome h step target now
      simp only [play]
      split
      · rename_i hpassed
        obtain ⟨events, score⟩ := hstride.of_passed hpassed
        refine .after (@ih _ (Step.arm _ now) rfl _) ?_ ?_ ?_ ?_
        · simp
        · simp [events]
        · simp [events]
        · rw [Beat.events_append, events, events_enter, List.singleton_append, Seq.ofList_cons,
            Seq.cons_append, Seq.ofList_cons, Seq.cons_append, Seq.ofList_nil, Seq.nil_append]
          exact score _
      · rename_i hpassed
        exact hstride.stay (stride_plan ..) (signals_stride ..) (by simpa using hpassed) _ signal

theorem update_outcome {track : Track α} (armed : track.phase.Armed)
    (unfinished : track.isFinished = false) (target : Target α) (now : α) :
    Turn.Outcome track.phase track.signal (track.update target now) := by
  obtain ⟨phase, signal⟩ := track
  cases phase with
  | vacant => exact .finish target rfl
  | playing step timer upcoming => exact play_outcome signal step armed target now upcoming
  | finished => simp [isFinished] at unfinished

/-! ## The whole life of a track -/

theorem events_start (steps : List (Step α)) (signal : Option Nat) (target : Target α) (now : α) :
    Beat.events (start steps signal target now).beats =
      (steps.head?.map fun step => .pipeStarted step.plan.index step.plan.duration).toList := by
  cases steps with
  | nil => rfl
  | cons first upcoming => exact events_enter first target

theorem start_score (steps : List (Step α)) (signal : Option Nat) (target : Target α) (now : α) :
    Plan.scoreOf (steps.map Step.plan) =
      (Seq.ofList (Beat.events (start steps signal target now).beats)).append
        (start steps signal target now).track.phase.score := by
  rw [events_start]
  cases steps with
  | nil => exact (Seq.nil_append _).symm
  | cons first upcoming =>
      simp only [List.head?_cons, Option.map_some, Option.toList_some]
      rw [Seq.ofList_cons, Seq.cons_append, Seq.ofList_nil, Seq.nil_append]
      rfl

theorem signals_start (steps : List (Step α)) (signal : Option Nat) (target : Target α)
    (now : α) : Beat.signals (start steps signal target now).beats = [] := by
  cases steps with
  | nil => rfl
  | cons first upcoming => exact signals_enter first target

theorem start_isFinished (steps : List (Step α)) (signal : Option Nat) (target : Target α)
    (now : α) : (start steps signal target now).track.isFinished = false := by
  cases steps <;> rfl

namespace Run

variable {steps : List (Step α)} {signal : Option Nat} {heard : List (List (Beat α))}
  {track : Track α}

theorem armed (run : Run steps signal heard track) : track.phase.Armed := by
  induction run with
  | start target now => cases steps <;> trivial
  | @update heard track run target now ih =>
      cases hfinished : track.isFinished with
      | true => rwa [update_of_isFinished hfinished]
      | false => exact (update_outcome ih hfinished target now).armed

theorem keeps_signal (run : Run steps signal heard track) (unfinished : track.isFinished = false) :
    track.signal = signal := by
  induction run with
  | start target now => cases steps <;> rfl
  | @update heard track run target now ih =>
      cases hfinished : track.isFinished with
      | true =>
          rw [update_of_isFinished hfinished] at unfinished
          exact absurd unfinished (by simp [hfinished])
      | false =>
          have houtcome := update_outcome run.armed hfinished target now
          rw [houtcome.kept unfinished, ih hfinished]

theorem score (run : Run steps signal heard track) :
    Plan.scoreOf (steps.map Step.plan) =
      (Seq.ofList (Beat.events heard.flatten)).append track.phase.score := by
  induction run with
  | start target now => simpa using start_score steps signal target now
  | @update heard track run target now ih =>
      rw [ih, List.flatten_append, Beat.events_append, Seq.ofList_append, Seq.append_assoc]
      congr 1
      cases hfinished : track.isFinished with
      | true => simp [update_of_isFinished hfinished, Beat.events]
      | false => simpa using (update_outcome run.armed hfinished target now).score

theorem isFinished_iff (run : Run steps signal heard track) :
    track.isFinished = true ↔
      Plan.scoreOf (steps.map Step.plan) = Seq.ofList (Beat.events heard.flatten) := by
  have hfinished : track.isFinished = true ↔ track.phase.score = .nil := by
    rw [Phase.score_eq_nil_iff]
    cases hphase : track.phase <;> simp [isFinished, hphase]
  rw [hfinished, run.score]
  constructor
  · intro h
    rw [h, Seq.append_nil]
  · intro h
    apply append_ofList_right_injective (Beat.events heard.flatten)
    simpa using h

theorem signals (run : Run steps signal heard track) :
    Beat.signals heard.flatten = if track.isFinished then signal.toList else [] := by
  induction run with
  | start target now => simp [signals_start, start_isFinished]
  | @update heard track run target now ih =>
      rw [List.flatten_append, Beat.signals_append, ih]
      cases hfinished : track.isFinished with
      | true => simp [update_of_isFinished hfinished, hfinished, Beat.signals]
      | false =>
          have houtcome := update_outcome run.armed hfinished target now
          simp [houtcome.signals, run.keeps_signal hfinished]

theorem lastLoop (run : Run steps signal heard track) :
    ∀ beats ∈ heard, ∀ pipe, .pipeLooped pipe ∉ (Beat.events beats).dropLast := by
  induction run with
  | start target now => cases steps <;> simp [events_start]
  | @update heard track run target now ih =>
      intro beats hmem
      rcases List.mem_append.mp hmem with hmem | hmem
      · exact ih beats hmem
      · rw [List.mem_singleton.mp hmem]
        cases hfinished : track.isFinished with
        | true => simp [update_of_isFinished hfinished, Beat.events]
        | false => exact (update_outcome run.armed hfinished target now).lastLoop

theorem signals_of_mem (run : Run steps signal heard track) :
    ∀ beats ∈ heard,
      (.groupCompleted ∈ Beat.events beats → Beat.signals beats = signal.toList) ∧
        (.groupCompleted ∉ Beat.events beats → Beat.signals beats = []) := by
  induction run with
  | start target now =>
      intro beats hmem
      rw [List.mem_singleton.mp hmem]
      refine ⟨?_, fun _ => signals_start ..⟩
      cases steps <;> simp [events_start]
  | @update heard track run target now ih =>
      intro beats hmem
      rcases List.mem_append.mp hmem with hmem | hmem
      · exact ih beats hmem
      · rw [List.mem_singleton.mp hmem]
        cases hfinished : track.isFinished with
        | true => simp [update_of_isFinished hfinished, Beat.events, Beat.signals]
        | false =>
            have houtcome := update_outcome run.armed hfinished target now
            rw [houtcome.completed, houtcome.signals, run.keeps_signal hfinished]
            exact ⟨fun h => if_pos h, fun h => if_neg h⟩

end Run

end Track

end MotionNotation
