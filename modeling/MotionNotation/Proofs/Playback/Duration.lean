import MotionNotation.Proofs.Playback.Rational

/-!
# Durations

How long a single group takes.  A run that is noticed late makes everything
behind it late, and nothing catches up, so that the total duration of a plan is
the least that its group can take.  It takes no longer if the updates meet the
end of each run.
-/

namespace MotionNotation

/-! ## Not before its time -/

namespace Plan

theorem totalFrom_add (delay begins : Rat) (pipes : List (PipePlan Rat)) :
    totalFrom (delay + begins) pipes = (totalFrom begins pipes).map (delay + ·) := by
  induction pipes generalizing begins with
  | nil => rfl
  | cons plan rest ih =>
      simp only [totalFrom]
      split
      · rw [← ih]
        congr 1
        exact add_assoc _ _ _
      · rfl

theorem totalFrom_eq_totalDuration (begins : Rat) (plan : Plan Rat) :
    totalFrom begins plan.pipes = plan.totalDuration.map (begins + ·) := by
  have hzero := totalFrom_add begins 0 plan.pipes
  rwa [add_zero] at hzero

theorem totalFrom_cons {plan : PipePlan Rat} {count : Nat}
    (h : plan.repetition = .finite count) (begins : Rat) (rest : List (PipePlan Rat)) :
    totalFrom begins (plan :: rest) = totalFrom (begins + plan.duration * count) rest := by
  simp only [totalFrom, h, Scalar.ofNat_rat]

def LastUntil (limit begins : Rat) (pipes : List (PipePlan Rat)) : Prop :=
  ∀ ends, totalFrom begins pipes = some ends → limit ≤ ends

theorem LastUntil.mono {limit begins later : Rat} {pipes : List (PipePlan Rat)}
    (h : LastUntil limit begins pipes) (late : begins ≤ later) : LastUntil limit later pipes := by
  intro ends hends
  have hdelay : later - begins + begins = later := sub_add_cancel later begins
  rw [← hdelay, totalFrom_add, Option.map_eq_some_iff] at hends
  obtain ⟨nominal, hnominal, rfl⟩ := hends
  have hlimit := h nominal hnominal
  linarith

end Plan

structure Timer.LastsUntil (limit time : Rat) (behind : List (PipePlan Rat)) (timer : Timer Rat) :
    Prop where
  clocked : timer.Clocked time
  lasts : ∀ count, timer.remaining = .finite count →
    Plan.LastUntil limit (timer.begins + timer.duration * count) behind

namespace Timer

variable {limit time now : Rat} {behind : List (PipePlan Rat)}

theorem lastsUntil_of_plan {plan : PipePlan Rat}
    (h : Plan.LastUntil limit now (plan :: behind)) :
    (plan.timer now).LastsUntil limit now behind := by
  refine ⟨start_clocked .., fun count hcount => ?_⟩
  have hplan : Plan.LastUntil limit (now + plan.duration * count) behind := by
    intro ends hends
    apply h
    rwa [Plan.totalFrom_cons hcount]
  apply hplan.mono
  have hduration : plan.duration ≤ (plan.timer now).duration := by
    simp only [PipePlan.timer, start, Scalar.clampNonneg_rat]
    exact le_max_left plan.duration 0
  have hruns : plan.duration * count ≤ (plan.timer now).duration * count :=
    mul_le_mul_of_nonneg_right hduration (Nat.cast_nonneg count)
  exact add_le_add (le_refl now) hruns

theorem LastsUntil.advance {timer : Timer Rat} (h : timer.LastsUntil limit time behind)
    (later : time ≤ now) :
    ((timer.advance now).1 = .completed → Plan.LastUntil limit now behind) ∧
    ((timer.advance now).1 ≠ .completed → (timer.advance now).2.LastsUntil limit now behind) := by
  have hanswer := timer.advance_answer h.clocked.running now
  have hover := h.clocked.progress_lt_one_iff later
  have hends := h.clocked.ends
  have hnonneg := h.clocked.nonneg
  generalize timer.advance now = reply at hanswer
  cases hanswer with
  | goesOn early => exact ⟨nofun, fun _ => ⟨h.clocked.mono later, h.lasts⟩⟩
  | restarts late follows =>
      rw [hover, not_lt, hends] at late
      refine ⟨nofun, fun _ => ⟨h.clocked.restart _ now, fun left hleft => ?_⟩⟩
      generalize hremaining : timer.remaining = remaining at follows
      cases follows with
      | endless => cases hleft
      | @counted count hmany =>
          cases hleft
          apply (h.lasts count hremaining).mono
          have hcount : (count : Rat) = (count - 1 : Nat) + 1 := by
            rw [Nat.cast_pred (by omega)]
            ring
          calc
            _ = timer.begins + timer.duration + timer.duration * (count - 1 : Nat) := by
              rw [hcount]
              ring
            _ ≤ _ := add_le_add late (le_refl _)
  | @ends count late counted last =>
      rw [hover, not_lt, hends] at late
      refine ⟨fun _ => (h.lasts count counted).mono ?_, fun hne => absurd rfl hne⟩
      have hcount : (count : Rat) ≤ 1 := by exact_mod_cast last
      calc
        _ ≤ timer.begins + timer.duration * 1 :=
          add_le_add (le_refl _) (mul_le_mul_of_nonneg_left hcount hnonneg)
        _ = timer.begins + timer.duration := by rw [mul_one]
        _ ≤ now := late

end Timer

namespace Track

def Phase.LastsUntil (limit time : Rat) : Phase Rat → Prop
  | .playing _ timer upcoming => timer.LastsUntil limit time (upcoming.map Step.plan)
  | .vacant | .finished => limit ≤ time

variable [Eases Rat] {limit time now : Rat}

theorem start_lastsUntil {steps : List (Step Rat)}
    (h : Plan.LastUntil limit now (steps.map Step.plan)) (signal : Option Nat)
    (target : Target Rat) : (start steps signal target now).track.phase.LastsUntil limit now := by
  cases steps with
  | nil => exact h now rfl
  | cons first upcoming => exact Timer.lastsUntil_of_plan h

theorem stride_lastsUntil {timer : Timer Rat} {behind : List (PipePlan Rat)}
    (h : timer.LastsUntil limit time behind) (later : time ≤ now) (step : Step Rat)
    (target : Target Rat) :
    ((stride step timer target now).passed = true → Plan.LastUntil limit now behind) ∧
    (¬ (stride step timer target now).passed = true →
      (stride step timer target now).timer.LastsUntil limit now behind) := by
  rw [stride_passed_iff h.clocked.running, stride_timer]
  exact h.advance later

theorem play_lastsUntil (signal : Option Nat) (step : Step Rat) {timer : Timer Rat}
    {upcoming : List (Step Rat)} (h : timer.LastsUntil limit time (upcoming.map Step.plan))
    (later : time ≤ now) (target : Target Rat) :
    (play signal step timer target now upcoming).track.phase.LastsUntil limit now := by
  induction upcoming generalizing step timer target time with
  | nil =>
      obtain ⟨hpasses, hstays⟩ := stride_lastsUntil h later step target
      simp only [play]
      split
      · rename_i hpassed
        exact hpasses hpassed now rfl
      · rename_i hpassed
        exact hstays hpassed
  | cons next rest ih =>
      obtain ⟨hpasses, hstays⟩ := stride_lastsUntil h later step target
      simp only [play]
      split
      · rename_i hpassed
        exact ih _ (Timer.lastsUntil_of_plan (hpasses hpassed)) (le_refl now) _
      · rename_i hpassed
        exact hstays hpassed

theorem update_lastsUntil {track : Track Rat} (h : track.phase.LastsUntil limit time)
    (later : time ≤ now) (target : Target Rat) :
    (track.update target now).track.phase.LastsUntil limit now := by
  obtain ⟨phase, signal⟩ := track
  cases phase with
  | vacant => exact le_trans h later
  | playing step timer upcoming => exact play_lastsUntil signal step h later target
  | finished => exact le_trans h later

end Track

theorem Animation.Turn.Sole.limit_le [Eases Rat] {turn : Animation.Turn Rat} {track : Track Rat}
    (sole : turn.Sole track) {limit now time : Rat} (h : track.phase.LastsUntil limit now)
    {times : List Rat} (sorted : (now :: (times ++ [time])).Pairwise (· ≤ ·))
    (finished : ((turn.last times).next time).animation.status = .finished) : limit ≤ time := by
  induction times generalizing turn track now with
  | nil =>
      have hlater : now ≤ time := List.rel_of_pairwise_cons sorted List.mem_cons_self
      have hsole := (sole.next time).1
      have hlasts := Track.update_lastsUntil h hlater turn.target
      rw [Turn.last, List.foldl_nil, hsole.status_eq_finished_iff] at finished
      generalize track.update turn.target time = after at finished hlasts
      obtain ⟨⟨phase, signal⟩, target, beats⟩ := after
      cases phase with
      | finished => exact hlasts
      | vacant | playing => cases finished
  | cons first rest ih =>
      have hlater : now ≤ first := List.rel_of_pairwise_cons sorted List.mem_cons_self
      exact ih (sole.next first).1 (Track.update_lastsUntil h hlater turn.target) sorted.of_cons
        finished

/-! ## On time -/

def PipePlan.runs (plan : PipePlan Rat) : List Rat :=
  match plan.repetition with
  | .finite count => List.replicate count plan.duration
  | .infinite => []

structure PipePlan.Lasting (plan : PipePlan Rat) : Prop where
  long : 0 < plan.duration
  ends : ∃ count, plan.repetition = .finite (count + 1)

namespace Plan

def runsOf (pipes : List (PipePlan Rat)) : List Rat :=
  pipes.flatMap PipePlan.runs

/-- The times at which runs are over that follow each other from a time on. -/
def boundariesFrom (begins : Rat) : List Rat → List Rat
  | [] => []
  | run :: rest => (begins + run) :: boundariesFrom (begins + run) rest

def boundaries (plan : Plan Rat) (begins : Rat) : List Rat :=
  boundariesFrom begins (runsOf plan.pipes)

theorem totalFrom_eq_sum {begins ends : Rat} {pipes : List (PipePlan Rat)}
    (h : totalFrom begins pipes = some ends) : ends = begins + (runsOf pipes).sum := by
  induction pipes generalizing begins with
  | nil =>
      rw [← Option.some.inj h]
      exact (add_zero begins).symm
  | cons plan rest ih =>
      cases hrepetition : plan.repetition with
      | infinite => simp [totalFrom, hrepetition] at h
      | finite count =>
          rw [totalFrom_cons hrepetition] at h
          rw [ih h, runsOf, runsOf, List.flatMap_cons, List.sum_append, PipePlan.runs, hrepetition]
          simp only [List.sum_replicate, nsmul_eq_mul]
          ring

theorem lasting_of_total {begins ends : Rat} {pipes : List (PipePlan Rat)}
    (h : totalFrom begins pipes = some ends) (counts : ∀ plan ∈ pipes, plan.repetition.Counts)
    (long : ∀ plan ∈ pipes, 0 < plan.duration) : ∀ plan ∈ pipes, plan.Lasting := by
  induction pipes generalizing begins with
  | nil => simp
  | cons plan rest ih =>
      rw [List.forall_mem_cons] at counts long ⊢
      cases hrepetition : plan.repetition with
      | infinite => simp [totalFrom, hrepetition] at h
      | finite count =>
          rw [totalFrom_cons hrepetition] at h
          have hcount : 1 ≤ count := by simpa [hrepetition, Repetition.Counts] using counts.1
          refine ⟨⟨long.1, count - 1, ?_⟩, ih h counts.2 long.2⟩
          rw [hrepetition, Nat.sub_add_cancel hcount]

theorem runsOf_pos {pipes : List (PipePlan Rat)} (lasting : ∀ plan ∈ pipes, plan.Lasting) :
    ∀ length ∈ runsOf pipes, 0 < length := by
  intro length hmem
  obtain ⟨plan, hplan, hlength⟩ := List.mem_flatMap.mp hmem
  obtain ⟨hlong, count, hcount⟩ := lasting plan hplan
  rw [PipePlan.runs, hcount] at hlength
  rwa [List.eq_of_mem_replicate hlength]

theorem le_of_mem_boundariesFrom {begins run : Rat} {rest : List Rat}
    (long : ∀ length ∈ rest, 0 < length) :
    ∀ boundary ∈ boundariesFrom begins (run :: rest), begins + run ≤ boundary := by
  induction rest generalizing begins run with
  | nil => simp [boundariesFrom]
  | cons next rest ih =>
      rw [List.forall_mem_cons] at long
      intro boundary hmem
      rcases List.mem_cons.mp hmem with rfl | hmem
      · exact le_refl _
      · exact le_trans (le_add_of_nonneg_right long.1.le) (ih long.2 boundary hmem)

theorem mem_of_boundariesFrom {begins run time : Rat} {rest times : List Rat}
    (long : ∀ length ∈ rest, 0 < length) (early : time < begins + run)
    (meets : ∀ boundary ∈ boundariesFrom begins (run :: rest), boundary ∈ time :: times) :
    ∀ boundary ∈ boundariesFrom begins (run :: rest), boundary ∈ times := by
  intro boundary hmem
  have hlt : time < boundary := lt_of_lt_of_le early (le_of_mem_boundariesFrom long boundary hmem)
  exact List.mem_of_ne_of_mem hlt.ne' (meets boundary hmem)

end Plan

namespace Track

/-- A phase whose current run began at a time, and that has runs of these lengths
to make, the current one included. -/
def Phase.Awaits (begins : Rat) (runs : List Rat) : Phase Rat → Prop
  | .playing _ timer upcoming =>
      timer.Clocked begins ∧ timer.begins = begins ∧
        (∃ count, timer.remaining = .finite (count + 1) ∧
          runs = List.replicate (count + 1) timer.duration ++
            Plan.runsOf (upcoming.map Step.plan)) ∧
        ∀ next ∈ upcoming, next.plan.Lasting
  | .finished => runs = []
  | .vacant => False

theorem Phase.Awaits.timer_duration {step : Step Rat} {timer : Timer Rat}
    {upcoming : List (Step Rat)} {begins run : Rat} {rest : List Rat}
    (h : Phase.Awaits begins (run :: rest) (.playing step timer upcoming)) :
    timer.duration = run := by
  obtain ⟨-, -, ⟨count, -, hruns⟩, -⟩ := h
  rw [List.replicate_succ, List.cons_append, List.cons.injEq] at hruns
  exact hruns.1.symm

theorem awaits_of_lasting {first : Step Rat} {upcoming : List (Step Rat)}
    (lasting : ∀ next ∈ first :: upcoming, next.plan.Lasting) (step : Step Rat) (now : Rat) :
    Phase.Awaits now (Plan.runsOf ((first :: upcoming).map Step.plan))
      (.playing step (first.plan.timer now) upcoming) := by
  rw [List.forall_mem_cons] at lasting
  obtain ⟨⟨hlong, count, hcount⟩, hlater⟩ := lasting
  have hduration : (first.plan.timer now).duration = first.plan.duration := by
    simp only [PipePlan.timer, Timer.start, Scalar.clampNonneg_rat]
    exact max_eq_left hlong.le
  refine ⟨Timer.start_clocked .., rfl, ⟨count, hcount, ?_⟩, hlater⟩
  rw [hduration, List.map_cons, Plan.runsOf, List.flatMap_cons, PipePlan.runs, hcount]
  rfl

variable [Eases Rat] {begins run now : Rat} {rest : List Rat}

theorem start_awaits {steps : List (Step Rat)} (hne : steps ≠ [])
    (lasting : ∀ step ∈ steps, step.plan.Lasting) (signal : Option Nat) (target : Target Rat) :
    (start steps signal target now).track.phase.Awaits now
      (Plan.runsOf (steps.map Step.plan)) := by
  cases steps with
  | nil => exact absurd rfl hne
  | cons first upcoming => exact awaits_of_lasting lasting _ now

theorem play_of_early {timer : Timer Rat} (clocked : timer.Clocked now) (early : now < timer.ends)
    (signal : Option Nat) (step : Step Rat) (target : Target Rat) (upcoming : List (Step Rat)) :
    (play signal step timer target now upcoming).track.phase = .playing step timer upcoming := by
  have hadvance := clocked.advance_of_lt (le_refl now) early
  rw [play_of_not_passed (by rw [stride, hadvance]), stride, hadvance]
  rfl

theorem update_awaits_of_lt {track : Track Rat} (h : track.phase.Awaits begins (run :: rest))
    (begun : begins ≤ now) (early : now < begins + run) (target : Target Rat) :
    (track.update target now).track.phase.Awaits begins (run :: rest) := by
  obtain ⟨phase, signal⟩ := track
  cases phase with
  | vacant => exact h.elim
  | finished => cases h
  | playing step timer upcoming =>
      have hrun := h.timer_duration
      have hends : timer.ends = begins + run := by rw [h.1.ends, h.2.1, hrun]
      rw [update, play_of_early (h.1.mono begun) (hends ▸ early)]
      exact h

theorem update_awaits_of_eq {track : Track Rat} (h : track.phase.Awaits begins (run :: rest))
    (long : 0 ≤ run) (target : Target Rat) :
    (track.update target (begins + run)).track.phase.Awaits (begins + run) rest := by
  obtain ⟨phase, signal⟩ := track
  cases phase with
  | vacant => exact h.elim
  | finished => cases h
  | playing step timer upcoming =>
      have hrun := h.timer_duration
      obtain ⟨clocked, hbegins, ⟨count, hremaining, hruns⟩, lasting⟩ := h
      have hends : timer.ends = begins + run := by rw [clocked.ends, hbegins, hrun]
      have hadvance := clocked.advance_of_le (le_add_of_nonneg_right long) hends.le
      rw [List.replicate_succ, List.cons_append, List.cons.injEq] at hruns
      cases count with
      | zero =>
          have hpasses : (stride step timer target (begins + run)).passed = true := by
            rw [stride_passed_iff clocked.running, hadvance]
            simp [Timer.endRun, hremaining]
          rw [List.replicate_zero, List.nil_append] at hruns
          rw [hruns.2]
          cases upcoming with
          | nil =>
              simp only [update, play]
              rw [if_pos hpasses]
              exact rfl
          | cons next later =>
              have hnext : 0 < next.plan.duration := (lasting next List.mem_cons_self).long
              have hearly : begins + run < (next.plan.timer (begins + run)).ends := by
                simp only [PipePlan.timer, Timer.start, Scalar.clampNonneg_rat]
                exact lt_add_of_pos_right _ (lt_max_of_lt_left hnext)
              simp only [update, play]
              rw [if_pos hpasses, after_track, play_of_early]
              · exact awaits_of_lasting lasting _ _
              · exact Timer.start_clocked ..
              · exact hearly
      | succ count =>
          have hlooped : timer.endRun (begins + run) = (.looped,
              { timer with remaining := .finite (count + 1) }.restart (begins + run)) := by
            simp [Timer.endRun, hremaining]
          rw [hlooped] at hadvance
          have hstays : (stride step timer target (begins + run)).passed = false := by
            rw [stride, hadvance]
            rfl
          simp only [update]
          rw [play_of_not_passed hstays, stride, hadvance]
          exact ⟨clocked.restart _ _, rfl, ⟨count, rfl, hruns.2⟩, lasting⟩

omit [Eases Rat] in
theorem Phase.Awaits.isFinished_iff {track : Track Rat} {runs : List Rat}
    (h : track.phase.Awaits begins runs) : track.isFinished = true ↔ runs = [] := by
  obtain ⟨phase, signal⟩ := track
  cases phase with
  | vacant => exact h.elim
  | finished => exact iff_of_true rfl h
  | playing step timer upcoming =>
      obtain ⟨-, -, ⟨count, -, rfl⟩, -⟩ := h
      exact iff_of_false nofun nofun

end Track

namespace Animation

variable [Eases Rat]

namespace Turn

omit [Eases Rat] in
theorem Sole.status_of_awaits {turn : Turn Rat} {track : Track Rat} (sole : turn.Sole track)
    {begins : Rat} {runs : List Rat} (h : track.phase.Awaits begins runs) :
    turn.animation.status = if runs = [] then .finished else .running := by
  have hfinished := sole.status_eq_finished_iff.trans h.isFinished_iff
  split
  · rename_i hover
    exact hfinished.mpr hover
  · rename_i hmore
    cases hstatus : turn.animation.status with
    | running => rfl
    | finished => exact absurd (hfinished.mp hstatus) hmore

theorem Sole.exists_finishing {turn : Turn Rat} {track : Track Rat} (sole : turn.Sole track)
    {begins run now : Rat} {rest : List Rat} (h : track.phase.Awaits begins (run :: rest))
    (long : ∀ length ∈ run :: rest, 0 < length) (begun : begins ≤ now)
    (early : now < begins + run) {times : List Rat} (sorted : (now :: times).Pairwise (· ≤ ·))
    (meets : ∀ boundary ∈ Plan.boundariesFrom begins (run :: rest), boundary ∈ times) :
    ∃ before after, times = before ++ (begins + (run :: rest).sum) :: after ∧
      (∀ found ∈ turn.updates before, found.animation.status = .running) ∧
      ((turn.last before).next (begins + (run :: rest).sum)).animation.status = .finished := by
  -- The first of the times is within the current run or at the end of it, and both ways
  -- the boundaries that are left are among the later ones.
  induction times generalizing turn track begins run now rest with
  | nil => exact absurd (meets _ List.mem_cons_self) List.not_mem_nil
  | cons time later ih =>
      have hlater : now ≤ time := List.rel_of_pairwise_cons sorted List.mem_cons_self
      have hlong := List.forall_mem_cons.mp long
      obtain ⟨hsole, -⟩ := sole.next time
      rcases lt_or_ge time (begins + run) with htime | htime
      · have hawaits := Track.update_awaits_of_lt h (begun.trans hlater) htime turn.target
        have hmeets := Plan.mem_of_boundariesFrom hlong.2 htime meets
        obtain ⟨before, after, rfl, hrunning, hfinished⟩ :=
          ih hsole hawaits long (begun.trans hlater) htime sorted.of_cons hmeets
        refine ⟨time :: before, after, rfl, ?_, hfinished⟩
        exact List.forall_mem_cons.mpr ⟨hsole.status_of_awaits hawaits, hrunning⟩
      · have hmet : begins + run = time := by
          rcases List.mem_cons.mp (meets _ List.mem_cons_self) with heq | hmem
          · exact heq
          · exact le_antisymm htime (List.rel_of_pairwise_cons sorted.of_cons hmem)
        subst hmet
        have hawaits := Track.update_awaits_of_eq h hlong.1.le turn.target
        cases rest with
        | nil =>
            rw [List.sum_singleton]
            exact ⟨[], later, rfl, List.forall_mem_nil _, hsole.status_of_awaits hawaits⟩
        | cons next more =>
            have hnext := List.forall_mem_cons.mp hlong.2
            have hearly : begins + run < begins + run + next := lt_add_of_pos_right _ hnext.1
            have hmeets := Plan.mem_of_boundariesFrom hnext.2 hearly fun boundary hmem =>
              meets boundary (List.mem_cons_of_mem _ hmem)
            obtain ⟨before, after, rfl, hrunning, hfinished⟩ :=
              ih hsole hawaits hlong.2 (le_refl _) hearly sorted.of_cons hmeets
            have hsum : begins + (run :: next :: more).sum = begins + run + (next :: more).sum := by
              rw [List.sum_cons, add_assoc]
            rw [hsum]
            refine ⟨(begins + run) :: before, after, rfl, ?_, hfinished⟩
            exact List.forall_mem_cons.mpr ⟨hsole.status_of_awaits hawaits, hrunning⟩

structure TakesTime (turn : Turn Rat) (now : Rat) (plan : Plan Rat) : Prop where
  endless : plan.totalDuration = none →
    ∀ times time, (now :: (times ++ [time])).Pairwise (· ≤ ·) →
      ((turn.last times).next time).animation.status = .running
  atLeast : ∀ total, plan.totalDuration = some total →
    ∀ times time, (now :: (times ++ [time])).Pairwise (· ≤ ·) →
      ((turn.last times).next time).animation.status = .finished → now + total ≤ time
  exactly : ∀ total, plan.totalDuration = some total →
    plan.pipes ≠ [] → (∀ pipe ∈ plan.pipes, 0 < pipe.duration) →
    ∀ times, (now :: times).Pairwise (· ≤ ·) →
      (∀ boundary ∈ plan.boundaries now, boundary ∈ times) →
      ∃ before after, times = before ++ (now + total) :: after ∧
        (∀ found ∈ turn.updates before, found.animation.status = .running) ∧
        ((turn.last before).next (now + total)).animation.status = .finished

end Turn

section Start

variable {segment : Segment Rat} {target : Target Rat} {now : Rat} {signal : Option Nat}

theorem start_limit_le {limit time : Rat} {times : List Rat}
    (h : Plan.LastUntil limit now segment.plan.pipes)
    (sorted : (now :: (times ++ [time])).Pairwise (· ≤ ·))
    (finished : (((start [segment] target now signal).last times).next time).animation.status =
      .finished) : limit ≤ time := by
  rw [← segment.steps_plan] at h
  have hlasts := Track.start_lastsUntil h signal target
  exact (start_sole segment target now signal).limit_le hlasts sorted finished

theorem start_exists_finishing {ends : Rat} {times : List Rat}
    (total : Plan.totalFrom now segment.plan.pipes = some ends)
    (counts : ∀ plan ∈ segment.plan.pipes, plan.repetition.Counts)
    (hne : segment.plan.pipes ≠ []) (long : ∀ plan ∈ segment.plan.pipes, 0 < plan.duration)
    (sorted : (now :: times).Pairwise (· ≤ ·))
    (meets : ∀ boundary ∈ segment.plan.boundaries now, boundary ∈ times) :
    ∃ before after, times = before ++ ends :: after ∧
      (∀ found ∈ (start [segment] target now signal).updates before,
        found.animation.status = .running) ∧
      (((start [segment] target now signal).last before).next ends).animation.status =
        .finished := by
  have hlasting := Plan.lasting_of_total total counts long
  have hlong := Plan.runsOf_pos hlasting
  have hawaits : (Track.start segment.steps signal target now).track.phase.Awaits now
      (Plan.runsOf segment.plan.pipes) := by
    rw [← segment.steps_plan] at hlasting hne ⊢
    exact Track.start_awaits (by simpa using hne) (by simpa using hlasting) signal target
  rw [Plan.totalFrom_eq_sum total]
  rw [Plan.boundaries] at meets
  cases hruns : Plan.runsOf segment.plan.pipes with
  | nil =>
      have hfinished := hawaits.isFinished_iff.mpr hruns
      rw [Track.start_isFinished] at hfinished
      cases hfinished
  | cons run rest =>
      rw [hruns] at hawaits hlong meets
      have hearly : now < now + run := lt_add_of_pos_right now (hlong run List.mem_cons_self)
      exact (start_sole segment target now signal).exists_finishing hawaits hlong (le_refl now)
        hearly sorted meets

theorem start_takesTime (counts : ∀ plan ∈ segment.plan.pipes, plan.repetition.Counts) :
    (start [segment] target now signal).TakesTime now segment.plan := by
  have htotal := Plan.totalFrom_eq_totalDuration now segment.plan
  constructor
  case endless =>
    intro hnone times time sorted
    have hlimit : Plan.LastUntil (time + 1) now segment.plan.pipes := by
      intro ends hends
      rw [htotal, hnone] at hends
      cases hends
    generalize hstatus :
      (((start [segment] target now signal).last times).next time).animation.status = status
    cases status with
    | running => rfl
    | finished =>
        have hle := start_limit_le hlimit sorted hstatus
        linarith
  case atLeast =>
    intro total hsome times time sorted finished
    have hlimit : Plan.LastUntil (now + total) now segment.plan.pipes := by
      intro ends hends
      rw [htotal, hsome] at hends
      exact (Option.some.inj hends).le
    exact start_limit_le hlimit sorted finished
  case exactly =>
    intro total hsome hne long times sorted meets
    rw [hsome] at htotal
    exact start_exists_finishing htotal counts hne long sorted meets

end Start

/-- A single group takes the total duration of its plan. -/
theorem launch_takesTime {config : Config Rat} {target : Target Rat} {text : String}
    {now : Rat} {signal : Option Nat} {turn : Turn Rat} {segment : Segment Rat}
    (launched : launch config target text now signal = .ok turn)
    (read : Segment.readAll config target text = .ok [segment]) :
    turn.TakesTime now segment.plan := by
  obtain rfl := launch_eq_start launched read
  apply start_takesTime
  rw [Segment.plan_of_readEach read segment List.mem_cons_self]
  exact Plan.ofGrid_counts config segment.grid

omit [Eases Rat] in
theorem launch_takesTime_of_two_pipes :
    letI : Eases Rat := ⟨fun _ progress => progress⟩
    let times : List Rat := [1 / 2, 1, 2, 5 / 2, 3, 7 / 2, 4]
    ∃ (turn : Turn Rat) (segment : Segment Rat),
      launch Config.standard Target.standard "d1L3>|d0.5x" 0 none = .ok turn ∧
      Segment.readAll Config.standard Target.standard "d1L3>|d0.5x" = .ok [segment] ∧
      turn.TakesTime 0 segment.plan ∧
      segment.plan.totalDuration = some (7 / 2) ∧
      segment.plan.boundaries 0 = [1, 2, 3, 7 / 2] ∧
      ∃ before after, times = before ++ (0 + 7 / 2) :: after ∧
        (∀ found ∈ turn.updates before, found.animation.status = .running) ∧
        ((turn.last before).next (0 + 7 / 2)).animation.status = .finished := by
  let : Eases Rat := ⟨fun _ progress => progress⟩
  intro times
  let segments : List (Segment Rat) :=
    (Segment.readAll Config.standard Target.standard "d1L3>|d0.5x").toOption.getD []
  let segment := segments.headD ⟨.empty 0 0, ⟨[]⟩⟩
  have hread : Segment.readAll Config.standard Target.standard "d1L3>|d0.5x" = .ok [segment] := by
    decide +kernel
  have hlaunch : launch Config.standard Target.standard "d1L3>|d0.5x" 0 none =
      .ok (start [segment] Target.standard 0 none) := by
    rw [launch, hread]
  have htotal : segment.plan.totalDuration = some (7 / 2) := by decide +kernel
  have hboundaries : segment.plan.boundaries 0 = [1, 2, 3, 7 / 2] := by decide +kernel
  have htakes := launch_takesTime hlaunch hread
  refine ⟨_, segment, hlaunch, hread, htakes, htotal, hboundaries, ?_⟩
  refine htakes.exactly _ htotal ?_ ?_ times ?_ ?_
  · decide +kernel
  · decide +kernel
  · decide +kernel
  · rw [hboundaries]
    decide +kernel

end Animation

end MotionNotation
