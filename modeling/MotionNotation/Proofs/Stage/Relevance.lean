import MotionNotation.Easing.Transcendental
import MotionNotation.Proofs.Stage.Alone
import MotionNotation.Proofs.Stage.Exactness
import MotionNotation.Proofs.Stage.Orderly

/-!
# What reports speak of

The report of an update speaks of targets that are registered and of animations
that were running when the update was called.  There is one exception: a start
is told by the next update, also if the animation has been taken off the stage
in between.
-/

namespace MotionNotation

variable {α : Type}

def Stage.Launch.Opens (launch : Stage.Launch) (event : StageEvent α) : Prop :=
  ∃ group pipe duration,
    event = .group launch.id launch.target ⟨group, .pipeStarted pipe duration⟩

variable [Scalar α] [Eases α]

theorem Animation.pipeStarted_of_mem_startFrom {first : Nat} {signal : Option Nat}
    {target : Target α} {now : α} {segments : List (Segment α)} :
    ∀ event ∈ GroupBeat.events (startFrom first signal target now segments).beats,
      ∃ group pipe duration, event = ⟨group, .pipeStarted pipe duration⟩ := by
  rintro ⟨group, kind⟩ hmem
  obtain ⟨entry, hentry, hgroup⟩ := GroupBeat.group_of_mem_events hmem
  obtain ⟨hfirst, hlast⟩ := group_of_mem_startFrom hentry
  simp only at hgroup
  rw [hgroup] at hfirst hlast
  obtain ⟨index, rfl⟩ := Nat.exists_eq_add_of_le hfirst
  have hindex : index < segments.length := by omega
  obtain ⟨found, -, hbeats⟩ :=
    startFrom_getElem? (List.getElem?_eq_getElem hindex) first signal target now
  rw [GroupBeat.mem_events_iff, hbeats, Track.events_start, Option.mem_toList,
    Option.map_eq_some_iff] at hmem
  obtain ⟨step, -, rfl⟩ := hmem
  exact ⟨first + index, step.plan.index, step.plan.duration, rfl⟩

namespace Stage

theorem Launched.opens {stage next : Stage α} {launch : Launch} {target : Target α}
    {turn : Animation.Turn α} (made : stage.Launched next launch target turn) :
    ∀ event ∈ eventsOf launch.id launch.target turn.beats, launch.Opens event := by
  intro event hmem
  obtain ⟨now, signal, hturn⟩ := made.read
  obtain ⟨segments, -, rfl⟩ := Animation.launch_ok hturn
  obtain ⟨told, htold, rfl⟩ := List.mem_map.mp hmem
  obtain ⟨group, pipe, duration, rfl⟩ := Animation.pipeStarted_of_mem_startFrom told htold
  exact ⟨group, pipe, duration, rfl⟩

/-! ## What is pending -/

/-- A start that was accepted, and what was done after it, up to now and without
an update. -/
def Recent (config : Config α) (moves : List (Move α)) (launch : Launch) (after : List (Move α)) :
    Prop :=
  ∃ before move, moves = before ++ move :: after ∧
    ((start config).course before).launched? move = some launch ∧
    ∀ now, .operate (.update now) ∉ after

def Launch.TakenOff (launch : Launch) (after : List (Move α)) : Prop :=
  .operate (.stop launch.id) ∈ after ∨ .operate (.removeTarget launch.target) ∈ after

def Present (stage : Stage α) (launch : Launch) : Prop :=
  ∃ run ∈ stage.running, run.id = launch.id ∧ run.target = launch.target

omit [Eases α] in
theorem Recent.concat [Eases α] {config : Config α} {moves after : List (Move α)}
    {launch : Launch} (h : Recent config moves launch after) {move : Move α}
    (hmove : ∀ now, move ≠ .operate (.update now)) :
    Recent config (moves ++ [move]) launch (after ++ [move]) := by
  obtain ⟨before, first, rfl, hlaunch, hafter⟩ := h
  refine ⟨before, first, by simp, hlaunch, fun now hmem => ?_⟩
  rcases List.mem_append.mp hmem with hmem | hmem
  · exact hafter now hmem
  · exact hmove now (List.mem_singleton.mp hmem).symm

omit [Scalar α] [Eases α] in
theorem Launch.TakenOff.concat {launch : Launch} {after : List (Move α)}
    (h : launch.TakenOff after) (move : Move α) : launch.TakenOff (after ++ [move]) :=
  h.imp (List.mem_append_left _) (List.mem_append_left _)

theorem Present.make {stage : Stage α} {launch : Launch} (h : stage.Present launch) {move : Move α}
    (hmove : ∀ now, move ≠ .operate (.update now)) :
    (stage.make move).Present launch ∨ launch.TakenOff [move] := by
  obtain ⟨run, hrun, hid, htarget⟩ := h
  cases stage.make_outcome move with
  | settles _ _ untouched =>
      refine .inl ⟨run, ?_, hid, htarget⟩
      rw [untouched.running]
      exact hrun
  | launches other target turn _ _ made =>
      refine .inl ⟨run, ?_, hid, htarget⟩
      rw [made.next]
      exact List.mem_append_left _ hrun
  | removes id move_eq made =>
      by_cases hsame : run.target = id
      · rw [move_eq, ← hsame, htarget]
        exact .inr (.inr List.mem_cons_self)
      · refine .inl ⟨run, ?_, hid, htarget⟩
        rw [made]
        exact List.mem_filter.mpr ⟨hrun, by simpa using hsame⟩
  | stops id move_eq =>
      subst move_eq
      by_cases hsame : run.id = id
      · rw [← hsame, hid]
        exact .inr (.inl List.mem_cons_self)
      · exact .inl ⟨run, List.mem_filter.mpr ⟨hrun, by simpa using hsame⟩, hid, htarget⟩
  | updates now move_eq => exact absurd move_eq (hmove now)

/-- What is pending is told of starts since the last update, whose animations are
on the stage as long as they are not taken off. -/
theorem pending_course (config : Config α) (moves : List (Move α)) :
    ∀ event ∈ ((start config).course moves).pending, ∃ launch after,
      Recent config moves launch after ∧ launch.Opens event ∧
        (((start config).course moves).Present launch ∨ launch.TakenOff after) := by
  induction moves using List.reverseRecOn with
  | nil => exact List.forall_mem_nil _
  | append_singleton moves move ih =>
      rw [course_concat]
      intro event hmem
      have hmove : ∀ now, move ≠ .operate (.update now) := by
        rintro now rfl
        cases hmem
      have hkept : event ∈ ((start config).course moves).pending → ∃ launch after,
          Recent config (moves ++ [move]) launch after ∧ launch.Opens event ∧
            ((((start config).course moves).make move).Present launch ∨
              launch.TakenOff after) := by
        intro hold
        obtain ⟨launch, after, hrecent, hopens, hstands⟩ := ih event hold
        refine ⟨launch, after ++ [move], hrecent.concat hmove, hopens, ?_⟩
        rcases hstands with hpresent | htaken
        · refine (hpresent.make hmove).imp_right fun htaken => ?_
          exact htaken.imp (List.mem_append_right _) (List.mem_append_right _)
        · exact .inr (htaken.concat move)
      cases ((start config).course moves).make_outcome move with
      | settles _ _ untouched =>
          rw [untouched.pending] at hmem
          exact hkept hmem
      | launches launch target turn launched _ made =>
          have hpending := hmem
          rw [made.next] at hpending
          rcases List.mem_append.mp hpending with hold | hnew
          · exact hkept hold
          · have hpresent : (((start config).course moves).make move).Present launch := by
              rw [made.next]
              exact ⟨_, List.mem_append_right _ List.mem_cons_self, rfl, rfl⟩
            exact ⟨launch, [], ⟨moves, move, rfl, launched, by simp⟩, made.opens event hnew,
              .inl hpresent⟩
      | removes id move_eq made =>
          rw [made] at hmem
          exact hkept hmem
      | stops id move_eq =>
          subst move_eq
          exact hkept hmem
      | updates now move_eq => exact absurd move_eq (hmove now)

/-! ## What is reported -/

theorem running_of_mem_sweepFrom {config : Config α} {targets : Roster α}
    {runs : List (Running α)} (h : Intact config targets runs) (now : α) :
    ∀ event ∈ (sweepFrom config now targets runs).entries.filterMap Entry.event?,
      ∃ run ∈ runs, run.id = event.animation ∧ run.target = event.target := by
  induction runs generalizing targets with
  | nil => exact List.forall_mem_nil _
  | cons run rest ih =>
      intro event hmem
      obtain ⟨target, next, -, houtcome, -, hrest, heq⟩ := h.sweepFrom_cons now
      rw [heq, List.filterMap_append] at hmem
      rcases List.mem_append.mp hmem with hmem | hmem
      · exact ⟨run, List.mem_cons_self, (houtcome.animation_eq event hmem).symm,
          ((advance_on config run target now).events event hmem).symm⟩
      · obtain ⟨found, hfound, hnames⟩ := ih hrest event hmem
        exact ⟨found, List.mem_cons_of_mem _ hfound, hnames⟩

def Relevant (stage next : Stage α) (event : StageEvent α) : Prop :=
  (next.target? event.target).isSome = true ∧
    ∃ run ∈ stage.running, run.id = event.animation ∧ run.target = event.target

/-- After any course of moves the changes of an update are of targets that are
registered.  Its events are of running animations on targets that are registered,
or tell of a start after the last update that has been taken off since. -/
theorem report_relevant (config : Config α) (moves : List (Move α)) (now : α) :
    let stage := (start config).course moves
    let next := stage.update now
    (∀ change ∈ next.report.changes, (next.target? change.target).isSome = true) ∧
      ∀ event ∈ next.report.events, Relevant stage next event ∨
        ∃ launch after, Recent config moves launch after ∧ launch.TakenOff after ∧
          launch.Opens event := by
  intro stage next
  obtain ⟨hintact, hconfig⟩ := course_intact config moves
  have hstays : ∀ id, (stage.target? id).isSome = true → (next.target? id).isSome = true :=
    fun id hsome => registered_sweepFrom stage.config now hsome stage.running
  refine ⟨fun change hmem => hstays _ (registered_of_mem_report change hmem), ?_⟩
  have hrelevant : ∀ event : StageEvent α, (∃ run ∈ stage.running,
      run.id = event.animation ∧ run.target = event.target) → Relevant stage next event := by
    rintro event ⟨run, hrun, hid, htarget⟩
    refine ⟨hstays _ ?_, run, hrun, hid, htarget⟩
    rw [← htarget]
    exact hintact.registered run hrun
  intro event hmem
  rcases List.mem_append.mp hmem with hmem | hmem
  · obtain ⟨launch, after, hrecent, hopens, hpresent | htaken⟩ :=
      pending_course config moves event hmem
    · refine .inl (hrelevant event ?_)
      obtain ⟨group, pipe, duration, rfl⟩ := hopens
      exact hpresent
    · exact .inr ⟨launch, after, hrecent, htaken, hopens⟩
  · refine .inl (hrelevant event (running_of_mem_sweepFrom ?_ now event hmem))
    rw [hconfig]
    exact hintact

/-- Two starts, one of them stopped and the other one without its target: the
next update tells of both. -/
theorem start_told_after_taken_off :
    let stage := (start (Config.standard : Config Float)).course
      [.operate (.addTarget .standard), .operate (.addTarget .standard),
        .operate (.animate ⟨0⟩ "x5d1" 0 none), .operate (.animate ⟨1⟩ "y3d2" 0 none),
        .operate (.stop ⟨0⟩), .operate (.removeTarget ⟨1⟩)]
    let next := stage.update 0
    stage.running = [] ∧ next.target? ⟨1⟩ = none ∧
      next.report.events =
        [.group ⟨0⟩ ⟨0⟩ ⟨0, .pipeStarted 0 1⟩, .group ⟨1⟩ ⟨1⟩ ⟨0, .pipeStarted 0 2⟩] := by
  decide +kernel

end Stage

end MotionNotation
