import MotionNotation.Easing.Transcendental
import MotionNotation.Proofs.Playback.Score

/-!
# Chronicles

What the groups of a notation tell over any list of updates.  Each group plays
its score from the beginning, falls silent at the end of it, and the signal is
given when the first group gets there.
-/

namespace MotionNotation

variable {α : Type}

theorem Grid.activePipes_pairwise (grid : Grid α) :
    grid.activePipes.Pairwise fun first second => first.1 < second.1 := by
  have hzip : grid.pipes.zipIdx.Pairwise fun first second => first.2 < second.2 := by
    rw [← List.pairwise_map (f := Prod.snd) (R := (· < ·)), List.zipIdx_map_snd]
    exact List.pairwise_lt_range'
  rw [activePipes, List.pairwise_map]
  exact hzip.sublist List.filter_sublist

theorem Grid.pipe_of_mem_activePipes {grid : Grid α} {entry : Nat × List (Action α)}
    (h : entry ∈ grid.activePipes) : grid.pipe entry.1 = entry.2 ∧ entry.2 ≠ [] := by
  obtain ⟨found, hfound, rfl⟩ := List.mem_map.mp h
  obtain ⟨hmem, hactive⟩ := List.mem_filter.mp hfound
  have hpipe := List.mem_zipIdx_iff_getElem?.mp hmem
  refine ⟨?_, by simpa using hactive⟩
  simp only [Grid.pipe, hpipe, Option.getD_some]

theorem Plan.ofGrid_pairwise [Scalar α] (config : Config α) (grid : Grid α) :
    (ofGrid config grid).pipes.Pairwise fun first second => first.index < second.index := by
  rw [ofGrid, List.pairwise_map]
  exact grid.activePipes_pairwise

namespace Segment

theorem steps_plan (segment : Segment α) :
    segment.steps.map Step.plan = segment.plan.pipes := by
  simp [steps, Function.comp_def]

theorem plan_of_readEach [Scalar α] {config : Config α} {target : Target α} {texts : List String}
    {segments : List (Segment α)} (h : readEach config target texts = .ok segments) :
    ∀ segment ∈ segments, segment.plan = Plan.ofGrid config segment.grid := by
  induction texts generalizing segments with
  | nil => cases h; simp
  | cons text rest ih =>
      obtain ⟨segment, others, hread, hrest, rfl⟩ := readEach_cons_ok h
      obtain ⟨grid, -, rfl⟩ := read_ok hread
      intro found hmem
      rcases List.mem_cons.mp hmem with rfl | hmem
      · rfl
      · exact ih hrest found hmem

end Segment

namespace Animation

variable [Scalar α] [Eases α]

namespace Turn

def groupFinished (turn : Turn α) (group : Nat) : Bool :=
  turn.animation.tracks[group]?.any Track.isFinished

def told (turn : Turn α) (times : List α) (group : Nat) : List (GroupEvent.Kind α) :=
  (turn.history times).flatMap fun found => Beat.events (GroupBeat.ofGroup group found.beats)

structure Chronicle (plans : List (Plan α)) (signal : Option Nat) (turn : Turn α)
    (times : List α) : Prop where
  score : ∀ group plan, plans[group]? = some plan →
    ∃ rest, plan.score = (Stream'.Seq.ofList (turn.told times group)).append rest
  finished_iff : ∀ group plan, plans[group]? = some plan →
    ((turn.last times).groupFinished group = true ↔
      plan.score = Stream'.Seq.ofList (turn.told times group))
  silent : (turn.history times).Pairwise fun earlier later =>
    ∀ group, earlier.groupFinished group = true → GroupBeat.ofGroup group later.beats = []
  lastLoop : ∀ found ∈ turn.history times, ∀ group pipe,
    .pipeLooped pipe ∉ (Beat.events (GroupBeat.ofGroup group found.beats)).dropLast
  signal_given : ∀ found ∈ turn.history times,
    ⟨0, .groupCompleted⟩ ∈ GroupBeat.events found.beats →
      GroupBeat.signals found.beats = signal.toList
  signal_withheld : ∀ found ∈ turn.history times,
    ⟨0, .groupCompleted⟩ ∉ GroupBeat.events found.beats →
      GroupBeat.signals found.beats = []
  groups : ∀ found ∈ turn.history times, ∀ entry ∈ found.beats, entry.group < plans.length
  status_iff : ∀ found ∈ turn.history times,
    found.animation.status = .finished ↔
      ∀ group < plans.length, found.groupFinished group = true

omit [Scalar α] [Eases α] in
theorem status_eq_finished_iff (turn : Turn α) :
    turn.animation.status = .finished ↔
      ∀ group < turn.animation.groupCount, turn.groupFinished group = true := by
  have hstatus : turn.animation.status = .finished ↔ turn.animation.isFinished = true := by
    cases h : turn.animation.isFinished <;> simp [status, h]
  rw [hstatus, isFinished, List.all_eq_true]
  constructor
  · intro h group hgroup
    have hget : turn.animation.tracks[group]? = some turn.animation.tracks[group] :=
      List.getElem?_eq_getElem hgroup
    rw [groupFinished, hget]
    exact h _ (List.getElem_mem hgroup)
  · intro h track hmem
    obtain ⟨group, hgroup, rfl⟩ := List.mem_iff_getElem.mp hmem
    have hget : turn.animation.tracks[group]? = some turn.animation.tracks[group] :=
      List.getElem?_eq_getElem hgroup
    have hfinished : turn.groupFinished group = true := h group hgroup
    simpa [groupFinished, hget] using hfinished

theorem next_of_groupFinished {turn : Turn α} {group : Nat}
    (h : turn.groupFinished group = true) (now : α) :
    (turn.next now).groupFinished group = true ∧
      GroupBeat.ofGroup group (turn.next now).beats = [] := by
  rw [groupFinished, Option.any_eq_true] at h
  obtain ⟨track, htrack, hfinished⟩ := h
  obtain ⟨found, hnext, hbeats⟩ := updateFrom_getElem? htrack 0 turn.target now
  rw [Track.update_of_isFinished hfinished] at hnext hbeats
  rw [Nat.zero_add] at hbeats
  refine ⟨?_, hbeats⟩
  rw [groupFinished, next, update, hnext]
  exact hfinished

theorem updates_of_groupFinished {turn : Turn α} {group : Nat}
    (h : turn.groupFinished group = true) (times : List α) :
    ∀ later ∈ turn.updates times, GroupBeat.ofGroup group later.beats = [] := by
  induction times generalizing turn with
  | nil => simp [updates]
  | cons time rest ih =>
      obtain ⟨hfinished, hbeats⟩ := next_of_groupFinished h time
      intro later hmem
      rcases List.mem_cons.mp hmem with rfl | hmem
      · exact hbeats
      · exact ih hfinished later hmem

theorem history_pairwise_silent (turn : Turn α) (times : List α) :
    (turn.history times).Pairwise fun earlier later =>
      ∀ group, earlier.groupFinished group = true →
        GroupBeat.ofGroup group later.beats = [] := by
  induction times generalizing turn with
  | nil => exact List.pairwise_singleton _ _
  | cons time rest ih =>
      refine List.pairwise_cons.mpr ⟨?_, ih (turn.next time)⟩
      intro later hmem group hfinished
      exact updates_of_groupFinished hfinished (time :: rest) later hmem

theorem told_eq (turn : Turn α) (times : List α) (group : Nat) :
    turn.told times group = Beat.events
      ((turn.history times).map fun found => GroupBeat.ofGroup group found.beats).flatten := by
  rw [told, Beat.events, List.filterMap_flatten, List.map_map, List.flatMap]
  rfl

end Turn

/-! ## From the notation on -/

section Start

variable {segments : List (Segment α)} {target : Target α} {now : α} {signal : Option Nat}

theorem start_groups (times : List α) :
    ∀ found ∈ (start segments target now signal).history times,
      found.animation.groupCount = segments.length ∧
        ∀ entry ∈ found.beats, entry.group < segments.length := by
  apply Turn.forall_history (P := fun found => found.animation.groupCount = segments.length ∧
    ∀ entry ∈ found.beats, entry.group < segments.length)
  · refine ⟨length_startFrom .., fun entry hmem => ?_⟩
    simpa using (group_of_mem_startFrom hmem).2
  · rintro turn time ⟨hcount, -⟩
    refine ⟨by rw [Turn.next, groupCount_update, hcount], fun entry hmem => ?_⟩
    have hbound := (group_of_mem_updateFrom hmem).2
    rw [groupCount] at hcount
    omega

theorem ofGroup_eq_nil_of_length_le {times : List α} {found : Turn α}
    (hmem : found ∈ (start segments target now signal).history times) {group : Nat}
    (h : segments.length ≤ group) : GroupBeat.ofGroup group found.beats = [] := by
  apply GroupBeat.ofGroup_eq_nil
  intro entry hentry
  have hbound := (start_groups times found hmem).2 entry hentry
  omega

theorem signals_of_completed {times : List α} {found : Turn α}
    (hmem : found ∈ (start segments target now signal).history times) (group : Nat) :
    (.groupCompleted ∈ Beat.events (GroupBeat.ofGroup group found.beats) →
      Beat.signals (GroupBeat.ofGroup group found.beats) =
        (if group = 0 then signal else none).toList) ∧
    (.groupCompleted ∉ Beat.events (GroupBeat.ofGroup group found.beats) →
      Beat.signals (GroupBeat.ofGroup group found.beats) = []) := by
  cases hsegment : segments[group]? with
  | none =>
      have hsilent := ofGroup_eq_nil_of_length_le hmem (List.getElem?_eq_none_iff.mp hsegment)
      simp [hsilent, Beat.events, Beat.signals]
  | some segment =>
      obtain ⟨track, -, run⟩ := start_run hsegment target now signal times
      exact run.signals_of_mem _ (List.mem_map_of_mem hmem)

theorem signals_eq_first {times : List α} {found : Turn α}
    (hmem : found ∈ (start segments target now signal).history times) :
    GroupBeat.signals found.beats = Beat.signals (GroupBeat.ofGroup 0 found.beats) := by
  apply GroupBeat.signals_eq_of_first
  intro group hgroup
  obtain ⟨hgiven, hwithheld⟩ := signals_of_completed hmem group
  by_cases hdone : .groupCompleted ∈ Beat.events (GroupBeat.ofGroup group found.beats)
  · simpa [hgroup] using hgiven hdone
  · exact hwithheld hdone

theorem start_chronicle (times : List α) :
    Turn.Chronicle (segments.map Segment.plan) signal (start segments target now signal) times := by
  have hrun : ∀ group plan, (segments.map Segment.plan)[group]? = some plan →
      ∃ (segment : Segment α) (track : Track α), segment.plan = plan ∧
        ((start segments target now signal).last times).animation.tracks[group]? = some track ∧
        Track.Run segment.steps (if group = 0 then signal else none)
          (((start segments target now signal).history times).map fun found =>
            GroupBeat.ofGroup group found.beats) track := by
    intro group plan h
    rw [List.getElem?_map, Option.map_eq_some_iff] at h
    obtain ⟨segment, hsegment, hplan⟩ := h
    obtain ⟨track, htrack, run⟩ := start_run hsegment target now signal times
    exact ⟨segment, track, hplan, htrack, run⟩
  have hscore : ∀ segment : Segment α,
      segment.plan.score = Plan.scoreOf (segment.steps.map Step.plan) := by
    intro segment
    rw [segment.steps_plan]
    rfl
  constructor
  case score =>
    intro group plan h
    obtain ⟨segment, track, rfl, -, run⟩ := hrun group plan h
    exact ⟨track.phase.score, by rw [hscore, Turn.told_eq, run.score]⟩
  case finished_iff =>
    intro group plan h
    obtain ⟨segment, track, rfl, htrack, run⟩ := hrun group plan h
    rw [hscore, Turn.told_eq, ← run.isFinished_iff, Turn.groupFinished, htrack]
    rfl
  case silent => exact Turn.history_pairwise_silent ..
  case lastLoop =>
    intro found hmem group pipe
    cases hsegment : segments[group]? with
    | none =>
        rw [ofGroup_eq_nil_of_length_le hmem (List.getElem?_eq_none_iff.mp hsegment)]
        simp [Beat.events]
    | some segment =>
        obtain ⟨track, -, run⟩ := start_run hsegment target now signal times
        exact run.lastLoop _ (List.mem_map_of_mem hmem) pipe
  case signal_given =>
    intro found hmem hdone
    rw [GroupBeat.mem_events_iff] at hdone
    rw [signals_eq_first hmem]
    exact (signals_of_completed hmem 0).1 hdone
  case signal_withheld =>
    intro found hmem hdone
    rw [GroupBeat.mem_events_iff] at hdone
    rw [signals_eq_first hmem]
    exact (signals_of_completed hmem 0).2 hdone
  case groups =>
    rw [List.length_map]
    exact fun found hmem => (start_groups times found hmem).2
  case status_iff =>
    intro found hmem
    rw [found.status_eq_finished_iff, (start_groups times found hmem).1, List.length_map]

end Start

/-- Every notation that is accepted is played group by group: each group tells a
beginning of the score of its plan, whatever the times are. -/
theorem launch_chronicle {config : Config α} {target : Target α} {text : String} {now : α}
    {signal : Option Nat} {turn : Turn α}
    (h : launch config target text now signal = .ok turn) :
    ∃ segments, Segment.readAll config target text = .ok segments ∧
      (∀ segment ∈ segments, segment.plan = Plan.ofGrid config segment.grid ∧
        segment.plan.pipes.Pairwise fun first second => first.index < second.index) ∧
      ∀ times, Turn.Chronicle (segments.map Segment.plan) signal turn times := by
  obtain ⟨segments, hread, rfl⟩ := launch_ok h
  refine ⟨segments, hread, fun segment hmem => ?_, start_chronicle⟩
  have hplan := Segment.plan_of_readEach hread segment hmem
  exact ⟨hplan, by rw [hplan]; exact Plan.ofGrid_pairwise config segment.grid⟩

theorem launch_chronicle_of_two_groups :
    ∃ turn : Turn Float,
      launch Config.standard Target.standard "[x1o2|y3][,e7z]" 0 (some 7) = .ok turn ∧
      ∃ segments, Segment.readAll Config.standard Target.standard "[x1o2|y3][,e7z]" = .ok segments ∧
        (∀ segment ∈ segments, segment.plan = Plan.ofGrid Config.standard segment.grid ∧
          segment.plan.pipes.Pairwise fun first second => first.index < second.index) ∧
        ∀ times, Turn.Chronicle (segments.map Segment.plan) (some 7) turn times := by
  have hok : (launch Config.standard (Target.standard : Target Float) "[x1o2|y3][,e7z]" 0
      (some 7)).isOk = true := by decide +kernel
  cases h : launch Config.standard (Target.standard : Target Float) "[x1o2|y3][,e7z]" 0
      (some 7) with
  | error full => simp [h, Except.isOk, Except.toBool] at hok
  | ok turn => exact ⟨turn, rfl, launch_chronicle h⟩

end Animation

end MotionNotation
