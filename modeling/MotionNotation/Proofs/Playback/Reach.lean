import MotionNotation.Proofs.Playback.History

/-!
# The reach of a notation

A run never writes a channel that no operator of its notation writes.
-/

namespace MotionNotation

variable {α : Type}

namespace Grid

def channels (grid : Grid α) : List Channel :=
  grid.actions.filterMap (·.operator.channel?)

theorem pipe_subset_actions (grid : Grid α) (index : Nat) : grid.pipe index ⊆ grid.actions := by
  intro action hmem
  rw [pipe] at hmem
  cases hpipe : grid.pipes[index]? with
  | none => simp [hpipe] at hmem
  | some actions =>
      rw [hpipe, Option.getD_some] at hmem
      exact List.mem_flatten.mpr ⟨actions, List.mem_of_getElem? hpipe, hmem⟩

end Grid

variable [Scalar α]

@[simp] theorem Step.channels_rebase (step : Step α) (target : Target α) :
    (step.rebase target).channels = step.channels := by
  simp [channels, rebase, List.filterMap_map, Function.comp_def]

omit [Scalar α] in
theorem Segment.channels_steps_subset (segment : Segment α) :
    segment.steps.flatMap Step.channels ⊆ segment.grid.channels := by
  intro channel hmem
  obtain ⟨step, hstep, hchannel⟩ := List.mem_flatMap.mp hmem
  obtain ⟨plan, -, rfl⟩ := List.mem_map.mp hstep
  obtain ⟨action, haction, hwrites⟩ := List.mem_filterMap.mp hchannel
  exact List.mem_filterMap.mpr
    ⟨action, segment.grid.pipe_subset_actions plan.index haction, hwrites⟩

namespace Track

/-- The channels of the steps that a track plays or has still to play. -/
def Phase.reach : Phase α → List Channel
  | .playing step _ upcoming => (step :: upcoming).flatMap Step.channels
  | .vacant | .finished => []

structure Turn.Within (channels : List Channel) (turn : Turn α) : Prop where
  reach : turn.track.phase.reach ⊆ channels
  written : (Beat.writes turn.beats).map Write.channel ⊆ channels

omit [Scalar α] in
theorem Turn.Within.after {channels : List Channel} {turn : Turn α} (h : turn.Within channels)
    {beats : List (Beat α)} (written : (Beat.writes beats).map Write.channel ⊆ channels) :
    (turn.after beats).Within channels := by
  refine ⟨h.reach, ?_⟩
  rw [after_beats, Beat.writes_append, List.map_append]
  exact List.append_subset.mpr ⟨written, h.written⟩

omit [Scalar α] in
theorem finish_within (channels : List Channel) (signal : Option Nat) (target : Target α) :
    (finish signal target).Within channels := by
  refine ⟨List.nil_subset _, ?_⟩
  cases signal <;> exact List.nil_subset _

variable [Eases α]

theorem enter_channels (step : Step α) (target : Target α) :
    (enter step target).1.channels = step.channels ∧
      (Beat.writes (enter step target).2.2).map Write.channel = step.channels := by
  refine ⟨step.channels_rebase target, ?_⟩
  simp only [enter, Beat.writes_append, Beat.writes_map_wrote, List.map_append,
    Step.channels_writes, Step.channels_rebase]
  exact List.append_nil _

theorem loop_channels (step : Step α) (timer : Timer α) (target : Target α) :
    (loop step timer target).step.channels = step.channels ∧
      (Beat.writes (loop step timer target).beats).map Write.channel =
        step.channels ++ step.channels := by
  have hbased : (loop step timer target).step.channels = step.channels := by
    simp only [loop]
    split
    · exact step.channels_rebase _
    · rfl
  refine ⟨hbased, ?_⟩
  calc
    _ = step.channels ++ (loop step timer target).step.channels := by
      rw [← step.channels_writes 1, ← (loop step timer target).step.channels_writes 0]
      simp only [loop, Beat.writes_append, Beat.writes_map_wrote, List.map_append]
      exact List.append_nil _
    _ = _ := by rw [hbased]

theorem pass_channels (step : Step α) (timer : Timer α) (target : Target α) :
    (Beat.writes (pass step timer target).beats).map Write.channel = step.channels := by
  rw [← step.channels_writes 1]
  simp only [pass, Beat.writes_append, Beat.writes_map_wrote, List.map_append]
  exact List.append_nil _

theorem stride_channels (step : Step α) (timer : Timer α) (target : Target α) (now : α) :
    (stride step timer target now).step.channels = step.channels ∧
      (Beat.writes (stride step timer target now).beats).map Write.channel ⊆ step.channels := by
  unfold stride
  split
  · refine ⟨rfl, ?_⟩
    rw [Beat.writes_progressed, Beat.writes_map_wrote, Step.channels_writes]
    exact List.Subset.refl _
  · obtain ⟨hstep, hwrites⟩ := loop_channels step _ target
    refine ⟨hstep, ?_⟩
    rw [hwrites]
    exact List.append_subset.mpr ⟨List.Subset.refl _, List.Subset.refl _⟩
  all_goals
    refine ⟨rfl, ?_⟩
    rw [pass_channels]
    exact List.Subset.refl _

theorem play_within (signal : Option Nat) (step : Step α) (timer : Timer α) (target : Target α)
    (now : α) (upcoming : List (Step α)) :
    (play signal step timer target now upcoming).Within
      ((step :: upcoming).flatMap Step.channels) := by
  have hstay : ∀ (step : Step α) (timer : Timer α) (target : Target α) (later : List (Step α)),
      ((stride step timer target now).stay later signal).Within
        ((step :: later).flatMap Step.channels) := by
    intro step timer target later
    obtain ⟨hstep, hwrites⟩ := stride_channels step timer target now
    refine ⟨?_, List.subset_append_of_subset_left _ hwrites⟩
    simp only [Stride.stay, Phase.reach, List.flatMap_cons, hstep]
    exact List.Subset.refl _
  induction upcoming generalizing step timer target with
  | nil =>
      simp only [play]
      split
      · apply (finish_within _ signal _).after
        exact List.subset_append_of_subset_left _ (stride_channels step timer target now).2
      · exact hstay step timer target []
  | cons next rest ih =>
      simp only [play]
      split
      · obtain ⟨hentered, hwrites⟩ :=
          enter_channels next (stride step timer target now).target
        have hrest := ih (enter next (stride step timer target now).target).1
          ((enter next (stride step timer target now).target).1.arm now)
          (enter next (stride step timer target now).target).2.1
        rw [List.flatMap_cons, hentered, ← List.flatMap_cons] at hrest
        refine Turn.Within.after ⟨?_, ?_⟩ ?_
        · exact List.subset_append_of_subset_right _ hrest.reach
        · exact List.subset_append_of_subset_right _ hrest.written
        · rw [Beat.writes_append, List.map_append, hwrites]
          apply List.append_subset.mpr
          constructor
          · exact List.subset_append_of_subset_left _ (stride_channels step timer target now).2
          · exact List.subset_append_of_subset_right _ (List.subset_append_left _ _)
      · exact hstay step timer target (next :: rest)

theorem update_within (track : Track α) (target : Target α) (now : α) :
    (track.update target now).Within track.phase.reach := by
  obtain ⟨phase, signal⟩ := track
  cases phase with
  | vacant => exact finish_within _ signal target
  | playing step timer upcoming => exact play_within signal step timer target now upcoming
  | finished => exact ⟨List.nil_subset _, List.nil_subset _⟩

theorem start_within (steps : List (Step α)) (signal : Option Nat) (target : Target α) (now : α) :
    (start steps signal target now).Within (steps.flatMap Step.channels) := by
  cases steps with
  | nil => exact ⟨List.nil_subset _, List.nil_subset _⟩
  | cons first upcoming =>
      obtain ⟨hstep, hwrites⟩ := enter_channels first target
      refine ⟨?_, ?_⟩
      · simp only [start, Phase.reach, List.flatMap_cons, hstep]
        exact List.Subset.refl _
      · simp only [start, hwrites, List.flatMap_cons]
        exact List.subset_append_left _ _

theorem Run.within {steps : List (Step α)} {signal : Option Nat} {heard : List (List (Beat α))}
    {track : Track α} (run : Run steps signal heard track) :
    track.phase.reach ⊆ steps.flatMap Step.channels ∧
      ∀ beats ∈ heard,
        (Beat.writes beats).map Write.channel ⊆ steps.flatMap Step.channels := by
  induction run with
  | start target now =>
      have hstart := start_within steps signal target now
      exact ⟨hstart.reach, by simpa using hstart.written⟩
  | @update heard track run target now ih =>
      have hupdate := update_within track target now
      refine ⟨List.Subset.trans hupdate.reach ih.1, fun beats hmem => ?_⟩
      rcases List.mem_append.mp hmem with hmem | hmem
      · exact ih.2 beats hmem
      · rw [List.mem_singleton.mp hmem]
        exact List.Subset.trans hupdate.written ih.1

end Track

end MotionNotation
