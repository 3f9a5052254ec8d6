import Mathlib.Data.List.Basic
import MotionNotation.Playback.Animation

/-!
# Writes

A track writes nothing in secret: its target is what its beats have written.
The channels of the step that a track plays are written when the step is entered
and again by every update, so that no channel of a track is ever behind.
-/

namespace MotionNotation

variable {α : Type}

theorem Beat.writes_progressed (pipe : Nat) (progress : α) (beats : List (Beat α)) :
    Beat.writes (.progressed pipe progress :: beats) = Beat.writes beats := rfl

namespace Target

def measures (target : Target α) : α × α × Nat :=
  (target.width, target.height, target.siblingIndex)

theorem measures_writeAll (target : Target α) (writes : List (Write α)) :
    (target.writeAll writes).measures = target.measures := by
  induction writes generalizing target with
  | nil => rfl
  | cons write rest ih =>
      rw [writeAll_cons, ih]
      simp [measures]

theorem get_writeAll_of_notMem {channel : Channel} {writes : List (Write α)}
    (h : channel ∉ writes.map Write.channel) (target : Target α) :
    (target.writeAll writes).get channel = target.get channel := by
  induction writes generalizing target with
  | nil => rfl
  | cons write rest ih =>
      rw [List.map_cons, List.mem_cons, not_or] at h
      rw [Target.writeAll_cons, ih h.2, Target.get_set, if_neg h.1]

end Target

namespace GroupBeat

theorem writes_append (first second : List (GroupBeat α)) :
    writes (first ++ second) = writes first ++ writes second :=
  List.filterMap_append

theorem writes_map_mk (group : Nat) (beats : List (Beat α)) :
    writes (beats.map (⟨group, ·⟩)) = Beat.writes beats := by
  rw [writes, List.filterMap_map]
  rfl

end GroupBeat

variable [Scalar α]

namespace Step

def channels (step : Step α) : List Channel :=
  step.actions.filterMap (·.operator.channel?)

theorem channels_writes [Eases α] (step : Step α) (progress : α) :
    (step.writes progress).map Write.channel = step.channels := by
  rw [writes, Action.writes, List.map_filterMap, channels]
  simp [Action.write?, Function.comp_def]

end Step

namespace Track

def Phase.channels : Phase α → List Channel
  | .playing step _ _ => step.channels
  | .vacant | .finished => []

def channels (track : Track α) : List Channel :=
  track.phase.channels

variable [Eases α]

/-! ## Targets -/

theorem enter_target (step : Step α) (target : Target α) :
    (enter step target).2.1 = target.writeAll (Beat.writes (enter step target).2.2) := by
  simp only [enter, Beat.writes_append, Beat.writes_map_wrote]
  rw [Target.writeAll_append]
  rfl

theorem start_target (steps : List (Step α)) (signal : Option Nat) (target : Target α) (now : α) :
    (start steps signal target now).target =
      target.writeAll (Beat.writes (start steps signal target now).beats) := by
  cases steps with
  | nil => rfl
  | cons first upcoming => exact enter_target first target

theorem stride_target (step : Step α) (timer : Timer α) (target : Target α) (now : α) :
    (stride step timer target now).target =
      target.writeAll (Beat.writes (stride step timer target now).beats) := by
  unfold stride
  split
  · simp only [Beat.writes_progressed, Beat.writes_map_wrote]
  · simp only [loop, Beat.writes_append, Beat.writes_map_wrote]
    rw [Target.writeAll_append, Target.writeAll_append]
    rfl
  all_goals
    simp only [pass, Beat.writes_append, Beat.writes_map_wrote]
    rw [Target.writeAll_append]
    rfl

theorem play_target (signal : Option Nat) (step : Step α) (timer : Timer α) (target : Target α)
    (now : α) (upcoming : List (Step α)) :
    (play signal step timer target now upcoming).target =
      target.writeAll (Beat.writes (play signal step timer target now upcoming).beats) := by
  induction upcoming generalizing step timer target with
  | nil =>
      simp only [play]
      split
      · have hfinish : Beat.writes (finishBeats signal : List (Beat α)) = [] := by
          cases signal <;> rfl
        simp only [finish, after_target, after_beats, Beat.writes_append, hfinish,
          List.append_nil]
        exact stride_target step timer target now
      · exact stride_target step timer target now
  | cons next rest ih =>
      simp only [play]
      split
      · simp only [after_target, after_beats, Beat.writes_append, Target.writeAll_append]
        rw [ih, enter_target, stride_target]
      · exact stride_target step timer target now

theorem update_target (track : Track α) (target : Target α) (now : α) :
    (track.update target now).target =
      target.writeAll (Beat.writes (track.update target now).beats) := by
  obtain ⟨phase, signal⟩ := track
  cases phase with
  | vacant => cases signal <;> rfl
  | playing step timer upcoming => exact play_target ..
  | finished => rfl

/-! ## Channels -/

theorem start_channels (steps : List (Step α)) (signal : Option Nat) (target : Target α)
    (now : α) :
    (Beat.writes (start steps signal target now).beats).map Write.channel =
      (start steps signal target now).track.channels := by
  cases steps with
  | nil => rfl
  | cons first upcoming =>
      simp only [start, enter, Beat.writes_append, Beat.writes_map_wrote, List.map_append,
        Step.channels_writes]
      exact List.append_nil _

theorem channels_subset_stride (step : Step α) (timer : Timer α) (target : Target α) (now : α) :
    step.channels ⊆
      (Beat.writes (stride step timer target now).beats).map Write.channel := by
  unfold stride
  split
  · rename_i progress _ _
    rw [← step.channels_writes progress]
    apply List.map_subset
    simp only [Beat.writes_progressed, Beat.writes_map_wrote]
    exact List.Subset.refl _
  all_goals
    rw [← step.channels_writes 1]
    apply List.map_subset
    simp only [loop, pass, List.map_append, Beat.writes_append, Beat.writes_map_wrote,
      List.append_assoc]
    exact List.subset_append_left ..

theorem channels_subset_play (signal : Option Nat) (step : Step α) (timer : Timer α)
    (target : Target α) (now : α) (upcoming : List (Step α)) :
    step.channels ⊆
      (Beat.writes (play signal step timer target now upcoming).beats).map Write.channel := by
  have hstride := channels_subset_stride step timer target now
  cases upcoming with
  | nil =>
      simp only [play]
      split
      · simp only [after_beats, Beat.writes_append, List.map_append]
        exact List.subset_append_of_subset_left _ hstride
      · exact hstride
  | cons next rest =>
      simp only [play]
      split
      · simp only [after_beats, Beat.writes_append, List.map_append, List.append_assoc]
        exact List.subset_append_of_subset_left _ hstride
      · exact hstride

theorem channels_subset_update (track : Track α) (target : Target α) (now : α) :
    track.channels ⊆
      (Beat.writes (track.update target now).beats).map Write.channel := by
  obtain ⟨phase, signal⟩ := track
  cases phase with
  | vacant => exact List.nil_subset _
  | playing step timer upcoming => exact channels_subset_play ..
  | finished => exact List.nil_subset _

end Track

/-! ## All groups together -/

namespace Animation

def channels (animation : Animation α) : List Channel :=
  animation.tracks.flatMap Track.channels

def Overt (act : Target α → Track.Turn α) : Prop :=
  ∀ found, (act found).target = found.writeAll (Beat.writes (act found).beats)

/-- Groups that act on one target, each where the one before it has left off. -/
def inTurn (group : Nat) (target : Target α) : List (Target α → Track.Turn α) → Turn α
  | [] => ⟨⟨[]⟩, target, []⟩
  | act :: rest =>
    let turn := act target
    (inTurn (group + 1) turn.target rest).cons group turn

omit [Scalar α] in
theorem writes_cons (turn : Turn α) (group : Nat) (track : Track.Turn α) :
    GroupBeat.writes (turn.cons group track).beats =
      Beat.writes track.beats ++ GroupBeat.writes turn.beats := by
  rw [cons_beats, GroupBeat.writes_append, GroupBeat.writes_map_mk]

omit [Scalar α] in
theorem inTurn_target {first : Nat} {target : Target α} {acts : List (Target α → Track.Turn α)}
    (overt : ∀ act ∈ acts, Overt act) :
    (inTurn first target acts).target =
      target.writeAll (GroupBeat.writes (inTurn first target acts).beats) := by
  induction acts generalizing first target with
  | nil => rfl
  | cons act rest ih =>
      have hfirst := overt act List.mem_cons_self target
      have hovert : ∀ other ∈ rest, Overt other :=
        fun other hmem => overt other (List.mem_cons_of_mem act hmem)
      simp only [inTurn, cons_target, writes_cons, Target.writeAll_append]
      rw [ih hovert, ← hfirst]

variable [Eases α]

def openings (signal : Option Nat) (now : α) :
    List (Segment α) → List (Target α → Track.Turn α)
  | [] => []
  | segment :: rest =>
    (fun target => Track.start segment.steps signal target now) :: openings none now rest

theorem startFrom_eq_inTurn (first : Nat) (signal : Option Nat) (target : Target α) (now : α)
    (segments : List (Segment α)) :
    startFrom first signal target now segments =
      inTurn first target (openings signal now segments) := by
  induction segments generalizing first signal target with
  | nil => rfl
  | cons segment rest ih =>
      rw [startFrom, openings, inTurn]
      simp only [ih]

theorem openings_overt (signal : Option Nat) (now : α) (segments : List (Segment α)) :
    ∀ act ∈ openings signal now segments, Overt act := by
  induction segments generalizing signal with
  | nil => simp [openings]
  | cons segment rest ih =>
      intro act hmem
      rcases List.mem_cons.mp hmem with rfl | hmem
      · exact fun found => Track.start_target segment.steps signal found now
      · exact ih none act hmem

theorem startFrom_target (group : Nat) (signal : Option Nat) (target : Target α) (now : α)
    (segments : List (Segment α)) :
    (startFrom group signal target now segments).target =
      target.writeAll (GroupBeat.writes (startFrom group signal target now segments).beats) := by
  rw [startFrom_eq_inTurn]
  exact inTurn_target (openings_overt signal now segments)

theorem updateFrom_eq_inTurn (first : Nat) (target : Target α) (now : α)
    (tracks : List (Track α)) :
    updateFrom first target now tracks =
      inTurn first target (tracks.map fun track found => track.update found now) := by
  induction tracks generalizing first target with
  | nil => rfl
  | cons track rest ih =>
      rw [updateFrom, List.map_cons, inTurn]
      simp only [ih]

theorem updates_overt (now : α) (tracks : List (Track α)) :
    ∀ act ∈ tracks.map (fun track found => track.update found now), Overt act := by
  intro act hmem
  obtain ⟨track, -, rfl⟩ := List.mem_map.mp hmem
  exact fun found => track.update_target found now

theorem updateFrom_target (group : Nat) (target : Target α) (now : α) (tracks : List (Track α)) :
    (updateFrom group target now tracks).target =
      target.writeAll (GroupBeat.writes (updateFrom group target now tracks).beats) := by
  rw [updateFrom_eq_inTurn]
  exact inTurn_target (updates_overt now tracks)

theorem startFrom_channels (group : Nat) (signal : Option Nat) (target : Target α) (now : α)
    (segments : List (Segment α)) :
    (GroupBeat.writes (startFrom group signal target now segments).beats).map Write.channel =
      (startFrom group signal target now segments).animation.channels := by
  induction segments generalizing group signal target with
  | nil => rfl
  | cons segment rest ih =>
      simp only [startFrom, writes_cons, List.map_append, channels, cons_tracks,
        List.flatMap_cons]
      rw [ih, Track.start_channels]
      rfl

theorem channels_subset_updateFrom (group : Nat) (target : Target α) (now : α)
    (tracks : List (Track α)) :
    tracks.flatMap Track.channels ⊆
      (GroupBeat.writes (updateFrom group target now tracks).beats).map Write.channel := by
  induction tracks generalizing group target with
  | nil => exact List.nil_subset _
  | cons track rest ih =>
      simp only [updateFrom, writes_cons, List.map_append, List.flatMap_cons]
      apply List.append_subset.mpr
      constructor
      · exact List.subset_append_of_subset_left _ (track.channels_subset_update target now)
      · exact List.subset_append_of_subset_right _ (ih (group + 1) _)

end Animation

end MotionNotation
