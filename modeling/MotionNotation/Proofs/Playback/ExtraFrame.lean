import MotionNotation.Proofs.Playback.Product
import MotionNotation.Proofs.Playback.Timekeeping

/-!
# Extra frames

A frame in which every group only moves along leaves the tracks as they are, and
on the target it writes only what these tracks write in every frame.  A later
frame that reads nothing of this before it has written it again does the same
with and without the earlier one.
-/

namespace MotionNotation

variable {α : Type}

namespace Target

theorem get_writeAll_congr {channel : Channel} {writes : List (Write α)}
    (h : channel ∈ writes.map Write.channel) (first second : Target α) :
    (first.writeAll writes).get channel = (second.writeAll writes).get channel := by
  induction writes generalizing first second with
  | nil => cases h
  | cons write rest ih =>
      rw [writeAll_cons, writeAll_cons]
      by_cases hrest : channel ∈ rest.map Write.channel
      · exact ih hrest _ _
      · have hwrite : channel = write.channel := by simpa [hrest] using h
        rw [get_writeAll_of_notMem hrest, get_writeAll_of_notMem hrest]
        simp [hwrite]

/-- What two targets have in common they keep when both are written alike, and
what is written they have in common from then on. -/
theorem AgreesOn.written {keep : Channel → Prop} {first second : Target α}
    (h : first.AgreesOn keep second) (writes : List (Write α)) :
    (first.writeAll writes).AgreesOn (fun channel =>
      keep channel ∨ channel ∈ writes.map Write.channel) (second.writeAll writes) := by
  intro channel hchannel
  by_cases hwrites : channel ∈ writes.map Write.channel
  · exact get_writeAll_congr hwrites first second
  · rw [get_writeAll_of_notMem hwrites, get_writeAll_of_notMem hwrites]
    exact h channel (hchannel.resolve_right hwrites)

end Target

namespace GroupBeat

theorem events_append (first second : List (GroupBeat α)) :
    events (first ++ second) = events first ++ events second :=
  List.filterMap_append

theorem signals_append (first second : List (GroupBeat α)) :
    signals (first ++ second) = signals first ++ signals second :=
  List.filterMap_append

theorem events_map_mk (group : Nat) (beats : List (Beat α)) :
    events (beats.map (⟨group, ·⟩)) = (Beat.events beats).map (⟨group, ·⟩) := by
  rw [events, List.filterMap_map, Beat.events, List.map_filterMap]
  rfl

theorem signals_map_mk (group : Nat) (beats : List (Beat α)) :
    signals (beats.map (⟨group, ·⟩)) = Beat.signals beats := by
  rw [signals, List.filterMap_map]
  rfl

end GroupBeat

variable [Scalar α]

theorem Operator.endpoints_congr_of_none {operator : Operator} (h : operator.channel? = none)
    {first second : Target α} (hsibling : first.siblingIndex = second.siblingIndex)
    (inverse : Bool) (value : α) :
    operator.endpoints inverse value first = operator.endpoints inverse value second := by
  cases operator with
  | move heading => cases heading <;> cases h
  | duration => rfl
  | stagger => simp only [endpoints, hsibling]
  | loop mode => rfl
  | _ => cases h

theorem Action.rebase_congr {action : Action α} {first second : Target α}
    (channels : ∀ channel, action.operator.channel? = some channel →
      first.get channel = second.get channel)
    (measures : first.measures = second.measures) :
    action.rebase first = action.rebase second := by
  have hends : action.operator.endpoints action.inverse action.value first =
      action.operator.endpoints action.inverse action.value second := by
    cases hchannel : action.operator.channel? with
    | some channel => exact Operator.endpoints_congr hchannel (channels channel hchannel) ..
    | none => exact Operator.endpoints_congr_of_none hchannel (congrArg (·.2.2) measures) ..
  rw [rebase, hends]
  rfl

theorem Step.rebase_congr {step : Step α} {first second : Target α}
    (channels : ∀ channel ∈ step.channels, first.get channel = second.get channel)
    (measures : first.measures = second.measures) : step.rebase first = step.rebase second := by
  simp only [rebase, Step.mk.injEq, true_and]
  apply List.map_congr_left
  intro action hmem
  refine Action.rebase_congr (fun channel hchannel => ?_) measures
  exact channels channel (List.mem_filterMap.mpr ⟨action, hmem, hchannel⟩)

namespace Track

/-- Whether the run that a track is in goes on at a time; a track that has nothing
more to run has nothing against it. -/
def progresses (track : Track α) (now : α) : Bool :=
  match track.phase with
  | .vacant => false
  | .playing _ timer _ =>
    match (timer.advance now).1 with
    | .progress _ => true
    | .looped | .completed | .idle => false
  | .finished => true

variable [Eases α]

theorem update_of_progresses {track : Track α} {now : α} (h : track.progresses now = true)
    (target : Target α) :
    (track.update target now).track = track ∧
      Beat.events (track.update target now).beats = [] ∧
      Beat.signals (track.update target now).beats = [] ∧
      (Beat.writes (track.update target now).beats).map Write.channel = track.channels := by
  obtain ⟨phase, signal⟩ := track
  cases phase with
  | vacant => cases h
  | finished => exact ⟨rfl, rfl, rfl, rfl⟩
  | playing step timer upcoming =>
      obtain ⟨value, hadvance⟩ : ∃ value, timer.advance now = (.progress value, timer) := by
        cases hreply : timer.advance now with
        | mk tick next =>
            cases tick with
            | progress value =>
                rw [Timer.advance_of_progress hreply]
                exact ⟨value, rfl⟩
            | _ => simp [progresses, hreply] at h
      have hstride : stride step timer target now =
          ⟨step, timer, target.writeAll (step.writes value),
            .progressed step.plan.index value :: (step.writes value).map .wrote, false⟩ := by
        simp [stride, hadvance]
      have hturn : (⟨.playing step timer upcoming, signal⟩ : Track α).update target now =
          (stride step timer target now).stay upcoming signal :=
        play_of_not_passed (by rw [hstride]) signal upcoming
      rw [hturn, hstride]
      refine ⟨rfl, ?_, ?_, ?_⟩
      · exact Beat.events_map_wrote (step.writes value)
      · exact Beat.signals_map_wrote (step.writes value)
      · rw [stay_beats, Beat.writes_progressed, Beat.writes_map_wrote, Step.channels_writes]
        rfl

/-! ## The same update on two targets -/

omit [Scalar α] [Eases α] in
structure Stride.Alike (keep : Channel → Prop) (first second : Stride α) : Prop where
  step : first.step = second.step
  timer : first.timer = second.timer
  passed : first.passed = second.passed
  beats : first.beats = second.beats
  target : first.target.AgreesOn keep second.target
  measures : first.target.measures = second.target.measures

section Targets

variable {keep : Channel → Prop} {one other : Target α} (agrees : one.AgreesOn keep other)
  (measures : one.measures = other.measures)

include agrees measures

theorem enter_congr (step : Step α) (reads : ∀ channel ∈ step.channels, keep channel) :
    (enter step one).1 = (enter step other).1 ∧
      (enter step one).2.2 = (enter step other).2.2 ∧
      (enter step one).2.1.AgreesOn keep (enter step other).2.1 ∧
      (enter step one).2.1.measures = (enter step other).2.1.measures := by
  have hbased : step.rebase one = step.rebase other :=
    Step.rebase_congr (fun channel hmem => agrees channel (reads channel hmem)) measures
  refine ⟨hbased, by simp only [enter, hbased], fun channel hkeep => ?_, ?_⟩
  · simp only [enter, hbased]
    exact agrees.written _ channel (.inl hkeep)
  · simp only [enter, Target.measures_writeAll, measures]

theorem stride_alike (step : Step α) (timer : Timer α) (now : α) :
    (stride step timer one now).Alike (fun channel => keep channel ∨ channel ∈ step.channels)
      (stride step timer other now) := by
  have hbased : step.rebase (one.writeAll (step.writes 1)) =
      step.rebase (other.writeAll (step.writes 1)) := by
    apply Step.rebase_congr
    · intro channel hmem
      rw [← step.channels_writes 1] at hmem
      exact Target.get_writeAll_congr hmem one other
    · rw [Target.measures_writeAll, Target.measures_writeAll, measures]
  obtain ⟨hstep, htimer, hpassed, hbeats⟩ :
      (stride step timer one now).step = (stride step timer other now).step ∧
        (stride step timer one now).timer = (stride step timer other now).timer ∧
        (stride step timer one now).passed = (stride step timer other now).passed ∧
        (stride step timer one now).beats = (stride step timer other now).beats := by
    unfold stride
    cases timer.advance now with
    | mk tick next =>
        cases tick with
        | looped => simp only [loop, hbased, and_self]
        | _ => exact ⟨rfl, rfl, rfl, rfl⟩
  refine ⟨hstep, htimer, hpassed, hbeats, fun channel hkeep => ?_, ?_⟩
  · rw [stride_target, stride_target, hbeats]
    exact agrees.written _ channel
      (hkeep.imp_right fun hmem => channels_subset_stride step timer other now hmem)
  · rw [stride_target, stride_target, Target.measures_writeAll, Target.measures_writeAll, measures]

end Targets

theorem play_congr (signal : Option Nat) (step : Step α) (timer : Timer α) (now : α)
    (upcoming : List (Step α)) {keep : Channel → Prop} {one other : Target α}
    (agrees : one.AgreesOn keep other) (measures : one.measures = other.measures)
    (reads : ∀ channel ∈ (Beat.writes (play signal step timer other now upcoming).beats).map
      Write.channel, channel ∈ step.channels ∨ keep channel) :
    (play signal step timer one now upcoming).track =
        (play signal step timer other now upcoming).track ∧
      (play signal step timer one now upcoming).beats =
        (play signal step timer other now upcoming).beats := by
  induction upcoming generalizing step timer keep one other with
  | nil =>
      have hstride := stride_alike agrees measures step timer now
      simp only [play, hstride.passed]
      split
      · exact ⟨rfl, by simp only [finish, after_beats, hstride.beats]⟩
      · exact ⟨by simp only [Stride.stay, hstride.step, hstride.timer], hstride.beats⟩
  | cons next rest ih =>
      have hstride := stride_alike agrees measures step timer now
      simp only [play, hstride.passed] at reads ⊢
      split
      · rename_i hpassed
        simp only [if_pos hpassed, after_beats, Beat.writes_append, List.map_append,
          List.mem_append, (enter_channels next _).2] at reads
        obtain ⟨hentered, hbeats, htarget, hmeasures⟩ :=
          enter_congr hstride.target hstride.measures next
            fun channel hmem => (reads channel (.inl (.inr hmem))).symm
        obtain ⟨htrack, hrest⟩ := ih _ (Step.arm _ now) htarget hmeasures
          fun channel hmem => .inr (reads channel (.inr hmem)).symm
        simp only [after_track, after_beats, hentered, hbeats, hstride.beats, htrack, hrest,
          and_self]
      · exact ⟨by simp only [Stride.stay, hstride.step, hstride.timer], hstride.beats⟩

theorem update_congr {track : Track α} {now : α} {keep : Channel → Prop} {one other : Target α}
    (agrees : one.AgreesOn keep other) (measures : one.measures = other.measures)
    (reads : ∀ channel ∈ (Beat.writes (track.update other now).beats).map Write.channel,
      channel ∈ track.channels ∨ keep channel) :
    (track.update one now).track = (track.update other now).track ∧
      (track.update one now).beats = (track.update other now).beats := by
  obtain ⟨phase, signal⟩ := track
  cases phase with
  | vacant => exact ⟨rfl, rfl⟩
  | playing step timer upcoming =>
      exact play_congr signal step timer now upcoming agrees measures reads
  | finished => exact ⟨rfl, rfl⟩

end Track

/-! ## All groups -/

namespace Animation

variable [Eases α]

def Clear (now : α) : Target α → List (Track α) → Prop
  | _, [] => True
  | target, track :: rest =>
    (∀ channel ∈ (Beat.writes (track.update target now).beats).map Write.channel,
      channel ∈ track.channels ∨ channel ∉ rest.flatMap Track.channels) ∧
      Clear now (track.update target now).target rest

theorem updateFrom_congr {tracks : List (Track α)} {now : α} {one other : Target α}
    (clear : Clear now other tracks)
    (agrees : one.AgreesOn (· ∉ tracks.flatMap Track.channels) other)
    (measures : one.measures = other.measures) (group : Nat) :
    updateFrom group one now tracks = updateFrom group other now tracks := by
  induction tracks generalizing one other group with
  | nil =>
      have htarget : one = other :=
        Target.eq_of_get (fun channel => agrees channel (List.not_mem_nil)) measures
      rw [htarget]
  | cons track rest ih =>
      obtain ⟨hfirst, hrest⟩ := clear
      simp only [List.flatMap_cons, List.mem_append, not_or] at agrees
      obtain ⟨htrack, hbeats⟩ := Track.update_congr agrees measures fun channel hmem => by
        by_cases hown : channel ∈ track.channels
        · exact .inl hown
        · exact .inr ⟨hown, (hfirst channel hmem).resolve_left hown⟩
      have htarget : (track.update one now).target.AgreesOn (· ∉ rest.flatMap Track.channels)
          (track.update other now).target := by
        intro channel hkeep
        rw [track.update_target, track.update_target, hbeats]
        apply agrees.written
        by_cases hown : channel ∈ track.channels
        · exact .inr (track.channels_subset_update other now hown)
        · exact .inl ⟨hown, hkeep⟩
      have hmeasures : (track.update one now).target.measures =
          (track.update other now).target.measures := by
        rw [track.update_target, track.update_target, Target.measures_writeAll,
          Target.measures_writeAll, measures]
      simp only [updateFrom, ih hrest htarget hmeasures, Turn.cons, htrack, hbeats]

theorem clear_of_progresses {tracks : List (Track α)} {now : α}
    (h : ∀ track ∈ tracks, track.progresses now = true) (target : Target α) :
    Clear now target tracks := by
  induction tracks generalizing target with
  | nil => trivial
  | cons track rest ih =>
      rw [List.forall_mem_cons] at h
      refine ⟨fun channel hmem => .inl ?_, ih h.2 _⟩
      rwa [(Track.update_of_progresses h.1 target).2.2.2] at hmem

def Turn.Apart (turn : Turn α) : Prop :=
  ∀ group other, group ≠ other → ∀ channel ∈ GroupBeat.written group turn.beats,
    channel ∉ GroupBeat.written other turn.beats

omit [Scalar α] [Eases α] in
theorem written_cons (turn : Turn α) (group first : Nat) (track : Track.Turn α) :
    GroupBeat.written group (turn.cons first track).beats =
      (if first = group then (Beat.writes track.beats).map Write.channel else []) ++
        GroupBeat.written group turn.beats := by
  rw [GroupBeat.written, ofGroup_cons_beats, Beat.writes_append, List.map_append]
  split <;> rfl

theorem clear_of_apart {tracks : List (Track α)} {now : α} {target : Target α} (group : Nat)
    (apart : (updateFrom group target now tracks).Apart) : Clear now target tracks := by
  induction tracks generalizing target group with
  | nil => trivial
  | cons track rest ih =>
      rw [updateFrom] at apart
      refine ⟨fun channel hmem => .inr fun hlater => ?_,
        ih (group + 1) fun one other hne channel hmem => ?_⟩
      · obtain ⟨entry, hentry, hwritten⟩ := GroupBeat.mem_written_of_mem
          (channels_subset_updateFrom (group + 1) (track.update target now).target now rest hlater)
        have hgroup := (group_of_mem_updateFrom hentry).1
        refine apart group entry.group (by omega) channel ?_ ?_
        · rw [written_cons, if_pos rfl]
          exact List.mem_append_left _ hmem
        · rw [written_cons]
          exact List.mem_append_right _ hwritten
      · have hapart := apart one other hne channel
        simp only [written_cons, List.mem_append, not_or] at hapart
        exact (hapart (.inr hmem)).2

theorem updateFrom_of_progresses {tracks : List (Track α)} {now : α}
    (h : ∀ track ∈ tracks, track.progresses now = true) (group : Nat) (target : Target α) :
    (updateFrom group target now tracks).animation.tracks = tracks ∧
      GroupBeat.events (updateFrom group target now tracks).beats = [] ∧
      GroupBeat.signals (updateFrom group target now tracks).beats = [] ∧
      (GroupBeat.writes (updateFrom group target now tracks).beats).map Write.channel =
        tracks.flatMap Track.channels := by
  induction tracks generalizing group target with
  | nil => exact ⟨rfl, rfl, rfl, rfl⟩
  | cons track rest ih =>
      rw [List.forall_mem_cons] at h
      obtain ⟨htrack, hevents, hsignals, hwrites⟩ := Track.update_of_progresses h.1 target
      obtain ⟨hrest, hquiet, hsilent, hlater⟩ :=
        ih h.2 (group + 1) (track.update target now).target
      refine ⟨?_, ?_, ?_, ?_⟩
      · simp only [updateFrom, cons_tracks, htrack, hrest]
      · rw [updateFrom, cons_beats, GroupBeat.events_append, GroupBeat.events_map_mk, hevents,
          hquiet]
        rfl
      · rw [updateFrom, cons_beats, GroupBeat.signals_append, GroupBeat.signals_map_mk, hsignals,
          hsilent]
        rfl
      · simp only [updateFrom, writes_cons, List.map_append, hwrites, hlater, List.flatMap_cons]

/-- A frame in which every group moves along makes no difference to a later one in
which this is so too, or in which no two groups write one channel: the later frame
leads to the same tracks and the same target, and tells the same. -/
theorem Turn.next_of_progresses (turn : Turn α) {earlier now : α}
    (h : ∀ track ∈ turn.animation.tracks, track.progresses earlier = true)
    (hnow : (∀ track ∈ turn.animation.tracks, track.progresses now = true) ∨
      (turn.next now).Apart) :
    (turn.next earlier).animation = turn.animation ∧
      GroupBeat.events (turn.next earlier).beats = [] ∧
      GroupBeat.signals (turn.next earlier).beats = [] ∧
      (turn.next earlier).next now = turn.next now := by
  obtain ⟨htracks, hevents, hsignals, hwrites⟩ :=
    updateFrom_of_progresses h 0 turn.target
  have hanimation : (turn.next earlier).animation = turn.animation :=
    congrArg Animation.mk htracks
  have hclear : Clear now turn.target turn.animation.tracks := by
    rcases hnow with hmoves | apart
    · exact clear_of_progresses hmoves turn.target
    · exact clear_of_apart 0 apart
  refine ⟨hanimation, hevents, hsignals, ?_⟩
  rw [Turn.next, hanimation]
  apply updateFrom_congr hclear
  · intro channel hkeep
    rw [next_target, Target.get_writeAll_of_notMem]
    exact hwrites ▸ hkeep
  · rw [next_target, Target.measures_writeAll]

theorem Turn.next_of_progresses_of_two_groups :
    letI : Eases Rat := ⟨fun _ progress => progress⟩
    ∃ turn : Turn Rat,
      launch Config.standard Target.standard "[e0x12d4][e0y6d2|z3d1]" 0 none = .ok turn ∧
      (∀ track ∈ turn.animation.tracks, track.progresses 1 = true) ∧ (turn.next 3).Apart ∧
      (turn.next 1).target.get (.translation .x) = 3 ∧
      (turn.next 1).next 3 = turn.next 3 ∧
      (turn.next 3).target.get (.translation .x) = 9 := by
  let : Eases Rat := ⟨fun _ progress => progress⟩
  let launched : Except CapacityExceeded (Turn Rat) :=
    launch Config.standard Target.standard "[e0x12d4][e0y6d2|z3d1]" 0 none
  let turn : Turn Rat := launched.toOption.getD ⟨⟨[]⟩, Target.standard, []⟩
  have hmoves : ∀ track ∈ turn.animation.tracks, track.progresses 1 = true := by decide +kernel
  have apart : (turn.next 3).Apart := by
    have hfirst : GroupBeat.written 0 (turn.next 3).beats = [.translation .x] := by decide +kernel
    have hsecond : GroupBeat.written 1 (turn.next 3).beats =
        [.translation .y, .translation .z, .translation .z] := by decide +kernel
    have hlater : ∀ group, 2 ≤ group → GroupBeat.written group (turn.next 3).beats = [] := by
      intro group hgroup
      have hcount : turn.animation.tracks.length = 2 := by decide +kernel
      rw [GroupBeat.written, GroupBeat.ofGroup_eq_nil]
      · rfl
      · intro entry hentry
        have := (group_of_mem_updateFrom hentry).2
        omega
    intro group other hne channel hmem
    rcases group with _ | _ | group <;> rcases other with _ | _ | other <;> simp_all
    rcases hmem with rfl | rfl <;> simp
  refine ⟨turn, by decide +kernel, hmoves, apart, by decide +kernel, ?_, by decide +kernel⟩
  exact (turn.next_of_progresses hmoves (.inr apart)).2.2.2

end Animation

end MotionNotation
