import Mathlib.Data.List.Basic
import Mathlib.Data.List.Induction
import MotionNotation.Proofs.Playback.Writes

/-!
# Histories of animations

An animation is followed over a list of update times.  Seen from one of its
groups the history is the life of a single track, which is started once and
then updated on whatever target the other groups have left.
-/

namespace MotionNotation

variable {α : Type}

namespace GroupBeat

def ofGroup (group : Nat) (beats : List (GroupBeat α)) : List (Beat α) :=
  beats.filterMap fun entry => if entry.group = group then some entry.beat else none

@[simp] theorem ofGroup_nil (group : Nat) :
    ofGroup group ([] : List (GroupBeat α)) = [] := rfl

@[simp] theorem ofGroup_append (group : Nat) (first second : List (GroupBeat α)) :
    ofGroup group (first ++ second) =
      ofGroup group first ++ ofGroup group second :=
  List.filterMap_append

@[simp] theorem ofGroup_map_mk (group other : Nat) (beats : List (Beat α)) :
    ofGroup group (beats.map (⟨other, ·⟩)) =
      if other = group then beats else [] := by
  induction beats with
  | nil => simp
  | cons beat rest ih =>
      by_cases h : other = group <;> simp_all [ofGroup]

theorem events_ofGroup (group : Nat) (beats : List (GroupBeat α)) :
    Beat.events (ofGroup group beats) =
      (events beats).filterMap fun event =>
        if event.group = group then some event.kind else none := by
  induction beats with
  | nil => rfl
  | cons entry rest ih =>
      by_cases h : entry.group = group <;>
        cases hevent : entry.beat.event? <;>
        simp_all [ofGroup, events, Beat.events]

theorem mem_events_iff (group : Nat) (kind : GroupEvent.Kind α)
    (beats : List (GroupBeat α)) :
    ⟨group, kind⟩ ∈ events beats ↔ kind ∈ Beat.events (ofGroup group beats) := by
  rw [events_ofGroup, List.mem_filterMap]
  constructor
  · intro h
    exact ⟨⟨group, kind⟩, h, by simp⟩
  · rintro ⟨⟨other, found⟩, hmem, heq⟩
    split at heq
    · cases heq
      simp_all
    · cases heq

theorem group_of_mem_events {beats : List (GroupBeat α)} {event : GroupEvent α}
    (h : event ∈ events beats) : ∃ entry ∈ beats, entry.group = event.group := by
  obtain ⟨entry, hentry, hevent⟩ := List.mem_filterMap.mp h
  obtain ⟨kind, -, rfl⟩ := Option.map_eq_some_iff.mp hevent
  exact ⟨entry, hentry, rfl⟩

theorem mem_ofGroup {entry : GroupBeat α} {beats : List (GroupBeat α)} (h : entry ∈ beats) :
    entry.beat ∈ ofGroup entry.group beats :=
  List.mem_filterMap.mpr ⟨entry, h, by simp⟩

theorem ofGroup_eq_nil {group : Nat} {beats : List (GroupBeat α)}
    (h : ∀ entry ∈ beats, entry.group ≠ group) : ofGroup group beats = [] := by
  rw [ofGroup, List.filterMap_eq_nil_iff]
  intro entry hmem
  simp [h entry hmem]

def written (group : Nat) (beats : List (GroupBeat α)) : List Channel :=
  (Beat.writes (ofGroup group beats)).map Write.channel

theorem mem_written_of_mem {beats : List (GroupBeat α)} {channel : Channel}
    (h : channel ∈ (writes beats).map Write.channel) :
    ∃ entry ∈ beats, channel ∈ written entry.group beats := by
  obtain ⟨write, hwrite, rfl⟩ := List.mem_map.mp h
  obtain ⟨entry, hentry, hbeat⟩ := List.mem_filterMap.mp hwrite
  refine ⟨entry, hentry, List.mem_map_of_mem ?_⟩
  exact List.mem_filterMap.mpr ⟨entry.beat, mem_ofGroup hentry, hbeat⟩

theorem signals_eq_of_first {beats : List (GroupBeat α)}
    (h : ∀ group, group ≠ 0 → Beat.signals (ofGroup group beats) = []) :
    signals beats = Beat.signals (ofGroup 0 beats) := by
  rw [signals, Beat.signals, ofGroup, List.filterMap_filterMap]
  apply List.filterMap_congr
  intro entry hmem
  by_cases hfirst : entry.group = 0
  · simp [hfirst]
  · have hsilent := List.filterMap_eq_nil_iff.mp (h entry.group hfirst)
    simp [hfirst, hsilent entry.beat (mem_ofGroup hmem)]

end GroupBeat

/-! ## The life of one track -/

inductive Track.Run [Scalar α] [Eases α] (steps : List (Step α)) (signal : Option Nat) :
    List (List (Beat α)) → Track α → Prop
  | start (target : Target α) (now : α) :
      Run steps signal [(Track.start steps signal target now).beats]
        (Track.start steps signal target now).track
  | update {heard : List (List (Beat α))} {track : Track α}
      (run : Run steps signal heard track) (target : Target α) (now : α) :
      Run steps signal (heard ++ [(track.update target now).beats])
        (track.update target now).track

namespace Animation

/-! ## One group among the others -/

theorem ofGroup_cons_beats (turn : Turn α) (group other : Nat) (track : Track.Turn α) :
    GroupBeat.ofGroup group (turn.cons other track).beats =
      (if other = group then track.beats else []) ++
        GroupBeat.ofGroup group turn.beats := by
  simp

theorem group_of_mem_inTurn {first : Nat} {target : Target α}
    {acts : List (Target α → Track.Turn α)} {entry : GroupBeat α}
    (h : entry ∈ (inTurn first target acts).beats) :
    first ≤ entry.group ∧ entry.group < first + acts.length := by
  induction acts generalizing first target with
  | nil => cases h
  | cons act rest ih =>
      simp only [inTurn, cons_beats, List.mem_append, List.mem_map] at h
      rw [List.length_cons]
      rcases h with ⟨beat, -, rfl⟩ | h
      · exact ⟨Nat.le_refl first, by simp only; omega⟩
      · have := ih h
        omega

theorem ofGroup_inTurn_cons (group first : Nat) (target : Target α)
    (act : Target α → Track.Turn α) (rest : List (Target α → Track.Turn α)) :
    GroupBeat.ofGroup group (inTurn first target (act :: rest)).beats =
      (if first = group then (act target).beats else []) ++
        GroupBeat.ofGroup group (inTurn (first + 1) (act target).target rest).beats :=
  ofGroup_cons_beats ..

theorem ofGroup_inTurn_of_lt {group first : Nat} (h : group < first) (target : Target α)
    (acts : List (Target α → Track.Turn α)) :
    GroupBeat.ofGroup group (inTurn first target acts).beats = [] := by
  apply GroupBeat.ofGroup_eq_nil
  intro entry hmem
  have := group_of_mem_inTurn hmem
  omega

theorem inTurn_get {acts : List (Target α → Track.Turn α)} (overt : ∀ act ∈ acts, Overt act)
    {first : Nat} {target : Target α} {channel : Channel}
    (h : ∀ group, first ≤ group →
      channel ∉ GroupBeat.written group (inTurn first target acts).beats) :
    (inTurn first target acts).target.get channel = target.get channel := by
  rw [inTurn_target overt]
  apply Target.get_writeAll_of_notMem
  intro hmem
  obtain ⟨entry, hentry, hwritten⟩ := GroupBeat.mem_written_of_mem hmem
  exact h entry.group (group_of_mem_inTurn hentry).1 hwritten

/-- One group among the others.  What it finds and what it leaves is there before
and after all of them, on the channels that no other one writes. -/
theorem inTurn_getElem? {acts : List (Target α → Track.Turn α)}
    (overt : ∀ act ∈ acts, Overt act) {index : Nat} {act : Target α → Track.Turn α}
    (h : acts[index]? = some act) (first : Nat) (target : Target α) :
    ∃ found,
      (inTurn first target acts).animation.tracks[index]? = some (act found).track ∧
      GroupBeat.ofGroup (first + index) (inTurn first target acts).beats = (act found).beats ∧
      ∀ channel, (∀ group, group ≠ first + index →
          channel ∉ GroupBeat.written group (inTurn first target acts).beats) →
        found.get channel = target.get channel ∧
          (inTurn first target acts).target.get channel = (act found).target.get channel := by
  induction acts generalizing index first target with
  | nil => cases h
  | cons head rest ih =>
      have hovert : ∀ other ∈ rest, Overt other :=
        fun other hmem => overt other (List.mem_cons_of_mem head hmem)
      have hlater : ∀ group channel,
          channel ∉ GroupBeat.written group (inTurn first target (head :: rest)).beats →
          channel ∉ GroupBeat.written group
            (inTurn (first + 1) (head target).target rest).beats := by
        intro group channel hnot hmem
        rw [GroupBeat.written, ofGroup_inTurn_cons, Beat.writes_append, List.map_append] at hnot
        exact hnot (List.mem_append_right _ hmem)
      cases index with
      | zero =>
          cases h
          refine ⟨target, rfl, ?_, fun channel hothers => ⟨rfl, ?_⟩⟩
          · rw [Nat.add_zero, ofGroup_inTurn_cons, if_pos rfl,
              ofGroup_inTurn_of_lt (Nat.lt_succ_self first), List.append_nil]
          · exact inTurn_get hovert fun group hgroup =>
              hlater group channel (hothers group (by omega))
      | succ index =>
          have hrest : rest[index]? = some act := by simpa using h
          obtain ⟨found, htrack, hbeats, hget⟩ :=
            ih hovert hrest (first + 1) (head target).target
          have hshift : first + (index + 1) = first + 1 + index := by omega
          refine ⟨found, htrack, ?_, fun channel hothers => ?_⟩
          · rw [ofGroup_inTurn_cons, if_neg (by omega), List.nil_append, hshift, hbeats]
          · have hfirst : channel ∉ (Beat.writes (head target).beats).map Write.channel := by
              have hnot := hothers first (by omega)
              rw [GroupBeat.written, ofGroup_inTurn_cons, if_pos rfl,
                ofGroup_inTurn_of_lt (Nat.lt_succ_self first), List.append_nil] at hnot
              exact hnot
            obtain ⟨hfound, hleft⟩ := hget channel fun group hne =>
              hlater group channel (hothers group (by omega))
            refine ⟨?_, hleft⟩
            rw [hfound, overt head List.mem_cons_self target,
              Target.get_writeAll_of_notMem hfirst]

variable [Scalar α] [Eases α]

/-! ### Starting the groups -/

theorem length_openings (signal : Option Nat) (now : α) (segments : List (Segment α)) :
    (openings signal now segments).length = segments.length := by
  induction segments generalizing signal with
  | nil => rfl
  | cons segment rest ih => rw [openings, List.length_cons, List.length_cons, ih]

theorem openings_getElem? {segments : List (Segment α)} {index : Nat} {segment : Segment α}
    (h : segments[index]? = some segment) (signal : Option Nat) (now : α) :
    (openings signal now segments)[index]? = some fun target =>
      Track.start segment.steps (if index = 0 then signal else none) target now := by
  induction segments generalizing index signal with
  | nil => cases h
  | cons head rest ih =>
      cases index with
      | zero =>
          cases h
          rfl
      | succ index =>
          have hrest : rest[index]? = some segment := by simpa using h
          simpa [openings] using ih hrest none

theorem group_of_mem_startFrom {first : Nat} {signal : Option Nat} {target : Target α}
    {now : α} {segments : List (Segment α)} {entry : GroupBeat α}
    (h : entry ∈ (startFrom first signal target now segments).beats) :
    first ≤ entry.group ∧ entry.group < first + segments.length := by
  rw [startFrom_eq_inTurn] at h
  rw [← length_openings signal now segments]
  exact group_of_mem_inTurn h

theorem startFrom_getElem? {segments : List (Segment α)} {index : Nat}
    {segment : Segment α} (h : segments[index]? = some segment) (first : Nat)
    (signal : Option Nat) (target : Target α) (now : α) :
    ∃ found,
      let turn := Track.start segment.steps (if index = 0 then signal else none) found now
      (startFrom first signal target now segments).animation.tracks[index]? =
          some turn.track ∧
        GroupBeat.ofGroup (first + index)
          (startFrom first signal target now segments).beats = turn.beats := by
  rw [startFrom_eq_inTurn]
  obtain ⟨found, htrack, hbeats, -⟩ := inTurn_getElem? (openings_overt signal now segments)
    (openings_getElem? h signal now) first target
  exact ⟨found, htrack, hbeats⟩

/-! ### Updating the groups -/

theorem updates_getElem? {tracks : List (Track α)} {index : Nat} {track : Track α}
    (h : tracks[index]? = some track) (now : α) :
    (tracks.map fun track found => track.update found now)[index]? =
      some fun found => track.update found now := by
  rw [List.getElem?_map, h]
  rfl

theorem group_of_mem_updateFrom {first : Nat} {target : Target α} {now : α}
    {tracks : List (Track α)} {entry : GroupBeat α}
    (h : entry ∈ (updateFrom first target now tracks).beats) :
    first ≤ entry.group ∧ entry.group < first + tracks.length := by
  rw [updateFrom_eq_inTurn] at h
  simpa using group_of_mem_inTurn h

theorem updateFrom_getElem? {tracks : List (Track α)} {index : Nat} {track : Track α}
    (h : tracks[index]? = some track) (first : Nat) (target : Target α) (now : α) :
    ∃ found,
      (updateFrom first target now tracks).animation.tracks[index]? =
          some (track.update found now).track ∧
        GroupBeat.ofGroup (first + index) (updateFrom first target now tracks).beats =
          (track.update found now).beats := by
  rw [updateFrom_eq_inTurn]
  obtain ⟨found, htrack, hbeats, -⟩ := inTurn_getElem? (updates_overt now tracks)
    (updates_getElem? h now) first target
  exact ⟨found, htrack, hbeats⟩

/-! ## A list of updates -/

namespace Turn

def next (turn : Turn α) (now : α) : Turn α :=
  turn.animation.update turn.target now

def updates (turn : Turn α) : List α → List (Turn α)
  | [] => []
  | now :: rest => turn.next now :: (turn.next now).updates rest

def history (turn : Turn α) (times : List α) : List (Turn α) :=
  turn :: turn.updates times

def last (turn : Turn α) (times : List α) : Turn α :=
  times.foldl next turn

theorem updates_concat (turn : Turn α) (times : List α) (now : α) :
    turn.updates (times ++ [now]) = turn.updates times ++ [(turn.last times).next now] := by
  induction times generalizing turn with
  | nil => rfl
  | cons time rest ih =>
      rw [List.cons_append, updates, updates, ih, List.cons_append]
      rfl

theorem history_concat (turn : Turn α) (times : List α) (now : α) :
    turn.history (times ++ [now]) = turn.history times ++ [(turn.last times).next now] := by
  rw [history, updates_concat]
  rfl

theorem last_cons (turn : Turn α) (time : α) (rest : List α) :
    turn.last (time :: rest) = (turn.next time).last rest := rfl

@[simp] theorem last_concat (turn : Turn α) (times : List α) (now : α) :
    turn.last (times ++ [now]) = (turn.last times).next now := by
  simp [last]

theorem forall_history {P : Turn α → Prop} {turn : Turn α} (start : P turn)
    (step : ∀ turn now, P turn → P (turn.next now)) (times : List α) :
    ∀ found ∈ turn.history times, P found := by
  induction times generalizing turn with
  | nil => simpa [history, updates] using start
  | cons time rest ih =>
      intro found hmem
      rcases List.mem_cons.mp hmem with rfl | hmem
      · exact start
      · exact ih (step turn time start) found hmem

end Turn

theorem start_run {segments : List (Segment α)} {group : Nat} {segment : Segment α}
    (h : segments[group]? = some segment) (target : Target α) (now : α)
    (signal : Option Nat) (times : List α) :
    ∃ track,
      ((start segments target now signal).last times).animation.tracks[group]? = some track ∧
        Track.Run segment.steps (if group = 0 then signal else none)
          (((start segments target now signal).history times).map fun turn =>
            GroupBeat.ofGroup group turn.beats) track := by
  -- From the last update backwards: the other groups decide what target a track
  -- finds, and nothing is asked of it.
  induction times using List.reverseRecOn with
  | nil =>
      obtain ⟨found, htrack, hbeats⟩ := startFrom_getElem? h 0 signal target now
      refine ⟨_, htrack, ?_⟩
      have hrun : Track.Run segment.steps (if group = 0 then signal else none) _ _ :=
        .start found now
      rw [← hbeats, Nat.zero_add] at hrun
      exact hrun
  | append_singleton times time ih =>
      obtain ⟨track, htrack, hrun⟩ := ih
      obtain ⟨found, hnext, hbeats⟩ := updateFrom_getElem? htrack 0
        ((start segments target now signal).last times).target time
      refine ⟨_, by rw [Turn.last_concat]; exact hnext, ?_⟩
      have hstep := hrun.update found time
      rw [← hbeats, Nat.zero_add] at hstep
      rw [Turn.history_concat, List.map_append]
      exact hstep

/-! ## A single group -/

namespace Turn

omit [Scalar α] [Eases α] in
def Sole (turn : Turn α) (track : Track α) : Prop :=
  turn.animation.tracks = [track]

theorem Sole.next {turn : Turn α} {track : Track α} (h : turn.Sole track) (now : α) :
    (turn.next now).Sole (track.update turn.target now).track ∧
      (turn.next now).target = (track.update turn.target now).target := by
  rw [Sole] at h ⊢
  rw [Turn.next, update, h]
  exact ⟨rfl, rfl⟩

omit [Scalar α] [Eases α] in
theorem Sole.status_eq_finished_iff {turn : Turn α} {track : Track α} (h : turn.Sole track) :
    turn.animation.status = .finished ↔ track.isFinished = true := by
  rw [Sole] at h
  cases hfinished : track.isFinished <;> simp [status, isFinished, h, hfinished]

end Turn

theorem launch_eq_start {config : Config α} {target : Target α} {text : String} {now : α}
    {signal : Option Nat} {turn : Turn α} {segments : List (Segment α)}
    (launched : launch config target text now signal = .ok turn)
    (read : Segment.readAll config target text = .ok segments) :
    turn = start segments target now signal := by
  rw [launch, read] at launched
  exact (Except.ok.inj launched).symm

theorem start_sole (segment : Segment α) (target : Target α) (now : α) (signal : Option Nat) :
    (start [segment] target now signal).Sole
      (Track.start segment.steps signal target now).track := rfl

end Animation

end MotionNotation
