import MotionNotation.Proofs.Notation.Brackets
import MotionNotation.Proofs.Playback.Agreement
import MotionNotation.Proofs.Playback.Chronicle
import MotionNotation.Proofs.Playback.Reach

/-!
# Groups side by side

Several groups in brackets run as each of them would run alone.  What a group
tells does not depend on the others at all; what it writes does not, as long as
no other group writes the same channels.
-/

namespace MotionNotation

variable {α : Type}

namespace Target

theorem eq_of_get {first second : Target α}
    (channels : ∀ channel, first.get channel = second.get channel)
    (measures : first.measures = second.measures) : first = second := by
  have haxis : ∀ {one other : Triple α}, (∀ axis, one.get axis = other.get axis) →
      one = other := by
    rintro ⟨x, y, z⟩ ⟨p, q, r⟩ h
    have hx : x = p := h .x
    have hy : y = q := h .y
    have hz : z = r := h .z
    rw [hx, hy, hz]
  obtain ⟨translation, rotation, scale, alpha, width, height, sibling⟩ := first
  obtain ⟨moved, turned, scaled, faded, breadth, stature, place⟩ := second
  have htranslation : translation = moved := haxis fun axis => channels (.translation axis)
  have hrotation : rotation = turned := haxis fun axis => channels (.rotation axis)
  have hscale : scale = scaled := channels .scale
  have halpha : alpha = faded := channels .alpha
  cases measures
  rw [htranslation, hrotation, hscale, halpha]

end Target

namespace GroupBeat

theorem written_subset (group : Nat) (beats : List (GroupBeat α)) :
    written group beats ⊆ (writes beats).map Write.channel := by
  rw [written, writes, Beat.writes, ofGroup, List.filterMap_filterMap]
  apply List.map_subset
  intro write hmem
  obtain ⟨entry, hentry, hwrite⟩ := List.mem_filterMap.mp hmem
  refine List.mem_filterMap.mpr ⟨entry, hentry, ?_⟩
  by_cases h : entry.group = group
  · simpa [h] using hwrite
  · simp [h] at hwrite

theorem events_filter_group (group : Nat) (beats : List (GroupBeat α)) :
    (events beats).filter (fun event => event.group == group) =
      (Beat.events (ofGroup group beats)).map (⟨group, ·⟩) := by
  rw [events_ofGroup]
  induction events beats with
  | nil => rfl
  | cons event rest ih =>
      obtain ⟨found, kind⟩ := event
      by_cases h : found = group <;> simp_all

end GroupBeat

namespace Animation

/-! ## One group of each of two animations -/

variable {keep : Channel → Prop}

namespace Turn

def Spares (keep : Channel → Prop) (index : Nat) (turn : Turn α) : Prop :=
  ∀ group, group ≠ index → ∀ channel, keep channel →
    channel ∉ GroupBeat.written group turn.beats

def sketch (group : Nat) (turn : Turn α) : List (GroupEvent.Kind α ⊕ Channel) :=
  Beat.sketch (GroupBeat.ofGroup group turn.beats)

theorem events_ofGroup_eq (group : Nat) (turn : Turn α) :
    Beat.events (GroupBeat.ofGroup group turn.beats) =
      (turn.sketch group).filterMap Sum.getLeft? :=
  (Beat.filterMap_getLeft?_sketch _).symm

theorem written_eq (group : Nat) (turn : Turn α) :
    GroupBeat.written group turn.beats = (turn.sketch group).filterMap Sum.getRight? :=
  (Beat.filterMap_getRight?_sketch _).symm

structure AgreesOn (keep : Channel → Prop) (index place : Nat) (first second : Turn α) :
    Prop where
  tracks : ∃ one other, first.animation.tracks[index]? = some one ∧
    second.animation.tracks[place]? = some other ∧ one.phase.AgreesOn keep other.phase
  target : first.target.AgreesOn keep second.target
  sketch : first.sketch index = second.sketch place

end Turn

theorem inTurn_agreesOn {acts others : List (Target α → Track.Turn α)}
    (overt : ∀ act ∈ acts, Overt act) (overtOthers : ∀ act ∈ others, Overt act)
    {index place : Nat} {act other : Target α → Track.Turn α} (hact : acts[index]? = some act)
    (hother : others[place]? = some other) {one two : Target α}
    (target : one.AgreesOn keep two)
    (agrees : ∀ first second : Target α, first.AgreesOn keep second →
      (act first).AgreesOn keep (other second))
    (spares : (inTurn 0 one acts).Spares keep index)
    (sparesOthers : (inTurn 0 two others).Spares keep place) :
    Turn.AgreesOn keep index place (inTurn 0 one acts) (inTurn 0 two others) := by
  obtain ⟨first, htrack, hbeats, hget⟩ := inTurn_getElem? overt hact 0 one
  obtain ⟨second, htracks, hothers, hgets⟩ := inTurn_getElem? overtOthers hother 0 two
  rw [Nat.zero_add] at hbeats hothers hget hgets
  have hfirst : ∀ channel, keep channel → _ := fun channel hkeep =>
    hget channel fun group hne => spares group hne channel hkeep
  have hsecond : ∀ channel, keep channel → _ := fun channel hkeep =>
    hgets channel fun group hne => sparesOthers group hne channel hkeep
  have hfound : first.AgreesOn keep second := by
    intro channel hkeep
    rw [(hfirst channel hkeep).1, (hsecond channel hkeep).1]
    exact target channel hkeep
  have hturn := agrees first second hfound
  refine ⟨⟨_, _, htrack, htracks, hturn.phase⟩, ?_, ?_⟩
  · intro channel hkeep
    rw [(hfirst channel hkeep).2, (hsecond channel hkeep).2]
    exact hturn.target channel hkeep
  · rw [Turn.sketch, Turn.sketch, hbeats, hothers]
    exact hturn.beats

variable [Scalar α] [Eases α]

theorem start_agreesOn {segments others : List (Segment α)} {index place : Nat}
    {segment : Segment α} (h : segments[index]? = some segment)
    (hother : others[place]? = some segment) {one two : Target α}
    (target : one.AgreesOn keep two) (now : α) (signal given : Option Nat)
    (spares : (start segments one now signal).Spares keep index)
    (sparesOthers : (start others two now given).Spares keep place) :
    Turn.AgreesOn keep index place (start segments one now signal) (start others two now given) := by
  simp only [start, startFrom_eq_inTurn] at spares sparesOthers ⊢
  refine inTurn_agreesOn (openings_overt signal now segments) (openings_overt given now others)
    (openings_getElem? h signal now) (openings_getElem? hother given now) target ?_ spares
    sparesOthers
  intro first second hfound
  exact Track.start_agreesOn segment.steps _ _ hfound now

namespace Turn

theorem AgreesOn.next {index place : Nat} {first second : Turn α}
    (h : AgreesOn keep index place first second) (now : α)
    (spares : (first.next now).Spares keep index)
    (sparesOthers : (second.next now).Spares keep place) :
    AgreesOn keep index place (first.next now) (second.next now) := by
  obtain ⟨one, other, hone, hother, hphase⟩ := h.tracks
  simp only [Turn.next, update, updateFrom_eq_inTurn] at spares sparesOthers ⊢
  refine inTurn_agreesOn (updates_overt now _) (updates_overt now _) (updates_getElem? hone now)
    (updates_getElem? hother now) h.target ?_ spares sparesOthers
  intro found left hfound
  exact Track.update_agreesOn hphase hfound now

theorem AgreesOn.history {index place : Nat} {first second : Turn α}
    (h : AgreesOn keep index place first second) (times : List α)
    (spares : ∀ turn ∈ first.updates times, turn.Spares keep index)
    (sparesOthers : ∀ turn ∈ second.updates times, turn.Spares keep place) :
    (first.history times).map (Turn.sketch index) =
        (second.history times).map (Turn.sketch place) ∧
      AgreesOn keep index place (first.last times) (second.last times) := by
  induction times generalizing first second with
  | nil => exact ⟨congrArg (fun shown => [shown]) h.sketch, h⟩
  | cons time rest ih =>
      rw [updates, List.forall_mem_cons] at spares sparesOthers
      obtain ⟨hhistory, hlast⟩ := ih (h.next time spares.1 sparesOthers.1) spares.2
        sparesOthers.2
      refine ⟨?_, hlast⟩
      rw [Turn.history, Turn.history, List.map_cons, List.map_cons, h.sketch]
      exact congrArg (_ :: ·) hhistory

/-! ## What a whole run writes -/

def written (turn : Turn α) (times : List α) : List Channel :=
  (turn.history times).flatMap fun found => (GroupBeat.writes found.beats).map Write.channel

theorem next_target (turn : Turn α) (now : α) :
    (turn.next now).target =
      turn.target.writeAll (GroupBeat.writes (turn.next now).beats) :=
  updateFrom_target ..

theorem get_last_of_notMem {turn : Turn α} {times : List α} {channel : Channel}
    (h : ∀ found ∈ turn.updates times,
      channel ∉ (GroupBeat.writes found.beats).map Write.channel) :
    (turn.last times).target.get channel = turn.target.get channel := by
  induction times generalizing turn with
  | nil => rfl
  | cons time rest ih =>
      rw [updates, List.forall_mem_cons] at h
      rw [last_cons, ih h.2, next_target, Target.get_writeAll_of_notMem h.1]

theorem last_measures (turn : Turn α) (times : List α) :
    (turn.last times).target.measures = turn.target.measures := by
  induction times generalizing turn with
  | nil => rfl
  | cons time rest ih =>
      rw [last_cons, ih, next_target, Target.measures_writeAll]

theorem updates_append (turn : Turn α) (earlier later : List α) :
    turn.updates (earlier ++ later) =
      turn.updates earlier ++ (turn.last earlier).updates later := by
  induction earlier generalizing turn with
  | nil => rfl
  | cons time rest ih =>
      rw [List.cons_append, updates, updates, ih, List.cons_append]
      rfl

theorem written_subset_of_prefix (turn : Turn α) {earlier times : List α}
    (h : earlier <+: times) : turn.written earlier ⊆ turn.written times := by
  obtain ⟨later, rfl⟩ := h
  intro channel hmem
  rw [written, history, updates_append, ← List.cons_append, List.flatMap_append]
  exact List.mem_append_left _ hmem

end Turn

/-! ## A group among others and the same group alone -/

section Alone

variable {segments : List (Segment α)} {index : Nat} {segment : Segment α} {target : Target α}
  {now : α} {signal given : Option Nat} {times : List α} {channel : Channel}

theorem alone_spares (keep : Channel → Prop) (segment : Segment α) (target : Target α) (now : α)
    (given : Option Nat) (times : List α) :
    ∀ turn ∈ (start [segment] target now given).history times, turn.Spares keep 0 := by
  intro turn hmem group hne channel _
  have hlength : [segment].length ≤ group := Nat.one_le_iff_ne_zero.mpr hne
  rw [GroupBeat.written, ofGroup_eq_nil_of_length_le hmem hlength]
  exact List.not_mem_nil

theorem alone_events {turn : Turn α}
    (hmem : turn ∈ (start [segment] target now given).history times) :
    GroupBeat.events turn.beats =
      (Beat.events (GroupBeat.ofGroup 0 turn.beats)).map (⟨0, ·⟩) := by
  rw [← GroupBeat.events_filter_group, List.filter_eq_self.mpr]
  intro event hevent
  obtain ⟨entry, hentry, hgroup⟩ := GroupBeat.group_of_mem_events hevent
  have hbound : entry.group < 1 := (start_groups times turn hmem).2 entry hentry
  rw [beq_iff_eq]
  omega

theorem notMem_written_of_alone {turn : Turn α}
    (hmem : turn ∈ (start [segment] target now given).history times)
    (h : channel ∉ (start [segment] target now given).written times) (group : Nat) :
    channel ∉ GroupBeat.written group turn.beats := by
  intro hwritten
  apply h
  rw [Turn.written, List.mem_flatMap]
  exact ⟨turn, hmem, GroupBeat.written_subset group turn.beats hwritten⟩

theorem written_alone_subset :
    (start [segment] target now given).written times ⊆ segment.grid.channels := by
  intro channel hmem
  obtain ⟨turn, hturn, hwrites⟩ := List.mem_flatMap.mp hmem
  obtain ⟨entry, hentry, hwritten⟩ := GroupBeat.mem_written_of_mem hwrites
  have hgroup : entry.group = 0 :=
    Nat.lt_one_iff.mp ((start_groups times turn hturn).2 entry hentry)
  rw [hgroup] at hwritten
  have hsegment : [segment][0]? = some segment := rfl
  obtain ⟨track, -, run⟩ := start_run hsegment target now given times
  exact segment.channels_steps_subset (run.within.2 _ (List.mem_map_of_mem hturn) hwritten)

/-- What a group shows is what it would show alone. -/
theorem sketch_alone (h : segments[index]? = some segment) (target : Target α) (now : α)
    (signal given : Option Nat) (times : List α) :
    ((start segments target now signal).history times).map (Turn.sketch index) =
      ((start [segment] target now given).history times).map (Turn.sketch 0) := by
  have hnone : ∀ (turn : Turn α) (group : Nat), turn.Spares (fun _ => False) group :=
    fun _ _ _ _ _ hkeep => hkeep.elim
  have hstart : Turn.AgreesOn (fun _ => False) index 0 (start segments target now signal)
      (start [segment] target now given) :=
    start_agreesOn h rfl (fun _ hkeep => hkeep.elim) now signal given (hnone _ _) (hnone _ _)
  exact (hstart.history times (fun turn _ => hnone turn index) fun turn _ => hnone turn 0).1

theorem events_alone (h : segments[index]? = some segment) (target : Target α) (now : α)
    (signal given : Option Nat) (times : List α) :
    ((start segments target now signal).history times).map (fun turn =>
        (GroupBeat.events turn.beats).filter fun event => event.group == index) =
      ((start [segment] target now given).history times).map fun turn =>
        (GroupBeat.events turn.beats).map fun event => ⟨index, event.kind⟩ := by
  have hsketch := congrArg
    (List.map fun shown => (shown.filterMap Sum.getLeft?).map (GroupEvent.mk index))
    (sketch_alone h target now signal given times)
  rw [List.map_map, List.map_map] at hsketch
  calc
    _ = ((start segments target now signal).history times).map fun turn =>
          ((turn.sketch index).filterMap Sum.getLeft?).map (GroupEvent.mk index) := by
      apply List.map_congr_left
      intro turn _
      rw [GroupBeat.events_filter_group, Turn.events_ofGroup_eq]
    _ = _ := hsketch
    _ = _ := by
      apply List.map_congr_left
      intro turn hmem
      rw [alone_events hmem, Turn.events_ofGroup_eq, List.map_map]
      rfl

theorem spares_of_alone
    (others : ∀ place other, place ≠ index → segments[place]? = some other →
      channel ∉ (start [other] target now given).written times) (signal : Option Nat) :
    ∀ turn ∈ (start segments target now signal).history times,
      turn.Spares (· = channel) index := by
  rintro turn hmem group hne _ rfl
  cases hother : segments[group]? with
  | none =>
      rw [GroupBeat.written,
        ofGroup_eq_nil_of_length_le hmem (List.getElem?_eq_none_iff.mp hother)]
      exact List.not_mem_nil
  | some other =>
      have hsketch : turn.sketch group ∈
          ((start [other] target now given).history times).map (Turn.sketch 0) := by
        rw [← sketch_alone hother target now signal given times]
        exact List.mem_map_of_mem hmem
      obtain ⟨alone, halone, heq⟩ := List.mem_map.mp hsketch
      have hnot := notMem_written_of_alone halone (others group other hne hother) 0
      rwa [Turn.written_eq, heq, ← Turn.written_eq] at hnot

theorem get_last_alone (h : segments[index]? = some segment)
    (others : ∀ place other, place ≠ index → segments[place]? = some other →
      channel ∉ (start [other] target now given).written times) (signal : Option Nat) :
    ((start segments target now signal).last times).target.get channel =
      ((start [segment] target now given).last times).target.get channel := by
  have hspares := spares_of_alone others signal
  have halone := alone_spares (· = channel) segment target now given times
  rw [Turn.history, List.forall_mem_cons] at hspares halone
  have hstart : Turn.AgreesOn (· = channel) index 0 (start segments target now signal)
      (start [segment] target now given) :=
    start_agreesOn h rfl (fun _ _ => rfl) now signal given hspares.1 halone.1
  exact (hstart.history times hspares.2 halone.2).2.target channel rfl

theorem start_target (segments : List (Segment α)) (target : Target α) (now : α)
    (signal : Option Nat) :
    (start segments target now signal).target =
      target.writeAll (GroupBeat.writes (start segments target now signal).beats) :=
  startFrom_target ..

theorem get_last_of_notMem_written
    (h : channel ∉ (start segments target now signal).written times) :
    ((start segments target now signal).last times).target.get channel =
      target.get channel := by
  rw [Turn.written, Turn.history, List.flatMap_cons, List.mem_append, not_or] at h
  rw [Turn.get_last_of_notMem, start_target, Target.get_writeAll_of_notMem h.1]
  intro found hmem hwritten
  exact h.2 (List.mem_flatMap.mpr ⟨found, hmem, hwritten⟩)

theorem last_start_measures :
    ((start segments target now signal).last times).target.measures = target.measures := by
  rw [Turn.last_measures, start_target, Target.measures_writeAll]

end Alone

/-! ## A notation with brackets -/

def Apart (alone : String → Turn α) (texts : List String) (times : List α) : Prop :=
  texts.Pairwise fun one other =>
    ((alone one).written times).Disjoint ((alone other).written times)

theorem Apart.of_subset {alone : String → Turn α} {texts : List String} {times : List α}
    {reach : String → List Channel}
    (within : ∀ text ∈ texts, (alone text).written times ⊆ reach text)
    (disjoint : texts.Pairwise fun one other => (reach one).Disjoint (reach other)) :
    Apart alone texts times := by
  refine disjoint.imp_of_mem fun hone hother h channel hchannel hwritten => ?_
  exact h (within _ hone hchannel) (within _ hother hwritten)

omit [Scalar α] [Eases α] in
theorem disjoint_of_getElem? {written : String → List Channel} {texts : List String}
    (h : texts.Pairwise fun one other => (written one).Disjoint (written other))
    {index place : Nat} (hne : place ≠ index) {text other : String}
    (htext : texts[index]? = some text) (hother : texts[place]? = some other) :
    (written text).Disjoint (written other) := by
  obtain ⟨hindex, rfl⟩ := List.getElem?_eq_some_iff.mp htext
  obtain ⟨hplace, rfl⟩ := List.getElem?_eq_some_iff.mp hother
  rw [List.pairwise_iff_getElem] at h
  rcases Nat.lt_or_gt_of_ne hne with hlt | hlt
  · exact List.disjoint_symm (h place index hplace hindex hlt)
  · exact h index place hindex hplace hlt

structure SideBySide (target : Target α) (texts : List String) (alone : String → Turn α)
    (turn : Turn α) : Prop where
  events : ∀ index text, texts[index]? = some text → ∀ times,
    (turn.history times).map (fun found =>
        (GroupBeat.events found.beats).filter fun event => event.group == index) =
      ((alone text).history times).map fun found =>
        (GroupBeat.events found.beats).map fun event => ⟨index, event.kind⟩
  groups : ∀ times, ∀ found ∈ turn.history times, ∀ event ∈ GroupBeat.events found.beats,
    event.group < texts.length
  values : ∀ times, Apart alone texts times → ∀ earlier, earlier <+: times →
    ∀ text ∈ texts, ∀ channel ∈ (alone text).written times,
      (turn.last earlier).target.get channel = ((alone text).last earlier).target.get channel
  others : ∀ times earlier, earlier <+: times →
    ∀ channel, (∀ text ∈ texts, channel ∉ (alone text).written times) →
      (turn.last earlier).target.get channel = target.get channel
  measures : ∀ times, (turn.last times).target.measures = target.measures

theorem SideBySide.target_eq {target : Target α} {texts others : List String}
    {alone : String → Turn α} {turn permuted : Turn α}
    (h : SideBySide target texts alone turn) (hpermuted : SideBySide target others alone permuted)
    (hperm : others.Perm texts) {times earlier : List α} (apart : Apart alone texts times)
    (hearly : earlier <+: times) :
    (permuted.last earlier).target = (turn.last earlier).target := by
  have apartOthers : Apart alone others times := hperm.symm.pairwise apart List.disjoint_symm
  apply Target.eq_of_get
  · intro channel
    by_cases hwritten : ∃ text ∈ texts, channel ∈ (alone text).written times
    · obtain ⟨text, htext, hchannel⟩ := hwritten
      rw [h.values times apart earlier hearly text htext channel hchannel,
        hpermuted.values times apartOthers earlier hearly text (hperm.mem_iff.mpr htext) channel
          hchannel]
    · have hnone : ∀ text ∈ texts, channel ∉ (alone text).written times :=
        fun text htext hchannel => hwritten ⟨text, htext, hchannel⟩
      rw [h.others times earlier hearly channel hnone,
        hpermuted.others times earlier hearly channel
          fun text htext => hnone text (hperm.mem_iff.mp htext)]
  · rw [h.measures, hpermuted.measures]

theorem start_sideBySide (found : String → Segment α) {texts : List String} (hne : texts ≠ [])
    (target : Target α) (now : α) (signal given : Option Nat) :
    SideBySide target texts (fun text => start [found text] target now given)
      (start (texts.map found) target now signal) := by
  have hsegment : ∀ {index : Nat} {text : String}, texts[index]? = some text →
      (texts.map found)[index]? = some (found text) := by
    intro index text h
    rw [List.getElem?_map, h]
    rfl
  constructor
  case events =>
    intro index text h times
    exact events_alone (hsegment h) target now signal given times
  case groups =>
    intro times turn hturn event hevent
    obtain ⟨entry, hentry, hgroup⟩ := GroupBeat.group_of_mem_events hevent
    rw [← hgroup]
    simpa using (start_groups times turn hturn).2 entry hentry
  case values =>
    intro times apart earlier hearly text htext channel hchannel
    obtain ⟨index, hindex⟩ := List.mem_iff_getElem?.mp htext
    refine get_last_alone (hsegment hindex) ?_ signal
    intro place other hplace hother hwritten
    rw [List.getElem?_map, Option.map_eq_some_iff] at hother
    obtain ⟨name, hname, rfl⟩ := hother
    exact disjoint_of_getElem? apart hplace hindex hname hchannel
      (Turn.written_subset_of_prefix _ hearly hwritten)
  case others =>
    intro times earlier hearly channel hnone
    obtain ⟨text, rest, rfl⟩ := List.exists_cons_of_ne_nil hne
    have hunwritten : ∀ other ∈ text :: rest,
        channel ∉ (start [found other] target now given).written earlier :=
      fun other hother hwritten =>
        hnone other hother (Turn.written_subset_of_prefix _ hearly hwritten)
    have hothers : ∀ place other, place ≠ 0 →
        ((text :: rest).map found)[place]? = some other →
        channel ∉ (start [other] target now given).written earlier := by
      intro place other _ hother
      rw [List.getElem?_map, Option.map_eq_some_iff] at hother
      obtain ⟨name, hname, rfl⟩ := hother
      exact hunwritten name (List.mem_of_getElem? hname)
    have hfirst : ((text :: rest).map found)[0]? = some (found text) := rfl
    rw [get_last_alone hfirst hothers signal,
      get_last_of_notMem_written (hunwritten text List.mem_cons_self)]
  case measures => exact fun times => last_start_measures

/-- Texts in brackets run side by side, and where they write apart from each other
their order does not matter to the target. -/
theorem launch_bracket {config : Config α} {target : Target α} {texts : List String}
    (hne : texts ≠ []) (bare : ∀ text ∈ texts, Groups.Bare text) {grids : String → Grid α}
    (reads : ∀ text ∈ texts, Grid.read config target text = .ok (grids text)) (now : α)
    (signal given : Option Nat) :
    ∃ (turn : Turn α) (alone : String → Turn α),
      launch config target (Groups.bracket texts) now signal = .ok turn ∧
      (∀ text ∈ texts, launch config target text now given = .ok (alone text) ∧
        ∀ times, (alone text).written times ⊆ (grids text).channels) ∧
      SideBySide target texts alone turn ∧
      ∀ others : List String, others.Perm texts → ∃ permuted,
        launch config target (Groups.bracket others) now signal = .ok permuted ∧
        ∀ times, Apart alone texts times → ∀ earlier, earlier <+: times →
          (permuted.last earlier).target = (turn.last earlier).target := by
  obtain ⟨found, hfound⟩ : ∃ found : String → Segment α,
      ∀ text, found text = ⟨grids text, Plan.ofGrid config (grids text)⟩ := ⟨_, fun _ => rfl⟩
  have hread : ∀ text ∈ texts, Segment.read config target text = .ok (found text) := by
    intro text hmem
    rw [Segment.read, reads text hmem, hfound]
  have hothers : ∀ others : List String, others.Perm texts → others ≠ [] :=
    fun others hperm h => hne (List.nil_perm.mp (h ▸ hperm))
  have hlaunch : ∀ others : List String, others.Perm texts →
      launch config target (Groups.bracket others) now signal =
        .ok (start (others.map found) target now signal) := by
    intro others hperm
    rw [launch, Segment.readAll_bracket (hothers others hperm)
      (fun text hmem => bare text (hperm.mem_iff.mp hmem))
      (fun text hmem => hread text (hperm.mem_iff.mp hmem))]
  have htogether := start_sideBySide found hne target now signal given
  refine ⟨_, fun text => start [found text] target now given, hlaunch texts (.refl texts), ?_,
    htogether, ?_⟩
  · intro text hmem
    refine ⟨?_, fun times channel hchannel => ?_⟩
    · rw [launch, Segment.readAll_of_bare (bare text hmem) (hread text hmem)]
    · have hreach := written_alone_subset hchannel
      rwa [hfound] at hreach
  · intro others hperm
    refine ⟨_, hlaunch others hperm, fun times apart earlier hearly => ?_⟩
    have hpermuted := start_sideBySide found (hothers others hperm) target now signal given
    exact htogether.target_eq hpermuted hperm apart hearly

theorem launch_bracket_of_two_texts :
    let texts := ["x5d1l2", "!f0|r90"]
    let grids : String → Grid Float := fun text =>
      match Grid.read Config.standard Target.standard text with
      | .ok grid => grid
      | .error _ => .empty 0 0
    texts ≠ [] ∧ (∀ text ∈ texts, Groups.Bare text) ∧
      (∀ text ∈ texts, Grid.read Config.standard Target.standard text = .ok (grids text)) ∧
      ∃ (turn : Turn Float) (alone : String → Turn Float),
        launch Config.standard Target.standard "[x5d1l2][!f0|r90]" 0 (some 7) = .ok turn ∧
        (∀ text ∈ texts, launch Config.standard Target.standard text 0 none = .ok (alone text) ∧
          ∀ times, (alone text).written times ⊆ (grids text).channels) ∧
        SideBySide Target.standard texts alone turn ∧
        (∀ times, Apart alone texts times) ∧
        ∃ permuted,
          launch Config.standard Target.standard "[!f0|r90][x5d1l2]" 0 (some 7) = .ok permuted ∧
          ∀ times, (permuted.last times).target = (turn.last times).target := by
  intro texts grids
  have hne : texts ≠ [] := by decide
  have bare : ∀ text ∈ texts, Groups.Bare text := by decide
  have reads : ∀ text ∈ texts,
      Grid.read Config.standard Target.standard text = .ok (grids text) := by
    intro text hmem
    rcases List.mem_pair.mp hmem with rfl | rfl <;> rfl
  obtain ⟨turn, alone, hturn, halone, htogether, hothers⟩ :=
    launch_bracket hne bare reads 0 (some 7) none
  have apart : ∀ times, Apart alone texts times := by
    intro times
    have hmoves : (grids "x5d1l2").channels = [.translation .x] := rfl
    have hfades : (grids "!f0|r90").channels = [.alpha, .rotation .z] := rfl
    refine .of_subset (fun text hmem => (halone text hmem).2 times) ?_
    rw [List.pairwise_pair, hmoves, hfades]
    simp
  obtain ⟨permuted, hpermuted, htarget⟩ := hothers ["!f0|r90", "x5d1l2"] (.swap ..)
  exact ⟨hne, bare, reads, turn, alone, hturn, halone, htogether, apart, permuted, hpermuted,
    fun times => htarget times (apart times) times (List.prefix_refl times)⟩

end Animation

end MotionNotation
