import Mathlib.Data.List.Forall2
import MotionNotation.Proofs.Playback.ExtraFrame

/-!
# Rearranged pipes

The actions of a pipe may change places as long as every channel, the durations
and the loop operators keep their order, and its pipes may be given other
numbers.  The target of such a pipe goes through the same states, and its events
are the same up to the numbers.
-/

namespace MotionNotation

variable {α : Type}

/-! ## Lanes -/

namespace Operator

/-- What an operator has a say in: operators of two lanes never meet. -/
inductive Lane where
  | channel (channel : Channel)
  | duration
  | loop
  deriving DecidableEq, Repr

def Lane.all : List Lane :=
  .duration :: .loop :: Channel.all.map .channel

theorem Lane.mem_all (lane : Lane) : lane ∈ all := by
  cases lane with
  | channel channel => simp [all, Channel.mem_all]
  | duration => simp [all]
  | loop => simp [all]

def lane (operator : Operator) : Lane :=
  match operator.channel? with
  | some channel => .channel channel
  | none => if operator.isDuration then .duration else .loop

theorem lane_eq_channel_iff (operator : Operator) (channel : Channel) :
    operator.lane = .channel channel ↔ operator.channel? = some channel := by
  unfold lane
  cases operator.channel? with
  | some found => simp
  | none => cases operator.isDuration <;> simp

theorem lane_eq_duration_iff (operator : Operator) :
    operator.lane = .duration ↔ operator.isDuration = true := by
  cases operator with
  | move heading => cases heading <;> decide
  | _ => simp [lane, channel?, isDuration]

theorem lane_eq_loop_of_loopMode? {operator : Operator} {mode : LoopMode}
    (h : operator.loopMode? = some mode) : operator.lane = .loop := by
  cases operator with
  | loop _ => rfl
  | _ => cases h

end Operator

namespace Action

def lane (action : Action α) : Operator.Lane :=
  action.operator.lane

structure Reordered (first second : List (Action α)) : Prop where
  perm : first.Perm second
  order : ∀ lane, first.filter (·.lane == lane) = second.filter (·.lane == lane)

namespace Reordered

instance [DecidableEq α] (first second : List (Action α)) : Decidable (Reordered first second) :=
  decidable_of_iff
    (first.Perm second ∧ ∀ lane ∈ Operator.Lane.all,
      first.filter (·.lane == lane) = second.filter (·.lane == lane))
    ⟨fun h => ⟨h.1, fun lane => h.2 lane lane.mem_all⟩,
      fun h => ⟨h.perm, fun lane _ => h.order lane⟩⟩

theorem refl (actions : List (Action α)) : Reordered actions actions :=
  ⟨.refl _, fun _ => rfl⟩

theorem filterMap_eq {first second : List (Action α)} (h : Reordered first second) {β : Type}
    (lane : Operator.Lane) {read : Action α → Option β}
    (own : ∀ action result, read action = some result → action.lane = lane) :
    first.filterMap read = second.filterMap read := by
  have hown : ∀ actions : List (Action α), actions.filterMap read =
      (actions.filter (·.lane == lane)).filterMap read := by
    intro actions
    rw [List.filterMap_filter]
    apply List.filterMap_congr
    intro action _
    cases hread : read action with
    | none => simp
    | some result => simp [own action result hread]
  rw [hown first, hown second, h.order]

end Reordered

end Action

/-! ## Plans -/

namespace PipePlan

variable [Scalar α]

theorem ofActions_reordered (config : Config α) (index : Nat) {first second : List (Action α)}
    (h : Action.Reordered first second) :
    ofActions config index first = ofActions config index second := by
  have hdurations : durationRequests first = durationRequests second := by
    have horder : first.filter (·.operator.isDuration) = second.filter (·.operator.isDuration) := by
      simpa only [Action.lane, beq_eq_decide, Operator.lane_eq_duration_iff,
        Bool.decide_eq_true] using h.order .duration
    rw [durationRequests, durationRequests, horder]
  have hloops : loopRequests first = loopRequests second := by
    apply h.filterMap_eq .loop
    intro action request hrequest
    obtain ⟨mode, hmode, -⟩ := Option.map_eq_some_iff.mp hrequest
    exact Operator.lane_eq_loop_of_loopMode? hmode
  rw [ofActions, ofActions, hdurations, hloops]

end PipePlan

namespace Grid

def Reordered (first second : Grid α) : Prop :=
  List.Forall₂ Action.Reordered first.pipes second.pipes

instance [DecidableEq α] (first second : Grid α) : Decidable (first.Reordered second) :=
  decidable_of_iff
    (first.pipes.length = second.pipes.length ∧
      ∀ entry ∈ first.pipes.zip second.pipes, Action.Reordered entry.1 entry.2)
    (by rw [Reordered, List.forall₂_iff_zip, Prod.forall])

theorem Reordered.activePipes {first second : Grid α} (h : first.Reordered second) :
    List.Forall₂ (fun one other => one.1 = other.1 ∧ Action.Reordered one.2 other.2)
      first.activePipes second.activePipes := by
  have hpipes : ∀ (one other : List (List (Action α))) (place : Nat),
      List.Forall₂ Action.Reordered one other →
      List.Forall₂ (fun one other => one.1 = other.1 ∧ Action.Reordered one.2 other.2)
        (((one.zipIdx place).filter fun entry => !entry.1.isEmpty).map fun entry =>
          (entry.2, entry.1))
        (((other.zipIdx place).filter fun entry => !entry.1.isEmpty).map fun entry =>
          (entry.2, entry.1)) := by
    intro one other place hone
    induction hone generalizing place with
    | nil => exact .nil
    | cons hpipe _ ih =>
        simp only [List.zipIdx_cons, List.filter_cons, hpipe.perm.isEmpty_eq]
        split
        · exact .cons ⟨rfl, hpipe⟩ (ih (place + 1))
        · exact ih (place + 1)
  exact hpipes first.pipes second.pipes 0 h

theorem Reordered.pipe {first second : Grid α} (h : first.Reordered second) (index : Nat) :
    Action.Reordered (first.pipe index) (second.pipe index) := by
  rw [Grid.pipe, Grid.pipe]
  cases hone : first.pipes[index]? with
  | none =>
      have hother : second.pipes[index]? = none := by
        rw [List.getElem?_eq_none_iff] at hone ⊢
        exact List.Forall₂.length_eq h ▸ hone
      rw [hother]
      exact .refl []
  | some actions =>
      obtain ⟨hlt, hactions⟩ := List.getElem?_eq_some_iff.mp hone
      have hlength := List.Forall₂.length_eq h
      rw [List.getElem?_eq_getElem (hlength ▸ hlt), ← hactions]
      exact List.Forall₂.get h hlt (hlength ▸ hlt)

end Grid

/-! ## Writes -/

namespace Target

theorem get_writeAll (target : Target α) (writes : List (Write α)) (channel : Channel) :
    (target.writeAll writes).get channel =
      ((writes.filter (·.channel == channel)).map Write.value).getLastD (target.get channel) := by
  induction writes generalizing target with
  | nil => rfl
  | cons write rest ih =>
      rw [writeAll_cons, ih, get_set, List.filter_cons]
      by_cases hchannel : channel = write.channel
      · rw [if_pos hchannel, if_pos (beq_iff_eq.mpr hchannel.symm), List.map_cons,
          List.getLastD_cons]
      · rw [if_neg hchannel, if_neg (by simpa using Ne.symm hchannel)]

theorem writeAll_congr {first second : List (Write α)}
    (order : ∀ channel, first.filter (·.channel == channel) =
      second.filter (·.channel == channel)) (target : Target α) :
    target.writeAll first = target.writeAll second := by
  apply eq_of_get
  · intro channel
    rw [get_writeAll, get_writeAll, order]
  · rw [measures_writeAll, measures_writeAll]

end Target

namespace Action.Reordered

variable [Scalar α]

theorem rebase {first second : List (Action α)} (h : Reordered first second)
    (target : Target α) :
    Reordered (first.map (·.rebase target)) (second.map (·.rebase target)) := by
  refine ⟨h.perm.map _, fun lane => ?_⟩
  have hlane : ∀ actions : List (Action α),
      (actions.map (·.rebase target)).filter (·.lane == lane) =
        (actions.filter (·.lane == lane)).map (·.rebase target) := by
    intro actions
    rw [List.filter_map]
    rfl
  rw [hlane, hlane, h.order]

theorem writeAll_writes [Eases α] {first second : List (Action α)} (h : Reordered first second)
    (target : Target α) (progress : α) :
    target.writeAll (writes first progress) = target.writeAll (writes second progress) := by
  apply Target.writeAll_congr
  intro channel
  rw [writes, writes, List.filter_filterMap, List.filter_filterMap]
  apply h.filterMap_eq (.channel channel)
  intro action result hresult
  obtain ⟨hwrite, hchannel⟩ := Option.filter_eq_some_iff.mp hresult
  obtain ⟨written, hwritten, rfl⟩ := Option.map_eq_some_iff.mp hwrite
  rw [Action.lane, Operator.lane_eq_channel_iff, hwritten, ← beq_iff_eq.mp hchannel]

end Action.Reordered

/-! ## Other numbers -/

def PipePlan.renumber (rename : Nat → Nat) (plan : PipePlan α) : PipePlan α :=
  { plan with index := rename plan.index }

namespace GroupEvent

def Kind.renumber (rename : Nat → Nat) : Kind α → Kind α
  | .pipeStarted pipe duration => .pipeStarted (rename pipe) duration
  | .pipeLooped pipe => .pipeLooped (rename pipe)
  | .pipeCompleted pipe => .pipeCompleted (rename pipe)
  | .groupCompleted => .groupCompleted

def renumber (rename : Nat → Nat) (event : GroupEvent α) : GroupEvent α :=
  { event with kind := event.kind.renumber rename }

theorem renumber_id (event : GroupEvent α) : event.renumber id = event := by
  obtain ⟨group, kind⟩ := event
  cases kind <;> rfl

end GroupEvent

variable {rename : Nat → Nat}

structure Step.Mirrors (rename : Nat → Nat) (first second : Step α) : Prop where
  plan : second.plan = first.plan.renumber rename
  actions : Action.Reordered first.actions second.actions

namespace Step.Mirrors

variable [Scalar α] {first second : Step α}

theorem rebase (h : first.Mirrors rename second) (target : Target α) :
    (first.rebase target).Mirrors rename (second.rebase target) :=
  ⟨h.plan, h.actions.rebase target⟩

theorem writeAll [Eases α] (h : first.Mirrors rename second) (target : Target α) (progress : α) :
    target.writeAll (second.writes progress) = target.writeAll (first.writes progress) :=
  (h.actions.writeAll_writes target progress).symm

theorem arm (h : first.Mirrors rename second) (now : α) : second.arm now = first.arm now := by
  rw [Step.arm, Step.arm, h.plan]
  rfl

omit [Scalar α] in
theorem isRelative (h : first.Mirrors rename second) :
    second.plan.isRelative = first.plan.isRelative := by
  rw [h.plan]
  rfl

end Step.Mirrors

namespace Track

inductive Phase.Mirrors (rename : Nat → Nat) : Phase α → Phase α → Prop
  | vacant : Mirrors rename .vacant .vacant
  | playing {first second : Step α} (step : first.Mirrors rename second) (timer : Timer α)
      {upcoming others : List (Step α)}
      (later : List.Forall₂ (Step.Mirrors rename) upcoming others) :
      Mirrors rename (.playing first timer upcoming) (.playing second timer others)
  | finished : Mirrors rename .finished .finished

structure Turn.Mirrors (rename : Nat → Nat) (first second : Turn α) : Prop where
  phase : first.track.phase.Mirrors rename second.track.phase
  target : second.target = first.target
  events : Beat.events second.beats = (Beat.events first.beats).map (.renumber rename)

structure Stride.Mirrors (rename : Nat → Nat) (first second : Stride α) : Prop where
  step : first.step.Mirrors rename second.step
  timer : second.timer = first.timer
  target : second.target = first.target
  events : Beat.events second.beats = (Beat.events first.beats).map (.renumber rename)
  passed : second.passed = first.passed

theorem Phase.Mirrors.isFinished {first second : Track α}
    (h : first.phase.Mirrors rename second.phase) : second.isFinished = first.isFinished := by
  obtain ⟨phase, signal⟩ := first
  obtain ⟨other, given⟩ := second
  cases h <;> rfl

theorem Turn.Mirrors.after {first second : Turn α} (h : first.Mirrors rename second)
    {one other : List (Beat α)}
    (events : Beat.events other = (Beat.events one).map (.renumber rename)) :
    (first.after one).Mirrors rename (second.after other) := by
  refine ⟨h.phase, h.target, ?_⟩
  rw [after_beats, after_beats, Beat.events_append, Beat.events_append, events, h.events,
    List.map_append]

theorem Stride.Mirrors.stay {first second : Stride α} (h : first.Mirrors rename second)
    {upcoming others : List (Step α)}
    (later : List.Forall₂ (Step.Mirrors rename) upcoming others) (signal given : Option Nat) :
    (first.stay upcoming signal).Mirrors rename (second.stay others given) := by
  refine ⟨?_, h.target, h.events⟩
  simp only [Stride.stay, h.timer]
  exact .playing h.step first.timer later

theorem finish_mirrors (target : Target α) (signal given : Option Nat) :
    (finish signal target).Mirrors rename (finish given target) := by
  refine ⟨.finished, rfl, ?_⟩
  simp [finish, GroupEvent.Kind.renumber]

variable [Scalar α] [Eases α]

/-! ## One step -/

section Steps

variable {first second : Step α} (step : first.Mirrors rename second)

include step

theorem enter_mirrors (target : Target α) :
    (enter first target).1.Mirrors rename (enter second target).1 ∧
      (enter second target).2.1 = (enter first target).2.1 ∧
      Beat.events (enter second target).2.2 =
        (Beat.events (enter first target).2.2).map (.renumber rename) := by
  have hbased := step.rebase target
  refine ⟨hbased, hbased.writeAll target 0, ?_⟩
  simp [enter, Beat.events_append, step.plan]
  rfl

theorem loop_mirrors (timer : Timer α) (target : Target α) :
    (loop first timer target).Mirrors rename (loop second timer target) := by
  have harrived := step.writeAll target 1
  have hbased : (if first.plan.isRelative then
        first.rebase (target.writeAll (first.writes 1)) else first).Mirrors rename
      (if second.plan.isRelative then
        second.rebase (target.writeAll (second.writes 1)) else second) := by
    rw [harrived, step.isRelative]
    split
    · exact step.rebase _
    · exact step
  refine ⟨hbased, rfl, ?_, ?_, rfl⟩
  · simp only [loop]
    rw [hbased.writeAll, harrived]
  · simp only [loop, Beat.events_append, Beat.events_map_wrote, step.plan]
    rfl

theorem pass_mirrors (timer : Timer α) (target : Target α) :
    (pass first timer target).Mirrors rename (pass second timer target) := by
  refine ⟨step, rfl, step.writeAll target 1, ?_, rfl⟩
  simp only [pass, Beat.events_append, Beat.events_map_wrote, step.plan]
  rfl

theorem stride_mirrors (timer : Timer α) (target : Target α) (now : α) :
    (stride first timer target now).Mirrors rename (stride second timer target now) := by
  unfold stride
  cases timer.advance now with
  | mk tick next =>
      cases tick with
      | progress progress =>
          refine ⟨step, rfl, step.writeAll target progress, ?_, rfl⟩
          have hquiet : ∀ (plan : PipePlan α) (writes : List (Write α)),
              Beat.events (.progressed plan.index progress :: writes.map .wrote) = [] :=
            fun _ writes => Beat.events_map_wrote writes
          rw [hquiet, hquiet, List.map_nil]
      | looped => exact loop_mirrors step next target
      | completed => exact pass_mirrors step next target
      | idle => exact pass_mirrors step next target

end Steps

/-! ## One turn -/

theorem play_mirrors {first second : Step α} (step : first.Mirrors rename second)
    (timer : Timer α) (target : Target α) (now : α) {upcoming others : List (Step α)}
    (later : List.Forall₂ (Step.Mirrors rename) upcoming others) (signal given : Option Nat) :
    (play signal first timer target now upcoming).Mirrors rename
      (play given second timer target now others) := by
  induction later generalizing first second timer target with
  | nil =>
      have hstride := stride_mirrors step timer target now
      simp only [play, hstride.passed, hstride.target]
      split
      · exact (finish_mirrors _ signal given).after hstride.events
      · exact hstride.stay .nil signal given
  | cons hnext hrest ih =>
      have hstride := stride_mirrors step timer target now
      simp only [play, hstride.passed, hstride.target]
      split
      · obtain ⟨hentered, htarget, hevents⟩ :=
          enter_mirrors hnext (stride first timer target now).target
        rw [hentered.arm now, htarget]
        refine (ih hentered _ _).after ?_
        rw [Beat.events_append, Beat.events_append, hstride.events, hevents, List.map_append]
      · exact hstride.stay (.cons hnext hrest) signal given

theorem update_mirrors {first second : Track α}
    (h : first.phase.Mirrors rename second.phase) (target : Target α) (now : α) :
    (first.update target now).Mirrors rename (second.update target now) := by
  obtain ⟨phase, signal⟩ := first
  obtain ⟨other, given⟩ := second
  cases h with
  | vacant => exact finish_mirrors target signal given
  | playing step timer later => exact play_mirrors step timer target now later signal given
  | finished => exact ⟨.finished, rfl, rfl⟩

theorem start_mirrors {steps others : List (Step α)}
    (h : List.Forall₂ (Step.Mirrors rename) steps others) (signal given : Option Nat)
    (target : Target α) (now : α) :
    (start steps signal target now).Mirrors rename (start others given target now) := by
  cases h with
  | nil => exact ⟨.vacant, rfl, rfl⟩
  | cons hfirst hrest =>
      obtain ⟨hentered, htarget, hevents⟩ := enter_mirrors hfirst target
      refine ⟨?_, htarget, hevents⟩
      simp only [start, hentered.arm now]
      exact .playing hentered _ hrest

end Track

namespace Animation

/-! ## All groups -/

structure Turn.Mirrors (rename : Nat → Nat) (first second : Turn α) : Prop where
  tracks : List.Forall₂ (fun one other : Track α => one.phase.Mirrors rename other.phase)
    first.animation.tracks second.animation.tracks
  target : second.target = first.target
  events : GroupBeat.events second.beats =
    (GroupBeat.events first.beats).map (.renumber rename)

namespace Turn

theorem Mirrors.cons {first second : Turn α} (h : first.Mirrors rename second) (group : Nat)
    {one other : Track.Turn α} (track : one.Mirrors rename other) :
    (first.cons group one).Mirrors rename (second.cons group other) := by
  refine ⟨.cons track.phase h.tracks, h.target, ?_⟩
  simp only [cons_beats, GroupBeat.events_append, GroupBeat.events_map_mk, h.events, track.events,
    List.map_append, List.map_map]
  rfl

theorem Mirrors.status {first second : Turn α} (h : first.Mirrors rename second) :
    second.animation.status = first.animation.status := by
  have hall : ∀ {one other : List (Track α)},
      List.Forall₂ (fun one other : Track α => one.phase.Mirrors rename other.phase) one other →
      other.all Track.isFinished = one.all Track.isFinished := by
    intro one other htracks
    induction htracks with
    | nil => rfl
    | cons htrack _ ih => rw [List.all_cons, List.all_cons, ih, htrack.isFinished]
  rw [Animation.status, Animation.status, Animation.isFinished, Animation.isFinished,
    hall h.tracks]

end Turn

structure Shown (α : Type) where
  target : Target α
  events : List (GroupEvent α)
  status : Status
  deriving DecidableEq, Repr

namespace Shown

def renumber (rename : Nat → Nat) (shown : Shown α) : Shown α :=
  { shown with events := shown.events.map (.renumber rename) }

theorem renumber_id (shown : Shown α) : shown.renumber id = shown := by
  simp [renumber, funext GroupEvent.renumber_id]

end Shown

namespace Turn

def shown (turn : Turn α) : Shown α :=
  ⟨turn.target, GroupBeat.events turn.beats, turn.animation.status⟩

theorem Mirrors.shown {first second : Turn α} (h : first.Mirrors rename second) :
    second.shown = first.shown.renumber rename := by
  rw [Turn.shown, Turn.shown, h.target, h.events, h.status]
  rfl

end Turn

variable [Scalar α] [Eases α]

theorem startFrom_mirrors {segments others : List (Segment α)}
    (h : List.Forall₂ (fun segment other : Segment α =>
      List.Forall₂ (Step.Mirrors rename) segment.steps other.steps) segments others)
    (group : Nat) (signal : Option Nat) (target : Target α) (now : α) :
    (startFrom group signal target now segments).Mirrors rename
      (startFrom group signal target now others) := by
  induction h generalizing group signal target with
  | nil => exact ⟨.nil, rfl, rfl⟩
  | cons hsteps _ ih =>
      have hturn := Track.start_mirrors hsteps signal signal target now
      simp only [startFrom, hturn.target]
      exact (ih (group + 1) none _).cons group hturn

theorem updateFrom_mirrors {tracks others : List (Track α)}
    (h : List.Forall₂ (fun one other : Track α => one.phase.Mirrors rename other.phase)
      tracks others) (group : Nat) (target : Target α) (now : α) :
    (updateFrom group target now tracks).Mirrors rename
      (updateFrom group target now others) := by
  induction h generalizing group target with
  | nil => exact ⟨.nil, rfl, rfl⟩
  | cons htrack _ ih =>
      have hturn := Track.update_mirrors htrack target now
      simp only [updateFrom, hturn.target]
      exact (ih (group + 1) _).cons group hturn

namespace Turn

theorem Mirrors.next {first second : Turn α} (h : first.Mirrors rename second) (now : α) :
    (first.next now).Mirrors rename (second.next now) := by
  rw [Turn.next, Turn.next, h.target]
  exact updateFrom_mirrors h.tracks 0 first.target now

theorem Mirrors.history {first second : Turn α} (h : first.Mirrors rename second)
    (times : List α) :
    (second.history times).map Turn.shown =
      (first.history times).map fun turn => turn.shown.renumber rename := by
  have hupdates : (second.updates times).map Turn.shown =
      (first.updates times).map fun turn => turn.shown.renumber rename := by
    induction times generalizing first second with
    | nil => rfl
    | cons time rest ih =>
        have hnext := h.next time
        rw [updates, updates, List.map_cons, List.map_cons, hnext.shown, ih hnext]
  rw [Turn.history, Turn.history, List.map_cons, List.map_cons, h.shown, hupdates]

end Turn

end Animation

/-! ## Other orders -/

namespace Grid

variable [Scalar α]

def planned (config : Config α) (grid : Grid α) : Segment α :=
  ⟨grid, Plan.ofGrid config grid⟩

theorem Reordered.ofGrid {first second : Grid α} (h : first.Reordered second)
    (config : Config α) : Plan.ofGrid config first = Plan.ofGrid config second := by
  have hpipes : ∀ {one other : List (Nat × List (Action α))},
      List.Forall₂ (fun one other => one.1 = other.1 ∧ Action.Reordered one.2 other.2) one other →
      (one.map fun entry => PipePlan.ofActions config entry.1 entry.2) =
        other.map fun entry => PipePlan.ofActions config entry.1 entry.2 := by
    intro one other hone
    induction hone with
    | nil => rfl
    | cons hentry _ ih =>
        rw [List.map_cons, List.map_cons, ih, hentry.1,
          PipePlan.ofActions_reordered config _ hentry.2]
  rw [Plan.ofGrid, Plan.ofGrid, hpipes h.activePipes]

theorem Reordered.steps {first second : Grid α} (h : first.Reordered second)
    (config : Config α) :
    List.Forall₂ (Step.Mirrors id) (first.planned config).steps (second.planned config).steps := by
  rw [Segment.steps, Segment.steps, planned, planned, ← h.ofGrid config]
  simp only [List.forall₂_map_left_iff, List.forall₂_map_right_iff]
  exact List.forall₂_same.mpr fun plan _ => ⟨rfl, h.pipe plan.index⟩

end Grid

namespace Animation

variable [Scalar α] [Eases α]

/-- Within a pipe only the order on each channel, the order of the durations and
the order of the loop operators matter. -/
theorem start_reordered (config : Config α) {first second : List (Grid α)}
    (h : List.Forall₂ Grid.Reordered first second) :
    first.map (Plan.ofGrid config) = second.map (Plan.ofGrid config) ∧
      ∀ (target : Target α) (now : α) (signal : Option Nat) (times : List α),
        ((start (second.map (·.planned config)) target now signal).history times).map
            Turn.shown =
          ((start (first.map (·.planned config)) target now signal).history times).map
            Turn.shown := by
  constructor
  · induction h with
    | nil => rfl
    | cons hgrid _ ih => rw [List.map_cons, List.map_cons, hgrid.ofGrid config, ih]
  · intro target now signal times
    have hsteps : List.Forall₂ (fun segment other : Segment α =>
        List.Forall₂ (Step.Mirrors id) segment.steps other.steps)
        (first.map (·.planned config)) (second.map (·.planned config)) := by
      simp only [List.forall₂_map_left_iff, List.forall₂_map_right_iff]
      exact h.imp fun _ _ hgrid => hgrid.steps config
    have hhistory := (startFrom_mirrors hsteps 0 signal target now).history times
    simp only [Shown.renumber_id] at hhistory
    exact hhistory

theorem start_reordered_of_two_orders :
    letI : Eases Rat := ⟨fun _ progress => progress⟩
    ∃ first second : Grid Rat,
      Grid.read Config.standard Target.standard "d2x4l3>2r90|D1f0" = .ok first ∧
      Grid.read Config.standard Target.standard "r90l3x4>2d2|f0D1" = .ok second ∧
      first ≠ second ∧ List.Forall₂ Grid.Reordered [first] [second] ∧
      ((start [second.planned Config.standard] Target.standard 0 none).history [1, 2, 9]).map
          Turn.shown =
        ((start [first.planned Config.standard] Target.standard 0 none).history [1, 2, 9]).map
          Turn.shown := by
  let : Eases Rat := ⟨fun _ progress => progress⟩
  let read (text : String) : Grid Rat :=
    (Grid.read Config.standard Target.standard text).toOption.getD (.empty 0 0)
  have hgrids : List.Forall₂ Grid.Reordered [read "d2x4l3>2r90|D1f0"]
      [read "r90l3x4>2d2|f0D1"] := .cons (by decide +kernel) .nil
  refine ⟨_, _, by decide +kernel, by decide +kernel, by decide +kernel, hgrids, ?_⟩
  exact (start_reordered Config.standard hgrids).2 Target.standard 0 none [1, 2, 9]

end Animation

end MotionNotation
