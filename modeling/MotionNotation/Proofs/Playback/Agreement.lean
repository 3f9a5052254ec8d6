import Mathlib.Data.List.Forall2
import MotionNotation.Proofs.Playback.Writes

/-!
# Two runs of one track

A track is run twice, on targets that have only some channels in common.  The
two runs are told apart by nothing but values: they have the same events and
write the same channels, and what they write to the common channels is the same.
With no channel in common this says that the events of a track do not depend on
its target at all.
-/

namespace MotionNotation

variable {α : Type}

namespace Beat

/-- What a beat shows when values are left out: an event, or the channel that is
written. -/
def sketch? : Beat α → Option (GroupEvent.Kind α ⊕ Channel)
  | .wrote write => some (.inr write.channel)
  | beat => beat.event?.map .inl

def sketch (beats : List (Beat α)) : List (GroupEvent.Kind α ⊕ Channel) :=
  beats.filterMap sketch?

@[simp] theorem sketch_append (first second : List (Beat α)) :
    sketch (first ++ second) = sketch first ++ sketch second :=
  List.filterMap_append

@[simp] theorem sketch_map_wrote (writes : List (Write α)) :
    sketch (writes.map wrote) = (writes.map Write.channel).map .inr := by
  induction writes with
  | nil => rfl
  | cons write rest ih => simpa [sketch, sketch?] using ih

theorem sketch_progressed (pipe : Nat) (progress : α) (beats : List (Beat α)) :
    sketch (.progressed pipe progress :: beats) = sketch beats := rfl

theorem filterMap_getLeft?_sketch (beats : List (Beat α)) :
    (sketch beats).filterMap Sum.getLeft? = Beat.events beats := by
  rw [sketch, List.filterMap_filterMap, Beat.events]
  apply List.filterMap_congr
  intro beat _
  cases beat <;> rfl

theorem filterMap_getRight?_sketch (beats : List (Beat α)) :
    (sketch beats).filterMap Sum.getRight? = (Beat.writes beats).map Write.channel := by
  rw [sketch, List.filterMap_filterMap, Beat.writes, List.map_filterMap]
  apply List.filterMap_congr
  intro beat _
  cases beat <;> rfl

end Beat

/-! ## What agrees on the channels that are kept -/

variable {keep : Channel → Prop}

def Target.AgreesOn (keep : Channel → Prop) (first second : Target α) : Prop :=
  ∀ channel, keep channel → first.get channel = second.get channel

structure Write.AgreesOn (keep : Channel → Prop) (first second : Write α) : Prop where
  channel : first.channel = second.channel
  value : keep first.channel → first.value = second.value

theorem Write.AgreesOn.map_channel {one other : List (Write α)}
    (h : List.Forall₂ (Write.AgreesOn keep) one other) :
    one.map Write.channel = other.map Write.channel := by
  induction h with
  | nil => rfl
  | cons hwrite _ ih => rw [List.map_cons, List.map_cons, hwrite.channel, ih]

theorem Target.AgreesOn.writeAll {first second : Target α} (h : first.AgreesOn keep second)
    {one other : List (Write α)} (writes : List.Forall₂ (Write.AgreesOn keep) one other) :
    (first.writeAll one).AgreesOn keep (second.writeAll other) := by
  induction writes generalizing first second with
  | nil => exact h
  | @cons write found _ _ hwrite _ ih =>
      refine ih fun channel hkeep => ?_
      rw [get_set, get_set, ← hwrite.channel]
      split
      · rename_i heq
        exact hwrite.value (heq ▸ hkeep)
      · exact h channel hkeep

variable [Scalar α]

theorem Operator.endpoints_congr {operator : Operator} {channel : Channel}
    (h : operator.channel? = some channel) {first second : Target α}
    (hget : first.get channel = second.get channel) (inverse : Bool) (value : α) :
    operator.endpoints inverse value first = operator.endpoints inverse value second := by
  cases operator with
  | position axis =>
      cases h
      rw [Target.get, Target.get] at hget
      simp only [endpoints, hget]
  | move heading =>
      cases heading <;> cases h <;> rw [Target.get, Target.get] at hget <;>
        simp only [endpoints, hget]
  | scale =>
      cases h
      rw [Target.get, Target.get] at hget
      simp only [endpoints, hget]
  | rotate axis =>
      cases h
      rw [Target.get, Target.get] at hget
      simp only [endpoints, hget]
  | fade =>
      cases h
      rw [Target.get, Target.get] at hget
      simp only [endpoints, hget]
  | duration => cases h
  | stagger => cases h
  | loop mode => cases h

omit [Scalar α] in
structure Action.AgreesOn (keep : Channel → Prop) (first second : Action α) : Prop where
  operator : first.operator = second.operator
  inverse : first.inverse = second.inverse
  value : first.value = second.value
  easing : first.easing = second.easing
  origin : ∀ channel, first.operator.channel? = some channel → keep channel →
    first.origin = second.origin
  goal : ∀ channel, first.operator.channel? = some channel → keep channel →
    first.goal = second.goal

namespace Action

omit [Scalar α] in
theorem AgreesOn.refl (action : Action α) : action.AgreesOn keep action :=
  ⟨rfl, rfl, rfl, rfl, fun _ _ _ => rfl, fun _ _ _ => rfl⟩

theorem AgreesOn.rebase {first second : Action α} (h : first.AgreesOn keep second)
    {one other : Target α} (target : one.AgreesOn keep other) :
    (first.rebase one).AgreesOn keep (second.rebase other) := by
  have hends : ∀ channel, first.operator.channel? = some channel → keep channel →
      first.operator.endpoints first.inverse first.value one =
        second.operator.endpoints second.inverse second.value other := by
    intro channel hchannel hkeep
    rw [← h.operator, ← h.inverse, ← h.value]
    exact Operator.endpoints_congr hchannel (target channel hkeep) _ _
  refine ⟨h.operator, h.inverse, h.value, h.easing, ?_, ?_⟩
  · intro channel hchannel hkeep
    exact congrArg Prod.fst (hends channel hchannel hkeep)
  · intro channel hchannel hkeep
    exact congrArg Prod.snd (hends channel hchannel hkeep)

variable [Eases α]

theorem AgreesOn.writes {first second : List (Action α)}
    (h : List.Forall₂ (AgreesOn keep) first second) (progress : α) :
    List.Forall₂ (Write.AgreesOn keep) (writes first progress) (writes second progress) := by
  induction h with
  | nil => exact .nil
  | @cons action found _ _ haction _ ih =>
      simp only [Action.writes, List.filterMap_cons, write?, ← haction.operator] at ih ⊢
      cases hchannel : action.operator.channel? with
      | none => exact ih
      | some channel =>
          refine .cons ⟨rfl, fun hkeep => ?_⟩ ih
          simp only [haction.easing, haction.origin channel hchannel hkeep,
            haction.goal channel hchannel hkeep]

end Action

omit [Scalar α] in
structure Step.AgreesOn (keep : Channel → Prop) (first second : Step α) : Prop where
  plan : first.plan = second.plan
  actions : List.Forall₂ (Action.AgreesOn keep) first.actions second.actions

namespace Step

omit [Scalar α] in
theorem AgreesOn.refl (step : Step α) : step.AgreesOn keep step :=
  ⟨rfl, List.forall₂_same.mpr fun action _ => .refl action⟩

theorem AgreesOn.rebase {first second : Step α} (h : first.AgreesOn keep second)
    {one other : Target α} (target : one.AgreesOn keep other) :
    (first.rebase one).AgreesOn keep (second.rebase other) := by
  refine ⟨h.plan, ?_⟩
  simp only [Step.rebase, List.forall₂_map_left_iff, List.forall₂_map_right_iff]
  exact h.actions.imp fun _ _ haction => haction.rebase target

theorem AgreesOn.writes [Eases α] {first second : Step α} (h : first.AgreesOn keep second)
    (progress : α) :
    List.Forall₂ (Write.AgreesOn keep) (first.writes progress) (second.writes progress) :=
  Action.AgreesOn.writes h.actions progress

theorem AgreesOn.arm {first second : Step α} (h : first.AgreesOn keep second) (now : α) :
    first.arm now = second.arm now := by
  rw [Step.arm, Step.arm, h.plan]

end Step

namespace Track

omit [Scalar α] in
inductive Phase.AgreesOn (keep : Channel → Prop) : Phase α → Phase α → Prop
  | vacant : AgreesOn keep .vacant .vacant
  | playing {first second : Step α} (step : first.AgreesOn keep second) (timer : Timer α)
      {one other : List (Step α)} (upcoming : List.Forall₂ (Step.AgreesOn keep) one other) :
      AgreesOn keep (.playing first timer one) (.playing second timer other)
  | finished : AgreesOn keep .finished .finished

omit [Scalar α] in
structure Turn.AgreesOn (keep : Channel → Prop) (first second : Turn α) : Prop where
  phase : first.track.phase.AgreesOn keep second.track.phase
  target : first.target.AgreesOn keep second.target
  beats : Beat.sketch first.beats = Beat.sketch second.beats

omit [Scalar α] in
structure Stride.AgreesOn (keep : Channel → Prop) (first second : Stride α) : Prop where
  step : first.step.AgreesOn keep second.step
  timer : first.timer = second.timer
  target : first.target.AgreesOn keep second.target
  beats : Beat.sketch first.beats = Beat.sketch second.beats
  passed : first.passed = second.passed

omit [Scalar α] in
theorem Turn.AgreesOn.after {first second : Turn α} (h : first.AgreesOn keep second)
    {one other : List (Beat α)} (beats : Beat.sketch one = Beat.sketch other) :
    (first.after one).AgreesOn keep (second.after other) := by
  refine ⟨h.phase, h.target, ?_⟩
  rw [after_beats, after_beats, Beat.sketch_append, Beat.sketch_append, beats, h.beats]

omit [Scalar α] in
theorem Stride.AgreesOn.stay {first second : Stride α} (h : first.AgreesOn keep second)
    {one other : List (Step α)} (upcoming : List.Forall₂ (Step.AgreesOn keep) one other)
    (signal given : Option Nat) :
    (first.stay one signal).AgreesOn keep (second.stay other given) := by
  refine ⟨?_, h.target, h.beats⟩
  simp only [Stride.stay, h.timer]
  exact .playing h.step second.timer upcoming

omit [Scalar α] in
theorem finish_agreesOn {first second : Target α} (h : first.AgreesOn keep second)
    (signal given : Option Nat) :
    (finish signal first).AgreesOn keep (finish given second) := by
  refine ⟨.finished, h, ?_⟩
  cases signal <;> cases given <;> rfl

variable [Eases α]

/-! ## One step -/

section Steps

variable {first second : Step α} (step : first.AgreesOn keep second) {one other : Target α}
  (target : one.AgreesOn keep other)

include step target

theorem enter_agreesOn :
    (enter first one).1.AgreesOn keep (enter second other).1 ∧
      (enter first one).2.1.AgreesOn keep (enter second other).2.1 ∧
      Beat.sketch (enter first one).2.2 = Beat.sketch (enter second other).2.2 := by
  have hbased := step.rebase target
  have hwrites := hbased.writes 0
  refine ⟨hbased, target.writeAll hwrites, ?_⟩
  simp only [enter, Beat.sketch_append, Beat.sketch_map_wrote, step.plan,
    Write.AgreesOn.map_channel hwrites]

theorem loop_agreesOn (timer : Timer α) :
    (loop first timer one).AgreesOn keep (loop second timer other) := by
  have hlast := step.writes 1
  have harrived := target.writeAll hlast
  have hbased : (if first.plan.isRelative then
        first.rebase (one.writeAll (first.writes 1)) else first).AgreesOn keep
      (if second.plan.isRelative then
        second.rebase (other.writeAll (second.writes 1)) else second) := by
    rw [← step.plan]
    split
    · exact step.rebase harrived
    · exact step
  have hfirst := hbased.writes 0
  refine ⟨hbased, rfl, harrived.writeAll hfirst, ?_, rfl⟩
  simp only [loop, Beat.sketch_append, Beat.sketch_map_wrote, List.map_append]
  rw [Write.AgreesOn.map_channel hlast, Write.AgreesOn.map_channel hfirst, step.plan]

theorem pass_agreesOn (timer : Timer α) :
    (pass first timer one).AgreesOn keep (pass second timer other) := by
  have hlast := step.writes 1
  refine ⟨step, rfl, target.writeAll hlast, ?_, rfl⟩
  simp only [pass, Beat.sketch_append, Beat.sketch_map_wrote, step.plan,
    Write.AgreesOn.map_channel hlast]

theorem stride_agreesOn (timer : Timer α) (now : α) :
    (stride first timer one now).AgreesOn keep (stride second timer other now) := by
  unfold stride
  cases timer.advance now with
  | mk tick next =>
      cases tick with
      | progress progress =>
          have hwrites := step.writes progress
          refine ⟨step, rfl, target.writeAll hwrites, ?_, rfl⟩
          simp only [Beat.sketch_progressed, Beat.sketch_map_wrote,
            Write.AgreesOn.map_channel hwrites]
      | looped => exact loop_agreesOn step target next
      | completed => exact pass_agreesOn step target next
      | idle => exact pass_agreesOn step target next

end Steps

/-! ## One turn -/

theorem play_agreesOn {first second : Step α} (step : first.AgreesOn keep second)
    (timer : Timer α) {one other : Target α} (target : one.AgreesOn keep other) (now : α)
    {upcoming found : List (Step α)} (steps : List.Forall₂ (Step.AgreesOn keep) upcoming found)
    (signal given : Option Nat) :
    (play signal first timer one now upcoming).AgreesOn keep
      (play given second timer other now found) := by
  induction steps generalizing first second timer one other with
  | nil =>
      have hstride := stride_agreesOn step target timer now
      simp only [play, hstride.passed]
      split
      · exact (finish_agreesOn hstride.target signal given).after hstride.beats
      · exact hstride.stay .nil signal given
  | cons hnext hrest ih =>
      have hstride := stride_agreesOn step target timer now
      simp only [play, hstride.passed]
      split
      · obtain ⟨hentered, htarget, hbeats⟩ := enter_agreesOn hnext hstride.target
        rw [hentered.arm now]
        refine (ih hentered _ htarget).after ?_
        rw [Beat.sketch_append, Beat.sketch_append, hstride.beats, hbeats]
      · exact hstride.stay (.cons hnext hrest) signal given

theorem update_agreesOn {first second : Track α}
    (h : first.phase.AgreesOn keep second.phase) {one other : Target α}
    (target : one.AgreesOn keep other) (now : α) :
    (first.update one now).AgreesOn keep (second.update other now) := by
  obtain ⟨phase, signal⟩ := first
  obtain ⟨found, given⟩ := second
  cases h with
  | vacant => exact finish_agreesOn target signal given
  | playing step timer upcoming => exact play_agreesOn step timer target now upcoming signal given
  | finished => exact ⟨.finished, target, rfl⟩

theorem start_agreesOn (steps : List (Step α)) (signal given : Option Nat) {one other : Target α}
    (target : one.AgreesOn keep other) (now : α) :
    (start steps signal one now).AgreesOn keep (start steps given other now) := by
  cases steps with
  | nil => exact ⟨.vacant, target, rfl⟩
  | cons first upcoming =>
      obtain ⟨hentered, htarget, hbeats⟩ := enter_agreesOn (.refl first) target
      refine ⟨?_, htarget, hbeats⟩
      simp only [start, hentered.arm now]
      exact .playing hentered _ (List.forall₂_same.mpr fun step _ => .refl step)

end Track

end MotionNotation
