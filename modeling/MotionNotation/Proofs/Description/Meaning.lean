import MotionNotation.Description.Basic
import MotionNotation.Easing.Transcendental
import MotionNotation.Proofs.Notation.Matching
import MotionNotation.Proofs.Playback.Chronicle

/-!
# What a notation means

A notation means the same wherever its target stands.  The design of its actions
depends on the notation and the configuration only, the plan moreover on the
place among the siblings, and the values and the text on the size as well.  No
channel of the target enters into any of them, although the endpoints of most
actions are read off the channels.
-/

namespace MotionNotation

variable {α : Type}

namespace Action

def design (action : Action α) : Operator × Bool × Option α × Easing :=
  (action.operator, action.inverse, action.literal, action.easing)

def valued (action : Action α) : (Operator × Bool × Option α × Easing) × α :=
  (action.design, action.value)

def request (action : Action α) : Operator × Option α :=
  (action.operator, if action.operator.channel?.isNone then some action.origin else none)

end Action

section Resolving

variable [Scalar α]

theorem Config.resolves_design (config : Config α) (one other : Target α) :
    config.Resolves Action.design one other :=
  fun _ _ _ _ => rfl

theorem Config.resolves_request (config : Config α) {one other : Target α}
    (sibling : one.siblingIndex = other.siblingIndex) :
    config.Resolves Action.request one other := by
  intro operator inverse literal easing
  cases operator with
  | stagger =>
      simp [Action.request, Action.resolve, Operator.endpoints, Operator.defaultValue, sibling]
  | move heading => cases heading <;> rfl
  | _ => rfl

theorem Operator.defaultValue_congr {one other : Target α} (width : one.width = other.width)
    (height : one.height = other.height) (operator : Operator) (config : Config α) :
    operator.defaultValue one config = operator.defaultValue other config := by
  cases operator with
  | move heading => cases heading <;> simp only [defaultValue, width, height]
  | _ => rfl

theorem Config.resolves_valued (config : Config α) {one other : Target α}
    (width : one.width = other.width) (height : one.height = other.height) :
    config.Resolves Action.valued one other := by
  intro operator inverse literal easing
  simp only [Action.resolve, Action.valued, Action.design,
    Operator.defaultValue_congr width height]

end Resolving

/-! ## Plans -/

namespace PipePlan

theorem durationRequests_eq (actions : List (Action α)) :
    durationRequests actions = (actions.map Action.request).filterMap fun request =>
      if request.1.isDuration then request.2 else none := by
  induction actions with
  | nil => rfl
  | cons action rest ih =>
      rw [durationRequests, List.map_cons, List.filterMap_cons, ← ih, durationRequests]
      cases hoperator : action.operator <;>
        simp [Action.request, hoperator, Operator.isDuration, Operator.channel?]

theorem loopRequests_eq (actions : List (Action α)) :
    loopRequests actions = (actions.map Action.request).filterMap fun request =>
      request.1.loopMode?.bind fun mode => request.2.map fun value => (value, mode) := by
  rw [loopRequests, List.filterMap_map]
  apply List.filterMap_congr
  intro action _
  cases hoperator : action.operator <;>
    simp [Action.request, hoperator, Operator.loopMode?, Operator.channel?]

theorem ofActions_congr [Scalar α] (config : Config α) (index : Nat)
    {first second : List (Action α)} (h : first.map Action.request = second.map Action.request) :
    ofActions config index first = ofActions config index second := by
  simp only [ofActions, durationRequests_eq, loopRequests_eq, h]

end PipePlan

theorem Plan.ofGrid_congr [Scalar α] (config : Config α) {first second : Grid α}
    (h : first.Matches Action.request second) : ofGrid config first = ofGrid config second := by
  have hplans : ∀ (one other : List (List (Action α))) (place : Nat),
      one.map (List.map Action.request) = other.map (List.map Action.request) →
      (((one.zipIdx place).filter fun entry => !entry.1.isEmpty).map fun entry =>
          PipePlan.ofActions config entry.2 entry.1) =
        ((other.zipIdx place).filter fun entry => !entry.1.isEmpty).map fun entry =>
          PipePlan.ofActions config entry.2 entry.1 := by
    intro one other place hpipes
    induction one generalizing other place with
    | nil => rw [List.map_eq_nil_iff.mp hpipes.symm]
    | cons pipe rest ih =>
        obtain ⟨found, others, rfl, hfound, hothers⟩ := List.map_eq_cons_iff.mp hpipes.symm
        have hempty : found.isEmpty = pipe.isEmpty := by
          rw [← List.isEmpty_map (f := Action.request), hfound, List.isEmpty_map]
        have hrest := ih others (place + 1) hothers.symm
        have hplan := PipePlan.ofActions_congr config place hfound
        simp only [List.zipIdx_cons, List.filter_cons, hempty]
        split
        · rw [List.map_cons, List.map_cons, hrest, hplan]
        · exact hrest
  simpa [ofGrid, Grid.activePipes, Function.comp_def] using hplans _ _ 0 h.pipes

theorem Segment.plans_congr [Scalar α] {config : Config α} {first second : List (Segment α)}
    (planned : ∀ segment ∈ first, segment.plan = Plan.ofGrid config segment.grid)
    (others : ∀ segment ∈ second, segment.plan = Plan.ofGrid config segment.grid)
    (h : List.Forall₂ (fun one other => one.grid.Matches Action.request other.grid) first second) :
    first.map plan = second.map plan := by
  induction h with
  | nil => rfl
  | @cons one other rest found hgrid _ ih =>
      obtain ⟨hone, hrest⟩ := List.forall_mem_cons.mp planned
      obtain ⟨hother, hfound⟩ := List.forall_mem_cons.mp others
      rw [List.map_cons, List.map_cons, ih hrest hfound, hone, hother,
        Plan.ofGrid_congr config hgrid]

/-! ## Texts -/

/-- The endpoints that a clause tells are those of an inverse fade, which comes
from an end of the unit interval and not from where the target is. -/
theorem Action.clause_rebase_congr {first second : Action Float}
    (h : first.valued = second.valued) (one other : Target Float) :
    (first.rebase one).clause = (second.rebase other).clause := by
  obtain ⟨operator, inverse, literal, value, origin, goal, easing⟩ := first
  obtain ⟨_, _, _, _, _, _, _⟩ := second
  obtain ⟨⟨rfl, rfl, rfl, rfl⟩, rfl⟩ := h
  cases operator <;> cases inverse <;>
    simp only [clause, rebase, Operator.endpoints, if_true, if_false, Bool.false_eq_true]

namespace PipePlan

theorem clauses_congr {first second : List (Action Float)}
    (h : first.map Action.valued = second.map Action.valued) (one other : Target Float) :
    (first.map (·.rebase one)).map Action.clause =
      (second.map (·.rebase other)).map Action.clause := by
  induction first generalizing second with
  | nil => rw [List.map_eq_nil_iff.mp h.symm]; rfl
  | cons action rest ih =>
      obtain ⟨found, others, rfl, hfound, hothers⟩ := List.map_eq_cons_iff.mp h.symm
      rw [List.map_cons, List.map_cons, List.map_cons, List.map_cons, ih hothers.symm,
        Action.clause_rebase_congr hfound.symm one other]

theorem ending_congr (plan : PipePlan Float) {first second : List (Action Float)}
    (h : first.map Action.valued = second.map Action.valued) (one other : Target Float) :
    plan.ending (first.map (·.rebase one)) = plan.ending (second.map (·.rebase other)) := by
  cases first with
  | nil => rw [List.map_eq_nil_iff.mp h.symm]; rfl
  | cons action rest =>
      obtain ⟨found, others, rfl, hfound, -⟩ := List.map_eq_cons_iff.mp h.symm
      have heasing : found.easing = action.easing :=
        congrArg (fun valued => valued.1.2.2.2) hfound
      simp [ending, Action.rebase, heasing]

theorem sentence_congr (plan : PipePlan Float) {first second : List (Action Float)}
    (h : first.map Action.valued = second.map Action.valued) (one other : Target Float) :
    plan.sentence (first.map (·.rebase one)) = plan.sentence (second.map (·.rebase other)) := by
  have hdeeds : plan.deeds (first.map (·.rebase one)) =
      plan.deeds (second.map (·.rebase other)) := by
    rw [deeds, deeds, clauses_congr h one other]
  rw [sentence, sentence, hdeeds, plan.ending_congr h one other]

end PipePlan

namespace Segment

theorem describe_congr {first second : Segment Float} (plan : first.plan = second.plan)
    (h : first.grid.Matches Action.valued second.grid) (one other : Target Float) :
    first.describe one = second.describe other := by
  have hsentences : first.sentences one = second.sentences other := by
    rw [sentences, sentences, plan]
    exact List.map_congr_left fun step _ => step.sentence_congr (h.pipe step.index) one other
  rw [describe, describe, hsentences]

theorem descriptions_congr {first second : List (Segment Float)}
    (plans : first.map plan = second.map plan)
    (h : List.Forall₂ (fun one other => one.grid.Matches Action.valued other.grid) first second)
    (one other : Target Float) :
    first.map (·.describe one) = second.map (·.describe other) := by
  induction h with
  | nil => rfl
  | cons hgrid _ ih =>
      obtain ⟨hplan, hplans⟩ := List.cons.inj plans
      rw [List.map_cons, List.map_cons, describe_congr hplan hgrid one other, ih hplans]

end Segment

/-! ## The whole meaning -/

structure Segment.SameMeaning (one other : Target α) (first second : List (Segment α)) :
    Prop where
  designs : List.Forall₂ (fun found another => found.grid.Matches Action.design another.grid)
    first second
  plans : one.siblingIndex = other.siblingIndex → first.map plan = second.map plan
  values : one.width = other.width → one.height = other.height →
    List.Forall₂ (fun found another => found.grid.Matches Action.valued another.grid) first second

theorem Segment.readAll_sameMeaning [Scalar α] (config : Config α) (text : String)
    (one other : Target α) :
    Agrees (SameMeaning one other) (readAll config one text) (readAll config other text) := by
  obtain ⟨first, second, hfirst, hsecond, hdesigns⟩ | ⟨full, hfirst, hsecond⟩ :=
    (readAll_matches (config.resolves_design one other) text).ok_or_error
  · have hmatches : ∀ {β : Type} {view : Action α → β}, config.Resolves view one other →
        List.Forall₂ (fun found another => found.grid.Matches view another.grid) first second := by
      intro β view resolves
      have hagrees := readAll_matches resolves text
      rw [hfirst, hsecond] at hagrees
      cases hagrees
      assumption
    rw [hfirst, hsecond]
    refine .ok ⟨hdesigns, fun sibling => ?_, fun width height => ?_⟩
    · exact plans_congr (plan_of_readEach hfirst) (plan_of_readEach hsecond)
        (hmatches (config.resolves_request sibling))
    · exact hmatches (config.resolves_valued width height)
  · rw [hfirst, hsecond]
    exact .error full

namespace Description

theorem describe_congr (config : Config Float) (text : String) {one other : Target Float}
    (sibling : one.siblingIndex = other.siblingIndex) (width : one.width = other.width)
    (height : one.height = other.height) :
    describe config one text = describe config other text := by
  obtain ⟨first, second, hfirst, hsecond, hmeaning⟩ | ⟨full, hfirst, hsecond⟩ :=
    (Segment.readAll_sameMeaning config text one other).ok_or_error
  · have htexts := Segment.descriptions_congr (hmeaning.plans sibling)
      (hmeaning.values width height) one other
    simp only [describe, hfirst, hsecond, htexts]
  · simp only [describe, hfirst, hsecond]

/-- A notation is refused on both targets in the same words or has the same
meaning on both, and it is described in the same words on targets of one size at
one place among their siblings. -/
theorem same_meaning (config : Config Float) (text : String) (one other : Target Float) :
    Agrees (Segment.SameMeaning one other) (Segment.readAll config one text)
        (Segment.readAll config other text) ∧
      (one.siblingIndex = other.siblingIndex → one.width = other.width →
        one.height = other.height → describe config one text = describe config other text) :=
  ⟨Segment.readAll_sameMeaning config text one other, describe_congr config text⟩

theorem same_meaning_of_moved :
    let text := "[!f0.2<L3|D2,][s!x5l|e7^]"
    let moved : Target Float :=
      { Target.standard with translation := ⟨5, -3, 2⟩, rotation := ⟨90, 0, 45⟩, scale := 3,
                             alpha := 0.25 }
    ∃ first second, Segment.readAll Config.standard Target.standard text = .ok first ∧
      Segment.readAll Config.standard moved text = .ok second ∧
      first ≠ second ∧ Segment.SameMeaning Target.standard moved first second ∧
      describe Config.standard Target.standard text = describe Config.standard moved text := by
  intro text moved
  obtain ⟨hreadings, htexts⟩ := same_meaning Config.standard text Target.standard moved
  have hfits : (Segment.readAll Config.standard (Target.standard : Target Float) text).isOk =
      true := by decide +kernel
  have hdiffer : Segment.readAll Config.standard (Target.standard : Target Float) text ≠
      Segment.readAll Config.standard moved text := by decide +kernel
  obtain ⟨first, second, hfirst, hsecond, hmeaning⟩ | ⟨full, hfirst, hsecond⟩ :=
    hreadings.ok_or_error
  · refine ⟨first, second, hfirst, hsecond, fun heq => hdiffer ?_, hmeaning, htexts rfl rfl rfl⟩
    rw [hfirst, hsecond, heq]
  · rw [hfirst] at hfits
    cases hfits

end Description

end MotionNotation
