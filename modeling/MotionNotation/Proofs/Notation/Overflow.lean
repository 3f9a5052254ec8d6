import MotionNotation.Proofs.Notation.Bytes
import MotionNotation.Proofs.Notation.Splitting
import MotionNotation.Proofs.Rounding.Arithmetic

/-!
# Overflow

A notation is read with finite literals on a finite target, and yet what is computed
from them may be too large for a float.  Sums, products and scaled durations are
finite exactly if the exact ones stay below the limit.
-/

namespace MotionNotation

open Rounding (exact limit RoundsTo)

/-! ## What is finite -/

structure Target.IsFinite (target : Target Float) : Prop where
  channel (channel : Channel) : (target.get channel).isFinite = true
  width : target.width.isFinite = true
  height : target.height.isFinite = true
  sibling : target.siblingIndex < 2 ^ 64

theorem Target.standard_isFinite : (standard : Target Float).IsFinite := by
  have hchannels : Channel.all.all (fun channel =>
      ((standard : Target Float).get channel).isFinite) = true := by decide +kernel
  exact ⟨fun channel => List.all_eq_true.mp hchannels channel channel.mem_all,
    by decide +kernel, by decide +kernel, by decide⟩

structure Action.IsFinite (action : Action Float) : Prop where
  value : action.value.isFinite = true
  origin : action.origin.isFinite = true
  goal : action.goal.isFinite = true

structure Segment.IsFinite (segment : Segment Float) : Prop where
  actions : ∀ action ∈ segment.grid.actions, action.IsFinite
  pipes : ∀ plan ∈ segment.plan.pipes, plan.duration.isFinite = true

/-! ## What is contained -/

def Target.exactly (target : Target Float) : Target ℚ where
  translation :=
    ⟨exact target.translation.x, exact target.translation.y, exact target.translation.z⟩
  rotation := ⟨exact target.rotation.x, exact target.rotation.y, exact target.rotation.z⟩
  scale := exact target.scale
  alpha := exact target.alpha
  width := exact target.width
  height := exact target.height
  siblingIndex := target.siblingIndex

/-- Both endpoints of an action are below the limit if they are computed exactly.  A
staggered duration has the float of the place among the siblings as its factor. -/
def Action.Contained (action : Action Float) (target : Target Float) : Prop :=
  if action.operator = .stagger then
    |exact action.value * exact (Float.ofNat target.siblingIndex)| < limit
  else
    let ends := action.operator.endpoints action.inverse (exact action.value) target.exactly
    |ends.1| < limit ∧ |ends.2| < limit

def PipePlan.requested (config : Config Float) (actions : List (Action Float)) : Float :=
  (durationRequests actions).getLastD config.defaultDuration

structure Segment.Contained (config : Config Float) (target : Target Float)
    (segment : Segment Float) : Prop where
  actions : ∀ action ∈ segment.grid.actions, action.Contained target
  pipes : ∀ entry ∈ segment.grid.activePipes,
    |exact (PipePlan.requested config entry.2) * exact config.timeScale| < limit

/-! ## Numbers of a configuration -/

namespace Config

variable {config : Config Float}

theorem isFinite_of_accepted (accepted : config.fault? = none) :
    config.defaultDuration.isFinite = true ∧ config.pauseFactor.isFinite = true ∧
      config.timeScale.isFinite = true := by
  unfold fault? at accepted
  split at accepted
  · cases accepted
  · rename_i hduration
    split at accepted
    · cases accepted
    · rename_i hpause
      split at accepted
      · cases accepted
      · rename_i hscale
        simp only [Bool.or_eq_true, not_or, Bool.not_eq_true', Bool.not_eq_false]
          at hduration hpause hscale
        exact ⟨hduration.1, hpause.1, hscale.1⟩

theorem pauseDuration_isFinite_iff (accepted : config.fault? = none) :
    config.pauseDuration.isFinite = true ↔
      |exact config.defaultDuration * exact config.pauseFactor| < limit := by
  obtain ⟨hduration, hpause, -⟩ := isFinite_of_accepted accepted
  exact (Rounding.roundsTo_mul hduration hpause).isFinite_iff

end Config

/-! ## Endpoints -/

namespace Rounding

/-- A float is finite exactly if a number that it stands for is below the limit. -/
def Tracks (x : Float) (q : ℚ) : Prop :=
  x.isFinite = true ↔ |q| < limit

variable {x y : Float}

theorem tracks_exact (finite : x.isFinite = true) : Tracks x (exact x) :=
  iff_of_true finite (abs_exact_lt x)

theorem tracks_add (hx : x.isFinite = true) (hy : y.isFinite = true) :
    Tracks (x + y) (exact x + exact y) :=
  (roundsTo_add hx hy).isFinite_iff

theorem tracks_sub (hx : x.isFinite = true) (hy : y.isFinite = true) :
    Tracks (x - y) (exact x - exact y) :=
  (roundsTo_sub hx hy).isFinite_iff

theorem tracks_mul (hx : x.isFinite = true) (hy : y.isFinite = true) :
    Tracks (x * y) (exact x * exact y) :=
  (roundsTo_mul hx hy).isFinite_iff

theorem tracks_ofNat (n : ℕ) : Tracks (Float.ofNat n) n :=
  (roundsTo_ofNat n).isFinite_iff

end Rounding

namespace Operator

open Rounding (Tracks)

def EndsTrack (ends : Float × Float) (exactly : ℚ × ℚ) : Prop :=
  Tracks ends.1 exactly.1 ∧ Tracks ends.2 exactly.2

variable {value current : Float}

theorem endsTrack_retreat (inverse : Bool) (hvalue : value.isFinite = true)
    (hcurrent : current.isFinite = true) :
    EndsTrack (endpoints.retreat inverse value current)
      (endpoints.retreat inverse (exact value) (exact current)) := by
  cases inverse with
  | false => exact ⟨Rounding.tracks_exact hcurrent, Rounding.tracks_sub hcurrent hvalue⟩
  | true => exact ⟨Rounding.tracks_add hcurrent hvalue, Rounding.tracks_exact hcurrent⟩

theorem endsTrack_advance (inverse : Bool) (hvalue : value.isFinite = true)
    (hcurrent : current.isFinite = true) :
    EndsTrack (endpoints.advance inverse value current)
      (endpoints.advance inverse (exact value) (exact current)) := by
  cases inverse with
  | false => exact ⟨Rounding.tracks_exact hcurrent, Rounding.tracks_add hcurrent hvalue⟩
  | true => exact ⟨Rounding.tracks_sub hcurrent hvalue, Rounding.tracks_exact hcurrent⟩

theorem tracks_farEnd (value : Float) :
    Tracks (endpoints.farEnd value) (endpoints.farEnd (exact value)) := by
  have hfloat : (endpoints.farEnd value).isFinite = true := by
    unfold endpoints.farEnd
    split
    · exact Rounding.isFinite_ofNat (by decide : 0 < 2 ^ 64)
    · exact Rounding.isFinite_ofNat (by decide : 1 < 2 ^ 64)
  have hexact : |endpoints.farEnd (exact value)| < limit := by
    unfold endpoints.farEnd
    split
    · exact (Rounding.tracks_ofNat 0).mp (Rounding.isFinite_ofNat (by decide))
    · exact (Rounding.tracks_ofNat 1).mp (Rounding.isFinite_ofNat (by decide))
  exact iff_of_true hfloat hexact

theorem endsTrack_unit (inverse : Bool) (hvalue : value.isFinite = true)
    (hcurrent : current.isFinite = true) :
    EndsTrack (if inverse then (endpoints.farEnd value, value) else (current, value))
      (if inverse then (endpoints.farEnd (exact value), exact value)
        else (exact current, exact value)) := by
  cases inverse with
  | false => exact ⟨Rounding.tracks_exact hcurrent, Rounding.tracks_exact hvalue⟩
  | true => exact ⟨tracks_farEnd value, Rounding.tracks_exact hvalue⟩

theorem endsTrack_endpoints {operator : Operator} (h : operator ≠ .stagger) (inverse : Bool)
    (hvalue : value.isFinite = true) {target : Target Float} (htarget : target.IsFinite) :
    EndsTrack (operator.endpoints inverse value target)
      (operator.endpoints inverse (exact value) target.exactly) := by
  cases operator with
  | position axis =>
      have hcurrent := htarget.channel (.translation axis)
      cases axis <;> cases inverse <;>
        first
          | exact ⟨Rounding.tracks_exact hcurrent, Rounding.tracks_exact hvalue⟩
          | exact ⟨Rounding.tracks_exact hvalue, Rounding.tracks_exact hcurrent⟩
  | move heading =>
      have hx := htarget.channel (.translation .x)
      have hy := htarget.channel (.translation .y)
      cases heading with
      | left => exact endsTrack_retreat inverse hvalue hx
      | right => exact endsTrack_advance inverse hvalue hx
      | up => exact endsTrack_retreat inverse hvalue hy
      | down => exact endsTrack_advance inverse hvalue hy
  | scale => exact endsTrack_unit inverse hvalue (htarget.channel .scale)
  | rotate axis =>
      have hcurrent := htarget.channel (.rotation axis)
      cases axis <;> exact endsTrack_retreat inverse hvalue hcurrent
  | fade => exact endsTrack_unit inverse hvalue (htarget.channel .alpha)
  | duration => exact ⟨Rounding.tracks_exact hvalue, Rounding.tracks_exact hvalue⟩
  | stagger => exact absurd rfl h
  | loop mode => exact ⟨Rounding.tracks_exact hvalue, Rounding.tracks_exact hvalue⟩

theorem defaultValue_isFinite (operator : Operator) {target : Target Float}
    (htarget : target.IsFinite) {config : Config Float} (accepted : config.fault? = none) :
    (operator.defaultValue target config).isFinite = true := by
  have hduration := (Config.isFinite_of_accepted accepted).1
  have hzero : (0 : Float).isFinite = true := Rounding.isFinite_ofNat (by decide : 0 < 2 ^ 64)
  have hone : (1 : Float).isFinite = true := Rounding.isFinite_ofNat (by decide : 1 < 2 ^ 64)
  have hnegative : (-1 : Float).isFinite = true := by decide +kernel
  cases operator with
  | move heading => cases heading <;> first | exact htarget.width | exact htarget.height
  | position axis => exact hzero
  | rotate axis => exact hzero
  | scale => exact hone
  | fade => exact hone
  | duration => exact hduration
  | stagger => exact hduration
  | loop mode => exact hnegative

end Operator

/-! ## Actions -/

namespace Action

variable {config : Config Float} {target : Target Float}

theorem pause_isFinite_iff {seconds : Float} (easing : Easing) :
    (pause seconds easing).IsFinite ↔ seconds.isFinite = true :=
  ⟨fun h => h.value, fun h => ⟨h, h, h⟩⟩

theorem pause_contained (seconds : Float) (easing : Easing) (target : Target Float) :
    (pause seconds easing).Contained target :=
  ⟨Rounding.abs_exact_lt seconds, Rounding.abs_exact_lt seconds⟩

theorem resolve_isFinite_iff (accepted : config.fault? = none) (htarget : target.IsFinite)
    (operator : Operator) (inverse : Bool) {literal : Option Float}
    (usable : ∀ value, literal = some value → value.isFinite = true) (easing : Easing) :
    (resolve operator inverse literal easing target config).IsFinite ↔
      (resolve operator inverse literal easing target config).Contained target := by
  have hvalue : (literal.getD (operator.defaultValue target config)).isFinite = true := by
    cases literal with
    | none => exact operator.defaultValue_isFinite htarget accepted
    | some value => exact usable value rfl
  by_cases hstagger : operator = .stagger
  · subst hstagger
    have htrack := Rounding.tracks_mul hvalue (Rounding.isFinite_ofNat htarget.sibling)
    have hcontained : (resolve .stagger inverse literal easing target config).Contained target ↔
        |exact (literal.getD (Operator.stagger.defaultValue target config)) *
          exact (Float.ofNat target.siblingIndex)| < limit := Iff.rfl
    rw [hcontained]
    exact ⟨fun h => htrack.mp h.origin, fun h => ⟨hvalue, htrack.mpr h, htrack.mpr h⟩⟩
  · obtain ⟨horigin, hgoal⟩ := Operator.endsTrack_endpoints hstagger inverse hvalue htarget
    have hoperator : (resolve operator inverse literal easing target config).operator ≠
        .stagger := hstagger
    rw [Contained, if_neg hoperator]
    exact ⟨fun h => ⟨horigin.mp h.origin, hgoal.mp h.goal⟩,
      fun h => ⟨hvalue, horigin.mpr h.1, hgoal.mpr h.2⟩⟩

end Action

/-! ## Reading -/

theorem Literal.isFinite_of_find {text : List Char} {value : Float}
    (h : (find text).value? = some value) : value.isFinite = true := by
  induction text with
  | nil => cases h
  | cons c rest ih =>
      unfold find at h
      split at h
      · cases h
      · split at h
        · unfold ofValue at h
          split at h
          · rename_i hfinite
            cases h
            exact hfinite
          · cases h
        · exact ih h

namespace Grid

variable {α : Type}

theorem mem_flatten_appendAt {β : Type} (lists : List (List β)) (place : Nat) (item other : β) :
    other ∈ (appendAt lists place item).flatten ↔ other ∈ lists.flatten ∨ other = item := by
  induction lists, place, item using appendAt.induct with
  | case1 item => simp [appendAt]
  | case2 place item ih => simpa [appendAt] using ih
  | case3 first rest item =>
      simp only [appendAt, List.flatten_cons, List.mem_append, List.mem_singleton,
        or_right_comm]
  | case4 first rest place item ih =>
      simp only [appendAt, List.flatten_cons, List.mem_append, ih, or_assoc]

theorem mem_actions_push {grid result : Grid α} {index : Nat} {action : Action α}
    (h : grid.push index action = .ok result) (other : Action α) :
    other ∈ result.actions ↔ other ∈ grid.actions ∨ other = action := by
  simp only [push] at h
  split at h
  · cases h
    exact mem_flatten_appendAt grid.pipes index action other
  · cases h

end Grid

namespace Config

def IsPause (config : Config Float) (action : Action Float) : Prop :=
  ∃ easing, action = .pause config.pauseDuration easing

def IsResolved (config : Config Float) (target : Target Float) (action : Action Float) : Prop :=
  ∃ operator inverse literal easing, (∀ value, literal = some value → value.isFinite = true) ∧
    action = .resolve operator inverse literal easing target config

structure Adds (config : Config Float) (target : Target Float) (letters : List Char)
    (added : List (Action Float)) : Prop where
  kind : ∀ action ∈ added, config.IsResolved target action ∨ ',' ∈ letters ∧ config.IsPause action
  pause : ',' ∈ letters → ∃ action ∈ added, config.IsPause action

namespace Adds

variable {config : Config Float} {target : Target Float} {first second : List Char}
  {added others : List (Action Float)}

theorem nil (h : ',' ∉ first) : config.Adds target first [] :=
  ⟨fun _ hmem => absurd hmem List.not_mem_nil, fun hpause => absurd hpause h⟩

theorem append (hfirst : config.Adds target first added)
    (hsecond : config.Adds target second others) :
    config.Adds target (first ++ second) (added ++ others) where
  kind action hmem := by
    rcases List.mem_append.mp hmem with hmem | hmem
    · exact (hfirst.kind action hmem).imp_right (.imp_left (List.mem_append_left _))
    · exact (hsecond.kind action hmem).imp_right (.imp_left (List.mem_append_right _))
  pause hmem := by
    rcases List.mem_append.mp hmem with hmem | hmem
    · obtain ⟨action, hadded, hpause⟩ := hfirst.pause hmem
      exact ⟨action, List.mem_append_left _ hadded, hpause⟩
    · obtain ⟨action, hadded, hpause⟩ := hsecond.pause hmem
      exact ⟨action, List.mem_append_right _ hadded, hpause⟩

theorem congr (h : config.Adds target first added)
    (same : ∀ action, action ∈ others ↔ action ∈ added) : config.Adds target first others where
  kind action hmem := h.kind action ((same action).mp hmem)
  pause hmem := by
    obtain ⟨action, hadded, hpause⟩ := h.pause hmem
    exact ⟨action, (same action).mpr hadded, hpause⟩

theorem isFinite_iff (h : config.Adds target first added) (accepted : config.fault? = none)
    (htarget : target.IsFinite) :
    (∀ action ∈ added, action.IsFinite) ↔
      (',' ∈ first → config.pauseDuration.isFinite = true) ∧
        ∀ action ∈ added, action.Contained target := by
  constructor
  · intro hfinite
    refine ⟨fun hmem => ?_, fun action hmem => ?_⟩
    · obtain ⟨_, hadded, easing, rfl⟩ := h.pause hmem
      exact (Action.pause_isFinite_iff easing).mp (hfinite _ hadded)
    · have haction := hfinite action hmem
      obtain ⟨operator, inverse, literal, easing, usable, rfl⟩ | ⟨_, easing, rfl⟩ :=
        h.kind action hmem
      · exact (Action.resolve_isFinite_iff accepted htarget operator inverse usable easing).mp
          haction
      · exact Action.pause_contained _ easing target
  · rintro ⟨hpause, hcontained⟩ action hmem
    have haction := hcontained action hmem
    obtain ⟨operator, inverse, literal, easing, usable, rfl⟩ | ⟨hcomma, easing, rfl⟩ :=
      h.kind action hmem
    · exact (Action.resolve_isFinite_iff accepted htarget operator inverse usable easing).mpr
        haction
    · exact (Action.pause_isFinite_iff easing).mpr (hpause hcomma)

end Adds

end Config

namespace Reader

variable {config : Config Float} {target : Target Float}

theorem push_adds {grid next : Grid Float} {letters : List Char} {index : Nat}
    {action : Action Float} (adds : config.Adds target letters [action])
    (h : grid.push index action = .ok next) :
    ∃ added, config.Adds target letters added ∧
      ∀ other, other ∈ next.actions ↔ other ∈ grid.actions ∨ other ∈ added :=
  ⟨[action], adds, fun other => by rw [Grid.mem_actions_push h, List.mem_singleton]⟩

theorem step_adds {reader next : Reader Float} {c : Char} {mark : Mark} {text : List Char}
    (hmark : Mark.ofChar? c = some mark)
    (h : reader.step config target mark (Literal.find text) = .ok next) :
    ∃ added, config.Adds target [c] added ∧
      ∀ action, action ∈ next.grid.actions ↔ action ∈ reader.grid.actions ∨ action ∈ added := by
  have hother (different : mark ≠ .pause) : ',' ∉ [c] := by
    rw [List.mem_singleton]
    rintro rfl
    exact different (Option.some.inj hmark).symm
  have hnone (different : mark ≠ .pause) (same : next.grid = reader.grid) :
      ∃ added, config.Adds target [c] added ∧
        ∀ action, action ∈ next.grid.actions ↔ action ∈ reader.grid.actions ∨ action ∈ added :=
    ⟨[], .nil (hother different), fun action => by rw [same]; simp⟩
  cases mark with
  | invert =>
      cases h
      exact hnone nofun rfl
  | nextPipe =>
      cases h
      exact hnone nofun rfl
  | ease =>
      cases h
      exact hnone nofun rfl
  | pause =>
      have hcomma : ',' ∈ [c] := by
        rw [List.mem_singleton]
        exact Mark.symbol_of_ofChar? hmark
      simp only [step] at h
      split at h
      · rename_i grid hpush
        cases h
        refine push_adds ⟨fun action hmem => ?_, fun _ => ?_⟩ hpush
        · rw [List.mem_singleton.mp hmem]
          exact .inr ⟨hcomma, reader.easing, rfl⟩
        · exact ⟨_, List.mem_singleton_self _, reader.easing, rfl⟩
      · cases h
  | act operator =>
      simp only [step] at h
      split at h
      · rename_i grid hpush
        cases h
        refine push_adds ⟨fun action hmem => ?_, fun hmem => absurd hmem (hother nofun)⟩ hpush
        rw [List.mem_singleton.mp hmem]
        exact .inl ⟨operator, reader.inverse, _, reader.easing,
          fun value hvalue => Literal.isFinite_of_find hvalue, rfl⟩
      · cases h

theorem run_adds {reader last : Reader Float} {text : List Char}
    (h : reader.run config target text = .ok last) :
    ∃ added, config.Adds target text added ∧
      ∀ action, action ∈ last.grid.actions ↔ action ∈ reader.grid.actions ∨ action ∈ added := by
  induction text generalizing reader with
  | nil =>
      cases h
      exact ⟨[], .nil List.not_mem_nil, fun action => by simp⟩
  | cons c rest ih =>
      simp only [run] at h
      split at h
      · rename_i hmark
        obtain ⟨added, hadds, hmem⟩ := ih h
        have hc : ',' ∉ [c] := by
          rw [List.mem_singleton]
          rintro rfl
          cases hmark
        exact ⟨added, (Config.Adds.nil hc).append hadds, hmem⟩
      · rename_i mark hmark
        split at h
        · rename_i next hstep
          obtain ⟨one, hone, hnext⟩ := step_adds hmark hstep
          obtain ⟨others, hothers, hlast⟩ := ih h
          refine ⟨one ++ others, hone.append hothers, fun action => ?_⟩
          rw [hlast, hnext, List.mem_append, or_assoc]
        · cases h

end Reader

theorem Grid.read_adds {config : Config Float} {target : Target Float} {text : String}
    {grid : Grid Float} (h : read config target text = .ok grid) :
    config.Adds target text.toList grid.actions := by
  unfold read at h
  split at h
  · rename_i last hrun
    cases h
    obtain ⟨added, hadds, hmem⟩ := Reader.run_adds hrun
    refine hadds.congr fun action => ?_
    rw [hmem]
    simp [Reader.start, empty, actions]
  · cases h

/-! ## Planning -/

theorem Grid.mem_actions_of_mem_activePipes {α : Type} {grid : Grid α}
    {entry : Nat × List (Action α)} (h : entry ∈ grid.activePipes) {action : Action α}
    (hmem : action ∈ entry.2) : action ∈ grid.actions := by
  rw [activePipes, List.mem_map] at h
  obtain ⟨held, hheld, rfl⟩ := h
  exact List.mem_flatten_of_mem
    (List.fst_mem_of_mem_zipIdx (List.mem_filter.mp hheld).1) hmem

namespace PipePlan

variable {config : Config Float}

theorem requested_isFinite (hduration : config.defaultDuration.isFinite = true)
    {actions : List (Action Float)} (finite : ∀ action ∈ actions, action.IsFinite) :
    (requested config actions).isFinite = true := by
  rw [requested, List.getLastD_eq_getLast?]
  cases hlast : (durationRequests actions).getLast? with
  | none => exact hduration
  | some seconds =>
      obtain ⟨action, hmem, rfl⟩ := List.mem_map.mp (List.mem_of_getLast? hlast)
      exact (finite action (List.mem_filter.mp hmem).1).origin

theorem duration_isFinite_iff (accepted : config.fault? = none) (index : Nat)
    {actions : List (Action Float)} (finite : ∀ action ∈ actions, action.IsFinite) :
    (ofActions config index actions).duration.isFinite = true ↔
      |exact (requested config actions) * exact config.timeScale| < limit := by
  obtain ⟨hduration, -, hscale⟩ := Config.isFinite_of_accepted accepted
  exact Rounding.tracks_mul (requested_isFinite hduration finite) hscale

end PipePlan

namespace Segment

variable {config : Config Float} {target : Target Float}

theorem read_isFinite_iff (accepted : config.fault? = none) (htarget : target.IsFinite)
    {text : String} {segment : Segment Float} (h : read config target text = .ok segment) :
    segment.IsFinite ↔
      (',' ∈ text.toList → config.pauseDuration.isFinite = true) ∧
        segment.Contained config target := by
  obtain ⟨grid, hgrid, rfl⟩ := read_ok h
  have hactions := (Grid.read_adds hgrid).isFinite_iff accepted htarget
  have hpipes (finite : ∀ action ∈ grid.actions, action.IsFinite) :
      (∀ plan ∈ (Plan.ofGrid config grid).pipes, plan.duration.isFinite = true) ↔
        ∀ entry ∈ grid.activePipes,
          |exact (PipePlan.requested config entry.2) * exact config.timeScale| < limit := by
    rw [Plan.ofGrid, List.forall_mem_map]
    refine forall₂_congr fun entry hentry => PipePlan.duration_isFinite_iff accepted entry.1 ?_
    exact fun action hmem => finite action (Grid.mem_actions_of_mem_activePipes hentry hmem)
  constructor
  · rintro ⟨hfinite, hdurations⟩
    obtain ⟨hpause, hcontained⟩ := hactions.mp hfinite
    exact ⟨hpause, hcontained, (hpipes hfinite).mp hdurations⟩
  · rintro ⟨hpause, hcontained, hdurations⟩
    have hfinite := hactions.mpr ⟨hpause, hcontained⟩
    exact ⟨hfinite, (hpipes hfinite).mpr hdurations⟩

theorem readEach_isFinite_iff (accepted : config.fault? = none) (htarget : target.IsFinite)
    {texts : List String} {segments : List (Segment Float)}
    (h : readEach config target texts = .ok segments) :
    (∀ segment ∈ segments, segment.IsFinite) ↔
      ((∃ text ∈ texts, ',' ∈ text.toList) → config.pauseDuration.isFinite = true) ∧
        ∀ segment ∈ segments, segment.Contained config target := by
  induction texts generalizing segments with
  | nil =>
      cases h
      simp
  | cons text rest ih =>
      obtain ⟨segment, others, hsegment, hothers, rfl⟩ := readEach_cons_ok h
      simp only [List.forall_mem_cons, List.exists_mem_cons_iff, or_imp,
        read_isFinite_iff accepted htarget hsegment, ih hothers]
      exact and_and_and_comm

/-- A notation leaves only finite numbers behind exactly if its pauses, the endpoints
of its actions and its scaled durations are below the limit. -/
theorem readAll_isFinite_iff {text : String} {segments : List (Segment Float)}
    (accepted : config.fault? = none) (htarget : target.IsFinite)
    (h : readAll config target text = .ok segments) :
    (∀ segment ∈ segments, segment.IsFinite) ↔
      (',' ∈ text.toList →
        |exact config.defaultDuration * exact config.pauseFactor| < limit) ∧
        ∀ segment ∈ segments, segment.Contained config target := by
  rw [readEach_isFinite_iff accepted htarget h,
    Groups.exists_mem_ofText_iff text (by decide : Text.isBlank ',' = false) nofun nofun,
    Config.pauseDuration_isFinite_iff accepted]

theorem readAll_isFinite_of_two_groups :
    (Config.standard : Config Float).fault? = none ∧ (Target.standard : Target Float).IsFinite ∧
      ∃ segments, readAll Config.standard Target.standard "[x5,][!>2D1]" = .ok segments ∧
        ((∀ segment ∈ segments, segment.IsFinite) ↔
          (',' ∈ "[x5,][!>2D1]".toList →
            |exact (Config.standard : Config Float).defaultDuration *
              exact (Config.standard : Config Float).pauseFactor| < limit) ∧
            ∀ segment ∈ segments, segment.Contained Config.standard Target.standard) := by
  have hfault : (Config.standard : Config Float).fault? = none := by decide +kernel
  have hok : (readAll Config.standard (Target.standard : Target Float)
      "[x5,][!>2D1]").toOption.isSome = true := by decide +kernel
  cases hread : readAll Config.standard (Target.standard : Target Float) "[x5,][!>2D1]" with
  | error full =>
      rw [hread] at hok
      cases hok
  | ok segments =>
      exact ⟨hfault, Target.standard_isFinite, segments, rfl,
        readAll_isFinite_iff hfault Target.standard_isFinite hread⟩

/-- A pause of ten times the default duration is infinite where that is large. -/
theorem readAll_infinite_of_pause :
    ∃ (config : Config Float) (segment : Segment Float) (action : Action Float)
      (plan : PipePlan Float),
      config.fault? = none ∧ config.defaultDuration = 1e308 ∧ config.pauseFactor = 10 ∧
      (Target.standard : Target Float).IsFinite ∧
      readAll config Target.standard "," = .ok [segment] ∧
      segment.grid.actions = [action] ∧ segment.plan.pipes = [plan] ∧
      action.value.isFinite = false ∧ action.origin.isFinite = false ∧
      action.goal.isFinite = false ∧ plan.duration.isFinite = false :=
  ⟨{ (Config.standard : Config Float) with defaultDuration := 1e308, pauseFactor := 10 }, _, _, _,
    by decide +kernel, rfl, rfl, Target.standard_isFinite, rfl, rfl, rfl,
    by decide +kernel, by decide +kernel, by decide +kernel, by decide +kernel⟩

end Segment

end MotionNotation
