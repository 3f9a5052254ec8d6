import MotionNotation.Proofs.Document.Storing

/-!
# Round trips

Whatever can be stored is read back from its document as it was, so that no two
values have the same document.  What is read from any document at all, whatever
its form, is stored as itself.
-/

namespace MotionNotation

open Document Measured Storable

/-! ## Records -/

instance : Measured (Target Float) where
  IsFinite target := IsFinite target.translation ∧ IsFinite target.rotation ∧
    IsFinite target.scale ∧ IsFinite target.alpha ∧ IsFinite target.width ∧
    IsFinite target.height
  Fits target := Fits target.siblingIndex

instance : Storable (Target Float) where
  decode_encode := by
    rintro target (fits : Fits target.siblingIndex)
      ⟨translation, rotation, scale, alpha, width, height⟩
    have hplain (triple : Triple Float) : Fits triple := ⟨trivial, trivial, trivial⟩
    refine Json.bind_record?_fields rfl (by decide) ?_
    refine bind_optional (hplain target.translation) translation ?_
    refine bind_optional (hplain target.rotation) rotation ?_
    refine bind_optional trivial scale ?_
    refine bind_optional trivial alpha ?_
    refine bind_optional trivial width ?_
    refine bind_optional trivial height ?_
    exact bind_optional fits trivial rfl
  fits_of_decode := by
    intro json target h
    obtain ⟨values, -, h⟩ := Option.bind_eq_some_iff.mp h
    split at h
    · obtain ⟨translation, -, h⟩ := Option.bind_eq_some_iff.mp h
      obtain ⟨rotation, -, h⟩ := Option.bind_eq_some_iff.mp h
      obtain ⟨scale, -, h⟩ := Option.bind_eq_some_iff.mp h
      obtain ⟨alpha, -, h⟩ := Option.bind_eq_some_iff.mp h
      obtain ⟨width, -, h⟩ := Option.bind_eq_some_iff.mp h
      obtain ⟨height, -, h⟩ := Option.bind_eq_some_iff.mp h
      obtain ⟨sibling, hsibling, h⟩ := exists_of_bind_optional (by decide) h
      cases h
      exact hsibling
    · cases h

instance : Measured (Config Float) where
  IsFinite config := IsFinite config.defaultDuration ∧ IsFinite config.pauseFactor ∧
    IsFinite config.timeScale
  Fits config := Fits config.maxPipes ∧ Fits config.maxActions ∧ Fits config.defaultEasing

instance : Storable (Config Float) where
  decode_encode := by
    rintro config ⟨pipes, actions, easing⟩ ⟨duration, pause, scale⟩
    refine Json.bind_record?_fields rfl (by decide) ?_
    refine bind_optional trivial duration ?_
    refine bind_optional trivial pause ?_
    refine bind_optional trivial scale ?_
    refine bind_optional pipes trivial ?_
    refine bind_optional actions trivial ?_
    exact bind_optional easing trivial rfl
  fits_of_decode := by
    intro json config h
    obtain ⟨values, -, h⟩ := Option.bind_eq_some_iff.mp h
    split at h
    · obtain ⟨duration, -, h⟩ := Option.bind_eq_some_iff.mp h
      obtain ⟨pause, -, h⟩ := Option.bind_eq_some_iff.mp h
      obtain ⟨scale, -, h⟩ := Option.bind_eq_some_iff.mp h
      obtain ⟨pipes, hpipes, h⟩ := exists_of_bind_optional (by decide) h
      obtain ⟨actions, hactions, h⟩ := exists_of_bind_optional (by decide) h
      obtain ⟨easing, heasing, h⟩ := exists_of_bind_optional (by decide) h
      cases h
      exact ⟨hpipes, hactions, heasing⟩
    · cases h

instance : Measured (Action Float) where
  IsFinite action := IsFinite action.literal ∧ IsFinite action.value ∧
    IsFinite action.origin ∧ IsFinite action.goal

instance : Storable (Action Float) where
  decode_encode := by
    rintro action - ⟨literal, value, origin, goal⟩
    refine Json.bind_record?_fields rfl (by decide) ?_
    refine bind_required trivial trivial ?_
    refine bind_required trivial trivial ?_
    refine bind_optional (fun _ _ => trivial) literal ?_
    refine bind_required trivial value ?_
    refine bind_required trivial origin ?_
    refine bind_required trivial goal ?_
    exact bind_required trivial trivial rfl
  fits_of_decode _ := trivial

instance : Measured (Grid Float) where
  IsFinite grid := IsFinite grid.pipes
  Fits grid := Fits grid.maxPipes ∧ Fits grid.maxActions

instance : Storable (Grid Float) where
  decode_encode := by
    rintro grid ⟨maxPipes, maxActions⟩ (pipes : IsFinite grid.pipes)
    have hplain : Fits grid.pipes := fun _ _ _ _ => trivial
    refine Json.bind_record?_fields rfl (by decide) ?_
    refine bind_required hplain pipes ?_
    refine bind_required maxPipes trivial ?_
    exact bind_required maxActions trivial rfl
  fits_of_decode := by
    intro json grid h
    obtain ⟨values, -, h⟩ := Option.bind_eq_some_iff.mp h
    split at h
    · obtain ⟨pipes, -, h⟩ := Option.bind_eq_some_iff.mp h
      obtain ⟨maxPipes, hpipes, h⟩ := exists_of_bind_required h
      obtain ⟨maxActions, hactions, h⟩ := exists_of_bind_required h
      cases h
      exact ⟨hpipes, hactions⟩
    · cases h

instance : Measured (PipePlan Float) where
  IsFinite plan := IsFinite plan.duration
  Fits plan := Fits plan.index ∧ Fits plan.repetition

instance : Storable (PipePlan Float) where
  decode_encode := by
    rintro plan ⟨index, repetition⟩ (duration : IsFinite plan.duration)
    refine Json.bind_record?_fields rfl (by decide) ?_
    refine bind_required index trivial ?_
    refine bind_required trivial duration ?_
    refine bind_required repetition trivial ?_
    exact bind_required trivial trivial rfl
  fits_of_decode := by
    intro json plan h
    obtain ⟨values, -, h⟩ := Option.bind_eq_some_iff.mp h
    split at h
    · obtain ⟨index, hindex, h⟩ := exists_of_bind_required h
      obtain ⟨duration, -, h⟩ := Option.bind_eq_some_iff.mp h
      obtain ⟨repetition, hrepetition, h⟩ := exists_of_bind_required h
      obtain ⟨mode, -, h⟩ := Option.bind_eq_some_iff.mp h
      cases h
      exact ⟨hindex, hrepetition⟩
    · cases h

instance : Measured (Plan Float) where
  IsFinite plan := IsFinite plan.pipes
  Fits plan := Fits plan.pipes

instance : Storable (Plan Float) where
  decode_encode := by
    rintro plan (fits : Fits plan.pipes) (finite : IsFinite plan.pipes)
    refine Json.bind_record?_fields rfl (by decide) ?_
    exact bind_required fits finite rfl
  fits_of_decode := by
    intro json plan h
    obtain ⟨values, -, h⟩ := Option.bind_eq_some_iff.mp h
    split at h
    · obtain ⟨pipes, hpipes, h⟩ := exists_of_bind_required h
      cases h
      exact hpipes
    · cases h

instance : Measured (Timer Float) where
  IsFinite timer := IsFinite timer.begins ∧ IsFinite timer.ends ∧ IsFinite timer.duration
  Fits timer := Fits timer.remaining

instance : Storable (Timer Float) where
  decode_encode := by
    rintro timer (fits : Fits timer.remaining) ⟨begins, ends, duration⟩
    refine Json.bind_record?_fields rfl (by decide) ?_
    refine bind_required trivial begins ?_
    refine bind_required trivial ends ?_
    refine bind_required trivial duration ?_
    refine bind_required fits trivial ?_
    exact bind_required trivial trivial rfl
  fits_of_decode := by
    intro json timer h
    obtain ⟨values, -, h⟩ := Option.bind_eq_some_iff.mp h
    split at h
    · obtain ⟨begins, -, h⟩ := Option.bind_eq_some_iff.mp h
      obtain ⟨ends, -, h⟩ := Option.bind_eq_some_iff.mp h
      obtain ⟨duration, -, h⟩ := Option.bind_eq_some_iff.mp h
      obtain ⟨remaining, hremaining, h⟩ := exists_of_bind_required h
      obtain ⟨state, -, h⟩ := Option.bind_eq_some_iff.mp h
      cases h
      exact hremaining
    · cases h

instance : Measured Script := {}

instance : Storable Script where
  decode_encode := by
    intro script _ _
    refine Json.bind_record?_fields rfl (by decide) ?_
    refine bind_optional (fun _ _ => trivial) (fun _ _ => trivial) ?_
    refine bind_optional trivial trivial ?_
    exact bind_optional trivial trivial rfl
  fits_of_decode _ := trivial

instance : Measured (Change Float) where
  IsFinite change := IsFinite change.value

instance : Storable (Change Float) where
  decode_encode := by
    rintro change - (finite : IsFinite change.value)
    refine Json.bind_record?_fields rfl (by decide) ?_
    refine bind_required trivial trivial ?_
    refine bind_required trivial trivial ?_
    exact bind_required trivial finite rfl
  fits_of_decode _ := trivial

/-! ## Events -/

namespace GroupEvent

instance : Measured (Kind Float) where
  IsFinite
    | .pipeStarted _ duration => IsFinite duration
    | .pipeLooped _ | .pipeCompleted _ | .groupCompleted => True
  Fits
    | .pipeStarted pipe _ | .pipeLooped pipe | .pipeCompleted pipe => Fits pipe
    | .groupCompleted => True

instance : Measured (GroupEvent Float) where
  IsFinite event := IsFinite event.kind
  Fits event := Fits event.group ∧ Fits event.kind

def members (event : GroupEvent Float) : List (String × Json) :=
  ("group", .natural event.group) :: event.kind.encode

theorem members_once (event : GroupEvent Float) : (event.members.map Prod.fst).Nodup := by
  obtain ⟨group, kind⟩ := event
  cases kind <;> simp [members, Kind.encode]

theorem all_isKept {event : GroupEvent Float} (finite : IsFinite event) (room : Nat) :
    (event.members.map fun member => (some member.1, member.2)).all (isKept room) = true := by
  obtain ⟨group, kind⟩ := event
  cases kind with
  | pipeStarted pipe duration =>
      have hfinite : duration.isFinite = true := finite
      simp [members, Kind.encode, isKept, Json.text, Json.natural, Json.isSound, Json.depth,
        Document.encode, Json.real, hfinite]
  | _ => simp [members, Kind.encode, isKept, Json.text, Json.natural, Json.isSound, Json.depth]

theorem uniqueMember_members {event : GroupEvent Float} {name : String} {value : Json}
    (h : (name, value) ∈ event.members) :
    Json.uniqueMember (event.members.map fun member => (some member.1, member.2)) name =
      some (some value) :=
  Json.uniqueMember_fields event.members_once h

theorem decode?_members {event : GroupEvent Float} (fits : Fits event) (finite : IsFinite event) :
    Kind.decode? (event.members.map fun member => (some member.1, member.2)) =
      some event.kind := by
  have hmember {name : String} {value : Json} (h : (name, value) ∈ event.members) :=
    uniqueMember_members h
  obtain ⟨group, kind⟩ := event
  obtain ⟨-, hpipe⟩ := fits
  rw [Kind.decode?]
  cases kind with
  | pipeStarted pipe duration =>
      rw [hmember (.tail _ (.head _)), hmember (.tail _ (.tail _ (.head _))),
        hmember (.tail _ (.tail _ (.tail _ (.head _))))]
      exact bind_required hpipe trivial (bind_required trivial finite rfl)
  | pipeLooped pipe =>
      rw [hmember (.tail _ (.head _)), hmember (.tail _ (.tail _ (.head _)))]
      exact bind_required hpipe trivial rfl
  | pipeCompleted pipe =>
      rw [hmember (.tail _ (.head _)), hmember (.tail _ (.tail _ (.head _)))]
      exact bind_required hpipe trivial rfl
  | groupCompleted =>
      rw [hmember (.tail _ (.head _))]
      rfl

theorem decodeWithin?_encode {event : GroupEvent Float} (fits : Fits event)
    (finite : IsFinite event) (room : Nat) : decodeWithin? room event.encode = some event := by
  have hfields : event.encode =
      .object (event.members.map fun member => (some member.1, member.2)) := rfl
  rw [hfields, decodeWithin?, if_pos (all_isKept finite room), uniqueMember_members (.head _),
    decode?_members fits finite]
  exact bind_required fits.1 trivial rfl

theorem fits_of_decode?_kind {members : List (Option String × Json)} {kind : Kind Float}
    (h : Kind.decode? members = some kind) : Fits kind := by
  obtain ⟨found?, -, h⟩ := Option.bind_eq_some_iff.mp h
  obtain ⟨found, -, h⟩ := Option.bind_eq_some_iff.mp h
  obtain ⟨key, -, h⟩ := Option.bind_eq_some_iff.mp h
  split at h
  · obtain ⟨pipe?, -, h⟩ := Option.bind_eq_some_iff.mp h
    obtain ⟨pipe, hpipe, h⟩ := exists_of_bind_required h
    obtain ⟨duration?, -, h⟩ := Option.bind_eq_some_iff.mp h
    obtain ⟨duration, -, h⟩ := Option.bind_eq_some_iff.mp h
    cases h
    exact hpipe
  · obtain ⟨pipe?, -, h⟩ := Option.bind_eq_some_iff.mp h
    obtain ⟨pipe, hpipe, h⟩ := exists_of_bind_required h
    cases h
    exact hpipe
  · obtain ⟨pipe?, -, h⟩ := Option.bind_eq_some_iff.mp h
    obtain ⟨pipe, hpipe, h⟩ := exists_of_bind_required h
    cases h
    exact hpipe
  · cases h
    exact trivial
  · cases h

theorem fits_of_decodeWithin? {room : Nat} {json : Json} {event : GroupEvent Float}
    (h : decodeWithin? room json = some event) : Fits event := by
  cases json with
  | object members =>
      rw [decodeWithin?] at h
      split at h
      · obtain ⟨group?, -, h⟩ := Option.bind_eq_some_iff.mp h
        obtain ⟨group, hgroup, h⟩ := exists_of_bind_required h
        obtain ⟨kind, hkind, h⟩ := Option.bind_eq_some_iff.mp h
        cases h
        exact ⟨hgroup, fits_of_decode?_kind hkind⟩
      · cases h
  | _ => cases h

instance : Storable (GroupEvent Float) where
  decode_encode fits finite := decodeWithin?_encode fits finite 126
  fits_of_decode h := fits_of_decodeWithin? h

end GroupEvent

namespace StageEvent

instance : Measured (StageEvent Float) where
  IsFinite
    | group _ _ event => IsFinite event
    | animationCompleted _ _ | playbackRestarted _ _ => True
  Fits
    | group _ _ event => Fits event
    | animationCompleted _ _ | playbackRestarted _ _ => True

theorem decodeIds?_encodeIds (animation : AnimationId) (target : TargetId) :
    decodeIds? (.fields (encodeIds animation target)) = some (animation, target) := by
  rw [decodeIds?]
  refine Json.bind_record?_fields rfl (by decide) ?_
  refine bind_required trivial trivial ?_
  exact bind_required trivial trivial rfl

instance : Storable (StageEvent Float) where
  decode_encode := by
    intro event fits finite
    cases event with
    | group animation target event =>
        have hvariant : Json.variant? (encode (group animation target event)) = some ("Group",
            some (.fields (encodeIds animation target ++ [("event", encode event)]))) := rfl
        simp only [decode?, hvariant, Option.bind_eq_bind, Option.bind_some]
        refine Json.bind_record?_fields rfl (by decide) ?_
        refine bind_required trivial trivial ?_
        refine bind_required trivial trivial ?_
        change (GroupEvent.decodeWithin? 122 event.encode).bind _ = _
        rw [GroupEvent.decodeWithin?_encode fits finite]
        rfl
    | animationCompleted animation target =>
        change (decodeIds? (.fields (encodeIds animation target))).bind _ = _
        rw [decodeIds?_encodeIds]
        rfl
    | playbackRestarted animation target =>
        change (decodeIds? (.fields (encodeIds animation target))).bind _ = _
        rw [decodeIds?_encodeIds]
        rfl
  fits_of_decode := by
    intro json event h
    cases event with
    | group animation target event =>
        obtain ⟨variant, -, h⟩ := Option.bind_eq_some_iff.mp h
        split at h
        · obtain ⟨values, -, h⟩ := Option.bind_eq_some_iff.mp h
          split at h
          · obtain ⟨animation, -, h⟩ := Option.bind_eq_some_iff.mp h
            obtain ⟨target, -, h⟩ := Option.bind_eq_some_iff.mp h
            obtain ⟨content, -, h⟩ := Option.bind_eq_some_iff.mp h
            obtain ⟨found, hfound, h⟩ := Option.bind_eq_some_iff.mp h
            cases h
            exact GroupEvent.fits_of_decodeWithin? hfound
          · cases h
        · obtain ⟨ids, -, h⟩ := Option.bind_eq_some_iff.mp h
          cases h
        · obtain ⟨ids, -, h⟩ := Option.bind_eq_some_iff.mp h
          cases h
        · cases h
    | animationCompleted animation target => exact trivial
    | playbackRestarted animation target => exact trivial

end StageEvent

/-! ## Reports -/

namespace Report

instance : Measured (Report Float) where
  IsFinite report := IsFinite report.changes ∧ IsFinite report.events
  Fits report := Fits report.events

/-- What a report is read back as: the same changes and events, and nothing that a
later write could touch. -/
def reread (report : Report Float) : Report Float :=
  ⟨report.changes, [], report.events⟩

theorem decode?_encode {report : Report Float} (fits : Fits report) (finite : IsFinite report) :
    decode? (encode report) = some report.reread := by
  obtain ⟨changes, events⟩ := finite
  have hplain : Fits report.changes := fun _ _ => trivial
  refine Json.bind_record?_fields rfl (by decide) ?_
  refine bind_optional hplain changes ?_
  exact bind_optional fits events rfl

theorem fits_of_decode? {json : Json} {report : Report Float} (h : decode? json = some report) :
    Fits report ∧ report.written = [] := by
  obtain ⟨values, -, h⟩ := Option.bind_eq_some_iff.mp h
  split at h
  · obtain ⟨changes, -, h⟩ := Option.bind_eq_some_iff.mp h
    obtain ⟨events, hevents, h⟩ := exists_of_bind_optional (fun _ => nofun) h
    cases h
    exact ⟨hevents, rfl⟩
  · cases h

end Report

/-! ## All documents -/

structure RoundTrips (α : Type) [Document α] [Measured α] : Prop where
  decode_encode : ∀ value : α, Fits value → IsFinite value → decode? (encode value) = some value
  encode_injective : ∀ first second : α, Fits first → IsFinite first → Fits second →
    IsFinite second → encode first = encode second → first = second
  decode_decode : ∀ json (value : α), decode? json = some value → IsFinite value →
    decode? (encode value) = some value

theorem roundTrips_of_storable (α : Type) [Document α] [Measured α] [Storable α] :
    RoundTrips α where
  decode_encode _ fits finite := Storable.decode_encode fits finite
  encode_injective first second hfits hfinite hfits' hfinite' heq := by
    have hfirst := Storable.decode_encode hfits hfinite
    rw [heq, Storable.decode_encode hfits' hfinite'] at hfirst
    exact (Option.some.inj hfirst).symm
  decode_decode _ _ h finite := Storable.decode_encode (fits_of_decode h) finite

structure Report.RoundTrips : Prop where
  decode_encode : ∀ report : Report Float, Fits report → IsFinite report →
    ∃ found : Report Float, decode? (encode report) = some found ∧
      found.changes = report.changes ∧ found.events = report.events
  encode_injective : ∀ first second : Report Float, Fits first → IsFinite first → Fits second →
    IsFinite second → encode first = encode second →
      first.changes = second.changes ∧ first.events = second.events
  decode_decode : ∀ json (report : Report Float), decode? json = some report →
    IsFinite report → decode? (encode report) = some report

theorem Report.roundTrips_told : Report.RoundTrips where
  decode_encode report fits finite :=
    ⟨report.reread, decode?_encode fits finite, List.append_nil _, rfl⟩
  encode_injective first second hfits hfinite hfits' hfinite' heq := by
    have hfirst := decode?_encode hfits hfinite
    rw [heq, decode?_encode hfits' hfinite'] at hfirst
    have hsame := Option.some.inj hfirst
    exact ⟨(congrArg Report.loaded hsame).symm, (congrArg Report.events hsame).symm⟩
  decode_decode json report h finite := by
    obtain ⟨hfits, hwritten⟩ := fits_of_decode? h
    rw [decode?_encode hfits finite, reread, changes, hwritten, List.append_nil, ← hwritten]

theorem Document.all_roundTrip :
    RoundTrips (Target Float) ∧ RoundTrips Script ∧ RoundTrips (Config Float) ∧
      RoundTrips (Timer Float) ∧ RoundTrips (Plan Float) ∧ RoundTrips (Action Float) ∧
      RoundTrips (Grid Float) ∧ RoundTrips (GroupEvent Float) ∧ RoundTrips Repetition ∧
      RoundTrips Easing ∧ RoundTrips Channel ∧ RoundTrips Operator ∧
      RoundTrips (Change Float) ∧ RoundTrips (StageEvent Float) ∧ Report.RoundTrips :=
  ⟨roundTrips_of_storable _, roundTrips_of_storable _, roundTrips_of_storable _,
    roundTrips_of_storable _, roundTrips_of_storable _, roundTrips_of_storable _,
    roundTrips_of_storable _, roundTrips_of_storable _, roundTrips_of_storable _,
    roundTrips_of_storable _, roundTrips_of_storable _, roundTrips_of_storable _,
    roundTrips_of_storable _, roundTrips_of_storable _, Report.roundTrips_told⟩

/-- An event in one flat object, and a configuration in an array that ends early. -/
theorem Document.all_roundTrip_of_flat_event :
    let event : GroupEvent Float := ⟨1, .pipeStarted 2 0.5⟩
    let other : GroupEvent Float := ⟨1, .pipeLooped 2⟩
    let array : Json := .array [.real 0.25, .natural 2]
    let config : Config Float :=
      { Config.standard with defaultDuration := 0.25, pauseFactor := 2 }
    (encode event = .fields [("group", .natural 1), ("kind", .text "pipeStarted"),
        ("pipe", .natural 2), ("duration", .real 0.5)] ∧
      Fits event ∧ IsFinite event ∧ decode? (encode event) = some event) ∧
      (Fits other ∧ IsFinite other ∧ encode event ≠ encode other) ∧
      decode? array = some config ∧ IsFinite config ∧
        decode? (encode config) = some config := by
  intro event other array config
  obtain ⟨-, -, configs, -, -, -, -, events, -⟩ := all_roundTrip
  have hfits : Fits event := ⟨(by decide : Fits 1), (by decide : Fits 2)⟩
  have hfinite : IsFinite event := (by decide : Float.isFinite 0.5 = true)
  have hother : Fits other := ⟨(by decide : Fits 1), (by decide : Fits 2)⟩
  have hdistinct : encode event ≠ encode other := by
    intro heq
    have hsame := events.encode_injective event other hfits hfinite hother trivial heq
    have hkind : GroupEvent.Kind.pipeStarted 2 (0.5 : Float) = .pipeLooped 2 :=
      congrArg GroupEvent.kind hsame
    cases hkind
  have hread : decode? array = some config := by decide +kernel
  have hconfig : IsFinite config :=
    ⟨(by decide : Float.isFinite 0.25 = true), (by decide : Float.isFinite 2 = true),
      (by decide +kernel : Float.isFinite config.timeScale = true)⟩
  exact ⟨⟨rfl, hfits, hfinite, events.decode_encode event hfits hfinite⟩,
    ⟨hother, trivial, hdistinct⟩, hread, hconfig,
    configs.decode_decode array config hread hconfig⟩

example :
    decode? (.fields [("repeat", .bool true), ("speed", .null), ("notation", .text "x1")]) =
      some (⟨none, "x1", true⟩ : Script) := rfl

end MotionNotation
