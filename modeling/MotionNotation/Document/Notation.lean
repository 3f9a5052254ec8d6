import MotionNotation.Json.Document
import MotionNotation.Plan

/-!
# Documents of targets, configurations and plans
-/

namespace MotionNotation

/-! ## Names as variants -/

instance : Document Easing where
  encode easing := .text easing.key
  decode? json := (Json.unitVariant? json).bind fun name => Easing.all.find? (·.key == name)

instance : Document Channel where
  encode channel := .text channel.name
  decode? json := (Json.unitVariant? json).bind Channel.ofName?

instance : Document Operator where
  encode operator := .text operator.key
  decode? json := (Json.unitVariant? json).bind fun name => Operator.all.find? (·.key == name)

namespace LoopMode

def key : LoopMode → String
  | absolute => "Absolute"
  | relative => "Relative"

def ofKey? (key : String) : Option LoopMode :=
  [absolute, relative].find? (·.key == key)

end LoopMode

instance : Document LoopMode where
  encode mode := .text mode.key
  decode? json := (Json.unitVariant? json).bind LoopMode.ofKey?

instance : Document Repetition where
  encode
    | .finite count => .fields [("finite", .natural count)]
    | .infinite => .text "infinite"
  decode? json :=
    match Json.variant? json with
    | some ("finite", some count) => (Json.natural? 32 count).map .finite
    | some ("infinite", none) => some .infinite
    | some ("infinite", some .null) => some .infinite
    | _ => none

/-! ## Records -/

instance {α : Type} [Document α] : Document (Triple α) where
  encode triple :=
    .array [Document.encode triple.x, Document.encode triple.y, Document.encode triple.z]
  decode?
    | .array [x, y, z] => do
      return ⟨← Document.decode? x, ← Document.decode? y, ← Document.decode? z⟩
    | _ => none

instance {α : Type} [Scalar α] [Document α] : Document (Target α) where
  encode target := .fields [
    ("translation", Document.encode target.translation),
    ("rotation", Document.encode target.rotation),
    ("scale", Document.encode target.scale),
    ("alpha", Document.encode target.alpha),
    ("width", Document.encode target.width),
    ("height", Document.encode target.height),
    ("sibling_index", Document.encode target.siblingIndex)]
  decode? json := do
    let standard : Target α := .standard
    match ← json.record? ["translation", "rotation", "scale", "alpha", "width", "height",
        "sibling_index"] with
    | [translation, rotation, scale, alpha, width, height, siblingIndex] =>
      return {
        translation := ← Document.optional standard.translation translation
        rotation := ← Document.optional standard.rotation rotation
        scale := ← Document.optional standard.scale scale
        alpha := ← Document.optional standard.alpha alpha
        width := ← Document.optional standard.width width
        height := ← Document.optional standard.height height
        siblingIndex := ← Document.optional standard.siblingIndex siblingIndex }
    | _ => none

instance {α : Type} [Scalar α] [Document α] : Document (Config α) where
  encode config := .fields [
    ("default_duration", Document.encode config.defaultDuration),
    ("pause_factor", Document.encode config.pauseFactor),
    ("time_scale", Document.encode config.timeScale),
    ("max_pipes", Document.encode config.maxPipes),
    ("max_actions", Document.encode config.maxActions),
    ("default_easing", Document.encode config.defaultEasing)]
  decode? json := do
    let standard : Config α := .standard
    match ← json.record? ["default_duration", "pause_factor", "time_scale", "max_pipes",
        "max_actions", "default_easing"] with
    | [defaultDuration, pauseFactor, timeScale, maxPipes, maxActions, defaultEasing] =>
      return {
        defaultDuration := ← Document.optional standard.defaultDuration defaultDuration
        pauseFactor := ← Document.optional standard.pauseFactor pauseFactor
        timeScale := ← Document.optional standard.timeScale timeScale
        maxPipes := ← Document.optional standard.maxPipes maxPipes
        maxActions := ← Document.optional standard.maxActions maxActions
        defaultEasing := ← Document.optional standard.defaultEasing defaultEasing }
    | _ => none

instance {α : Type} [Document α] : Document (Action α) where
  encode action := .fields [
    ("op", Document.encode action.operator),
    ("inverse", Document.encode action.inverse),
    ("literal", Document.encode action.literal),
    ("value", Document.encode action.value),
    ("from", Document.encode action.origin),
    ("to", Document.encode action.goal),
    ("easing", Document.encode action.easing)]
  decode? json := do
    match ← json.record? ["op", "inverse", "literal", "value", "from", "to", "easing"] with
    | [operator, inverse, literal, value, origin, goal, easing] =>
      return {
        operator := ← Document.required operator
        inverse := ← Document.required inverse
        literal := ← Document.optional none literal
        value := ← Document.required value
        origin := ← Document.required origin
        goal := ← Document.required goal
        easing := ← Document.required easing }
    | _ => none

instance {α : Type} [Document α] : Document (Grid α) where
  encode grid := .fields [
    ("pipes", Document.encode grid.pipes),
    ("max_pipes", Document.encode grid.maxPipes),
    ("max_actions", Document.encode grid.maxActions)]
  decode? json := do
    match ← json.record? ["pipes", "max_pipes", "max_actions"] with
    | [pipes, maxPipes, maxActions] =>
      return {
        pipes := ← Document.required pipes
        maxPipes := ← Document.required maxPipes
        maxActions := ← Document.required maxActions }
    | _ => none

instance {α : Type} [Document α] : Document (PipePlan α) where
  encode plan := .fields [
    ("index", Document.encode plan.index),
    ("duration", Document.encode plan.duration),
    ("loops", Document.encode plan.repetition),
    ("mode", Document.encode plan.mode)]
  decode? json := do
    match ← json.record? ["index", "duration", "loops", "mode"] with
    | [index, duration, repetition, mode] =>
      return {
        index := ← Document.required index
        duration := ← Document.required duration
        repetition := ← Document.required repetition
        mode := ← Document.required mode }
    | _ => none

instance {α : Type} [Document α] : Document (Plan α) where
  encode plan := .fields [("pipes", Document.encode plan.pipes)]
  decode? json := do
    match ← json.record? ["pipes"] with
    | [pipes] => return ⟨← Document.required pipes⟩
    | _ => none

end MotionNotation
