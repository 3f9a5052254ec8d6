import MotionNotation.Document.Notation
import MotionNotation.Stage.Basic

/-!
# Documents of timers, scripts and reports

An event of a group is one flat object: the number of the group, the kind of the
event and the fields of that kind.  All its members are kept until the kind is
known, so each of them has to be sound and cannot be nested without bound.
-/

namespace MotionNotation

namespace Timer.State

def key : State → String
  | running => "Running"
  | completed => "Completed"

def ofKey? (key : String) : Option State :=
  [running, completed].find? (·.key == key)

end Timer.State

instance : Document Timer.State where
  encode state := .text state.key
  decode? json := (Json.unitVariant? json).bind Timer.State.ofKey?

instance {α : Type} [Document α] : Document (Timer α) where
  encode timer := .fields [
    ("start", Document.encode timer.begins),
    ("end", Document.encode timer.ends),
    ("duration", Document.encode timer.duration),
    ("loops", Document.encode timer.remaining),
    ("state", Document.encode timer.state)]
  decode? json := do
    match ← json.record? ["start", "end", "duration", "loops", "state"] with
    | [begins, ends, duration, remaining, state] =>
      return {
        begins := ← Document.required begins
        ends := ← Document.required ends
        duration := ← Document.required duration
        remaining := ← Document.required remaining
        state := ← Document.required state }
    | _ => none

instance : Document Script where
  encode script := .fields [
    ("intro", Document.encode script.intro),
    ("notation", Document.encode script.main),
    ("repeat", Document.encode script.repeats)]
  decode? json := do
    match ← json.record? ["intro", "notation", "repeat"] with
    | [intro, main, repeats] =>
      return {
        intro := ← Document.optional none intro
        main := ← Document.optional "" main
        repeats := ← Document.optional false repeats }
    | _ => none

/-! ## Events of groups -/

namespace GroupEvent

variable {α : Type} [Document α]

namespace Kind

def keys : List String :=
  ["pipeStarted", "pipeLooped", "pipeCompleted", "groupCompleted"]

def encode : Kind α → List (String × Json)
  | pipeStarted pipe duration =>
    [("kind", .text "pipeStarted"), ("pipe", .natural pipe),
      ("duration", Document.encode duration)]
  | pipeLooped pipe => [("kind", .text "pipeLooped"), ("pipe", .natural pipe)]
  | pipeCompleted pipe => [("kind", .text "pipeCompleted"), ("pipe", .natural pipe)]
  | groupCompleted => [("kind", .text "groupCompleted")]

/-- A kind may be given by its number as well. -/
def keyOf? : Json → Option String
  | .string content => content
  | .number (.integer value) => if value < 0 then none else keys[value.toNat]?
  | _ => none

def decode? (members : List (Option String × Json)) : Option (Kind α) := do
  let kind ← keyOf? (← ← Json.uniqueMember members "kind")
  match kind with
  | "pipeStarted" =>
    return pipeStarted (← Document.required (← Json.uniqueMember members "pipe"))
      (← Document.required (← Json.uniqueMember members "duration"))
  | "pipeLooped" => return pipeLooped (← Document.required (← Json.uniqueMember members "pipe"))
  | "pipeCompleted" =>
    return pipeCompleted (← Document.required (← Json.uniqueMember members "pipe"))
  | "groupCompleted" => return groupCompleted
  | _ => none

end Kind

def encode (event : GroupEvent α) : Json :=
  .fields (("group", .natural event.group) :: event.kind.encode)

def isKept (room : Nat) (member : Option String × Json) : Bool :=
  member.1.isSome &&
    (member.1 == some "group" || (member.2.isSound && decide (member.2.depth ≤ room)))

/-- Reads an event whose members may be nested `room` deep. -/
def decodeWithin? (room : Nat) : Json → Option (GroupEvent α)
  | .object members => do
    if members.all (isKept room) then
      return {
        group := ← Document.required (← Json.uniqueMember members "group")
        kind := ← Kind.decode? members }
    else none
  | _ => none

/-- Containers nest up to 127 deep, and the event is one of them. -/
instance : Document (GroupEvent α) where
  encode := GroupEvent.encode
  decode? := decodeWithin? 126

end GroupEvent

/-! ## Reports -/

instance : Document TargetId where
  encode id := .natural id.val.toNat
  decode? json := (Json.natural? 32 json).map fun value => ⟨value.toUInt32⟩

instance : Document AnimationId where
  encode id := .natural id.val.toNat
  decode? json := (Json.natural? 32 json).map fun value => ⟨value.toUInt32⟩

variable {α : Type} [Document α]

instance : Document (Change α) where
  encode change := .fields [
    ("target", Document.encode change.target),
    ("channel", Document.encode change.channel),
    ("value", Document.encode change.value)]
  decode? json := do
    match ← json.record? ["target", "channel", "value"] with
    | [target, channel, value] =>
      return {
        target := ← Document.required target
        channel := ← Document.required channel
        value := ← Document.required value }
    | _ => none

namespace StageEvent

def encodeIds (animation : AnimationId) (target : TargetId) : List (String × Json) :=
  [("animation", Document.encode animation), ("target", Document.encode target)]

def decodeIds? (json : Json) : Option (AnimationId × TargetId) := do
  match ← json.record? ["animation", "target"] with
  | [animation, target] =>
    return (← Document.required animation, ← Document.required target)
  | _ => none

instance : Document (StageEvent α) where
  encode
    | group animation target event =>
      .fields [("Group",
        .fields (encodeIds animation target ++ [("event", Document.encode event)]))]
    | animationCompleted animation target =>
      .fields [("AnimationCompleted", .fields (encodeIds animation target))]
    | playbackRestarted animation target =>
      .fields [("PlaybackRestarted", .fields (encodeIds animation target))]
  decode? json := do
    match ← Json.variant? json with
    | ("Group", some content) =>
      match ← content.record? ["animation", "target", "event"] with
      | [animation, target, event] =>
        return group (← Document.required animation) (← Document.required target)
          (← GroupEvent.decodeWithin? 122 (← event))
      | _ => none
    | ("AnimationCompleted", some content) =>
      let (animation, target) ← decodeIds? content
      return animationCompleted animation target
    | ("PlaybackRestarted", some content) =>
      let (animation, target) ← decodeIds? content
      return playbackRestarted animation target
    | _ => none

end StageEvent

/-- What is read was written by nobody yet, so it stays when writes follow. -/
instance : Document (Report α) where
  encode report := .fields [
    ("changes", Document.encode report.changes),
    ("events", Document.encode report.events)]
  decode? json := do
    match ← json.record? ["changes", "events"] with
    | [changes, events] =>
      return {
        loaded := ← Document.optional [] changes
        written := []
        events := ← Document.optional [] events }
    | _ => none

end MotionNotation
