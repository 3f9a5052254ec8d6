import MotionNotation.Description.Basic
import MotionNotation.Document.Notation
import MotionNotation.Json.Reader
import MotionNotation.Samples.Files

/-!
# The catalogue of samples

Samples are looked up by kind and name, and read as documents.
-/

namespace MotionNotation.Samples

inductive Kind where
  | descriptions
  | configs
  deriving DecidableEq, Repr

structure Entry where
  name : String
  path : String
  text : String
  deriving DecidableEq, Repr

namespace Kind

def word : Kind → String
  | descriptions => "description"
  | configs => "config"

def entries : Kind → List Entry
  | descriptions =>
    [⟨"basic", "descriptions/basic.json", basicText⟩,
      ⟨"measured", "descriptions/measured.json", measuredText⟩]
  | configs =>
    [⟨"slow", "configs/slow.json", slowText⟩, ⟨"tight", "configs/tight.json", tightText⟩]

def names (kind : Kind) : List String :=
  kind.entries.map (·.name)

end Kind

inductive Error where
  | unknown (kind : Kind) (name : String)
  | malformed (path : String)
  deriving DecidableEq, Repr

def Error.message : Error → String
  | .unknown kind name => "unknown " ++ kind.word ++ " fixture '" ++ name ++ "'"
  | .malformed path => "failed to parse JSON fixture " ++ path

def find (kind : Kind) (name : String) : Except Error Entry :=
  match kind.entries.find? (·.name == name) with
  | some entry => .ok entry
  | none => .error (.unknown kind name)

def load {β : Type} [Document β] (kind : Kind) (name : String) : Except Error β :=
  match find kind name with
  | .error error => .error error
  | .ok entry =>
    match (Json.ofText? entry.text).bind Document.decode? with
    | some value => .ok value
    | none => .error (.malformed entry.path)

/-! ## Cases -/

structure Measurements where
  width : Float
  height : Float
  siblingIndex : Nat
  deriving DecidableEq, Repr

namespace Measurements

def none : Measurements :=
  ⟨0, 0, 0⟩

def target (measurements : Measurements) : Target Float :=
  { Target.standard with
    width := measurements.width
    height := measurements.height
    siblingIndex := measurements.siblingIndex }

end Measurements

instance : Document Measurements where
  encode measurements := .fields [
    ("width", Document.encode measurements.width),
    ("height", Document.encode measurements.height),
    ("sibling_index", Document.encode measurements.siblingIndex)]
  decode? json := do
    match ← json.record? ["width", "height", "sibling_index"] with
    | [width, height, siblingIndex] =>
      return {
        width := ← Document.optional 0 width
        height := ← Document.optional 0 height
        siblingIndex := ← Document.optional 0 siblingIndex }
    | _ => Option.none

structure Case where
  text : String
  measurements : Measurements
  description : String
  deriving DecidableEq, Repr

instance : Document Case where
  encode sample := .fields [
    ("notation", Document.encode sample.text),
    ("target", Document.encode sample.measurements),
    ("description", Document.encode sample.description)]
  decode? json := do
    match ← json.record? ["notation", "target", "description"] with
    | [text, measurements, description] =>
      return {
        text := ← Document.required text
        measurements := ← Document.optional Measurements.none measurements
        description := ← Document.required description }
    | _ => Option.none

def Case.describe (sample : Case) (config : Config Float) : Except CapacityExceeded String :=
  Description.describe config sample.measurements.target sample.text

end MotionNotation.Samples
