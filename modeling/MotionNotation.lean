import MotionNotation.Description.Staged
import MotionNotation.Document.Playback
import MotionNotation.Journal.Playing
import MotionNotation.Json.Reader
import MotionNotation.Json.Writer
import MotionNotation.Proofs.Description.Meaning
import MotionNotation.Proofs.Description.NamedEasing
import MotionNotation.Proofs.Description.Numerals
import MotionNotation.Proofs.Description.Punctual
import MotionNotation.Proofs.Document.RoundTrip
import MotionNotation.Proofs.Easing.Course
import MotionNotation.Proofs.Notation.Capacity
import MotionNotation.Proofs.Notation.EmptyPipe
import MotionNotation.Proofs.Notation.Grammar
import MotionNotation.Proofs.Notation.PlaceValue
import MotionNotation.Proofs.Notation.Splitting
import MotionNotation.Proofs.Notation.Storage
import MotionNotation.Proofs.Playback.Destination
import MotionNotation.Proofs.Playback.Duration
import MotionNotation.Proofs.Playback.ExtraFrame
import MotionNotation.Proofs.Playback.Handover
import MotionNotation.Proofs.Playback.Playhead
import MotionNotation.Proofs.Playback.Product
import MotionNotation.Proofs.Playback.Signal
import MotionNotation.Proofs.Stage.Isolation
import MotionNotation.Proofs.Stage.LastWrite
import MotionNotation.Proofs.Stage.Lifetime
import MotionNotation.Proofs.Stage.Mirror
import MotionNotation.Proofs.Stage.Refusal
import MotionNotation.Proofs.Stage.Relevance
import MotionNotation.Proofs.Stage.Reuse
import MotionNotation.Samples.Catalogue
import MotionNotation.Stage.Clock
