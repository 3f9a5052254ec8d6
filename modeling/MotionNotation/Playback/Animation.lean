import MotionNotation.Playback.Track

/-!
# Animations

An animation runs all groups of one notation at the same time on one target.
The groups are started and advanced in their order, each on the target that the
one before it has left.
-/

namespace MotionNotation

structure Animation (α : Type) where
  tracks : List (Track α)
  deriving DecidableEq, Repr

structure GroupBeat (α : Type) where
  group : Nat
  beat : Beat α
  deriving DecidableEq, Repr

namespace GroupBeat

variable {α : Type}

def events (beats : List (GroupBeat α)) : List (GroupEvent α) :=
  beats.filterMap fun entry => entry.beat.event?.map fun kind => ⟨entry.group, kind⟩

def writes (beats : List (GroupBeat α)) : List (Write α) :=
  beats.filterMap (·.beat.write?)

def signals (beats : List (GroupBeat α)) : List Nat :=
  beats.filterMap (·.beat.signal?)

end GroupBeat

namespace Animation

variable {α : Type}

inductive Status where
  | running
  | finished
  deriving DecidableEq, Repr

structure Turn (α : Type) where
  animation : Animation α
  target : Target α
  beats : List (GroupBeat α)
  deriving DecidableEq, Repr

def isFinished (animation : Animation α) : Bool :=
  animation.tracks.all Track.isFinished

def status (animation : Animation α) : Status :=
  if animation.isFinished then .finished else .running

def groupCount (animation : Animation α) : Nat :=
  animation.tracks.length

def summary (animation : Animation α) : String :=
  "Animation \x7b groups: " ++ animation.groupCount.repr ++ ", finished: " ++
    (if animation.isFinished then "true" else "false") ++ " \x7d"

def Turn.cons (turn : Turn α) (group : Nat) (track : Track.Turn α) : Turn α where
  animation := ⟨track.track :: turn.animation.tracks⟩
  target := turn.target
  beats := track.beats.map (⟨group, ·⟩) ++ turn.beats

@[simp] theorem cons_tracks (turn : Turn α) (group : Nat) (track : Track.Turn α) :
    (turn.cons group track).animation.tracks = track.track :: turn.animation.tracks := rfl

@[simp] theorem cons_target (turn : Turn α) (group : Nat) (track : Track.Turn α) :
    (turn.cons group track).target = turn.target := rfl

@[simp] theorem cons_beats (turn : Turn α) (group : Nat) (track : Track.Turn α) :
    (turn.cons group track).beats = track.beats.map (⟨group, ·⟩) ++ turn.beats := rfl

variable [Scalar α] [Eases α]

def startFrom (group : Nat) (signal : Option Nat) (target : Target α) (now : α) :
    List (Segment α) → Turn α
  | [] => ⟨⟨[]⟩, target, []⟩
  | segment :: rest =>
    let turn := Track.start segment.steps signal target now
    (startFrom (group + 1) none turn.target now rest).cons group turn

def start (segments : List (Segment α)) (target : Target α) (now : α) (signal : Option Nat) :
    Turn α :=
  startFrom 0 signal target now segments

def updateFrom (group : Nat) (target : Target α) (now : α) : List (Track α) → Turn α
  | [] => ⟨⟨[]⟩, target, []⟩
  | track :: rest =>
    let turn := track.update target now
    (updateFrom (group + 1) turn.target now rest).cons group turn

def update (animation : Animation α) (target : Target α) (now : α) : Turn α :=
  updateFrom 0 target now animation.tracks

theorem length_startFrom (group : Nat) (signal : Option Nat) (target : Target α) (now : α)
    (segments : List (Segment α)) :
    (startFrom group signal target now segments).animation.tracks.length = segments.length := by
  induction segments generalizing group signal target with
  | nil => rfl
  | cons segment rest ih => simp [startFrom, ih]

theorem length_updateFrom (group : Nat) (target : Target α) (now : α) (tracks : List (Track α)) :
    (updateFrom group target now tracks).animation.tracks.length = tracks.length := by
  induction tracks generalizing group target with
  | nil => rfl
  | cons track rest ih => simp [updateFrom, ih]

@[simp] theorem groupCount_update (animation : Animation α) (target : Target α) (now : α) :
    (animation.update target now).animation.groupCount = animation.groupCount :=
  length_updateFrom ..

/-- Reads a notation and starts it.  Nothing is written if a group does not
fit. -/
def launch (config : Config α) (target : Target α) (text : String) (now : α)
    (signal : Option Nat) : Except CapacityExceeded (Turn α) :=
  match Segment.readAll config target text with
  | .error full => .error full
  | .ok segments => .ok (start segments target now signal)

theorem launch_ok {config : Config α} {target : Target α} {text : String} {now : α}
    {signal : Option Nat} {turn : Turn α}
    (h : launch config target text now signal = .ok turn) :
    ∃ segments, Segment.readAll config target text = .ok segments ∧
      turn = start segments target now signal := by
  unfold launch at h
  split at h
  · cases h
  · rename_i segments hread
    cases h
    exact ⟨segments, hread, rfl⟩

end Animation

end MotionNotation
