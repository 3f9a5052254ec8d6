import MotionNotation.Proofs.Playback.Writes

/-!
# Starts that write in place

A launch returns the target that it has written, and nothing if it fails.  Here
the same start is a program on a target that stays as it was written, whatever
comes later: it reads one group after the other, then starts one after the
other, and whatever happens is seen at once.
-/

namespace MotionNotation

/-- A program that may fail, but does not undo what it has done to the state. -/
abbrev InPlace (σ ε β : Type) :=
  ExceptT ε (StateM σ) β

namespace InPlace

variable {σ ε β γ : Type}

def exec (program : InPlace σ ε β) (state : σ) : Except ε β × σ :=
  program.run.run state

@[simp] theorem exec_pure (value : β) (state : σ) :
    exec (pure value : InPlace σ ε β) state = (.ok value, state) := rfl

@[simp] theorem exec_throw (error : ε) (state : σ) :
    exec (throw error : InPlace σ ε β) state = (.error error, state) := rfl

@[simp] theorem exec_get (state : σ) :
    exec (get : InPlace σ ε σ) state = (.ok state, state) := rfl

@[simp] theorem exec_modify (change : σ → σ) (state : σ) :
    exec (modify change : InPlace σ ε PUnit) state = (.ok ⟨⟩, change state) := rfl

@[simp] theorem exec_lift (answer : Except ε β) (state : σ) :
    exec (liftM answer : InPlace σ ε β) state = (answer, state) := by
  cases answer <;> rfl

theorem exec_bind (program : InPlace σ ε β) (next : β → InPlace σ ε γ) (state : σ) :
    exec (program >>= next) state =
      match exec program state with
      | (.ok value, after) => exec (next value) after
      | (.error error, after) => (.error error, after) := by
  simp only [exec, ExceptT.run_bind, StateT.run_bind]
  obtain ⟨answer, after⟩ := program.run.run state
  cases answer <;> rfl

theorem exec_map (change : β → γ) (program : InPlace σ ε β) (state : σ) :
    exec (change <$> program) state =
      match exec program state with
      | (.ok value, after) => (.ok (change value), after)
      | (.error error, after) => (.error error, after) := by
  rw [map_eq_pure_bind, exec_bind]
  rfl

end InPlace

structure Scene (α : Type) where
  target : Target α
  told : List (GroupBeat α)
  deriving DecidableEq, Repr

namespace Scene

variable {α : Type}

def play (scene : Scene α) (entry : GroupBeat α) : Scene α where
  target := match entry.beat.write? with
    | some write => scene.target.set write.channel write.value
    | none => scene.target
  told := scene.told ++ [entry]

end Scene

namespace Animation

variable {α : Type} [Scalar α]

def readInPlace (config : Config α) :
    List String → InPlace (Scene α) CapacityExceeded (List (Segment α))
  | [] => return []
  | text :: rest => do
    let scene ← get
    let segment ← liftM (Segment.read config scene.target text)
    let segments ← readInPlace config rest
    return segment :: segments

variable [Eases α]

def tellInPlace (group : Nat) : List (Beat α) → InPlace (Scene α) CapacityExceeded PUnit
  | [] => return ⟨⟩
  | beat :: rest => do
    modify (Scene.play · ⟨group, beat⟩)
    tellInPlace group rest

def startInPlace (group : Nat) (signal : Option Nat) (now : α) :
    List (Segment α) → InPlace (Scene α) CapacityExceeded (List (Track α))
  | [] => return []
  | segment :: rest => do
    let scene ← get
    let turn := Track.start segment.steps signal scene.target now
    tellInPlace group turn.beats
    let tracks ← startInPlace (group + 1) none now rest
    return turn.track :: tracks

def launchInPlace (config : Config α) (text : String) (now : α) (signal : Option Nat) :
    InPlace (Scene α) CapacityExceeded (Animation α) := do
  let segments ← readInPlace config (Groups.ofText text)
  let tracks ← startInPlace 0 signal now segments
  return ⟨tracks⟩

omit [Eases α] in
theorem exec_readInPlace (config : Config α) (texts : List String) (scene : Scene α) :
    (readInPlace config texts).exec scene =
      (Segment.readEach config scene.target texts, scene) := by
  induction texts with
  | nil => rfl
  | cons text rest ih =>
      simp only [readInPlace, Segment.readEach, InPlace.exec_bind, InPlace.exec_get,
        InPlace.exec_lift]
      cases Segment.read config scene.target text with
      | error full => rfl
      | ok segment =>
          simp only [ih]
          cases Segment.readEach config scene.target rest <;> rfl

omit [Scalar α] [Eases α] in
theorem exec_tellInPlace (group : Nat) (beats : List (Beat α)) (scene : Scene α) :
    (tellInPlace group beats).exec scene =
      (.ok ⟨⟩, ⟨scene.target.writeAll (Beat.writes beats),
        scene.told ++ beats.map (⟨group, ·⟩)⟩) := by
  induction beats generalizing scene with
  | nil => simp [tellInPlace, Beat.writes]
  | cons beat rest ih =>
      simp only [tellInPlace, InPlace.exec_bind, InPlace.exec_modify, ih, Scene.play]
      cases hwrite : beat.write? <;> simp [Beat.writes, hwrite]

theorem exec_startInPlace (group : Nat) (signal : Option Nat) (now : α)
    (segments : List (Segment α)) (scene : Scene α) :
    (startInPlace group signal now segments).exec scene =
      (.ok (startFrom group signal scene.target now segments).animation.tracks,
        ⟨(startFrom group signal scene.target now segments).target,
          scene.told ++ (startFrom group signal scene.target now segments).beats⟩) := by
  induction segments generalizing group signal scene with
  | nil => simp [startInPlace, startFrom]
  | cons segment rest ih =>
      simp only [startInPlace, InPlace.exec_bind, InPlace.exec_get, exec_tellInPlace, ih,
        InPlace.exec_pure, startFrom, cons_tracks, cons_target, cons_beats,
        ← Track.start_target, List.append_assoc]

/-- Done in place, a launch leaves what it returns, and if it fails everything as it was. -/
theorem exec_launchInPlace (config : Config α) (text : String) (now : α) (signal : Option Nat)
    (scene : Scene α) :
    (launchInPlace config text now signal).exec scene =
      match launch config scene.target text now signal with
      | .ok turn => (.ok turn.animation, ⟨turn.target, scene.told ++ turn.beats⟩)
      | .error full => (.error full, scene) := by
  simp only [launchInPlace, launch, Segment.readAll, InPlace.exec_bind, exec_readInPlace]
  cases Segment.readEach config scene.target (Groups.ofText text) with
  | error full => rfl
  | ok segments =>
      simp only [exec_startInPlace, InPlace.exec_pure]
      rfl

end Animation

end MotionNotation
