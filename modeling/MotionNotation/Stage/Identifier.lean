/-!
# Identifiers

Targets and animations are numbered by two counters of one machine word each,
which start again at zero when they have run through.
-/

namespace MotionNotation

structure TargetId where
  val : UInt32
  deriving DecidableEq, Repr

structure AnimationId where
  val : UInt32
  deriving DecidableEq, Repr

def TargetId.label (id : TargetId) : String :=
  "TargetId(" ++ id.val.toNat.repr ++ ")"

def AnimationId.label (id : AnimationId) : String :=
  "AnimationId(" ++ id.val.toNat.repr ++ ")"

structure IdCounter where
  nextTarget : UInt32
  nextAnimation : UInt32
  deriving DecidableEq, Repr

namespace IdCounter

def start : IdCounter :=
  ⟨0, 0⟩

def takeTarget (ids : IdCounter) : TargetId × IdCounter :=
  (⟨ids.nextTarget⟩, { ids with nextTarget := ids.nextTarget + 1 })

def takeAnimation (ids : IdCounter) : AnimationId × IdCounter :=
  (⟨ids.nextAnimation⟩, { ids with nextAnimation := ids.nextAnimation + 1 })

theorem takeAnimation_next (ids : IdCounter) :
    ids.takeAnimation.2.nextAnimation.toNat = (ids.nextAnimation.toNat + 1) % 4294967296 := by
  simp [takeAnimation, UInt32.toNat_add]

end IdCounter

end MotionNotation
