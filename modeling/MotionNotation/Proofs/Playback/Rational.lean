import Mathlib.Data.Rat.Floor
import Mathlib.Tactic.Linarith
import MotionNotation.Proofs.Playback.Timekeeping

/-!
# Rational playback

Rationals do not round.  A run then lasts exactly as long as its timer says, and
a value that has gone all its way is at the goal.
-/

namespace MotionNotation

namespace Scalar

theorem clampNonneg_rat (x : Rat) : clampNonneg x = max x 0 := by
  unfold clampNonneg
  split
  · rename_i h
    exact (max_eq_left (le_of_lt h)).symm
  · rename_i h
    exact (max_eq_right (not_lt.mp h)).symm

theorem ofNat_rat (count : Nat) : (Scalar.ofNat count : Rat) = count := rfl

theorem lerp_one (origin goal : Rat) : lerp origin goal 1 = goal := by
  unfold lerp
  ring

end Scalar

/-! ## Counts -/

namespace Repetition

def Counts : Repetition → Prop
  | finite count => 1 ≤ count
  | infinite => True

theorem ofValue_counts (value : Rat) : (ofValue value).Counts := by
  unfold ofValue
  split
  · exact trivial
  · split
    · exact Nat.le_refl 1
    · rename_i hmany
      split
      · have hfloor : (1 : Int) ≤ value.floor :=
          Rat.le_floor_iff.mpr (by exact_mod_cast le_of_lt (not_le.mp hmany))
        have hcount : 1 ≤ value.floor.toNat := by omega
        exact hcount
      · exact (by decide : 1 ≤ maxCount)

end Repetition

theorem PipePlan.ofActions_counts (config : Config Rat) (index : Nat)
    (actions : List (Action Rat)) : (ofActions config index actions).repetition.Counts := by
  simp only [ofActions]
  cases (loopRequests actions).getLast? with
  | none => exact Nat.le_refl 1
  | some request => exact Repetition.ofValue_counts request.1

theorem Plan.ofGrid_counts (config : Config Rat) (grid : Grid Rat) :
    ∀ plan ∈ (ofGrid config grid).pipes, plan.repetition.Counts := by
  intro plan hmem
  obtain ⟨entry, -, rfl⟩ := List.mem_map.mp hmem
  exact PipePlan.ofActions_counts config entry.1 entry.2

/-! ## Runs -/

namespace Timer

structure Clocked (timer : Timer Rat) (time : Rat) : Prop where
  running : timer.state = .running
  nonneg : 0 ≤ timer.duration
  ends : timer.ends = timer.begins + timer.duration
  begins : timer.begins ≤ time

variable {timer : Timer Rat} {time now : Rat}

theorem Clocked.mono (h : timer.Clocked time) (later : time ≤ now) : timer.Clocked now :=
  ⟨h.running, h.nonneg, h.ends, h.begins.trans later⟩

theorem start_clocked (now duration : Rat) (repetition : Repetition) :
    (start now duration repetition).Clocked now where
  running := rfl
  nonneg := by
    simp only [start, Scalar.clampNonneg_rat]
    exact le_max_right duration 0
  ends := rfl
  begins := le_refl now

theorem Clocked.restart (h : timer.Clocked time) (remaining : Repetition) (now : Rat) :
    ({ timer with remaining }.restart now).Clocked now :=
  ⟨h.running, h.nonneg, rfl, le_refl now⟩

theorem Clocked.progress_lt_one_iff (h : timer.Clocked time) (later : time ≤ now) :
    timer.progress now < 1 ↔ now < timer.ends := by
  have hbegins : timer.begins ≤ now := h.begins.trans later
  unfold progress
  split
  · rename_i hsame
    have hends : timer.ends = timer.begins := by simpa using hsame
    constructor
    · intro hlt
      exact absurd hlt (lt_irrefl _)
    · intro hlt
      exact absurd (hends ▸ hlt) (not_lt.mpr hbegins)
  · rename_i hdiffer
    have hends : timer.ends ≠ timer.begins := by simpa using hdiffer
    have hnonneg := h.nonneg
    have hlength : 0 < timer.ends - timer.begins := by
      have hle : timer.begins ≤ timer.ends := by rw [h.ends]; linarith
      exact sub_pos.mpr (lt_of_le_of_ne hle (Ne.symm hends))
    rw [Scalar.clampNonneg_rat]
    calc
      _ ↔ (now - timer.begins) / (timer.ends - timer.begins) < 1 := by
        rw [max_lt_iff]
        exact and_iff_left one_pos
      _ ↔ now - timer.begins < timer.ends - timer.begins := div_lt_one hlength
      _ ↔ now < timer.ends := sub_lt_sub_iff_right _

theorem Clocked.advance_of_lt (h : timer.Clocked time) (later : time ≤ now)
    (early : now < timer.ends) : timer.advance now = (.progress (timer.progress now), timer) := by
  simp only [advance, h.running]
  exact if_pos ((h.progress_lt_one_iff later).mpr early)

theorem Clocked.advance_of_le (h : timer.Clocked time) (later : time ≤ now)
    (late : timer.ends ≤ now) : timer.advance now = timer.endRun now := by
  simp only [advance, h.running]
  exact if_neg fun hlt => not_lt.mpr late ((h.progress_lt_one_iff later).mp hlt)

end Timer

end MotionNotation
