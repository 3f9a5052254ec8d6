import Mathlib.Order.Interval.Set.UnorderedInterval
import MotionNotation.Easing.Transcendental
import MotionNotation.Proofs.Playback.Rational

/-!
# The course of an easing

Read over rationals the polynomial easings lead from zero to one without turning
back or passing either end.  The outward curve is the inward one seen from its
end, and the curve in both directions is made of half of each.  An action then
never leaves the way between its endpoints.
-/

namespace MotionNotation

/-- Easings that are evaluated as they are defined wherever arithmetic is enough. -/
def Eases.Faithful (α : Type) [Scalar α] [Eases α] : Prop :=
  ∀ easing curve t, easing.polynomial? (α := α) = some curve → Eases.ease easing t = curve t

theorem Eases.faithful_float : Eases.Faithful Float :=
  fun _ _ t h => Easing.apply_of_polynomial h t

namespace Easing

open Set

/-! ## Proper curves -/

structure Proper (curve : Rat → Rat) : Prop where
  start : curve 0 = 0
  finish : curve 1 = 1
  monotone : MonotoneOn curve (Icc 0 1)

def directed (inward : Rat → Rat) : Direction → Rat → Rat
  | .inward => inward
  | .outward => fun t => 1 - inward (1 - t)
  | .both => fun t => if t < 1 / 2 then inward (2 * t) / 2 else 1 - inward (2 - 2 * t) / 2

namespace Proper

variable {curve : Rat → Rat}

theorem mapsTo (h : Proper curve) : MapsTo curve (Icc 0 1) (Icc 0 1) := by
  rintro t ⟨hstart, hfinish⟩
  have hzero : (0 : Rat) ∈ Icc (0 : Rat) 1 := ⟨le_refl 0, zero_le_one⟩
  have hone : (1 : Rat) ∈ Icc (0 : Rat) 1 := ⟨zero_le_one, le_refl 1⟩
  constructor
  · rw [← h.start]
    exact h.monotone hzero ⟨hstart, hfinish⟩ hstart
  · rw [← h.finish]
    exact h.monotone ⟨hstart, hfinish⟩ hone hfinish

theorem pow {degree : Nat} (h : degree ≠ 0) : Proper fun t => t ^ degree where
  start := zero_pow h
  finish := one_pow degree
  monotone := fun _ ht _ _ hle => pow_le_pow_left₀ ht.1 hle degree

theorem outward (h : Proper curve) : Proper (directed curve .outward) where
  start := by simp [directed, h.finish]
  finish := by simp [directed, h.start]
  monotone := by
    intro t ht u hu hle
    have hback : curve (1 - u) ≤ curve (1 - t) :=
      h.monotone ⟨by linarith [hu.2], by linarith [hu.1]⟩
        ⟨by linarith [ht.2], by linarith [ht.1]⟩ (by linarith)
    simp only [directed]
    linarith

theorem both (h : Proper curve) : Proper (directed curve .both) where
  start := by simp [directed, h.start]
  finish := by
    have hlate : ¬ (1 : Rat) < 1 / 2 := by norm_num
    have hend : (2 : Rat) - 2 * 1 = 0 := by norm_num
    simp only [directed, if_neg hlate, hend, h.start]
    norm_num
  monotone := by
    intro t ht u hu hle
    have hbelow : ∀ {s : Rat}, 0 ≤ s → s < 1 / 2 → 2 * s ∈ Icc (0 : Rat) 1 :=
      fun hstart hearly => ⟨by linarith, by linarith⟩
    have habove : ∀ {s : Rat}, s ≤ 1 → ¬ s < 1 / 2 → 2 - 2 * s ∈ Icc (0 : Rat) 1 :=
      fun hend hlate => ⟨by linarith, by linarith⟩
    simp only [directed]
    split
    · rename_i hearly
      have hthere := hbelow ht.1 hearly
      split
      · rename_i hsoon
        linarith [h.monotone hthere (hbelow hu.1 hsoon) (by linarith)]
      · rename_i hlate
        linarith [(h.mapsTo hthere).2, (h.mapsTo (habove hu.2 hlate)).2]
    · rename_i hlate
      have hafter : ¬ u < 1 / 2 := fun hsoon => hlate (lt_of_le_of_lt hle hsoon)
      rw [if_neg hafter]
      linarith [h.monotone (habove hu.2 hafter) (habove ht.2 hlate) (by linarith)]

theorem directed (h : Proper curve) (direction : Direction) :
    Proper (Easing.directed curve direction) := by
  cases direction with
  | inward => exact h
  | outward => exact h.outward
  | both => exact h.both

end Proper

/-! ## Polynomials -/

def degree? : Curve → Option Nat
  | .quad => some 2
  | .cubic => some 3
  | .quart => some 4
  | .quint => some 5
  | .sine | .expo | .circ => none

theorem mul_two_lt_one_iff (t : Rat) : t * 2 < 1 ↔ t < 1 / 2 :=
  (lt_div_iff₀ two_pos).symm

theorem polynomial?_curved {curve : Curve} {degree : Nat} (h : degree? curve = some degree)
    (direction : Direction) :
    polynomial? (α := Rat) (curved curve direction) =
      some (directed (fun t => t ^ degree) direction) := by
  cases curve with
  | quad | cubic | quart | quint =>
      cases h
      refine congrArg some (funext fun t => ?_)
      cases direction with
      | inward =>
          simp only [quad, cubic, quart, quint, directed]
          ring
      | outward =>
          simp only [quad, cubic, quart, quint, directed]
          ring
      | both =>
          simp only [quad, cubic, quart, quint, directed, half, mul_two_lt_one_iff]
          split <;> ring
  | sine | expo | circ => cases h

def IsPolynomial : Easing → Prop
  | linear => True
  | curved curve _ => curve = .quad ∨ curve = .cubic ∨ curve = .quart ∨ curve = .quint

instance : DecidablePred IsPolynomial
  | linear => .isTrue trivial
  | curved curve _ =>
    inferInstanceAs (Decidable (curve = .quad ∨ curve = .cubic ∨ curve = .quart ∨ curve = .quint))

example : (all.filter (IsPolynomial ·)).length = 13 := by decide

theorem exists_degree {curve : Curve} {direction : Direction}
    (h : IsPolynomial (curved curve direction)) :
    ∃ degree, degree? curve = some degree ∧ degree ≠ 0 := by
  rcases h with rfl | rfl | rfl | rfl <;> exact ⟨_, rfl, by decide⟩

end Easing

/-! ## Actions on their way -/

namespace Scalar

theorem lerp_zero (origin goal : Rat) : lerp origin goal 0 = origin := by
  simp [lerp]

theorem lerp_monotone {origin goal : Rat} (h : origin ≤ goal) : Monotone (lerp origin goal) := by
  intro first second hle
  have hway := mul_le_mul_of_nonneg_left hle (sub_nonneg.mpr h)
  unfold lerp
  linarith

theorem lerp_antitone {origin goal : Rat} (h : goal ≤ origin) : Antitone (lerp origin goal) := by
  intro first second hle
  have hway := mul_le_mul_of_nonpos_left hle (sub_nonpos.mpr h)
  unfold lerp
  linarith

end Scalar

open Set

variable [Eases Rat]

structure Action.Eased (action : Action Rat) (channel : Channel) (value : Rat → Rat) : Prop where
  writes : ∀ (target : Target Rat) (progress : Rat),
    action.perform target progress = target.set channel (value progress)
  start : value 0 = action.origin
  finish : value 1 = action.goal
  between : MapsTo value (Icc 0 1) (uIcc action.origin action.goal)
  rising : action.origin ≤ action.goal → MonotoneOn value (Icc 0 1)
  falling : action.goal ≤ action.origin → AntitoneOn value (Icc 0 1)

theorem Action.exists_eased {action : Action Rat}
    (proper : Easing.Proper (Eases.ease action.easing)) {channel : Channel}
    (channelled : action.operator.channel? = some channel) :
    ∃ value, action.Eased channel value := by
  let value (progress : Rat) : Rat :=
    Scalar.lerp action.origin action.goal (Eases.ease action.easing progress)
  have hstart : value 0 = action.origin :=
    (congrArg _ proper.start).trans (Scalar.lerp_zero action.origin action.goal)
  have hfinish : value 1 = action.goal :=
    (congrArg _ proper.finish).trans (Scalar.lerp_one action.origin action.goal)
  have hrising (h : action.origin ≤ action.goal) : MonotoneOn value (Icc 0 1) :=
    (Scalar.lerp_monotone h).comp_monotoneOn proper.monotone
  have hfalling (h : action.goal ≤ action.origin) : AntitoneOn value (Icc 0 1) :=
    (Scalar.lerp_antitone h).comp_monotoneOn proper.monotone
  have hzero : (0 : Rat) ∈ Icc (0 : Rat) 1 := ⟨le_refl 0, zero_le_one⟩
  have hone : (1 : Rat) ∈ Icc (0 : Rat) 1 := ⟨zero_le_one, le_refl 1⟩
  refine ⟨value, fun target progress => ?_, hstart, hfinish, ?_, hrising, hfalling⟩
  · rw [perform, write?, channelled]
    rfl
  · intro progress hprogress
    rw [← hstart, ← hfinish]
    rcases le_total action.origin action.goal with h | h
    · exact Icc_subset_uIcc ⟨hrising h hzero hprogress hprogress.1,
        hrising h hprogress hone hprogress.2⟩
    · exact Icc_subset_uIcc' ⟨hfalling h hprogress hone hprogress.2,
        hfalling h hzero hprogress hprogress.1⟩

/-! ## All polynomial easings -/

namespace Eases.Faithful

variable (faithful : Eases.Faithful Rat)

include faithful

theorem ease_linear (t : Rat) : Eases.ease .linear t = t :=
  faithful .linear id t rfl

theorem ease_curved {curve : Curve} {degree : Nat} (h : Easing.degree? curve = some degree)
    (direction : Direction) (t : Rat) :
    Eases.ease (.curved curve direction) t =
      Easing.directed (fun t => t ^ degree) direction t :=
  faithful _ _ t (Easing.polynomial?_curved h direction)

theorem proper {easing : Easing} (h : easing.IsPolynomial) :
    Easing.Proper (Eases.ease easing) := by
  cases easing with
  | linear =>
      have hlinear : Eases.ease .linear = fun t : Rat => t := funext faithful.ease_linear
      rw [hlinear]
      exact ⟨rfl, rfl, fun _ _ _ _ hle => hle⟩
  | curved curve direction =>
      obtain ⟨degree, hdegree, hne⟩ := Easing.exists_degree h
      rw [funext (faithful.ease_curved hdegree direction)]
      exact (Easing.Proper.pow hne).directed direction

end Eases.Faithful

structure Easing.Course (easing : Easing) : Prop where
  proper : Proper (Eases.ease easing)
  mapsTo : MapsTo (Eases.ease (α := Rat) easing) (Icc 0 1) (Icc 0 1)
  outward : ∀ curve, easing = curved curve .outward →
    ∀ t : Rat, Eases.ease easing t = 1 - Eases.ease (curved curve .inward) (1 - t)
  both : ∀ curve, easing = curved curve .both →
    ∀ t : Rat, Eases.ease easing t =
      if t < 1 / 2 then Eases.ease (curved curve .inward) (2 * t) / 2
      else 1 - Eases.ease (curved curve .inward) (2 - 2 * t) / 2
  eased : ∀ (action : Action Rat) (channel : Channel), action.easing = easing →
    action.operator.channel? = some channel → ∃ value, action.Eased channel value

theorem Easing.course_of_isPolynomial (faithful : Eases.Faithful Rat) {easing : Easing}
    (polynomial : easing.IsPolynomial) : easing.Course where
  proper := faithful.proper polynomial
  mapsTo := (faithful.proper polynomial).mapsTo
  outward := by
    rintro curve rfl t
    obtain ⟨degree, hdegree, -⟩ := exists_degree polynomial
    rw [faithful.ease_curved hdegree, faithful.ease_curved hdegree]
    rfl
  both := by
    rintro curve rfl t
    obtain ⟨degree, hdegree, -⟩ := exists_degree polynomial
    rw [faithful.ease_curved hdegree, faithful.ease_curved hdegree, faithful.ease_curved hdegree]
    rfl
  eased := by
    rintro action channel rfl channelled
    exact Action.exists_eased (faithful.proper polynomial) channelled

omit [Eases Rat] in
theorem Easing.course_of_isPolynomial_of_quint :
    letI : Eases Rat := ⟨fun easing => (polynomial? easing).getD id⟩
    Eases.Faithful Rat ∧ IsPolynomial (curved .quint .both) ∧ Course (curved .quint .both) := by
  let : Eases Rat := ⟨fun easing => (polynomial? easing).getD id⟩
  have hfaithful : Eases.Faithful Rat := by
    intro easing curve t h
    change (polynomial? easing).getD id t = curve t
    rw [h, Option.getD_some]
  have hpolynomial : IsPolynomial (curved .quint .both) := by decide
  exact ⟨hfaithful, hpolynomial, course_of_isPolynomial hfaithful hpolynomial⟩

end MotionNotation
