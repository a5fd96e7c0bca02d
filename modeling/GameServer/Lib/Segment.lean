import Mathlib.Algebra.Order.Field.Basic
import Mathlib.Tactic.Linarith
import Mathlib.Tactic.Ring

/-!
The point of a segment that is closest to a target.

The segment runs from the origin along `(vx, vy)`, and `(wx, wy)` is the
target. Along the segment the squared distance is a quadratic in the
parameter; its minimum over the interval from 0 to 1 is at the projection of
the target, clamped (`isClosest_closest`), and nowhere else.
-/

namespace GameServer.Lib

namespace Segment

variable {K : Type*} [Field K] [LinearOrder K]

/-- The squared distance of the target from the point with parameter `t`. -/
def gapSq (wx wy vx vy t : K) : K := (wx - vx * t) ^ 2 + (wy - vy * t) ^ 2

/-- The parameter of the closest point: the projection, clamped. -/
def closest (wx wy vx vy : K) : K := max 0 (min 1 ((wx * vx + wy * vy) / (vx * vx + vy * vy)))

/-- No point of the segment is closer to the target than that of `t`. -/
structure IsClosest (wx wy vx vy t : K) : Prop where
  nonneg : 0 ≤ t
  le_one : t ≤ 1
  minimal : ∀ s, 0 ≤ s → s ≤ 1 → gapSq wx wy vx vy t ≤ gapSq wx wy vx vy s

variable [IsStrictOrderedRing K] {wx wy vx vy : K}

omit [LinearOrder K] [IsStrictOrderedRing K] in
/-- The quadratic around `t`, by its vertex. -/
theorem gapSq_sub {p : K} (hp : p * (vx * vx + vy * vy) = wx * vx + wy * vy) (s t : K) :
    gapSq wx wy vx vy s - gapSq wx wy vx vy t =
      (vx * vx + vy * vy) * ((s - t) * (s - t) + 2 * ((s - t) * (t - p))) := by
  have hexpand : gapSq wx wy vx vy s - gapSq wx wy vx vy t =
      (s - t) * ((vx * vx + vy * vy) * (s + t) - 2 * (wx * vx + wy * vy)) := by
    simp only [gapSq]
    ring
  rw [hexpand, ← hp]
  ring

theorem closest_bounds : 0 ≤ closest wx wy vx vy ∧ closest wx wy vx vy ≤ 1 :=
  ⟨le_max_left _ _, max_le zero_le_one (min_le_left _ _)⟩

/-- On both sides of the clamp the segment ends before the vertex. -/
theorem mul_closest_sub_nonneg {p s : K} (hs : 0 ≤ s) (hs1 : s ≤ 1) :
    0 ≤ (s - max 0 (min 1 p)) * (max 0 (min 1 p) - p) := by
  rcases le_total p 0 with hp | hp
  · have hclamp : max 0 (min 1 p) = 0 :=
      max_eq_left ((min_le_right _ _).trans hp)
    rw [hclamp]
    exact mul_nonneg (by linarith) (by linarith)
  · rcases le_total p 1 with hp1 | hp1
    · have hclamp : max 0 (min 1 p) = p := by rw [min_eq_right hp1, max_eq_right hp]
      rw [hclamp, sub_self, mul_zero]
    · have hclamp : max 0 (min 1 p) = 1 := by rw [min_eq_left hp1, max_eq_right zero_le_one]
      rw [hclamp]
      exact mul_nonneg_of_nonpos_of_nonpos (by linarith) (by linarith)

/-- The distance grows at least quadratically away from the closest point. -/
theorem gapSq_closest_add_le (wx wy : K) (hlong : 0 < vx * vx + vy * vy) {s : K} (hs : 0 ≤ s)
    (hs1 : s ≤ 1) :
    gapSq wx wy vx vy (closest wx wy vx vy) +
        (vx * vx + vy * vy) * ((s - closest wx wy vx vy) * (s - closest wx wy vx vy)) ≤
      gapSq wx wy vx vy s := by
  have hp : (wx * vx + wy * vy) / (vx * vx + vy * vy) * (vx * vx + vy * vy) =
      wx * vx + wy * vy := div_mul_cancel₀ _ hlong.ne'
  have hsub := gapSq_sub hp s (closest wx wy vx vy)
  have hside := mul_closest_sub_nonneg (p := (wx * vx + wy * vy) / (vx * vx + vy * vy)) hs hs1
  have hmul := mul_nonneg hlong.le hside
  simp only [closest] at hsub ⊢
  linarith

theorem isClosest_closest (hlong : 0 < vx * vx + vy * vy) :
    IsClosest wx wy vx vy (closest wx wy vx vy) where
  nonneg := closest_bounds.1
  le_one := closest_bounds.2
  minimal s hs hs1 := by
    have hgrow := gapSq_closest_add_le wx wy hlong hs hs1
    have hsq := mul_nonneg hlong.le (mul_self_nonneg (s - closest wx wy vx vy))
    linarith

theorem IsClosest.eq_closest (hlong : 0 < vx * vx + vy * vy) {t : K}
    (h : IsClosest wx wy vx vy t) : t = closest wx wy vx vy := by
  have hgrow := gapSq_closest_add_le wx wy hlong h.nonneg h.le_one
  have hmin := h.minimal (closest wx wy vx vy) closest_bounds.1 closest_bounds.2
  have hzero : (vx * vx + vy * vy) *
      ((t - closest wx wy vx vy) * (t - closest wx wy vx vy)) ≤ 0 := by linarith
  have hsq : (t - closest wx wy vx vy) * (t - closest wx wy vx vy) ≤ 0 := by
    by_contra hpos
    exact absurd (mul_pos hlong (not_le.mp hpos)) (not_lt.mpr hzero)
  have hself := le_antisymm hsq (mul_self_nonneg _)
  exact sub_eq_zero.mp (mul_self_eq_zero.mp hself)

/-- Some point of the segment is within the distance if the closest one is. -/
theorem exists_within_iff (hlong : 0 < vx * vx + vy * vy) {r : K} :
    (∃ s, 0 ≤ s ∧ s ≤ 1 ∧ gapSq wx wy vx vy s ≤ r) ↔
      gapSq wx wy vx vy (closest wx wy vx vy) ≤ r := by
  constructor
  · rintro ⟨s, hs, hs1, hr⟩
    exact ((isClosest_closest hlong).minimal s hs hs1).trans hr
  · exact fun hr => ⟨_, closest_bounds.1, closest_bounds.2, hr⟩

end Segment

end GameServer.Lib
