import GameServer.Lib.Scalar
import Mathlib.Analysis.Real.Sqrt

/-!
Exact square roots.

`Ext K` computes with whatever square root `K` comes with. `ExactRoot` says
that it is the root; the reals have it.
-/

namespace GameServer.Lib

class ExactRoot (K : Type) [Field K] [LinearOrder K] [SquareRoot K] : Prop where
  sqrt_nonneg : ∀ x : K, 0 ≤ SquareRoot.sqrt x
  mul_self_sqrt : ∀ x : K, 0 ≤ x → SquareRoot.sqrt x * SquareRoot.sqrt x = x

noncomputable instance : SquareRoot ℝ := ⟨Real.sqrt⟩

instance : ExactRoot ℝ where
  sqrt_nonneg := Real.sqrt_nonneg
  mul_self_sqrt _ := Real.mul_self_sqrt

namespace ExactRoot

variable {K : Type} [Field K] [LinearOrder K] [IsStrictOrderedRing K] [SquareRoot K] [ExactRoot K]

theorem sqrt_eq {x y : K} (hy : 0 ≤ y) (h : y * y = x) : SquareRoot.sqrt x = y := by
  have hx : 0 ≤ x := h ▸ mul_self_nonneg y
  exact (mul_self_inj (sqrt_nonneg x) hy).mp ((mul_self_sqrt x hx).trans h.symm)

theorem sqrt_le_iff {x y : K} (hx : 0 ≤ x) (hy : 0 ≤ y) :
    SquareRoot.sqrt x ≤ y ↔ x ≤ y * y := by
  rw [mul_self_le_mul_self_iff (sqrt_nonneg x) hy, mul_self_sqrt x hx]

/-- A vector divided by its length has length one. -/
theorem normalized {a b : K} (h : 0 < (SquareRoot.sqrt (a * a + b * b) : K)) :
    a / SquareRoot.sqrt (a * a + b * b) * (a / SquareRoot.sqrt (a * a + b * b)) +
      b / SquareRoot.sqrt (a * a + b * b) * (b / SquareRoot.sqrt (a * a + b * b)) = 1 := by
  have hself := mul_self_sqrt (a * a + b * b) (add_nonneg (mul_self_nonneg a) (mul_self_nonneg b))
  rw [div_mul_div_comm, div_mul_div_comm, ← add_div, hself]
  refine div_self fun hzero => ?_
  rw [hzero, mul_self_eq_zero] at hself
  rw [hzero, hself] at h
  exact lt_irrefl _ h

end ExactRoot

end GameServer.Lib
