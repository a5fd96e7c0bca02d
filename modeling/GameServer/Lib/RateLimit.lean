import Mathlib.Algebra.BigOperators.Group.List.Basic
import Mathlib.Algebra.GroupWithZero.Nat
import Mathlib.Algebra.Order.Group.Nat
import Mathlib.Tactic.Common

/-!
An action limited by a countdown.

Time passes in ticks. The countdown runs during a tick, and at its end the
action may be taken if nothing is left of it; taking it winds the countdown
up to `period` again. Then the uses in any stretch of ticks are paid for by
the time that passes, but for one: `Paced.uses_le`, by a potential that is
the time still left on the countdown.
-/

namespace GameServer.Lib

/-- How long a tick takes, and whether the action is taken at its end. -/
structure Tick where
  dt : ℕ
  acts : Bool
deriving DecidableEq

def elapsed (l : List Tick) : ℕ := (l.map Tick.dt).sum

def uses (l : List Tick) : ℕ := l.countP Tick.acts

/-- With `c` left on the countdown, no action of the ticks comes too early. -/
def Paced (period : ℕ) : ℕ → List Tick → Prop
  | _, [] => True
  | c, t :: l =>
      (t.acts = true → c ≤ t.dt) ∧ Paced period (if t.acts then period else c - t.dt) l

namespace Paced

variable {period c : ℕ}

theorem uses_le {l : List Tick} (h : Paced period c l) (hc : c ≤ period) :
    period * uses l + c ≤ elapsed l + period := by
  induction l generalizing c with
  | nil => simpa [uses, elapsed] using hc
  | cons t l ih =>
      obtain ⟨hact, hrest⟩ := h
      have helapsed : elapsed (t :: l) = t.dt + elapsed l := by simp [elapsed]
      cases hacts : t.acts with
      | true =>
          have huses : uses (t :: l) = uses l + 1 := by simp [uses, hacts]
          rw [hacts, if_pos rfl] at hrest
          have hpaid := ih hrest le_rfl
          have hwait := hact hacts
          rw [huses, helapsed, Nat.mul_succ]
          omega
      | false =>
          have huses : uses (t :: l) = uses l := by simp [uses, hacts]
          rw [hacts, if_neg Bool.false_ne_true] at hrest
          have hpaid := ih hrest ((Nat.sub_le _ _).trans hc)
          rw [huses, helapsed]
          omega

/-- A part of a paced stretch is paced. -/
theorem of_append {l l' : List Tick} (h : Paced period c (l ++ l')) (hc : c ≤ period) :
    ∃ c' ≤ period, Paced period c' l' := by
  induction l generalizing c with
  | nil => exact ⟨c, hc, h⟩
  | cons t l ih =>
      refine ih h.2 ?_
      split
      · exact le_rfl
      · exact (Nat.sub_le _ _).trans hc

theorem left {l l' : List Tick} (h : Paced period c (l ++ l')) : Paced period c l := by
  induction l generalizing c with
  | nil => trivial
  | cons t l ih => exact ⟨h.1, ih h.2⟩

/-- In a window that begins with the tick `t`. -/
theorem uses_window {pre w post : List Tick} {t : Tick}
    (h : Paced period c (pre ++ t :: w ++ post)) (hc : c ≤ period) (hpos : 0 < period) :
    uses (t :: w) ≤ 1 + elapsed w / period := by
  obtain ⟨c₁, hc₁, h₁⟩ := h.left.of_append hc
  cases hacts : t.acts with
  | true =>
      have huses : uses (t :: w) = uses w + 1 := by simp [uses, hacts]
      have hrest := h₁.2
      rw [hacts, if_pos rfl] at hrest
      have hpaid := hrest.uses_le le_rfl
      have hdiv : uses w ≤ elapsed w / period :=
        (Nat.le_div_iff_mul_le hpos).mpr (by rw [Nat.mul_comm]; omega)
      omega
  | false =>
      have huses : uses (t :: w) = uses w := by simp [uses, hacts]
      have hpaid := h₁.2.uses_le (by rw [hacts]; exact (Nat.sub_le _ _).trans hc₁)
      have hdiv : uses w ≤ (elapsed w + period) / period :=
        (Nat.le_div_iff_mul_le hpos).mpr (by rw [Nat.mul_comm]; omega)
      rw [Nat.add_div_right _ hpos] at hdiv
      omega

/-- Between two uses. -/
theorem gap {pre mid post : List Tick} {t t' : Tick}
    (h : Paced period c (pre ++ t :: (mid ++ t' :: post))) (hc : c ≤ period)
    (ht : t.acts = true) (ht' : t'.acts = true) : period ≤ elapsed mid + t'.dt := by
  obtain ⟨c₁, -, h₁⟩ := h.of_append hc
  have hrest : Paced period period (mid ++ [t'] ++ post) := by
    have hrest := h₁.2
    rw [ht, if_pos rfl] at hrest
    simpa using hrest
  have hpaid := hrest.left.uses_le le_rfl
  have huses : uses (mid ++ [t']) = uses mid + 1 := by simp [uses, ht']
  have helapsed : elapsed (mid ++ [t']) = elapsed mid + t'.dt := by simp [elapsed]
  rw [huses, helapsed, Nat.mul_succ] at hpaid
  omega

end Paced

end GameServer.Lib
