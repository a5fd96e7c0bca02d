import Mathlib.Algebra.Order.Ring.Nat

/-!
Binary search for a place where a predicate turns true.

Nothing is assumed about the predicate: whatever it is, the search ends at an
index where it holds and did not hold one before, unless that is the lower
end. `bisectM` is the search whose probes can fail; it asks only for indices
from the lower end to just below the upper one.
-/

namespace GameServer.Lib

/-- The loop `while (lo < hi)` with `mid = (lo + hi) / 2`, for at most `fuel`
rounds. -/
def bisect (p : ℕ → Bool) : ℕ → ℕ → ℕ → ℕ
  | 0, lo, _ => lo
  | fuel + 1, lo, hi =>
      if lo < hi then
        if p ((lo + hi) / 2) then bisect p fuel lo ((lo + hi) / 2)
        else bisect p fuel ((lo + hi) / 2 + 1) hi
      else lo

/-- The search ends inside, where the predicate has just turned true. -/
theorem bisect_spec {p : ℕ → Bool} {fuel lo hi : ℕ} (hfuel : hi - lo ≤ fuel) (hle : lo ≤ hi)
    (hhi : p hi = true) :
    lo ≤ bisect p fuel lo hi ∧ bisect p fuel lo hi ≤ hi ∧ p (bisect p fuel lo hi) = true ∧
      (bisect p fuel lo hi = lo ∨ p (bisect p fuel lo hi - 1) = false) := by
  induction fuel generalizing lo hi with
  | zero =>
      obtain rfl : lo = hi := by omega
      exact ⟨le_rfl, le_rfl, hhi, .inl rfl⟩
  | succ fuel ih =>
      rw [bisect]
      split
      case isTrue hlt =>
          split
          case isTrue hmid =>
              obtain ⟨hlo, hup, hp, hend⟩ :=
                @ih lo ((lo + hi) / 2) (by omega) (by omega) hmid
              exact ⟨hlo, by omega, hp, hend⟩
          case isFalse hmid =>
              obtain ⟨hlo, hup, hp, hend⟩ :=
                @ih ((lo + hi) / 2 + 1) hi (by omega) (by omega) hhi
              refine ⟨by omega, hup, hp, .inr ?_⟩
              rcases hend with heq | hend
              · rw [heq]
                simpa using hmid
              · exact hend
      case isFalse hlt =>
          obtain rfl : lo = hi := by omega
          exact ⟨le_rfl, le_rfl, hhi, .inl rfl⟩

/-- The same loop, stopped by the first probe that fails. -/
def bisectM {ε : Type*} (p : ℕ → Except ε Bool) : ℕ → ℕ → ℕ → Except ε ℕ
  | 0, lo, _ => .ok lo
  | fuel + 1, lo, hi =>
      if lo < hi then
        match p ((lo + hi) / 2) with
        | .error e => .error e
        | .ok true => bisectM p fuel lo ((lo + hi) / 2)
        | .ok false => bisectM p fuel ((lo + hi) / 2 + 1) hi
      else .ok lo

theorem bisectM_eq {ε : Type*} {p : ℕ → Except ε Bool} {q : ℕ → Bool} {fuel lo hi : ℕ}
    (h : ∀ i, lo ≤ i → i < hi → p i = .ok (q i)) :
    bisectM p fuel lo hi = .ok (bisect q fuel lo hi) := by
  induction fuel generalizing lo hi with
  | zero => rfl
  | succ fuel ih =>
      rw [bisectM, bisect]
      split
      case isTrue hlt =>
          rw [h ((lo + hi) / 2) (by omega) (by omega)]
          cases q ((lo + hi) / 2) with
          | true => exact ih fun i hlo hhi => h i hlo (by omega)
          | false => exact ih fun i hlo hhi => h i (by omega) hhi
      case isFalse hlt => rfl

end GameServer.Lib
