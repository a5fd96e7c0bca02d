import GameServer.Lib.Run

/-!
Queues that lose, duplicate and reorder nothing.

The abstract queue remembers what has arrived and what was served. An
implementation may keep the waiting elements in several buffers: it is shown
to be a queue by an abstraction function under which each of its steps is a
step of the abstract one (`ordered_run`).
-/

namespace GameServer.Lib

structure Fifo (α : Type*) where
  arrived : List α := []
  waiting : List α := []
  served : List α := []

namespace Fifo

variable {α σ ε : Type*} {q q' : Fifo α}

inductive Next : Fifo α → Fifo α → Prop
  | idle (q : Fifo α) : Next q q
  | push (q : Fifo α) (x : α) :
      Next q { q with arrived := q.arrived ++ [x], waiting := q.waiting ++ [x] }
  | pop (q : Fifo α) (x : α) (xs : List α) (h : q.waiting = x :: xs) :
      Next q { q with waiting := xs, served := q.served ++ [x] }

def Ordered (q : Fifo α) : Prop := q.served ++ q.waiting = q.arrived

theorem ordered_empty : Ordered ({} : Fifo α) := rfl

theorem Next.ordered (h : Next q q') (hq : q.Ordered) : q'.Ordered := by
  unfold Ordered at hq ⊢
  cases h with
  | idle => exact hq
  | push x => rw [← List.append_assoc, hq]
  | pop x xs hx => rw [← hq, hx, List.append_assoc, List.singleton_append]

/-- The simulation rule: an implementation with invariant `I` is a queue. -/
theorem ordered_run {step : σ → ε → σ} {I : σ → Prop} (toFifo : σ → Fifo α)
    (hinv : ∀ s e, I s → I (step s e))
    (hnext : ∀ s e, I s → Next (toFifo s) (toFifo (step s e))) {s : σ} (hs : I s)
    (hq : (toFifo s).Ordered) (es : List ε) :
    I (es.foldl step s) ∧ (toFifo (es.foldl step s)).Ordered := by
  have hboth : ∀ s e, I s ∧ (toFifo s).Ordered → I (step s e) ∧ (toFifo (step s e)).Ordered :=
    fun s e h => ⟨hinv s e h.1, (hnext s e h.1).ordered h.2⟩
  exact invariant_run_of_step hboth ⟨hs, hq⟩ es

end Fifo

end GameServer.Lib
