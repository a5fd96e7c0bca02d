import GameServer.Lib.Fifo

/-!
The double-buffered write queue (`src/storage/AsyncWriter.cc`).

Producers append to `front` under the mutex; the worker swaps the buffer out
under the mutex and runs the tasks outside of it. An event is one critical
section or one step of the worker between two of them. The condition
variable plays no part in what may happen: a wake-up may be spurious, so the
worker may evaluate its predicate at any moment.
-/

namespace GameServer.Storage

open GameServer.Lib

/-- Where `threadFunc` stands: in `cond_.wait`, before the `i`-th iteration of
the loop over the batch, inside that task, or past `break`. -/
inductive Worker where
  | waiting
  | next (i : ℕ)
  | inTask (i : ℕ)
  | exited
deriving DecidableEq

/-- `enqueued` and `executed` are records: the tasks that were put into
`front`, and those that have returned. -/
structure AsyncWriter (τ : Type) where
  front : List τ := []
  stop : Bool := false
  batch : List τ := []
  worker : Worker := .waiting
  enqueued : List τ := []
  executed : List τ := []

/-- `enqueue` and `destroy` are the critical sections of `enqueue` and of the
destructor, by any thread, a running task included. `work` is the next step
of the worker. -/
inductive WriterAct (τ : Type) where
  | enqueue (t : τ)
  | destroy
  | work

namespace AsyncWriter

variable {τ : Type}

def enqueue (s : AsyncWriter τ) (t : τ) : AsyncWriter τ :=
  { s with front := s.front ++ [t], enqueued := s.enqueued ++ [t] }

def destroy (s : AsyncWriter τ) : AsyncWriter τ := { s with stop := true }

/-- The predicate of `cond_.wait`. -/
def ready (s : AsyncWriter τ) : Bool := s.stop || !s.front.isEmpty

def threadFunc (s : AsyncWriter τ) : AsyncWriter τ :=
  match s.worker with
  | .waiting =>
      if s.ready then
        if s.front.isEmpty && s.stop then { s with worker := .exited }
        else { s with batch := s.front, front := s.batch, worker := .next 0 }
      else s
  | .next i =>
      if i < s.batch.length then { s with worker := .inTask i }
      else { s with batch := [], worker := .waiting }
  | .inTask i =>
      { s with executed := s.executed ++ s.batch[i]?.toList, worker := .next (i + 1) }
  | .exited => s

def step (s : AsyncWriter τ) : WriterAct τ → AsyncWriter τ
  | .enqueue t => s.enqueue t
  | .destroy => s.destroy
  | .work => s.threadFunc

def run (es : List (WriterAct τ)) : AsyncWriter τ := es.foldl step {}

/-- What is left of the batch, the running task included. -/
def rest (s : AsyncWriter τ) : List τ :=
  match s.worker with
  | .waiting | .exited => s.batch
  | .next i | .inTask i => s.batch.drop i

end AsyncWriter

/-- The tasks of the `enqueue` calls among the events, in the order of their
critical sections. -/
def enqueues {τ : Type} (es : List (WriterAct τ)) : List τ :=
  es.filterMap fun
    | .enqueue t => some t
    | _ => none

namespace AsyncWriter

variable {τ : Type} {s : AsyncWriter τ}

/-! ### The worker's steps -/

/-- The batch is empty outside of the loop over it, so `swap` leaves an empty
`front`. -/
def Placed (s : AsyncWriter τ) : Prop :=
  match s.worker with
  | .waiting | .exited => s.batch = []
  | .next i => i ≤ s.batch.length
  | .inTask i => i < s.batch.length

theorem placed_threadFunc (h : s.Placed) : s.threadFunc.Placed := by
  unfold threadFunc
  split
  case h_1 hw =>
      have hbatch : s.batch = [] := by simpa only [Placed, hw] using h
      split
      · split
        · exact hbatch
        · exact Nat.zero_le _
      · exact h
  case h_2 i hw =>
      split
      · assumption
      · rfl
  case h_3 i hw =>
      have hi : i < s.batch.length := by simpa only [Placed, hw] using h
      exact hi
  case h_4 hw => exact h

theorem placed_step (h : s.Placed) (e : WriterAct τ) : (s.step e).Placed := by
  cases e with
  | enqueue t => exact h
  | destroy => exact h
  | work => exact placed_threadFunc h

/-- The worker leaves its loop from `cond_.wait` only. -/
theorem exits_drained {e : WriterAct τ} (hin : s.worker ≠ .exited)
    (hout : (s.step e).worker = .exited) :
    s.worker = .waiting ∧ s.front = [] ∧ s.stop = true ∧
      s.step e = { s with worker := .exited } := by
  cases e with
  | enqueue t => exact absurd hout hin
  | destroy => exact absurd hout hin
  | work =>
      simp only [step, threadFunc] at hout ⊢
      split at hout
      case h_1 hw =>
          split at hout
          case isTrue hready =>
              split at hout
              case isTrue hempty =>
                  simp only [Bool.and_eq_true, List.isEmpty_iff] at hempty
                  simp [hw, ready, hempty.1, hempty.2]
              case isFalse => cases hout
          case isFalse => exact absurd hout hin
      case h_2 i hw => split at hout <;> cases hout
      case h_3 i hw => cases hout
      case h_4 hw => exact absurd hw hin

/-! ### The two buffers are one queue -/

def toFifo (s : AsyncWriter τ) : Fifo τ where
  arrived := s.enqueued
  waiting := s.rest ++ s.front
  served := s.executed

theorem next_threadFunc (h : s.Placed) : Fifo.Next s.toFifo s.threadFunc.toFifo := by
  unfold threadFunc
  split
  case h_1 hw =>
      have hbatch : s.batch = [] := by simpa only [Placed, hw] using h
      split
      · split
        · convert Fifo.Next.idle s.toFifo using 1
          simp [toFifo, rest, hw]
        · convert Fifo.Next.idle s.toFifo using 1
          simp [toFifo, rest, hw, hbatch]
      · exact .idle _
  case h_2 i hw =>
      split
      · convert Fifo.Next.idle s.toFifo using 1
        simp [toFifo, rest, hw]
      · rename_i hi
        convert Fifo.Next.idle s.toFifo using 1
        simp [toFifo, rest, hw, List.drop_eq_nil_of_le (Nat.le_of_not_lt hi)]
  case h_3 i hw =>
      have hi : i < s.batch.length := by simpa only [Placed, hw] using h
      have hrest : s.toFifo.waiting = s.batch[i] :: (s.batch.drop (i + 1) ++ s.front) := by
        simp only [toFifo, rest, hw]
        rw [List.drop_eq_getElem_cons hi, List.cons_append]
      convert Fifo.Next.pop s.toFifo _ _ hrest using 1
      simp [toFifo, rest, List.getElem?_eq_getElem hi]
  case h_4 hw => exact .idle _

theorem next_step (h : s.Placed) (e : WriterAct τ) :
    Fifo.Next s.toFifo (s.step e).toFifo := by
  cases e with
  | enqueue t =>
      convert Fifo.Next.push s.toFifo t using 1
      simp [toFifo, step, enqueue, rest]
  | destroy => exact .idle _
  | work => exact next_threadFunc h

theorem ordered (es : List (WriterAct τ)) :
    (run es).Placed ∧ (run es).toFifo.Ordered := by
  have hinit : ({} : AsyncWriter τ).Placed := rfl
  exact Fifo.ordered_run toFifo (fun _ e h => placed_step h e) (fun _ e h => next_step h e) hinit
    Fifo.ordered_empty es

theorem enqueued_step (s : AsyncWriter τ) (e : WriterAct τ) :
    (s.step e).enqueued = s.enqueued ++ enqueues [e] := by
  cases e with
  | enqueue t => rfl
  | destroy => exact (List.append_nil _).symm
  | work =>
      rw [show enqueues [(.work : WriterAct τ)] = [] from rfl, List.append_nil]
      simp only [step, threadFunc]
      split
      · split
        · split <;> rfl
        · rfl
      · split <;> rfl
      · rfl
      · rfl

theorem enqueued_foldl (es : List (WriterAct τ)) (s : AsyncWriter τ) :
    (es.foldl step s).enqueued = s.enqueued ++ enqueues es := by
  induction es generalizing s with
  | nil => exact (List.append_nil _).symm
  | cons e es ih =>
      rw [List.foldl_cons, ih, enqueued_step, List.append_assoc]
      have hsplit : enqueues (e :: es) = enqueues [e] ++ enqueues es :=
        List.filterMap_append (l := [e])
      rw [hsplit]

/-! ### Nothing is lost -/

/-- At every moment the executed tasks, the rest of the batch and the front
buffer are the enqueued tasks in order, and the worker leaves its loop only
after a stop, when all of them have been executed. -/
theorem flushes_in_order (es : List (WriterAct τ)) :
    (run es).executed ++ (run es).rest ++ (run es).front = enqueues es ∧
      ∀ e, (run es).worker ≠ .exited → (run (es ++ [e])).worker = .exited →
        (run (es ++ [e])).stop = true ∧ (run (es ++ [e])).executed = enqueues (es ++ [e]) := by
  have hall : ∀ es : List (WriterAct τ),
      (run es).executed ++ (run es).rest ++ (run es).front = enqueues es := by
    intro es
    have hrun : (run es).enqueued = enqueues es := enqueued_foldl es {}
    rw [List.append_assoc, ← hrun]
    exact (ordered es).2
  refine ⟨hall es, fun e hin hout => ?_⟩
  have hlast : run (es ++ [e]) = (run es).step e := List.foldl_concat ..
  rw [hlast] at hout ⊢
  obtain ⟨hwait, hfront, hstop, hexit⟩ := exits_drained hin hout
  have hbatch : (run es).batch = [] := by
    have hplaced := (ordered es).1
    simpa only [Placed, hwait] using hplaced
  refine ⟨by rw [hexit]; exact hstop, ?_⟩
  have hend := hall (es ++ [e])
  rw [hlast, hexit] at hend
  simpa [rest, hbatch, hfront, hexit] using hend

end AsyncWriter

end GameServer.Storage
