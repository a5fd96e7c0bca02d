import GameServer.Lib.Fifo
import Mathlib.Algebra.Group.Nat.Defs

/-!
The mailbox of an event loop (`src/net/EventLoop.cc`).

Any thread appends a functor to `pendingFunctors` under the mutex and then
writes to the eventfd. The loop polls, reads the eventfd back when it is
reported, swaps the functors out and runs them. An event of the model is one
of these critical sections, system calls or atomic accesses, so that other
threads may act between any two of them. A write may come at any time after
the call it belongs to began, also when the loop thread itself made the call.

The wakeup channel is registered edge-triggered: a write puts it on the ready
list of the epoll instance and a report takes it off, whatever the counter is
afterwards.
-/

namespace GameServer.Net

open GameServer.Lib

/-- A queued functor. `ticket` numbers the calls of `queueInLoop`, `origin` is
the iteration of the functor that made the call, if a functor made it. -/
structure Queued (Thread Functor : Type) where
  functor : Functor
  caller : Thread
  ticket : ℕ
  origin : Option ℕ

/-- A write to the eventfd that a thread has still to make. -/
inductive Write where
  | queueInLoop (ticket : ℕ)
  | quit
deriving DecidableEq

/-- Where the loop thread stands: outside of `loop`, before the test of the
`while`, before `poll`, among the event handlers (`wakeup`: that of the
eventfd has still to run), before the `i`-th functor of the batch, inside it. -/
inductive LoopPc where
  | outside
  | checking
  | polling
  | handling (wakeup : Bool)
  | next (i : ℕ)
  | inFunctor (i : ℕ)
deriving DecidableEq

/-- `functors` is the batch that `doPendingFunctors` took out, `ready` says
that the wakeup channel is on the ready list. `queued` and `executed` are
records, the latter with the iteration; `writes` are the calls of
`queueInLoop` and `quit` that have not returned. -/
structure EventLoop (Thread Functor : Type) where
  threadId : Thread
  quit_ : Bool := false
  pendingFunctors : List (Queued Thread Functor) := []
  functors : List (Queued Thread Functor) := []
  counter : ℕ := 0
  ready : Bool := false
  pc : LoopPc := .outside
  iteration : ℕ := 0
  writes : List Write := []
  queued : List (Queued Thread Functor) := []
  executed : List (Queued Thread Functor × ℕ) := []

/-- `loop` is the call of the function with its first assignment; the events
from `check` to `functor` are the further steps of the loop thread. -/
inductive EventLoopAct (Thread Functor : Type) where
  | loop
  | check
  | poll (reported : Bool)
  | handleWakeup
  | swapFunctors
  | functor
  | queueInLoop (t : Thread) (f : Functor)
  | runInLoop (t : Thread) (f : Functor)
  | quit (t : Thread)
  | write (w : Write)

/-- The largest value of an eventfd counter. A write that would exceed it
fails with `EAGAIN`. -/
def maxCounter : ℕ := 2 ^ 64 - 2

namespace EventLoop

variable {Thread Functor : Type} [DecidableEq Thread]

def isInLoopThread (s : EventLoop Thread Functor) (t : Thread) : Bool := t = s.threadId

/-- The loop thread is in a callback, or has not called `loop`. -/
def inCallback (s : EventLoop Thread Functor) : Bool :=
  match s.pc with
  | .outside | .handling _ | .inFunctor _ => true
  | .checking | .polling | .next _ => false

/-- Thread `t` can make a call now. -/
def canCall (s : EventLoop Thread Functor) (t : Thread) : Bool :=
  !s.isInLoopThread t || s.inCallback

/-- The iteration whose functor makes the calls of `t`. -/
def originOf (s : EventLoop Thread Functor) (t : Thread) : Option ℕ :=
  match s.pc with
  | .inFunctor _ => if s.isInLoopThread t then some s.iteration else none
  | _ => none

def entryOf (s : EventLoop Thread Functor) (t : Thread) (f : Functor) :
    Queued Thread Functor where
  functor := f
  caller := t
  ticket := s.queued.length
  origin := s.originOf t

def queueInLoop (s : EventLoop Thread Functor) (t : Thread) (f : Functor) :
    EventLoop Thread Functor :=
  { s with
    pendingFunctors := s.pendingFunctors ++ [s.entryOf t f]
    queued := s.queued ++ [s.entryOf t f]
    writes := s.writes ++ [.queueInLoop (s.entryOf t f).ticket] }

/-- On the loop thread the functor runs at once, inside the callback that
called. -/
def runInLoop (s : EventLoop Thread Functor) (t : Thread) (f : Functor) :
    EventLoop Thread Functor :=
  if s.isInLoopThread t then s else s.queueInLoop t f

def quit (s : EventLoop Thread Functor) (t : Thread) : EventLoop Thread Functor :=
  { s with
    quit_ := true
    writes := if s.isInLoopThread t then s.writes else s.writes ++ [.quit] }

/-- `::write(wakeupFd_, &one, sizeof one)`. -/
def write (s : EventLoop Thread Functor) (w : Write) : EventLoop Thread Functor :=
  let s := { s with writes := s.writes.erase w }
  if s.counter < maxCounter then { s with counter := s.counter + 1, ready := true } else s

def poll (s : EventLoop Thread Functor) (reported : Bool) : EventLoop Thread Functor :=
  if reported && s.ready then { s with ready := false, pc := .handling (s.counter != 0) }
  else { s with pc := .handling false }

def handleWakeup (s : EventLoop Thread Functor) : EventLoop Thread Functor :=
  { s with counter := 0, pc := .handling false }

/-- One step of the loop over the batch in `doPendingFunctors`. -/
def runFunctors (s : EventLoop Thread Functor) : EventLoop Thread Functor :=
  match s.pc with
  | .next i =>
      if i < s.functors.length then { s with pc := .inFunctor i }
      else { s with functors := [], pc := .checking }
  | .inFunctor i =>
      { s with
        executed := s.executed ++ (s.functors[i]?.map (·, s.iteration)).toList
        pc := .next (i + 1) }
  | _ => s

/-- An event that is not due leaves the state as it is. -/
def step (s : EventLoop Thread Functor) : EventLoopAct Thread Functor → EventLoop Thread Functor
  | .loop => if s.pc = .outside then { s with quit_ := false, pc := .checking } else s
  | .check =>
      if s.pc = .checking then
        if s.quit_ then { s with pc := .outside }
        else { s with pc := .polling, iteration := s.iteration + 1 }
      else s
  | .poll reported => if s.pc = .polling then s.poll reported else s
  | .handleWakeup => if s.pc = .handling true then s.handleWakeup else s
  | .swapFunctors =>
      if s.pc = .handling false then
        { s with functors := s.pendingFunctors, pendingFunctors := [], pc := .next 0 }
      else s
  | .functor => s.runFunctors
  | .queueInLoop t f => if s.canCall t then s.queueInLoop t f else s
  | .runInLoop t f => if s.canCall t then s.runInLoop t f else s
  | .quit t => if s.canCall t then s.quit t else s
  | .write w => if w ∈ s.writes then s.write w else s

def run (threadId : Thread) (es : List (EventLoopAct Thread Functor)) :
    EventLoop Thread Functor :=
  es.foldl step { threadId := threadId }

/-- What is left of the batch, the running functor included. -/
def rest (s : EventLoop Thread Functor) : List (Queued Thread Functor) :=
  match s.pc with
  | .next i | .inFunctor i => s.functors.drop i
  | _ => s.functors

/-- The call that queued the functor has returned. -/
def Returned (s : EventLoop Thread Functor) (e : Queued Thread Functor) : Prop :=
  Write.queueInLoop e.ticket ∉ s.writes

/-! ### What a step can do -/

/-- The moves of the threads, each with the state it is due in. -/
inductive Move (s : EventLoop Thread Functor) : EventLoop Thread Functor → Prop
  | stay : Move s s
  | enter (h : s.pc = .outside) : Move s { s with quit_ := false, pc := .checking }
  | leave (h : s.pc = .checking) (hquit : s.quit_ = true) : Move s { s with pc := .outside }
  | iterate (h : s.pc = .checking) (hquit : s.quit_ = false) :
      Move s { s with pc := .polling, iteration := s.iteration + 1 }
  | poll (h : s.pc = .polling) (reported : Bool) : Move s (s.poll reported)
  | handleWakeup (h : s.pc = .handling true) : Move s s.handleWakeup
  | swap (h : s.pc = .handling false) :
      Move s { s with functors := s.pendingFunctors, pendingFunctors := [], pc := .next 0 }
  | call (i : ℕ) (h : s.pc = .next i) (hi : i < s.functors.length) :
      Move s { s with pc := .inFunctor i }
  | finish (i : ℕ) (h : s.pc = .next i) (hi : s.functors.length ≤ i) :
      Move s { s with functors := [], pc := .checking }
  | ret (i : ℕ) (h : s.pc = .inFunctor i) :
      Move s
        { s with
          executed := s.executed ++ (s.functors[i]?.map (·, s.iteration)).toList
          pc := .next (i + 1) }
  | push (t : Thread) (f : Functor) : Move s (s.queueInLoop t f)
  | quit (t : Thread) : Move s (s.quit t)
  | write (w : Write) (h : w ∈ s.writes) : Move s (s.write w)

variable {s s' : EventLoop Thread Functor}

theorem runFunctors_move (s : EventLoop Thread Functor) : Move s s.runFunctors := by
  unfold runFunctors
  split
  case h_1 i hpc =>
      split
      case isTrue hi => exact .call i hpc hi
      case isFalse hi => exact .finish i hpc (Nat.le_of_not_lt hi)
  case h_2 i hpc => exact .ret i hpc
  case h_3 => exact .stay

theorem runInLoop_move (s : EventLoop Thread Functor) (t : Thread) (f : Functor) :
    Move s (s.runInLoop t f) := by
  unfold runInLoop
  split
  · exact .stay
  · exact .push t f

theorem check_move (h : s.pc = .checking) : Move s (s.step .check) := by
  simp only [step, if_pos h]
  split
  case isTrue hquit => exact .leave h hquit
  case isFalse hquit => exact .iterate h (Bool.eq_false_iff.mpr hquit)

theorem step_move (s : EventLoop Thread Functor) (e : EventLoopAct Thread Functor) :
    Move s (s.step e) := by
  have hguard : ∀ {c : Prop} [Decidable c] {s' : EventLoop Thread Functor},
      (c → Move s s') → Move s (if c then s' else s) := by
    intro c _ s' h
    split
    case isTrue hc => exact h hc
    case isFalse => exact .stay
  cases e with
  | loop => exact hguard .enter
  | check =>
      by_cases h : s.pc = .checking
      · exact check_move h
      · rw [step, if_neg h]
        exact .stay
  | poll reported => exact hguard fun h => .poll h reported
  | handleWakeup => exact hguard .handleWakeup
  | swapFunctors => exact hguard .swap
  | functor => exact runFunctors_move s
  | queueInLoop t f => exact hguard fun _ => .push t f
  | runInLoop t f => exact hguard fun _ => runInLoop_move s t f
  | quit t => exact hguard fun _ => .quit t
  | write w => exact hguard (.write w)

omit [DecidableEq Thread] in
theorem poll_eq (s : EventLoop Thread Functor) (reported : Bool) :
    s.poll reported =
      { s with
        ready := s.ready && !reported
        pc := .handling (reported && s.ready && s.counter != 0) } := by
  unfold poll
  cases s.ready <;> cases reported <;> simp

omit [DecidableEq Thread] in
theorem write_eq (s : EventLoop Thread Functor) (w : Write) :
    s.write w =
      { s with
        writes := s.writes.erase w
        counter := min (s.counter + 1) (max s.counter maxCounter)
        ready := s.ready || decide (s.counter < maxCounter) } := by
  unfold write
  by_cases h : s.counter < maxCounter
  · have hmin : min (s.counter + 1) (max s.counter maxCounter) = s.counter + 1 := by omega
    rw [hmin]
    simp [h]
  · have hmin : min (s.counter + 1) (max s.counter maxCounter) = s.counter := by omega
    rw [hmin]
    simp [h]

/-! ### The mailbox is a queue -/

/-- The batch is empty outside of the loop over it. -/
def Placed (s : EventLoop Thread Functor) : Prop :=
  match s.pc with
  | .next i => i ≤ s.functors.length
  | .inFunctor i => i < s.functors.length
  | _ => s.functors = []

theorem Placed.move (h : s.Placed) (hm : Move s s') : s'.Placed := by
  cases hm with
  | stay => exact h
  | enter hpc => simpa [Placed, hpc] using h
  | leave hpc => simpa [Placed, hpc] using h
  | iterate hpc => simpa [Placed, hpc] using h
  | poll hpc reported => simpa [Placed, poll_eq, hpc] using h
  | handleWakeup hpc => simpa [Placed, EventLoop.handleWakeup, hpc] using h
  | swap hpc => exact Nat.zero_le _
  | call i hpc hi => exact hi
  | finish i hpc hi => rfl
  | ret i hpc =>
      have hi : i < s.functors.length := by simpa [Placed, hpc] using h
      exact hi
  | push t f => exact h
  | quit t => exact h
  | write w hw => simpa [Placed, write_eq] using h

def toFifo (s : EventLoop Thread Functor) : Fifo (Queued Thread Functor) where
  arrived := s.queued
  waiting := s.rest ++ s.pendingFunctors
  served := s.executed.map Prod.fst

theorem next_move (h : s.Placed) (hm : Move s s') : Fifo.Next s.toFifo s'.toFifo := by
  have hidle : s'.toFifo = s.toFifo → Fifo.Next s.toFifo s'.toFifo := fun heq => heq ▸ .idle _
  cases hm with
  | stay => exact .idle _
  | enter hpc => exact hidle (by simp [toFifo, rest, hpc])
  | leave hpc => exact hidle (by simp [toFifo, rest, hpc])
  | iterate hpc => exact hidle (by simp [toFifo, rest, hpc])
  | poll hpc reported => exact hidle (by simp [toFifo, rest, poll_eq, hpc])
  | handleWakeup hpc => exact hidle (by simp [toFifo, rest, EventLoop.handleWakeup, hpc])
  | swap hpc =>
      have hempty : s.functors = [] := by simpa [Placed, hpc] using h
      exact hidle (by simp [toFifo, rest, hpc, hempty])
  | call i hpc hi => exact hidle (by simp [toFifo, rest, hpc])
  | finish i hpc hi =>
      exact hidle (by simp [toFifo, rest, hpc, List.drop_eq_nil_of_le hi])
  | ret i hpc =>
      have hi : i < s.functors.length := by simpa [Placed, hpc] using h
      have hwait : s.toFifo.waiting =
          s.functors[i] :: (s.functors.drop (i + 1) ++ s.pendingFunctors) := by
        simp only [toFifo, rest, hpc]
        rw [List.drop_eq_getElem_cons hi, List.cons_append]
      convert Fifo.Next.pop s.toFifo _ _ hwait using 1
      simp [toFifo, rest, List.getElem?_eq_getElem hi]
  | push t f =>
      convert Fifo.Next.push s.toFifo (s.entryOf t f) using 1
      simp only [toFifo, rest, EventLoop.queueInLoop, List.append_assoc]
  | quit t => exact .idle _
  | write w hw => exact hidle (by simp [toFifo, rest, write_eq])

theorem ordered (threadId : Thread) (es : List (EventLoopAct Thread Functor)) :
    (run threadId es).Placed ∧ (run threadId es).toFifo.Ordered := by
  have hinit : ({ threadId := threadId } : EventLoop Thread Functor).Placed := rfl
  exact Fifo.ordered_run toFifo (fun s e h => h.move (step_move s e))
    (fun s e h => next_move h (step_move s e)) hinit Fifo.ordered_empty es

/-! ### Functors queued by functors -/

/-- `origin` lies in an iteration before `n`. -/
def Queued.Before (e : Queued Thread Functor) (n : ℕ) : Prop := ∀ m, e.origin = some m → m < n

/-- The functors waiting in the mailbox come from the current iteration at
the latest, and from an earlier one until it is swapped out. -/
structure Staged (s : EventLoop Thread Functor) : Prop where
  pending : ∀ e ∈ s.pendingFunctors, Queued.Before e (s.iteration + 1)
  swappable : s.pc = .polling ∨ (∃ b, s.pc = .handling b) →
    ∀ e ∈ s.pendingFunctors, Queued.Before e s.iteration
  batch : ∀ e ∈ s.functors, Queued.Before e s.iteration
  executed : ∀ x ∈ s.executed, Queued.Before x.1 x.2

omit [DecidableEq Thread] in
theorem Queued.Before.mono {e : Queued Thread Functor} {m n : ℕ} (h : Queued.Before e m)
    (hmn : m ≤ n) : Queued.Before e n := fun k hk => Nat.lt_of_lt_of_le (h k hk) hmn

theorem originOf_before (s : EventLoop Thread Functor) (t : Thread) (f : Functor) :
    Queued.Before (s.entryOf t f) (s.iteration + 1) := by
  intro m hm
  simp only [entryOf, originOf] at hm
  split at hm
  · split at hm
    · cases hm
      exact Nat.lt_succ_self _
    · cases hm
  · cases hm

theorem originOf_handling (hpc : s.pc = .polling ∨ ∃ b, s.pc = .handling b) (t : Thread) :
    s.originOf t = none := by
  rcases hpc with hpc | ⟨b, hpc⟩ <;> simp [originOf, hpc]

theorem Staged.move (h : s.Staged) (hm : Move s s') : s'.Staged := by
  cases hm with
  | stay => exact h
  | enter hpc => exact ⟨h.pending, by simp, h.batch, h.executed⟩
  | leave hpc => exact ⟨h.pending, by simp, h.batch, h.executed⟩
  | iterate hpc =>
      exact ⟨fun e he => (h.pending e he).mono (Nat.le_succ _), fun _ => h.pending,
        fun e he => (h.batch e he).mono (Nat.le_succ _), h.executed⟩
  | poll hpc reported =>
      rw [poll_eq]
      exact ⟨h.pending, fun _ => h.swappable (.inl hpc), h.batch, h.executed⟩
  | handleWakeup hpc =>
      exact ⟨h.pending, fun _ => h.swappable (.inr ⟨true, hpc⟩), h.batch, h.executed⟩
  | swap hpc =>
      exact ⟨by simp, by simp, h.swappable (.inr ⟨false, hpc⟩), h.executed⟩
  | call i hpc hi => exact ⟨h.pending, by simp, h.batch, h.executed⟩
  | finish i hpc hi => exact ⟨h.pending, by simp, by simp, h.executed⟩
  | ret i hpc =>
      refine ⟨h.pending, by simp, h.batch, fun x hx => ?_⟩
      rcases List.mem_append.mp hx with hx | hx
      · exact h.executed x hx
      · obtain ⟨e, he, rfl⟩ := Option.map_eq_some_iff.mp (Option.mem_toList.mp hx)
        exact h.batch e (List.mem_of_getElem? he)
  | push t f =>
      refine ⟨fun e he => ?_, fun hpc e he => ?_, h.batch, h.executed⟩
      · rcases List.mem_append.mp he with he | he
        · exact h.pending e he
        · obtain rfl := List.mem_singleton.mp he
          exact originOf_before s t f
      · rcases List.mem_append.mp he with he | he
        · exact h.swappable hpc e he
        · obtain rfl := List.mem_singleton.mp he
          intro m hm
          rw [show (s.entryOf t f).origin = none from originOf_handling hpc t] at hm
          cases hm
  | quit t => exact ⟨h.pending, h.swappable, h.batch, h.executed⟩
  | write w hw =>
      rw [write_eq]
      exact ⟨h.pending, h.swappable, h.batch, h.executed⟩

/-! ### The wake-up -/

/-- Between the read of the eventfd and the swap the counter may be behind
the mailbox; everywhere else it covers the functors whose call returned.
A non-zero counter is on the ready list unless it has just been reported. -/
structure Woken (s : EventLoop Thread Functor) : Prop where
  counted : (∀ b, s.pc ≠ .handling b) → ∀ e ∈ s.pendingFunctors, s.Returned e → s.counter ≠ 0
  edge : s.counter ≠ 0 → s.ready = true ∨ s.pc = .handling true

theorem Woken.move (h : s.Woken) (hm : Move s s') : s'.Woken := by
  cases hm with
  | stay => exact h
  | enter hpc => exact ⟨fun _ => h.counted (by simp [hpc]), by simpa [hpc] using h.edge⟩
  | leave hpc => exact ⟨fun _ => h.counted (by simp [hpc]), by simpa [hpc] using h.edge⟩
  | iterate hpc => exact ⟨fun _ => h.counted (by simp [hpc]), by simpa [hpc] using h.edge⟩
  | poll hpc reported =>
      rw [poll_eq]
      refine ⟨fun hno => absurd rfl (hno _), fun hcount => ?_⟩
      have hready : s.ready = true := by simpa [hpc] using h.edge hcount
      cases reported <;> simp [hready, hcount]
  | handleWakeup hpc => exact ⟨fun hno => absurd rfl (hno _), fun hcount => absurd rfl hcount⟩
  | swap hpc => exact ⟨by simp, by simpa [hpc] using h.edge⟩
  | call i hpc hi => exact ⟨fun _ => h.counted (by simp [hpc]), by simpa [hpc] using h.edge⟩
  | finish i hpc hi => exact ⟨fun _ => h.counted (by simp [hpc]), by simpa [hpc] using h.edge⟩
  | ret i hpc => exact ⟨fun _ => h.counted (by simp [hpc]), by simpa [hpc] using h.edge⟩
  | push t f =>
      refine ⟨fun hno e he hret => ?_, h.edge⟩
      simp only [Returned, EventLoop.queueInLoop, List.mem_append, List.mem_singleton,
        not_or] at hret
      rcases List.mem_append.mp he with he | he
      · exact h.counted hno e he hret.1
      · -- the call that has just begun still has its write to make
        obtain rfl := List.mem_singleton.mp he
        exact absurd rfl hret.2
  | quit t =>
      refine ⟨fun hno e he hret => h.counted hno e he fun hw => hret ?_, h.edge⟩
      simp only [EventLoop.quit]
      split
      · exact hw
      · exact List.mem_append_left _ hw
  | write w hw =>
      have hmax : 0 < maxCounter := by decide
      rw [write_eq]
      refine ⟨fun _ e he _ => by dsimp only; omega, fun _ => ?_⟩
      by_cases hlt : s.counter < maxCounter
      · simp [hlt]
      · have hpos : s.counter ≠ 0 := by omega
        simpa [hlt] using h.edge hpos

theorem woken_run (threadId : Thread) (es : List (EventLoopAct Thread Functor)) :
    (run threadId es).Woken :=
  invariant_run_of_step (fun s e h => h.move (step_move s e)) ⟨by simp, by simp⟩ es

theorem staged_run (threadId : Thread) (es : List (EventLoopAct Thread Functor)) :
    (run threadId es).Staged :=
  invariant_run_of_step (fun s e h => h.move (step_move s e))
    ⟨by simp, by simp, by simp, by simp⟩ es

/-! ### The mailbox -/

/-- In every state of every run the executed functors, the rest of the batch
and the mailbox are the queued functors in order; a functor queued by a
functor was executed in a later iteration; and a loop about to poll will be
woken for every functor whose call has returned. -/
theorem mailbox_is_fifo (threadId : Thread) (es : List (EventLoopAct Thread Functor)) :
    (run threadId es).executed.map Prod.fst ++ (run threadId es).rest ++
        (run threadId es).pendingFunctors = (run threadId es).queued ∧
      (∀ e n, (e, n) ∈ (run threadId es).executed → ∀ m, e.origin = some m → m < n) ∧
      ((run threadId es).pc = .polling →
        ∀ e ∈ (run threadId es).pendingFunctors, (run threadId es).Returned e →
          (run threadId es).counter ≠ 0 ∧ (run threadId es).ready = true) := by
  refine ⟨?_, fun e n hx => (staged_run threadId es).executed _ hx, fun hpc e he hret => ?_⟩
  · rw [List.append_assoc]
    exact (ordered threadId es).2
  · have hwoken := woken_run threadId es
    have hcount := hwoken.counted (by simp [hpc]) e he hret
    exact ⟨hcount, by simpa [hpc] using hwoken.edge hcount⟩

end EventLoop

end GameServer.Net
