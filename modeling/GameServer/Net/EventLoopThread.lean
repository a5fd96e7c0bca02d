import GameServer.Net.EventLoop

/-!
An event loop on a thread of its own (`src/net/EventLoopThread.cc`).

`threadFunc` constructs the loop, publishes it under the mutex and calls
`loop`; the owner gets the pointer from `startLoop` as soon as it is
published. The first assignment of `loop` comes after that, and it erases a
request to quit that was made in between: `quit_request_kept`.
-/

namespace GameServer.Net

open GameServer.Lib

/-- Where `threadFunc` stands: `published` is between the publication and the
first assignment in `loop`, `returned` between the return of `loop` and the
reset of `loop_`. -/
inductive ThreadPhase where
  | unstarted
  | constructing
  | published
  | looping
  | returned
  | finished
deriving DecidableEq

/-- Where the owner stands: `starting` waits in `startLoop`, `holding` has the
pointer, `joining` waits in the destructor. -/
inductive OwnerPhase where
  | fresh
  | starting
  | holding
  | joining
  | gone
deriving DecidableEq

/-- `requested` and `evaluated` are records: `quit` has stored its flag, and
the `while` condition was evaluated after that. -/
structure EventLoopThread (Thread Functor : Type) where
  loop : EventLoop Thread Functor
  loop_ : Bool := false
  phase : ThreadPhase := .unstarted
  owner : OwnerPhase := .fresh
  requested : Bool := false
  evaluated : Bool := false

/-- `startLoop` creates the thread, `startLoopReturns` is the end of its wait;
`publish` and `clear` are the critical sections of `threadFunc`, `destroy`
that of the destructor. `inner` is an event of the loop object. -/
inductive ThreadAct (Thread Functor : Type) where
  | startLoop
  | publish
  | startLoopReturns
  | inner (e : EventLoopAct Thread Functor)
  | clear
  | destroy
  | joined

namespace EventLoopThread

variable {Thread Functor : Type} [DecidableEq Thread]

/-- The loop object exists and has been published. -/
def alive (s : EventLoopThread Thread Functor) : Bool :=
  s.phase = .published || s.phase = .looping || s.phase = .returned

/-- The pointer has left `startLoop`. -/
def handedOut (s : EventLoopThread Thread Functor) : Bool :=
  s.owner = .holding || s.owner = .joining

/-- `threadFunc` calls `loop` once. Other threads use the object through the
pointer from `startLoop`, while it exists. -/
def admits (s : EventLoopThread Thread Functor) : EventLoopAct Thread Functor → Bool
  | .loop => s.phase = .published
  | .queueInLoop t _ | .runInLoop t _ | .quit t =>
      if s.loop.isInLoopThread t then s.phase = .looping else s.alive && s.handedOut
  | .write _ => s.alive
  | .check | .poll _ | .handleWakeup | .swapFunctors | .functor => s.phase = .looping

def perform (s : EventLoopThread Thread Functor) (e : EventLoopAct Thread Functor) :
    EventLoopThread Thread Functor :=
  let next := { s with loop := s.loop.step e }
  match e with
  | .loop => { next with phase := .looping }
  | .check =>
      { next with
        phase := if next.loop.pc = .outside then .returned else .looping
        evaluated := s.evaluated || (s.requested && s.loop.pc = .checking) }
  | .quit t => { next with requested := s.requested || s.loop.canCall t }
  | _ => next

/-- An event that is not due leaves the state as it is. -/
def step (owner : Thread) (s : EventLoopThread Thread Functor) :
    ThreadAct Thread Functor → EventLoopThread Thread Functor
  | .startLoop =>
      if s.owner = .fresh then { s with owner := .starting, phase := .constructing } else s
  | .publish =>
      if s.phase = .constructing then { s with loop_ := true, phase := .published } else s
  | .startLoopReturns =>
      if s.owner = .starting ∧ s.loop_ then { s with owner := .holding } else s
  | .inner e => if s.admits e then s.perform e else s
  | .clear => if s.phase = .returned then { s with loop_ := false, phase := .finished } else s
  | .destroy =>
      if s.owner = .holding then
        if s.loop_ then
          { s with loop := s.loop.quit owner, owner := .joining, requested := true }
        else { s with owner := .joining }
      else s
  | .joined =>
      if s.owner = .joining ∧ s.phase = .finished then { s with owner := .gone } else s

def init (threadId : Thread) : EventLoopThread Thread Functor where
  loop := { threadId := threadId }

/-- The request is remembered: the flag stays set, the loop is over once it
has looked at it, and a destructor never joins a loop that would go on. -/
structure Kept (s : EventLoopThread Thread Functor) : Prop where
  stored : s.requested = true → s.loop.quit_ = true
  ended : s.evaluated = true → s.loop.pc = .outside
  joins : s.owner = .joining → s.phase = .published ∨ s.phase = .looping → s.loop.quit_ = true

/-- `loop` is not entered after a request. -/
def Timely (s : EventLoopThread Thread Functor) : ThreadAct Thread Functor → Prop
  | .inner .loop => s.phase = .published → s.requested = false
  | _ => True

end EventLoopThread

namespace EventLoop

variable {Thread Functor : Type} [DecidableEq Thread] {s s' : EventLoop Thread Functor}

/-! ### The flag and the position of the loop -/

/-- Only the entry into `loop` resets the flag. -/
theorem Move.quit_kept (hm : Move s s') (hin : s.pc ≠ .outside) (h : s.quit_ = true) :
    s'.quit_ = true := by
  cases hm with
  | enter hpc => exact absurd hpc hin
  | poll hpc reported => rwa [poll_eq]
  | quit t => rfl
  | write w hw => rwa [write_eq]
  | _ => exact h

/-- The loop ends at its condition only. -/
theorem Move.outside_iff (hm : Move s s') (hin : s.pc ≠ .outside) :
    s'.pc = .outside → s.pc = .checking ∧ s.quit_ = true := by
  intro hout
  cases hm with
  | leave hpc hquit => exact ⟨hpc, hquit⟩
  | poll hpc reported =>
      rw [poll_eq] at hout
      cases hout
  | write w hw =>
      rw [write_eq] at hout
      exact absurd hout hin
  | _ => first | exact absurd hout hin | cases hout

theorem step_check_of_quit (hpc : s.pc = .checking) (hquit : s.quit_ = true) :
    (s.step .check).pc = .outside := by
  simp [step, hpc, hquit]

/-- The other steps of the loop thread do nothing at the condition. -/
theorem step_inside (hin : s.pc ≠ .outside) {e : EventLoopAct Thread Functor}
    (he : e = .handleWakeup ∨ e = .swapFunctors ∨ e = .functor ∨ ∃ b, e = .poll b) :
    (s.step e).pc ≠ .outside := by
  intro hout
  obtain ⟨hpc, -⟩ := (step_move s e).outside_iff hin hout
  rcases he with rfl | rfl | rfl | ⟨b, rfl⟩ <;> simp [step, runFunctors, hpc] at hout

/-- A step that leaves the loop where it is and does not reset the flag. -/
structure Calm (s s' : EventLoop Thread Functor) : Prop where
  pc : s'.pc = s.pc
  quit_ : s.quit_ = true → s'.quit_ = true

theorem calm_queueInLoop (s : EventLoop Thread Functor) (t : Thread) (f : Functor) :
    Calm s (s.step (.queueInLoop t f)) := by
  simp only [step]
  split <;> exact ⟨rfl, id⟩

theorem calm_runInLoop (s : EventLoop Thread Functor) (t : Thread) (f : Functor) :
    Calm s (s.step (.runInLoop t f)) := by
  simp only [step, runInLoop]
  split
  · split <;> exact ⟨rfl, id⟩
  · exact ⟨rfl, id⟩

theorem calm_quit (s : EventLoop Thread Functor) (t : Thread) :
    Calm s (s.step (.quit t)) := by
  simp only [step]
  split
  · exact ⟨rfl, fun _ => rfl⟩
  · exact ⟨rfl, id⟩

theorem calm_write (s : EventLoop Thread Functor) (w : Write) :
    Calm s (s.step (.write w)) := by
  simp only [step]
  split
  · rw [write_eq]
    exact ⟨rfl, id⟩
  · exact ⟨rfl, id⟩
end EventLoop

namespace EventLoopThread

variable {Thread Functor : Type} [DecidableEq Thread] {s : EventLoopThread Thread Functor}
  {owner : Thread}

/-! ### The invariant -/

structure Inv (s : EventLoopThread Thread Functor) : Prop where
  position : s.loop.pc = .outside ↔ s.phase ≠ .looping
  pointer : s.loop_ = true ↔ s.alive = true
  unstarted : s.owner = .fresh → s.phase = .unstarted
  given : s.handedOut = true → s.phase ≠ .unstarted ∧ s.phase ≠ .constructing
  stored : s.requested = true → s.loop.quit_ = true
  ended : s.evaluated = true → s.phase = .returned ∨ s.phase = .finished
  joins : s.owner = .joining → s.requested = true ∨ s.phase = .finished

omit [DecidableEq Thread] in
theorem inv_init (threadId : Thread) : (init threadId : EventLoopThread Thread Functor).Inv := by
  constructor <;> simp [init, alive, handedOut]

omit [DecidableEq Thread] in
theorem Inv.kept (h : s.Inv) : s.Kept := by
  refine ⟨h.stored, fun hev => ?_, fun hjoin hphase => ?_⟩
  · have hphase := h.ended hev
    exact h.position.mpr (by rcases hphase with hp | hp <;> simp [hp])
  · rcases h.joins hjoin with hreq | hfin
    · exact h.stored hreq
    · rcases hphase with hp | hp <;> simp [hp] at hfin

omit [DecidableEq Thread] in
/-- A step of the loop object after which the thread and the owner stand
where they stood. -/
theorem Inv.within (h : s.Inv) {l : EventLoop Thread Functor} {requested : Bool}
    (hpos : l.pc = .outside ↔ s.loop.pc = .outside)
    (hquit : s.loop.quit_ = true → l.quit_ = true)
    (hreq : requested = true → s.requested = true ∨ l.quit_ = true)
    (hmono : s.requested = true → requested = true) :
    ({ s with loop := l, requested := requested } : EventLoopThread Thread Functor).Inv where
  position := hpos.trans h.position
  pointer := h.pointer
  unstarted := h.unstarted
  given := h.given
  stored hr := (hreq hr).elim (fun hr' => hquit (h.stored hr')) id
  ended := h.ended
  joins hj := (h.joins hj).imp_left hmono

omit [DecidableEq Thread] in
theorem Inv.calm (h : s.Inv) {l : EventLoop Thread Functor} (hcalm : EventLoop.Calm s.loop l) :
    ({ s with loop := l } : EventLoopThread Thread Functor).Inv :=
  h.within (by rw [hcalm.pc]) hcalm.quit_ .inl id

theorem Inv.perform_quit (h : s.Inv) (t : Thread) : (s.perform (.quit t)).Inv := by
  have hcalm := EventLoop.calm_quit s.loop t
  refine h.within (by rw [hcalm.pc]) hcalm.quit_ (fun hreq => ?_) fun hreq => by simp [hreq]
  simp only [Bool.or_eq_true] at hreq
  refine hreq.imp_right fun hcan => ?_
  simp [EventLoop.step, hcan, EventLoop.quit]

theorem Inv.perform_loop (h : s.Inv) (hphase : s.phase = .published)
    (htime : s.requested = false) : (s.perform .loop).Inv := by
  have hpc : s.loop.pc = .outside := h.position.mpr (by simp [hphase])
  have halive : s.loop_ = true := h.pointer.mpr (by simp [alive, hphase])
  refine
    { position := by simp [perform, EventLoop.step, hpc]
      pointer := by simp [perform, alive, halive]
      unstarted := fun hown => ?_
      given := fun _ => by simp [perform]
      stored := fun hreq => ?_
      ended := fun hev => ?_
      joins := fun hjoin => ?_ }
  · have := h.unstarted hown
    simp [hphase] at this
  · exact absurd (htime.symm.trans hreq) Bool.false_ne_true
  · have := h.ended hev
    simp [hphase] at this
  · have := h.joins hjoin
    simp [hphase, htime] at this

theorem Inv.perform_check (h : s.Inv) (hphase : s.phase = .looping) :
    (s.perform .check).Inv := by
  have hin : s.loop.pc ≠ .outside := fun hpc => h.position.mp hpc hphase
  have hmove := EventLoop.step_move s.loop .check
  have halive : s.loop_ = true := h.pointer.mpr (by simp [alive, hphase])
  refine
    { position := ?_
      pointer := ?_
      unstarted := fun hown => ?_
      given := fun _ => ?_
      stored := fun hreq => hmove.quit_kept hin (h.stored hreq)
      ended := fun hev => ?_
      joins := fun hjoin => ?_ }
  · simp only [perform]
    split <;> simp_all
  · simp only [perform, alive]
    split <;> simp [halive]
  · have := h.unstarted hown
    simp [hphase] at this
  · simp only [perform]
    split <;> simp
  · -- a request that was seen ends the loop
    simp only [perform, Bool.or_eq_true, Bool.and_eq_true, decide_eq_true_eq] at hev
    rcases hev with hev | ⟨hreq, hpc⟩
    · have := h.ended hev
      simp [hphase] at this
    · left
      simp [perform, EventLoop.step_check_of_quit hpc (h.stored hreq)]
  · have := h.joins hjoin
    simp only [hphase, reduceCtorEq, or_false] at this
    exact .inl this

/-- The other steps of the loop thread inside `loop`. -/
theorem Inv.perform_inside (h : s.Inv) (hphase : s.phase = .looping)
    {e : EventLoopAct Thread Functor}
    (he : e = .handleWakeup ∨ e = .swapFunctors ∨ e = .functor ∨ ∃ b, e = .poll b) :
    ({ s with loop := s.loop.step e } : EventLoopThread Thread Functor).Inv := by
  have hin : s.loop.pc ≠ .outside := fun hpc => h.position.mp hpc hphase
  have hmove := EventLoop.step_move s.loop e
  exact h.within (iff_of_false (EventLoop.step_inside hin he) hin) (hmove.quit_kept hin) .inl id

theorem Inv.inner (h : s.Inv) {e : EventLoopAct Thread Functor}
    (htime : s.Timely (.inner e)) (hadm : s.admits e = true) : (s.perform e).Inv := by
  cases e with
  | loop =>
      have hphase : s.phase = .published := by simpa [admits] using hadm
      exact h.perform_loop hphase (htime hphase)
  | check => exact h.perform_check (by simpa [admits] using hadm)
  | poll reported =>
      exact h.perform_inside (by simpa [admits] using hadm) (.inr (.inr (.inr ⟨_, rfl⟩)))
  | handleWakeup => exact h.perform_inside (by simpa [admits] using hadm) (.inl rfl)
  | swapFunctors => exact h.perform_inside (by simpa [admits] using hadm) (.inr (.inl rfl))
  | functor => exact h.perform_inside (by simpa [admits] using hadm) (.inr (.inr (.inl rfl)))
  | queueInLoop t f => exact h.calm (EventLoop.calm_queueInLoop s.loop t f)
  | runInLoop t f => exact h.calm (EventLoop.calm_runInLoop s.loop t f)
  | quit t => exact h.perform_quit t
  | write w => exact h.calm (EventLoop.calm_write s.loop w)

theorem Inv.destroy (h : s.Inv) (hown : s.owner = .holding) : (s.step owner .destroy).Inv := by
  have hgiven := h.given (by simp [handedOut, hown])
  simp only [step, if_pos hown]
  split
  case isTrue hptr =>
      exact
        { position := h.position
          pointer := h.pointer
          unstarted := fun hfresh => by simp at hfresh
          given := fun _ => hgiven
          stored := fun _ => rfl
          ended := h.ended
          joins := fun _ => .inl rfl }
  case isFalse hptr =>
      -- the pointer was given out and is null again
      have hdead : s.alive = false := by
        rw [Bool.eq_false_iff]
        exact fun halive => hptr (h.pointer.mpr halive)
      have hfin : s.phase = .finished := by
        cases hphase : s.phase <;> simp_all [alive]
      exact
        { position := h.position
          pointer := h.pointer
          unstarted := fun hfresh => by simp at hfresh
          given := fun _ => hgiven
          stored := h.stored
          ended := h.ended
          joins := fun _ => .inr hfin }

theorem Inv.step (h : s.Inv) {e : ThreadAct Thread Functor} (htime : s.Timely e) :
    (s.step owner e).Inv := by
  obtain ⟨hposition, hpointer, hunstarted, hgiven, hstored, hended, hjoins⟩ := id h
  cases e with
  | startLoop =>
      simp only [EventLoopThread.step]
      split
      case isTrue hown =>
          have hphase := hunstarted hown
          constructor <;> simp_all [alive, handedOut]
      case isFalse => exact h
  | publish =>
      simp only [EventLoopThread.step]
      split
      case isTrue hphase => constructor <;> simp_all [alive]
      case isFalse => exact h
  | startLoopReturns =>
      simp only [EventLoopThread.step]
      split
      case isTrue hown =>
          have hphase : s.phase ≠ .unstarted ∧ s.phase ≠ .constructing := by
            have halive := hpointer.mp hown.2
            constructor <;> intro hphase <;> simp [alive, hphase] at halive
          exact ⟨hposition, hpointer, by simp, fun _ => hphase, hstored, hended, by simp⟩
      case isFalse => exact h
  | inner e =>
      simp only [EventLoopThread.step]
      split
      case isTrue hadm => exact h.inner htime hadm
      case isFalse => exact h
  | clear =>
      simp only [EventLoopThread.step]
      split
      case isTrue hphase => constructor <;> simp_all [alive]
      case isFalse => exact h
  | destroy =>
      by_cases hown : s.owner = .holding
      · exact h.destroy hown
      · rw [EventLoopThread.step, if_neg hown]
        exact h
  | joined =>
      simp only [EventLoopThread.step]
      split
      case isTrue hown => constructor <;> simp_all [alive, handedOut]
      case isFalse => exact h

/-! ### The request is lost exactly there -/

theorem not_kept_of_late (h : s.Inv) {e : ThreadAct Thread Functor} (hlate : ¬s.Timely e) :
    ¬(s.step owner e).Kept := by
  cases e with
  | inner e =>
      cases e with
      | loop =>
          simp only [Timely, Classical.not_imp, Bool.not_eq_false] at hlate
          obtain ⟨hphase, hreq⟩ := hlate
          have hpc : s.loop.pc = .outside := h.position.mpr (by simp [hphase])
          intro hkept
          have hstored := hkept.stored
          simp [EventLoopThread.step, admits, perform, hphase, EventLoop.step, hpc, hreq]
            at hstored
      | _ => exact absurd trivial hlate
  | _ => exact absurd trivial hlate

/-- In every interleaving of `threadFunc`, the owner and other users of the
loop, the requests to quit are remembered up to every moment if and only if
`loop` is never entered after a request. -/
theorem quit_request_kept (threadId owner : Thread) (es : List (ThreadAct Thread Functor)) :
    Visits (step owner) Kept (init threadId) es ↔
      Along (step owner) Timely (init threadId) es := by
  refine visits_iff_along (I := Inv) (fun s h => h.kept) (fun s e h htime => ?_)
    (fun s e h hlate => ?_) (inv_init threadId) es
  · exact h.step htime
  · exact not_kept_of_late h hlate

/-- The destructor runs between the publication and the start of `loop`: the
owner joins a loop that has forgotten the request and polls. -/
theorem quit_request_lost :
    let es : List (ThreadAct ℕ Unit) :=
      [.startLoop, .publish, .startLoopReturns, .destroy, .inner .loop, .inner .check]
    let s := es.foldl (step 0) (init 1)
    s.owner = .joining ∧ s.requested = true ∧ s.evaluated = true ∧ s.loop.quit_ = false ∧
      s.loop.pc = .polling ∧ ¬Visits (step 0) Kept (init 1) es := by
  refine ⟨by decide, by decide, by decide, by decide, by decide, fun hvisits => ?_⟩
  have hlast := hvisits.2.2.2.2.2.1.stored
  exact absurd (hlast (by decide)) (by decide)

end EventLoopThread

end GameServer.Net
