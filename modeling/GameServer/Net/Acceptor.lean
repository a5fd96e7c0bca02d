import GameServer.Lib.Run

/-!
`src/net/Acceptor.cc`: the listening socket, whose channel is registered
edge-triggered.

The kernel queues connections and remembers an edge (`ready`) that it has not
reported yet; `handleRead` calls `accept` until the queue is empty or a call
fails. New connections may come between any two calls. `log` says in which
order connections left the queue, and which of them reached the callback.

A call that fails ends the loop although connections may be left in the
queue, and nothing but the next arrival makes the loop run again.
-/

namespace GameServer.Net

open GameServer.Lib

/-- What `accept` does with a queue that is not empty. An aborted connection
is taken out of the queue and reported as an error; in other failures, such
as `EMFILE`, the connection stays. -/
inductive AcceptAnswer where
  | accepted
  | aborted
  | failed
deriving DecidableEq

structure Acceptor (κ : Type) where
  hasCb : Bool := true
  registered : Bool := false
  waiting : List κ := []
  ready : Bool := false
  accepting : Bool := false
  log : List (κ × Bool) := []

inductive AcceptorAct (κ : Type) where
  | arrive (c : κ)
  | listen
  | event
  | accept (answer : AcceptAnswer)

namespace Acceptor

variable {κ : Type}

/-- One round of the loop in `handleRead`. Without a callback the connection
is closed. -/
def acceptOne (answer : AcceptAnswer) (s : Acceptor κ) : Acceptor κ :=
  match s.waiting, answer with
  | [], _ => { s with accepting := false }
  | c :: cs, .accepted => { s with waiting := cs, log := s.log ++ [(c, s.hasCb)] }
  | c :: cs, .aborted =>
      { s with waiting := cs, log := s.log ++ [(c, false)], accepting := false }
  | _ :: _, .failed => { s with accepting := false }

/-- Registering the channel reports what is waiting already. -/
def step (s : Acceptor κ) : AcceptorAct κ → Acceptor κ
  | .arrive c => { s with waiting := s.waiting ++ [c], ready := s.registered }
  | .listen => { s with registered := true, ready := !s.waiting.isEmpty }
  | .event =>
      if s.ready ∧ s.accepting = false then { s with ready := false, accepting := true } else s
  | .accept answer => if s.accepting then s.acceptOne answer else s

/-- A connection that waits is going to be accepted. -/
def Noticed (s : Acceptor κ) : Prop :=
  s.registered = true → s.waiting ≠ [] → s.ready = true ∨ s.accepting = true

/-- When a call fails, nothing else is waiting, or more has arrived since the
event. -/
def Followed (s : Acceptor κ) : AcceptorAct κ → Prop
  | .accept answer =>
      s.accepting = true → s.ready = true ∨
        match answer with
        | .accepted => True
        | .aborted => s.waiting.tail = []
        | .failed => s.waiting = []
  | .arrive _ | .listen | .event => True

instance [DecidableEq κ] (s : Acceptor κ) (a : AcceptorAct κ) : Decidable (s.Followed a) := by
  unfold Followed
  split
  · split <;> infer_instance
  · infer_instance
  · infer_instance
  · infer_instance

def arrivals (acts : List (AcceptorAct κ)) : List κ :=
  acts.filterMap fun a =>
    match a with
    | .arrive c => some c
    | .listen | .event | .accept _ => none

structure Inv (s : Acceptor κ) : Prop where
  noticed : s.Noticed
  accepting : s.accepting = true → s.registered = true
  ready : s.ready = true → s.registered = true

variable {s : Acceptor κ} {a : AcceptorAct κ}

theorem Inv.accept (h : s.Inv) {answer : AcceptAnswer} (hacc : s.accepting = true)
    (hok : s.Followed (.accept answer)) : (s.acceptOne answer).Inv := by
  have hreg := h.accepting hacc
  have hready := hok hacc
  unfold acceptOne
  split
  · next hnone => exact ⟨fun _ hne => absurd hnone hne, nofun, h.ready⟩
  · exact ⟨fun _ _ => .inr hacc, fun _ => hreg, h.ready⟩
  · next c cs hcs =>
      refine ⟨fun _ hne => hready.imp id fun htail => ?_, nofun, h.ready⟩
      rw [hcs] at htail
      exact absurd htail hne
  · next c cs hcs =>
      refine ⟨fun _ hne => hready.imp id fun hnone => ?_, nofun, h.ready⟩
      exact absurd hnone hne

theorem Inv.step (h : s.Inv) (hok : s.Followed a) : (s.step a).Inv := by
  cases a with
  | arrive c => exact ⟨fun hreg _ => .inl hreg, h.accepting, id⟩
  | listen =>
      refine ⟨fun _ hne => .inl ?_, fun _ => rfl, fun _ => rfl⟩
      simpa [Acceptor.step] using hne
  | event =>
      simp only [Acceptor.step]
      split
      · next hev => exact ⟨fun _ _ => .inr rfl, fun _ => h.ready hev.1, nofun⟩
      · exact h
  | accept answer =>
      simp only [Acceptor.step]
      split
      · next hacc => exact h.accept hacc hok
      · exact h

/-- A failure that is not followed up leaves connections waiting. -/
theorem Inv.unnoticed (h : s.Inv) (hbad : ¬s.Followed a) : ¬(s.step a).Noticed := by
  cases a with
  | arrive | listen | event => exact absurd trivial hbad
  | accept answer =>
      obtain ⟨hacc, hnot⟩ := Classical.not_imp.mp hbad
      obtain ⟨hready, hleft⟩ := not_or.mp hnot
      have hreg := h.accepting hacc
      -- the loop has ended over connections that nobody has announced
      have hstuck : ∀ s' : Acceptor κ, s'.registered = true → s'.waiting ≠ [] →
          s'.ready = s.ready → s'.accepting = false → ¬s'.Noticed := by
        intro s' hreg' hne hready' hidle hnoticed
        rcases hnoticed hreg' hne with hr | hr
        · exact hready (hready' ▸ hr)
        · rw [hidle] at hr
          cases hr
      simp only [Acceptor.step, if_pos hacc]
      cases answer with
      | accepted => exact absurd trivial hleft
      | aborted =>
          cases hwait : s.waiting with
          | nil => exact absurd (by rw [hwait]; rfl) hleft
          | cons c cs =>
              rw [hwait] at hleft
              simp only [acceptOne, hwait]
              exact hstuck _ hreg hleft rfl rfl
      | failed =>
          cases hwait : s.waiting with
          | nil => exact absurd hwait hleft
          | cons c cs =>
              simp only [acceptOne, hwait]
              exact hstuck _ hreg (by simp) rfl rfl

theorem inv_init (hasCb : Bool) : ({ hasCb := hasCb } : Acceptor κ).Inv := by
  constructor <;> intro h <;> cases h

theorem log_acceptOne (answer : AcceptAnswer) (s : Acceptor κ) :
    (s.acceptOne answer).log.map Prod.fst ++ (s.acceptOne answer).waiting =
      s.log.map Prod.fst ++ s.waiting := by
  unfold acceptOne
  split
  · rfl
  · next hcs => simp [hcs]
  · next hcs => simp [hcs]
  · rfl

theorem log_run (s : Acceptor κ) (acts : List (AcceptorAct κ)) :
    (acts.foldl step s).log.map Prod.fst ++ (acts.foldl step s).waiting =
      s.log.map Prod.fst ++ s.waiting ++ arrivals acts := by
  induction acts generalizing s with
  | nil => exact (List.append_nil _).symm
  | cons a acts ih =>
      rw [List.foldl_cons, ih]
      cases a with
      | arrive c => simp [step, arrivals]
      | listen => rfl
      | event =>
          simp only [step]
          split <;> rfl
      | accept answer =>
          simp only [step]
          split
          · rw [log_acceptOne]
            rfl
          · rfl

/-- Connections leave the queue once and in the order of their arrival. None
of them is left waiting with nobody to accept it, in any state of a run,
exactly if every call of `accept` that fails leaves the queue empty or comes
after a new arrival. -/
theorem accepts_in_order (hasCb : Bool) (acts : List (AcceptorAct κ)) :
    let s : Acceptor κ := acts.foldl step { hasCb := hasCb }
    s.log.map Prod.fst ++ s.waiting = arrivals acts ∧
      (Visits step Noticed { hasCb := hasCb } acts ↔
        Along step Followed { hasCb := hasCb } acts) :=
  ⟨log_run { hasCb := hasCb } acts,
    visits_iff_along (I := Inv) (fun _ => Inv.noticed) (fun _ _ => Inv.step)
      (fun _ _ => Inv.unnoticed) (inv_init hasCb) acts⟩

/-- Descriptors run out while two connections wait, and are free again soon:
no event is pending, so both are left alone. -/
example :
    let acts : List (AcceptorAct ℕ) :=
      [.listen, .arrive 1, .arrive 2, .event, .accept .failed, .event, .accept .accepted]
    let s := acts.foldl step {}
    s.waiting = [1, 2] ∧ s.ready = false ∧ s.accepting = false := by
  decide

end Acceptor

end GameServer.Net
