import GameServer.Lib.Run
import GameServer.Timer.Pending

/-!
Every timer fires exactly once, on time.

A run of the wheel is a list of commands of its owner. A command adds and
cancels timers or advances the clock, and so does every callback: both are
`Action`s, programs that call `add` and `cancel` and may use the ids that
`add` returns. Callbacks may read and write a state of type `τ` that the
owner shares with them.

The run records what happens in a log. The log is the observation the
statements are about; no operation reads it.
-/

namespace GameServer.Timer

open Lib TimerWheel

/-- Code that uses a wheel: it ends with the new value of the shared state. -/
inductive Action (α τ : Type) where
  | ret (user : τ)
  | add (delayMs : ℕ) (cb : α) (k : ℕ → Action α τ)
  | cancel (id : ℕ) (k : Action α τ)

/-- What a run does to its wheel: `add` at a tick, `cancel` with the wheel
before and after it, and the start of a callback at a tick. -/
inductive TimerEvent (α : Type) where
  | add (id delayMs tick : ℕ)
  | cancel (id : ℕ) (before after : TimerWheel α)
  | fire (id tick : ℕ)

namespace TimerEvent

variable {α : Type}

def isAdd (id : ℕ) : TimerEvent α → Bool
  | add i _ _ => i == id
  | _ => false

def isCancel (id : ℕ) : TimerEvent α → Bool
  | cancel i _ _ => i == id
  | _ => false

def isFire (id : ℕ) : TimerEvent α → Bool
  | fire i _ => i == id
  | _ => false

end TimerEvent

structure World (α τ : Type) where
  wheel : TimerWheel α := {}
  user : τ
  log : List (TimerEvent α) := []

variable {α τ : Type}

def Action.run : Action α τ → World α τ → World α τ
  | .ret user, s => { s with user := user }
  | .add delayMs cb k, s =>
      let (wheel, id) := s.wheel.add delayMs cb
      (k id).run { s with
        wheel := wheel
        log := s.log ++ [.add id delayMs s.wheel.nowTick] }
  | .cancel id k, s =>
      k.run { s with
        wheel := s.wheel.cancel id
        log := s.log ++ [.cancel id s.wheel (s.wheel.cancel id)] }

/-- The world as the owner of its wheel; `body` is the code of the callbacks. -/
def worldHost (body : α → τ → Action α τ) : Host (World α τ) α where
  wheel := World.wheel
  setWheel s w := { s with wheel := w }
  call node s :=
    (body node.cb s.user).run { s with log := s.log ++ [.fire node.id s.wheel.nowTick] }
  wheel_setWheel _ _ := rfl

/-- A command of the owner. -/
inductive Cmd (α τ : Type) where
  | act (code : τ → Action α τ)
  | advance (elapsedMs : ℕ)

def World.exec (body : α → τ → Action α τ) (s : World α τ) : Cmd α τ → World α τ
  | .act code => (code s.user).run s
  | .advance elapsedMs => (worldHost body).advance elapsedMs s

/-! ### The life of a timer -/

/-- No timer with this id was added or fired. -/
def Untouched (id : ℕ) (log : List (TimerEvent α)) : Prop :=
  ∀ e ∈ log, e.isAdd id = false ∧ e.isFire id = false

/-- Nothing happened to this id. -/
def Quiet (id : ℕ) (log : List (TimerEvent α)) : Prop :=
  Untouched id log ∧ ∀ e ∈ log, e.isCancel id = false

theorem Untouched.concat {id : ℕ} {log : List (TimerEvent α)} {e : TimerEvent α}
    (h : Untouched id log) (he : e.isAdd id = false ∧ e.isFire id = false) :
    Untouched id (log ++ [e]) := by
  intro e' he'
  rcases List.mem_append.mp he' with h' | h'
  · exact h e' h'
  · rw [List.mem_singleton] at h'
    exact h' ▸ he

theorem Quiet.concat {id : ℕ} {log : List (TimerEvent α)} {e : TimerEvent α}
    (h : Quiet id log) (he : e.isAdd id = false ∧ e.isFire id = false)
    (hc : e.isCancel id = false) : Quiet id (log ++ [e]) := by
  refine ⟨h.1.concat he, fun e' he' => ?_⟩
  rcases List.mem_append.mp he' with h' | h'
  · exact h.2 e' h'
  · rw [List.mem_singleton] at h'
    exact h' ▸ hc

/-- Where a timer is in its life, according to the log, and what the wheel
must say about it there. -/
inductive Life (log : List (TimerEvent α)) (w : TimerWheel α) (id : ℕ) : Prop where
  | unknown (hlog : Untouched id log) (hp : w.pending id = none)
  | waiting {before after : List (TimerEvent α)} {delayMs tick : ℕ} {node : Node α}
      (hlog : log = before ++ .add id delayMs tick :: after) (hbefore : Untouched id before)
      (hafter : Quiet id after) (hp : w.pending id = some node)
      (hexp : node.expiryTick = expiryOf tick delayMs)
  | fired {before mid after : List (TimerEvent α)} {delayMs tick : ℕ}
      (hlog : log = before ++ .add id delayMs tick ::
        (mid ++ .fire id (expiryOf tick delayMs) :: after))
      (hbefore : Untouched id before) (hmid : Quiet id mid) (hafter : Untouched id after)
      (hp : w.pending id = none)
  | cancelled {before mid after : List (TimerEvent α)} {delayMs tick : ℕ}
      {w₁ w₂ : TimerWheel α}
      (hlog : log = before ++ .add id delayMs tick :: (mid ++ .cancel id w₁ w₂ :: after))
      (hbefore : Untouched id before) (hmid : Quiet id mid) (hafter : Untouched id after)
      (hp : w.pending id = none)

theorem Life.congr {log : List (TimerEvent α)} {w w' : TimerWheel α} {id : ℕ}
    (h : Life log w id) (hp' : w'.pending id = w.pending id) : Life log w' id := by
  cases h with
  | unknown hlog hp => exact .unknown hlog (hp'.trans hp)
  | waiting hlog hbefore hafter hp hexp => exact .waiting hlog hbefore hafter (hp'.trans hp) hexp
  | fired hlog hbefore hmid hafter hp => exact .fired hlog hbefore hmid hafter (hp'.trans hp)
  | cancelled hlog hbefore hmid hafter hp =>
      exact .cancelled hlog hbefore hmid hafter (hp'.trans hp)

/-- An event about other timers leaves the life of a timer where it is. -/
theorem Life.other {log : List (TimerEvent α)} {w w' : TimerWheel α} {id : ℕ}
    {e : TimerEvent α} (h : Life log w id)
    (he : e.isAdd id = false ∧ e.isFire id = false) (hc : e.isCancel id = false)
    (hp' : w'.pending id = w.pending id) : Life (log ++ [e]) w' id := by
  cases h with
  | unknown hlog hp => exact .unknown (hlog.concat he) (hp'.trans hp)
  | waiting hlog hbefore hafter hp hexp =>
      exact .waiting (concat_of_occurs hlog) hbefore
        (hafter.concat he hc) (hp'.trans hp) hexp
  | fired hlog hbefore hmid hafter hp =>
      exact .fired (concat_of_occurs₂ hlog) hbefore hmid
        (hafter.concat he) (hp'.trans hp)
  | cancelled hlog hbefore hmid hafter hp =>
      exact .cancelled (concat_of_occurs₂ hlog) hbefore
        hmid (hafter.concat he) (hp'.trans hp)

/-- Cancelling ends the life of a waiting timer and is nothing to any other. -/
theorem Life.cancel {log : List (TimerEvent α)} {w w₁ w₂ w' : TimerWheel α} {id : ℕ}
    (h : Life log w id) (hp' : w'.pending id = none) :
    Life (log ++ [.cancel id w₁ w₂]) w' id := by
  have he : (TimerEvent.cancel id w₁ w₂).isAdd id = false ∧
      (TimerEvent.cancel id w₁ w₂).isFire id = false := ⟨rfl, rfl⟩
  cases h with
  | unknown hlog hp => exact .unknown (hlog.concat he) hp'
  | waiting hlog hbefore hafter hp hexp =>
      exact .cancelled (concat_of_occurs hlog) hbefore hafter
        (fun _ h => absurd h List.not_mem_nil) hp'
  | fired hlog hbefore hmid hafter hp =>
      exact .fired (concat_of_occurs₂ hlog) hbefore hmid
        (hafter.concat he) hp'
  | cancelled hlog hbefore hmid hafter hp =>
      exact .cancelled (concat_of_occurs₂ hlog) hbefore
        hmid (hafter.concat he) hp'

/-- Only a waiting timer fires, and it fires at the tick it waits for. -/
theorem Life.fire {log : List (TimerEvent α)} {w w' : TimerWheel α} {id now : ℕ}
    {node : Node α} (h : Life log w id) (hp : w.pending id = some node)
    (hnow : node.expiryTick = now) (hp' : w'.pending id = none) :
    Life (log ++ [.fire id now]) w' id := by
  cases h with
  | unknown _ hnone => exact absurd (hp.symm.trans hnone) (by simp)
  | waiting hlog hbefore hafter hp₁ hexp =>
      obtain rfl := Option.some.inj (hp.symm.trans hp₁)
      rw [← hnow, hexp]
      exact .fired (concat_of_occurs hlog) hbefore hafter
        (fun _ h => absurd h List.not_mem_nil) hp'
  | fired _ _ _ _ hnone => exact absurd (hp.symm.trans hnone) (by simp)
  | cancelled _ _ _ _ hnone => exact absurd (hp.symm.trans hnone) (by simp)

/-! ### Runs -/

/-- No timer with this id was added so far, or its callback has begun. -/
def Spent (id : ℕ) (log : List (TimerEvent α)) : Prop :=
  (∀ e ∈ log, e.isAdd id = false) ∨ ∃ tick, .fire id tick ∈ log

/-- The invariant of a run; `q` is what `fireSlot` has left to do. -/
structure World.Inv (s : World α τ) (q : List NodePtr) : Prop where
  ready : Ready s.wheel q
  added : ∀ e ∈ s.log, ∀ id, e.isAdd id = true → id < s.wheel.nextId
  life : ∀ id, Life s.log s.wheel id
  cancels : ∀ before after id w₁ w₂, s.log = before ++ .cancel id w₁ w₂ :: after →
    Spent id before → w₂ = w₁

theorem Life.pending_of_spent {log : List (TimerEvent α)} {w : TimerWheel α} {id : ℕ}
    (h : Life log w id) (hs : Spent id log) : w.pending id = none := by
  cases h with
  | unknown _ hp => exact hp
  | waiting hlog hbefore hafter hp hexp =>
      subst hlog
      exfalso
      rcases hs with hs | ⟨tick, hs⟩
      · have := hs _ (List.mem_append_right _ (List.mem_cons_self ..))
        simp [TimerEvent.isAdd] at this
      · rcases List.mem_append.mp hs with h | h
        · have := (hbefore _ h).2
          simp [TimerEvent.isFire] at this
        · rcases List.mem_cons.mp h with h | h
          · cases h
          · have := (hafter.1 _ h).2
            simp [TimerEvent.isFire] at this
  | fired _ _ _ _ hp => exact hp
  | cancelled _ _ _ _ hp => exact hp

/-- The log grows by an event that is not a `cancel`. -/
theorem cancels_concat {log : List (TimerEvent α)} {e : TimerEvent α}
    (h : ∀ before after id w₁ w₂, log = before ++ .cancel id w₁ w₂ :: after →
      Spent id before → w₂ = w₁)
    (he : ∀ id w₁ w₂, e = .cancel id w₁ w₂ → Spent id log → w₂ = w₁) :
    ∀ before after id w₁ w₂, log ++ [e] = before ++ .cancel id w₁ w₂ :: after →
      Spent id before → w₂ = w₁ := by
  intro before after id w₁ w₂ hlog hs
  rcases concat_eq_append_cons hlog with ⟨rfl, hx, -⟩ | ⟨l, -, hl⟩
  · exact he id w₁ w₂ hx.symm hs
  · exact h before l id w₁ w₂ hl hs

theorem World.Inv.add {s : World α τ} {q : List NodePtr} (h : s.Inv q) (delayMs : ℕ) (cb : α) :
    World.Inv { s with
      wheel := (s.wheel.add delayMs cb).1
      log := s.log ++ [.add s.wheel.nextId delayMs s.wheel.nowTick] } q where
  ready := h.ready.add delayMs cb
  added := by
    intro e he id hid
    rw [add_nextId]
    rcases List.mem_append.mp he with he | he
    · exact Nat.lt_succ_of_lt (h.added e he id hid)
    · rw [List.mem_singleton] at he
      subst he
      rw [TimerEvent.isAdd, beq_iff_eq] at hid
      exact hid ▸ Nat.lt_succ_self _
  life := by
    intro id
    have hp := h.ready.rep.pending_add delayMs cb id
    by_cases hid : id = s.wheel.nextId
    · subst hid
      rw [if_pos rfl] at hp
      -- the id is new, so the log does not know it yet
      have hfresh : ∀ e ∈ s.log, e.isAdd s.wheel.nextId = false := by
        intro e he
        by_contra hne
        exact absurd (h.added e he _ (by simpa using hne)) (Nat.lt_irrefl _)
      have hlog : s.log ++ [.add s.wheel.nextId delayMs s.wheel.nowTick] =
          s.log ++ .add s.wheel.nextId delayMs s.wheel.nowTick :: [] := rfl
      refine .waiting hlog ?_ ⟨?_, ?_⟩ hp rfl
      · have hlife := h.life s.wheel.nextId
        cases hlife with
        | unknown hlog _ => exact hlog
        | waiting hlog _ _ _ _ =>
            have := hfresh _ (hlog ▸ List.mem_append_right _ (List.mem_cons_self ..))
            simp [TimerEvent.isAdd] at this
        | fired hlog _ _ _ _ =>
            have := hfresh _ (hlog ▸ List.mem_append_right _ (List.mem_cons_self ..))
            simp [TimerEvent.isAdd] at this
        | cancelled hlog _ _ _ _ =>
            have := hfresh _ (hlog ▸ List.mem_append_right _ (List.mem_cons_self ..))
            simp [TimerEvent.isAdd] at this
      · intro e he
        exact absurd he List.not_mem_nil
      · intro e he
        exact absurd he List.not_mem_nil
    · rw [if_neg hid] at hp
      exact (h.life id).other ⟨by simp [TimerEvent.isAdd, Ne.symm hid], rfl⟩ rfl hp
  cancels := cancels_concat h.cancels fun _ _ _ he => absurd he (by simp)

theorem World.Inv.cancel {s : World α τ} {q : List NodePtr} (h : s.Inv q) (id : ℕ) :
    World.Inv { s with
      wheel := s.wheel.cancel id
      log := s.log ++ [.cancel id s.wheel (s.wheel.cancel id)] } q where
  ready := h.ready.cancel id
  added := by
    intro e he id' hid'
    rw [cancel_nextId]
    rcases List.mem_append.mp he with he | he
    · exact h.added e he id' hid'
    · rw [List.mem_singleton] at he
      subst he
      exact absurd hid' (by simp [TimerEvent.isAdd])
  life := by
    intro id'
    have hp := h.ready.rep.pending_cancel id id'
    by_cases hid : id' = id
    · subst hid
      rw [if_pos rfl] at hp
      exact (h.life id').cancel hp
    · rw [if_neg hid] at hp
      exact (h.life id').other ⟨rfl, rfl⟩ (by simp [TimerEvent.isCancel, Ne.symm hid]) hp
  cancels := cancels_concat h.cancels fun id' w₁ w₂ he hs => by
    obtain ⟨rfl, rfl, rfl⟩ := TimerEvent.cancel.inj he
    exact h.ready.rep.cancel_eq_self ((h.life id).pending_of_spent hs)

/-- Code of the owner and of callbacks preserves the invariant, whatever it does. -/
theorem World.Inv.run {s : World α τ} {q : List NodePtr} (h : s.Inv q) (code : Action α τ) :
    (code.run s).Inv q := by
  induction code generalizing s with
  | ret user => exact ⟨h.ready, h.added, h.life, h.cancels⟩
  | add delayMs cb k ih => exact ih _ (h.add delayMs cb)
  | cancel id k ih => exact ih (h.cancel id)

/-- The next pointer in hand is due and not cancelled: its timer leaves the
wheel and its callback begins. -/
theorem World.Inv.fired {s : World α τ} {n : NodePtr} {q : List NodePtr} {node : Node α}
    (h : s.Inv (n :: q)) (hp : s.wheel.pending n = some node) :
    World.Inv { s with
      wheel := { s.wheel with alive := s.wheel.alive.erase n }
      log := s.log ++ [.fire node.id s.wheel.nowTick] } q := by
  rcases h.ready.take with ⟨-, hnone, -⟩ | ⟨node', hp', hexp, -, hready, hpend⟩
  · rw [hp] at hnone
    cases hnone
  · obtain rfl := Option.some.inj (hp.symm.trans hp')
    have hid := h.ready.rep.pending_id hp
    refine ⟨hready, ?_, ?_, cancels_concat h.cancels fun _ _ _ he => absurd he (by simp)⟩
    · intro e he id hadd
      rcases List.mem_append.mp he with he | he
      · exact h.added e he id hadd
      · rw [List.mem_singleton] at he
        subst he
        exact absurd hadd (by simp [TimerEvent.isAdd])
    · intro id
      by_cases hne : id = n
      · subst hne
        rw [hid]
        exact (h.life id).fire hp hexp ((hpend id).trans (if_pos rfl))
      · refine (h.life id).other ⟨rfl, ?_⟩ rfl ((hpend id).trans (if_neg hne))
        simp [TimerEvent.isFire, hid, Ne.symm hne]

/-- One iteration of `fireSlot`. -/
theorem World.Inv.fireOne {body : α → τ → Action α τ} {s : World α τ} {n : NodePtr}
    {q : List NodePtr} (h : s.Inv (n :: q)) : ((worldHost body).fireOne s n).Inv q := by
  unfold Host.fireOne
  rcases h.ready.take with ⟨htake, -, hready⟩ | ⟨node, hp, -, htake, -⟩
  · rw [show (worldHost body).wheel s = s.wheel from rfl, htake]
    exact ⟨hready, h.added, h.life, h.cancels⟩
  · rw [show (worldHost body).wheel s = s.wheel from rfl, htake]
    exact (h.fired hp).run _

theorem World.Inv.fireSlot {body : α → τ → Action α τ} {s : World α τ} {q : List NodePtr}
    (h : s.Inv q) : ((worldHost body).fireSlot q s).Inv [] := by
  unfold Host.fireSlot
  induction q generalizing s with
  | nil => exact h
  | cons n q ih => exact ih h.fireOne

/-- The clock begins a tick. -/
theorem World.Inv.tick {s : World α τ} (h : s.Inv []) :
    World.Inv { s with wheel := s.wheel.beginStep.1 } s.wheel.beginStep.2 := by
  obtain ⟨hready, -, hnext, hpend⟩ := h.ready.beginStep
  refine ⟨hready, ?_, fun id => ?_, h.cancels⟩
  · intro e he id hid
    exact lt_of_lt_of_eq (h.added e he id hid) hnext.symm
  · exact (h.life id).congr (hpend id)

theorem World.Inv.step {body : α → τ → Action α τ} {s : World α τ} (h : s.Inv []) :
    ((worldHost body).step s).Inv [] :=
  World.Inv.fireSlot h.tick

theorem World.Inv.setRemainder {s : World α τ} (h : s.Inv []) (r : ℕ) :
    World.Inv { s with wheel := { s.wheel with remainderMs := r } } [] :=
  ⟨h.ready.setRemainder r, h.added, fun id => (h.life id).congr rfl, h.cancels⟩

theorem World.Inv.advance {body : α → τ → Action α τ} {s : World α τ} (h : s.Inv [])
    (elapsedMs : ℕ) : ((worldHost body).advance elapsedMs s).Inv [] := by
  unfold Host.advance
  dsimp only
  generalize (((worldHost body).wheel s).remainderMs + elapsedMs) % 2 ^ 64 = total
  have hstart : World.Inv ((worldHost body).setWheel s
      { (worldHost body).wheel s with remainderMs := total % kTickMs }) [] := h.setRemainder _
  generalize (worldHost body).setWheel s
    { (worldHost body).wheel s with remainderMs := total % kTickMs } = s' at hstart
  induction total / kTickMs generalizing s' with
  | zero => exact hstart
  | succ k ih => exact ih _ hstart.step

theorem World.Inv.exec {body : α → τ → Action α τ} {s : World α τ} (h : s.Inv [])
    (c : Cmd α τ) : (s.exec body c).Inv [] := by
  cases c with
  | act code => exact h.run (code s.user)
  | advance elapsedMs => exact h.advance elapsedMs

theorem World.inv_run (body : α → τ → Action α τ) (user : τ) (cmds : List (Cmd α τ)) :
    (cmds.foldl (World.exec body) { user := user }).Inv [] := by
  refine invariant_run_of_step (I := fun s => World.Inv s []) (fun s c h => h.exec c) ?_ cmds
  refine ⟨ready_init, ?_, fun id => .unknown ?_ rfl, ?_⟩
  · simp
  · intro e he
    exact absurd he List.not_mem_nil
  · intro before after id w₁ w₂ h
    simp at h

/-! ### Exactly once, exactly on time -/

/-- The number of times the callback of a timer began. -/
def fires (id : ℕ) (log : List (TimerEvent α)) : ℕ := log.countP (·.isFire id)

/-- A cancellation of the timer precedes every start of its callback. -/
def CancelledFirst (id : ℕ) (log : List (TimerEvent α)) : Prop :=
  ∃ before w₁ w₂ after, log = before ++ .cancel id w₁ w₂ :: after ∧
    ∀ e ∈ before, e.isFire id = false

theorem fires_eq_zero {id : ℕ} {log : List (TimerEvent α)} (h : Untouched id log) :
    fires id log = 0 :=
  List.countP_eq_zero.mpr fun e he => by simp [(h e he).2]

theorem Untouched.no_fire {id : ℕ} {log : List (TimerEvent α)} (h : Untouched id log) (t : ℕ) :
    .fire id t ∉ log := by
  intro ht
  have := (h _ ht).2
  simp [TimerEvent.isFire] at this

/-- One event in a stretch that leaves the timer alone. -/
theorem fires_append_cons {id : ℕ} {mid rest : List (TimerEvent α)} (hmid : Untouched id mid)
    (hrest : Untouched id rest) (e : TimerEvent α) :
    fires id (mid ++ e :: rest) = if e.isFire id then 1 else 0 := by
  have h₁ := fires_eq_zero hmid
  have h₂ := fires_eq_zero hrest
  simp only [fires] at h₁ h₂ ⊢
  rw [List.countP_append, List.countP_cons, h₁, h₂]
  simp

theorem eq_of_fire_mem {id t t' : ℕ} {mid rest : List (TimerEvent α)} (hmid : Untouched id mid)
    (hrest : Untouched id rest) (h : .fire id t ∈ mid ++ .fire id t' :: rest) : t = t' := by
  rcases List.mem_append.mp h with h | h
  · exact absurd h (hmid.no_fire t)
  · rcases List.mem_cons.mp h with h | h
    · exact (TimerEvent.fire.inj h).2
    · exact absurd h (hrest.no_fire t)

/-- A cancellation before the start would lie in the quiet stretch. -/
theorem Quiet.not_cancelledFirst {id t : ℕ} {mid rest : List (TimerEvent α)}
    (hmid : Quiet id mid) : ¬CancelledFirst id (mid ++ .fire id t :: rest) := by
  rintro ⟨before, w₁, w₂, after, heq, hbefore⟩
  have hnew : .cancel id w₁ w₂ ∉ mid := by
    intro hmem
    have := hmid.2 _ hmem
    simp [TimerEvent.isCancel] at this
  obtain ⟨between, rfl⟩ := exists_eq_append_cons heq nofun hnew
  have := hbefore _ (List.mem_append_right _ (List.mem_cons_self ..))
  simp [TimerEvent.isFire] at this

theorem no_add_append_cons {id : ℕ} {a b : List (TimerEvent α)} {x : TimerEvent α}
    (ha : Untouched id a) (hx : x.isAdd id = false) (hb : Untouched id b) :
    ∀ e ∈ a ++ x :: b, e.isAdd id = false := by
  intro e he
  rcases List.mem_append.mp he with h | h
  · exact (ha e h).1
  · rcases List.mem_cons.mp h with rfl | h
    · exact hx
    · exact (hb e h).1

/-- Where the timer of an `add` event stands in the log after it. -/
theorem Life.after_add {log before after : List (TimerEvent α)} {w : TimerWheel α}
    {id delayMs tick : ℕ} (h : Life log w id)
    (hlog : log = before ++ .add id delayMs tick :: after) :
    Untouched id before ∧
      ((Quiet id after ∧ ∃ node, w.pending id = some node ∧
          node.expiryTick = expiryOf tick delayMs) ∨
        (∃ mid rest, after = mid ++ .fire id (expiryOf tick delayMs) :: rest ∧ Quiet id mid ∧
          Untouched id rest) ∨
        ∃ mid w₁ w₂ rest, after = mid ++ .cancel id w₁ w₂ :: rest ∧ Quiet id mid ∧
          Untouched id rest) := by
  -- the log has one `add` of this id, so both decompositions split it at the same place
  have key : ∀ {b a : List (TimerEvent α)} {d t : ℕ}, log = b ++ .add id d t :: a →
      Untouched id b → (∀ e ∈ a, e.isAdd id = false) →
      b = before ∧ d = delayMs ∧ t = tick ∧ a = after := by
    intro b a d t hb hbu hau
    obtain ⟨rfl, hadd, rfl⟩ := occurs_unique (p := fun e => e.isAdd id = true)
      (hb.symm.trans hlog) (by simp [TimerEvent.isAdd]) (by simp [TimerEvent.isAdd])
      (fun e he => by simp [(hbu e he).1]) (fun e he => by simp [hau e he])
    obtain ⟨-, rfl, rfl⟩ := TimerEvent.add.inj hadd
    exact ⟨rfl, rfl, rfl, rfl⟩
  cases h with
  | unknown hu _ =>
      have := (hu _ (hlog ▸ List.mem_append_right _ (List.mem_cons_self ..))).1
      simp [TimerEvent.isAdd] at this
  | waiting hb hbefore hafter hp hexp =>
      obtain ⟨rfl, rfl, rfl, rfl⟩ := key hb hbefore fun e he => (hafter.1 e he).1
      exact ⟨hbefore, .inl ⟨hafter, _, hp, hexp⟩⟩
  | fired hb hbefore hmid hafter _ =>
      obtain ⟨rfl, rfl, rfl, rfl⟩ := key hb hbefore (no_add_append_cons hmid.1 rfl hafter)
      exact ⟨hbefore, .inr (.inl ⟨_, _, rfl, hmid, hafter⟩)⟩
  | cancelled hb hbefore hmid hafter _ =>
      obtain ⟨rfl, rfl, rfl, rfl⟩ := key hb hbefore (no_add_append_cons hmid.1 rfl hafter)
      exact ⟨hbefore, .inr (.inr ⟨_, _, _, _, rfl, hmid, hafter⟩)⟩

/-- Timers fire exactly once, exactly on time. In every run, a timer added at
tick `tick` with a delay in the range of the wheel has its callback started
at tick `due` only, at most once, and never after it was cancelled; once the
clock has reached `due` and it was not cancelled before, it was started.
A `cancel` of an id that is unknown or whose callback has started leaves the
wheel as it is. -/
theorem timer_fires_exactly_once_on_time (body : α → τ → Action α τ) (user : τ)
    (cmds : List (Cmd α τ)) :
    let s := cmds.foldl (World.exec body) { user := user }
    (∀ before after id delayMs tick, s.log = before ++ .add id delayMs tick :: after →
      delayMs ≤ 409500 →
      let due := tick + max 1 ((delayMs + 99) / 100)
      (∀ t, .fire id t ∉ before) ∧
      (∀ t, .fire id t ∈ after → t = due) ∧
      fires id after ≤ 1 ∧
      (CancelledFirst id after → fires id after = 0) ∧
      (due ≤ s.wheel.nowTick → ¬CancelledFirst id after → fires id after = 1)) ∧
    (∀ before after id w₁ w₂, s.log = before ++ .cancel id w₁ w₂ :: after →
      Spent id before → w₂ = w₁) := by
  intro s
  have hinv : s.Inv [] := World.inv_run body user cmds
  refine ⟨?_, hinv.cancels⟩
  intro before after id delayMs tick hlog hrange due
  have hdue : expiryOf tick delayMs = due := expiryOf_eq hrange
  obtain ⟨hbefore, hcases⟩ := (hinv.life id).after_add hlog
  refine ⟨hbefore.no_fire, ?_⟩
  rcases hcases with ⟨hafter, node, hp, hexp⟩ | ⟨mid, rest, rfl, hmid, hrest⟩ |
    ⟨mid, w₁, w₂, rest, rfl, hmid, hrest⟩
  · -- still waiting: the clock has not reached the expiry tick
    have hzero := fires_eq_zero hafter.1
    refine ⟨fun t ht => absurd ht (hafter.1.no_fire t), by omega, fun _ => hzero, ?_⟩
    intro hreached
    rcases hinv.ready.pending_expiry hp with ⟨hq, -⟩ | hlater
    · exact absurd hq List.not_mem_nil
    · omega
  · have hone : fires id (mid ++ .fire id (expiryOf tick delayMs) :: rest) = 1 := by
      simp [fires_append_cons hmid.1 hrest, TimerEvent.isFire]
    exact ⟨fun t ht => (eq_of_fire_mem hmid.1 hrest ht).trans hdue, by omega,
      fun hcancel => absurd hcancel hmid.not_cancelledFirst, fun _ _ => hone⟩
  · have hzero : fires id (mid ++ .cancel id w₁ w₂ :: rest) = 0 := by
      simp [fires_append_cons hmid.1 hrest, TimerEvent.isFire]
    refine ⟨?_, by omega, fun _ => hzero, ?_⟩
    · intro t ht
      have := List.countP_eq_zero.mp hzero _ ht
      simp [TimerEvent.isFire] at this
    · intro _ hne
      exact absurd ⟨mid, w₁, w₂, rest, rfl, fun e he => (hmid.1 e he).2⟩ hne

/-- A timer of 300 ms, and the clock advanced by as much: it fires at tick 3. -/
theorem timer_fires_exactly_once_on_time_three_ticks :
    let cmds : List (Cmd Unit Unit) :=
      [.act fun _ => .add 300 () fun _ => .ret (), .advance 300]
    let s := cmds.foldl (World.exec fun _ _ => .ret ()) { user := () }
    s.log = [.add 1 300 0, .fire 1 3] ∧ fires 1 s.log = 1 := by
  intro cmds s
  have hlog : s.log = [] ++ .add 1 300 0 :: [.fire 1 3] := rfl
  obtain ⟨-, -, -, -, hfire⟩ :=
    (timer_fires_exactly_once_on_time (fun _ _ => .ret ()) () cmds).1 [] [.fire 1 3] 1 300 0
      hlog (by decide)
  have hnot : ¬CancelledFirst 1 [(.fire 1 3 : TimerEvent Unit)] := by
    rintro ⟨b, w₁, w₂, a, heq, -⟩
    cases b with
    | nil => cases heq
    | cons e b => simp at heq
  refine ⟨hlog, ?_⟩
  rw [hlog]
  exact hfire (by decide) hnot

end GameServer.Timer
