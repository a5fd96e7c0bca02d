import GameServer.Timer.Firing

/-!
The clock of the wheel: how far `advance` moves it, and that it may be moved
in pieces.

Milliseconds short of a tick wait in `remainderMs_`, which `advance` alone
reads and writes. `bare` forgets them; every other operation commutes with
`bare`, so two worlds that differ in the remainder only go through the same
ticks. What is left of additivity is the arithmetic of dividing by `kTickMs`.
-/

namespace GameServer.Timer

open Lib

namespace TimerWheel

variable {α : Type}

/-- The two fields that say how much time has passed. -/
def clock (w : TimerWheel α) : ℕ × ℕ := (w.nowTick, w.remainderMs)

def bare (w : TimerWheel α) : TimerWheel α := { w with remainderMs := 0 }

@[simp] theorem clock_place (n : NodePtr) (w : TimerWheel α) : (w.place n).clock = w.clock := by
  unfold place
  split
  · rfl
  · dsimp only
    split <;> rfl

@[simp] theorem clock_add (delayMs : ℕ) (cb : α) (w : TimerWheel α) :
    (w.add delayMs cb).1.clock = w.clock := by
  simp only [add, clock_place]
  rfl

@[simp] theorem clock_cancel (id : ℕ) (w : TimerWheel α) : (w.cancel id).clock = w.clock := by
  unfold cancel
  split <;> rfl

theorem clock_cascade (q : List NodePtr) (w : TimerWheel α) :
    (w.cascade q).clock = w.clock := by
  induction q generalizing w with
  | nil => rfl
  | cons n q ih =>
      rw [cascade]
      split
      · exact ih w
      · split
        · exact ih w
        · rw [ih, clock_place]

theorem clock_beginStep (w : TimerWheel α) :
    w.beginStep.1.clock = (w.nowTick + 1, w.remainderMs) := by
  simp only [beginStep]
  split
  · exact clock_cascade _ _
  · rfl

theorem clock_take {n : NodePtr} {w w' : TimerWheel α} {node : Node α}
    (h : w.take n = some (node, w')) : w'.clock = w.clock := by
  unfold take at h
  split at h
  · cases h
  · split at h
    · cases h
    · obtain ⟨-, rfl⟩ := Prod.mk.inj (Option.some.inj h)
      rfl

/-! ### The remainder is not looked at -/

theorem bare_place (n : NodePtr) (w : TimerWheel α) : (w.place n).bare = w.bare.place n := by
  unfold place bare
  dsimp only
  cases w.nodes.lookup n with
  | none => rfl
  | some node =>
      dsimp only
      split <;> rfl

theorem bare_add (delayMs : ℕ) (cb : α) (w : TimerWheel α) :
    (w.add delayMs cb).1.bare = (w.bare.add delayMs cb).1 :=
  bare_place _ _

theorem bare_cancel (id : ℕ) (w : TimerWheel α) : (w.cancel id).bare = w.bare.cancel id := by
  unfold cancel bare
  dsimp only
  cases w.alive.lookup id <;> rfl

theorem bare_cascade (q : List NodePtr) (w : TimerWheel α) :
    (w.cascade q).bare = w.bare.cascade q := by
  induction q generalizing w with
  | nil => rfl
  | cons n q ih =>
      rw [cascade, cascade, show w.bare.nodes = w.nodes from rfl]
      cases w.nodes.lookup n with
      | none => exact ih w
      | some node =>
          dsimp only
          split
          · exact ih w
          · rw [ih, bare_place]

theorem bare_beginStep (w : TimerWheel α) :
    w.bare.beginStep = (w.beginStep.1.bare, w.beginStep.2) := by
  by_cases hturn : (w.nowTick + 1) % kSlots = 0
  · have hcascade := bare_cascade (w.l1 (slot ((w.nowTick + 1) / kSlots)))
      { w with
        nowTick := w.nowTick + 1
        l1 := Function.update w.l1 (slot ((w.nowTick + 1) / kSlots)) [] }
    simp only [beginStep, bare, hturn, if_true] at hcascade ⊢
    rw [← hcascade]
  · simp only [beginStep, bare, hturn, if_false]

theorem bare_take (n : NodePtr) (w : TimerWheel α) :
    w.bare.take n = (w.take n).map fun r => (r.1, r.2.bare) := by
  unfold take
  rw [show w.bare.nodes = w.nodes from rfl]
  cases w.nodes.lookup n with
  | none => rfl
  | some node =>
      dsimp only
      split <;> rfl

end TimerWheel

open TimerWheel

variable {α τ : Type}

/-- Two wheels are the same up to the remainder in the snapshots of a `cancel`. -/
def TimerEvent.bare : TimerEvent α → TimerEvent α
  | .cancel id before after => .cancel id before.bare after.bare
  | e => e

def TimerEvent.firing : TimerEvent α → Option (ℕ × ℕ)
  | .fire id tick => some (id, tick)
  | _ => none

/-- The timers whose callbacks ran, in this order and at these ticks. -/
def firings (log : List (TimerEvent α)) : List (ℕ × ℕ) := log.filterMap TimerEvent.firing

def World.bare (s : World α τ) : World α τ where
  wheel := s.wheel.bare
  user := s.user
  log := s.log.map TimerEvent.bare

theorem firings_bare (log : List (TimerEvent α)) :
    firings (log.map TimerEvent.bare) = firings log := by
  unfold firings
  rw [List.filterMap_map]
  congr 1
  funext e
  cases e <;> rfl

theorem Action.bare_run (code : Action α τ) (s : World α τ) :
    (code.run s).bare = code.run s.bare := by
  induction code generalizing s with
  | ret user => rfl
  | add delayMs cb k ih =>
      simp only [Action.run]
      rw [ih]
      congr 1
      simp [World.bare, bare_add, TimerEvent.bare]
      exact ⟨rfl, rfl⟩
  | cancel id k ih =>
      simp only [Action.run]
      rw [ih]
      congr 1
      simp [World.bare, bare_cancel, TimerEvent.bare]

theorem Action.clock_run (code : Action α τ) (s : World α τ) :
    (code.run s).wheel.clock = s.wheel.clock := by
  induction code generalizing s with
  | ret user => rfl
  | add delayMs cb k ih => exact (ih _ _).trans (clock_add delayMs cb s.wheel)
  | cancel id k ih => exact (ih _).trans (clock_cancel id s.wheel)

section Advance

variable (body : α → τ → Action α τ)

theorem bare_fireOne (n : NodePtr) (s : World α τ) :
    ((worldHost body).fireOne s n).bare = (worldHost body).fireOne s.bare n := by
  have htake := bare_take n s.wheel
  unfold Host.fireOne
  rw [show (worldHost body).wheel s = s.wheel from rfl,
    show (worldHost body).wheel s.bare = s.wheel.bare from rfl, htake]
  cases s.wheel.take n with
  | none => rfl
  | some r =>
      refine (Action.bare_run _ _).trans ?_
      dsimp only [Option.map_some]
      congr 1
      simp only [World.bare, List.map_append]
      rfl

theorem bare_fireSlot (q : List NodePtr) (s : World α τ) :
    ((worldHost body).fireSlot q s).bare = (worldHost body).fireSlot q s.bare := by
  unfold Host.fireSlot
  induction q generalizing s with
  | nil => rfl
  | cons n q ih => rw [List.foldl_cons, List.foldl_cons, ih, bare_fireOne]

theorem bare_step (s : World α τ) :
    ((worldHost body).step s).bare = (worldHost body).step s.bare := by
  have hbegin := bare_beginStep s.wheel
  unfold Host.step
  rw [bare_fireSlot, show (worldHost body).wheel s.bare = s.wheel.bare from rfl, hbegin]
  rfl

theorem bare_steps (k : ℕ) (s : World α τ) :
    ((worldHost body).step^[k] s).bare = (worldHost body).step^[k] s.bare := by
  induction k generalizing s with
  | zero => rfl
  | succ k ih => rw [Function.iterate_succ_apply, Function.iterate_succ_apply, ih, bare_step]

theorem clock_fireSlot (q : List NodePtr) (s : World α τ) :
    ((worldHost body).fireSlot q s).wheel.clock = s.wheel.clock := by
  unfold Host.fireSlot
  induction q generalizing s with
  | nil => rfl
  | cons n q ih =>
      rw [List.foldl_cons, ih]
      unfold Host.fireOne
      rw [show (worldHost body).wheel s = s.wheel from rfl]
      cases htake : s.wheel.take n with
      | none => rfl
      | some r => exact (Action.clock_run _ _).trans (clock_take htake)

theorem clock_steps (k : ℕ) (s : World α τ) :
    ((worldHost body).step^[k] s).wheel.clock =
      (s.wheel.nowTick + k, s.wheel.remainderMs) := by
  induction k generalizing s with
  | zero => rfl
  | succ k ih =>
      have hstep : ((worldHost body).step s).wheel.clock =
          (s.wheel.nowTick + 1, s.wheel.remainderMs) :=
        (clock_fireSlot body _ _).trans (clock_beginStep s.wheel)
      obtain ⟨hnow, hrem⟩ := Prod.mk.inj hstep
      rw [Function.iterate_succ_apply, ih]
      change ((worldHost body).step s).wheel.nowTick = _ at hnow
      change ((worldHost body).step s).wheel.remainderMs = _ at hrem
      rw [hnow, hrem, Nat.add_assoc, Nat.add_comm 1 k]

/-- `advance` carries out every whole tick and keeps the rest. -/
theorem clock_advance (elapsedMs : ℕ) (s : World α τ) :
    let total := (s.wheel.remainderMs + elapsedMs) % 2 ^ 64
    ((worldHost body).advance elapsedMs s).wheel.clock =
      (s.wheel.nowTick + total / kTickMs, total % kTickMs) :=
  clock_steps body _ _

theorem nowTick_advance (elapsedMs : ℕ) (s : World α τ) :
    ((worldHost body).advance elapsedMs s).wheel.nowTick =
      s.wheel.nowTick + (s.wheel.remainderMs + elapsedMs) % 2 ^ 64 / kTickMs :=
  congrArg Prod.fst (clock_advance body elapsedMs s)

theorem remainderMs_advance (elapsedMs : ℕ) (s : World α τ) :
    ((worldHost body).advance elapsedMs s).wheel.remainderMs =
      (s.wheel.remainderMs + elapsedMs) % 2 ^ 64 % kTickMs :=
  congrArg Prod.snd (clock_advance body elapsedMs s)

theorem bare_advance (elapsedMs : ℕ) (s : World α τ) :
    ((worldHost body).advance elapsedMs s).bare =
      (worldHost body).step^[(s.wheel.remainderMs + elapsedMs) % 2 ^ 64 / kTickMs] s.bare :=
  bare_steps body _ _

/-- Two worlds that agree up to the remainder, and on the remainder. -/
theorem World.eq_of_bare {s s' : World α τ} (h : s.bare = s'.bare)
    (hclock : s.wheel.clock = s'.wheel.clock) :
    s.wheel = s'.wheel ∧ s.user = s'.user ∧ firings s.log = firings s'.log := by
  have huser : s.bare.user = s'.bare.user := congrArg World.user h
  refine ⟨?_, huser, ?_⟩
  · have hrem : s.wheel.remainderMs = s'.wheel.remainderMs := congrArg Prod.snd hclock
    have hwheel : ∀ w : TimerWheel α, w = { w.bare with remainderMs := w.remainderMs } :=
      fun _ => rfl
    rw [hwheel s.wheel, hwheel s'.wheel, hrem]
    exact congrArg (fun w : TimerWheel α => { w with remainderMs := s'.wheel.remainderMs })
      (congrArg World.wheel h)
  · rw [← firings_bare s.log, ← firings_bare s'.log]
    exact congrArg firings (congrArg World.log h)

/-- Advancing is additive. From any state and whatever the callbacks add and
cancel, moving the clock by `a` and then by `b` ends in the same wheel and
the same state of the owner as moving it by `a + b`, and has run the same
callbacks in the same order at the same ticks. -/
theorem advance_advance (s : World α τ) (a b : ℕ)
    (hfits : s.wheel.remainderMs + a + b < 2 ^ 64) :
    let s₁ := (worldHost body).advance b ((worldHost body).advance a s)
    let s₂ := (worldHost body).advance (a + b) s
    s₁.wheel = s₂.wheel ∧ s₁.user = s₂.user ∧ firings s₁.log = firings s₂.log := by
  intro s₁ s₂
  have hfirst : (s.wheel.remainderMs + a) % 2 ^ 64 = s.wheel.remainderMs + a :=
    Nat.mod_eq_of_lt (by omega)
  have hboth : (s.wheel.remainderMs + (a + b)) % 2 ^ 64 = s.wheel.remainderMs + (a + b) :=
    Nat.mod_eq_of_lt (by omega)
  have hnow := nowTick_advance body a s
  have hrem := remainderMs_advance body a s
  rw [hfirst] at hnow hrem
  have hsecond : (((worldHost body).advance a s).wheel.remainderMs + b) % 2 ^ 64 =
      (s.wheel.remainderMs + a) % kTickMs + b := by
    rw [hrem]
    exact Nat.mod_eq_of_lt (by have := Nat.mod_le (s.wheel.remainderMs + a) kTickMs; omega)
  -- the ticks of the two calls together are those of the one
  have hticks : ((s.wheel.remainderMs + a) % kTickMs + b) / kTickMs +
      (s.wheel.remainderMs + a) / kTickMs = (s.wheel.remainderMs + (a + b)) / kTickMs := by
    simp only [kTickMs]
    omega
  have hrest : ((s.wheel.remainderMs + a) % kTickMs + b) % kTickMs =
      (s.wheel.remainderMs + (a + b)) % kTickMs := by
    simp only [kTickMs]
    omega
  apply World.eq_of_bare
  · rw [bare_advance, bare_advance, bare_advance, hsecond, hfirst, hboth,
      ← Function.iterate_add_apply, hticks]
  · refine (clock_advance body b _).trans (Eq.trans ?_ (clock_advance body (a + b) s).symm)
    rw [hsecond, hboth, hnow, hrest, ← hticks, Nat.add_assoc,
      Nat.add_comm ((s.wheel.remainderMs + a) / kTickMs)]

/-- A timer of 300 ms and two calls that each stop in the middle of a tick. -/
theorem advance_advance_half_ticks :
    let body : Unit → Unit → Action Unit Unit := fun _ _ => .ret ()
    let s := World.exec body { user := () } (.act fun _ => .add 300 () fun _ => .ret ())
    let s₁ := (worldHost body).advance 150 ((worldHost body).advance 150 s)
    let s₂ := (worldHost body).advance (150 + 150) s
    s.wheel.remainderMs + 150 + 150 < 2 ^ 64 ∧
      s₁.wheel = s₂.wheel ∧ s₁.user = s₂.user ∧ firings s₁.log = firings s₂.log ∧
      firings s₂.log = [(1, 3)] := by
  intro body s s₁ s₂
  have hfits : s.wheel.remainderMs + 150 + 150 < 2 ^ 64 := by decide
  obtain ⟨hwheel, huser, hlog⟩ := advance_advance body s 150 150 hfits
  exact ⟨hfits, hwheel, huser, hlog, by decide +kernel⟩

end Advance

end GameServer.Timer
