import GameServer.Lib.UnorderedMap
import Mathlib.Logic.Function.Iterate
import Mathlib.Tactic.Common

/-!
The two-level timer wheel of `src/timer/TimerWheel.{h,cc}`.

Level 0 has 64 slots of one tick (100 ms), level 1 has 64 slots of 64
ticks. A timer that is due within 63 ticks hangs in level 0, a farther one
in level 1; whenever level 0 has gone round once, the current slot of
level 1 is cascaded into level 0.

The nodes of the source are shared: a slot, the vector `fireSlot` drains
and the table `alive_` point to the same object, and `cancel` marks that
object. They are therefore kept in a heap `nodes`, and the slots hold
pointers. A node is allocated by `add` only, so its id serves as its
pointer. Ticks and ids are natural numbers (their 64-bit counters advance
by one per tick and per timer); the sums of caller-supplied milliseconds
wrap as the `uint64_t` of the source does.

A callback is a value of a type `α`. What running it does is not the
wheel's business: `Host` says how the state that owns the wheel contains
it and what a callback does to that state, calls of `add` and `cancel`
included.
-/

namespace GameServer.Timer

open Lib

def kTickMs : ℕ := 100

def kSlots : ℕ := 64

/-- `std::shared_ptr<Node>`. -/
abbrev NodePtr := ℕ

structure Node (α : Type) where
  id : ℕ
  expiryTick : ℕ
  cb : α
  canceled : Bool := false

structure TimerWheel (α : Type) where
  nowTick : ℕ := 0
  remainderMs : ℕ := 0
  nextId : ℕ := 1
  nodes : UnorderedMap NodePtr (Node α) := ∅
  l0 : Fin kSlots → List NodePtr := fun _ => []
  l1 : Fin kSlots → List NodePtr := fun _ => []
  alive : UnorderedMap ℕ NodePtr := ∅

/-- The slot with index `t % kSlots`. -/
def slot (t : ℕ) : Fin kSlots := ⟨t % kSlots, Nat.mod_lt t (by decide)⟩

/-- `push_back` on one slot of a level. -/
def pushSlot (level : Fin kSlots → List NodePtr) (i : Fin kSlots) (n : NodePtr) :
    Fin kSlots → List NodePtr :=
  Function.update level i (level i ++ [n])

/-- The rounding of `add`: whole ticks, at least one. The addition wraps at
`2 ^ 64`. -/
def ticksOf (delayMs : ℕ) : ℕ :=
  let ticks := (delayMs + kTickMs - 1) % 2 ^ 64 / kTickMs
  if ticks = 0 then 1 else ticks

namespace TimerWheel

variable {α : Type}

def place (n : NodePtr) (w : TimerWheel α) : TimerWheel α :=
  match w.nodes.lookup n with
  | none => w
  | some node =>
      let diff := node.expiryTick - w.nowTick
      if diff < kSlots then
        { w with l0 := pushSlot w.l0 (slot node.expiryTick) n }
      else
        -- a timer beyond the range of level 1 is truncated to the farthest slot
        let expiryTick :=
          if diff ≥ kSlots * kSlots then w.nowTick + kSlots * kSlots - 1 else node.expiryTick
        { w with
          nodes := w.nodes.modify n fun node => { node with expiryTick := expiryTick }
          l1 := pushSlot w.l1 (slot (expiryTick / kSlots)) n }

/-- The new wheel and the id of the new timer. -/
def add (delayMs : ℕ) (cb : α) (w : TimerWheel α) : TimerWheel α × ℕ :=
  let id := w.nextId
  let node : Node α := { id := id, expiryTick := w.nowTick + ticksOf delayMs, cb := cb }
  let w := { w with
    nextId := id + 1
    nodes := w.nodes.insert id node
    alive := w.alive.insert id id }
  (w.place id, id)

def cancel (id : ℕ) (w : TimerWheel α) : TimerWheel α :=
  match w.alive.lookup id with
  | none => w
  | some n =>
      { w with
        nodes := w.nodes.modify n fun node => { node with canceled := true }
        alive := w.alive.erase id }

/-- The loop of `advance` over the slot taken from level 1. -/
def cascade : List NodePtr → TimerWheel α → TimerWheel α
  | [], w => w
  | n :: rest, w =>
      match w.nodes.lookup n with
      | none => cascade rest w
      | some node => if node.canceled then cascade rest w else cascade rest (w.place n)

/-- One round of the loop of `advance` up to the first callback: the clock
moves, a full turn of level 0 cascades level 1, and `fireSlot` swaps the
current slot out. -/
def beginStep (w : TimerWheel α) : TimerWheel α × List NodePtr :=
  let now := w.nowTick + 1
  let w := { w with nowTick := now }
  let w :=
    if now % kSlots = 0 then
      let i := slot (now / kSlots)
      cascade (w.l1 i) { w with l1 := Function.update w.l1 i [] }
    else w
  ({ w with l0 := Function.update w.l0 (slot now) [] }, w.l0 (slot now))

/-- The loop body of `fireSlot` before the callback runs: a cancelled node
is skipped, any other one leaves `alive_` and is returned. -/
def take (n : NodePtr) (w : TimerWheel α) : Option (Node α × TimerWheel α) :=
  match w.nodes.lookup n with
  | none => none
  | some node =>
      if node.canceled then none else some (node, { w with alive := w.alive.erase node.id })

/-- The timers that still can fire, as a client of the wheel sees them. -/
def pending (w : TimerWheel α) (id : ℕ) : Option (Node α) :=
  (w.alive.lookup id).bind w.nodes.lookup

end TimerWheel

/-- A state that owns a wheel, and what the callbacks do to it. -/
structure Host (σ α : Type) where
  wheel : σ → TimerWheel α
  setWheel : σ → TimerWheel α → σ
  call : Node α → σ → σ
  wheel_setWheel : ∀ s w, wheel (setWheel s w) = w

namespace Host

variable {σ α : Type} (h : Host σ α)

/-- One iteration of the loop of `fireSlot`. -/
def fireOne (s : σ) (n : NodePtr) : σ :=
  match (h.wheel s).take n with
  | none => s
  | some (node, w) => h.call node (h.setWheel s w)

def fireSlot (pending : List NodePtr) (s : σ) : σ := pending.foldl h.fireOne s

/-- One iteration of the loop of `advance`. -/
def step (s : σ) : σ :=
  h.fireSlot (h.wheel s).beginStep.2 (h.setWheel s (h.wheel s).beginStep.1)

def advance (elapsedMs : ℕ) (s : σ) : σ :=
  let total := ((h.wheel s).remainderMs + elapsedMs) % 2 ^ 64
  h.step^[total / kTickMs]
    (h.setWheel s { h.wheel s with remainderMs := total % kTickMs })

end Host

end GameServer.Timer
