import GameServer.Game.BattleStep

/-!
A battle room, from `src/game/Room.{h,cc}`.

Every member function runs on the room's loop. What it does beyond the
room's own state is returned as a list of `RoomAct`s in the order of the
source: sends, the task it queues on its own loop, and the call of `onEnd_`.
A broadcast is one act, also when no connection is left to receive it.
-/

namespace GameServer.Game

open GameServer.Lib GameServer.Proto
open Scalar

/-- A connection. Its name is unique, so it stands for `name()` too. -/
abbrev Conn := ℕ

structure Room (F : Type) where
  id : ℕ
  sim : BattleSim F := {}
  conns : UnorderedMap ℕ (Option Conn) := ∅
  ticker : Bool := false
  tick : ℕ := 0
  ended : Bool := false

inductive RoomAct (F : Type) where
  | broadcast (msg : ServerMsg F) (slots : List (ℕ × Conn))
  | send (playerId : ℕ) (conn : Conn) (msg : ServerMsg F)
  | queueTickerReset
  | onEnd (roomId winnerId : ℕ)

/-- What is posted to the loop of a room. -/
inductive RoomTask (F : Type) where
  | start
  | onInput (playerId : ℕ) (input : PlayerInput F)
  | rebind (playerId : ℕ) (conn : Option Conn)
  | dropConn (playerId : ℕ)
  | forceEnd (winnerId : ℕ)
  | stop
  | resetTicker

namespace Room

def kTickMs : ℕ := 50

variable {F : Type}

/-- The slots that hold a connection. -/
def bound (r : Room F) : List (ℕ × Conn) :=
  r.conns.entries.filterMap fun e => e.2.map (e.1, ·)

theorem mem_bound {r : Room F} {p : ℕ} {c : Conn} (h : r.conns.lookup p = some (some c)) :
    (p, c) ∈ r.bound :=
  List.mem_filterMap.mpr ⟨⟨p, some c⟩, UnorderedMap.mem_entries_iff.mpr h, rfl⟩

variable [Scalar F]

/-- The constructor: the players face each other from the left and right. -/
def new (ks : List ℕ) (id : ℕ) (players : List (ℕ × Option Conn)) : Room F :=
  players.zipIdx.foldl (fun r e =>
    { r with
      sim := r.sim.addPlayer ks e.1.1 (if e.2 % 2 = 0 then lit 30 else lit 70) (lit 50)
      conns := UnorderedMap.reorder ks (r.conns.insert e.1.1 e.1.2) }) { id := id }

def broadcast (r : Room F) (msg : ServerMsg F) : RoomAct F := .broadcast msg r.bound

def enterRoom (r : Room F) : ServerMsg F := .enterRoom r.id r.sim.playerIds

def fullSnapshot (r : Room F) : StateSnapshot F :=
  { tick := r.tick
    full := true
    players := r.sim.playerIds.map r.sim.fillState
    projectiles := r.sim.projectileIds.map r.sim.fillProjectileState }

/-- `codec_->send`: nothing happens without a connection. -/
def sendTo (playerId : ℕ) (conn : Option Conn) (msg : ServerMsg F) : List (RoomAct F) :=
  match conn with
  | none => []
  | some c => [.send playerId c msg]

def sendFullSnapshot (r : Room F) (playerId : ℕ) (conn : Option Conn) : List (RoomAct F) :=
  sendTo playerId conn (.stateSnapshot r.fullSnapshot)

def start (r : Room F) : Room F × List (RoomAct F) :=
  ({ r with ticker := true },
    r.broadcast r.enterRoom :: r.conns.entries.flatMap fun e => r.sendFullSnapshot e.1 e.2)

def onInput (playerId : ℕ) (input : PlayerInput F) (r : Room F) : Room F :=
  if r.ended then r else { r with sim := r.sim.applyInput playerId input }

def rebind (playerId : ℕ) (conn : Option Conn) (r : Room F) : Room F × List (RoomAct F) :=
  match r.conns.lookup playerId with
  | none => (r, [])
  | some _ =>
      let r := { r with conns := r.conns.modify playerId fun _ => conn }
      (r, sendTo playerId conn r.enterRoom ++ r.sendFullSnapshot playerId conn)

def dropConn (playerId : ℕ) (r : Room F) : Room F :=
  { r with conns := r.conns.modify playerId fun _ => none }

/-- The ticker must not be destroyed under its own callback, so that is left
to a task of the next round. -/
def endBattle (winnerId : ℕ) (r : Room F) : Room F × List (RoomAct F) :=
  let r := { r with ended := true }
  (r, [r.broadcast (.battleEnd winnerId), .queueTickerReset, .onEnd r.id winnerId])

def forceEnd (winnerId : ℕ) (r : Room F) : Room F × List (RoomAct F) :=
  if r.ended then (r, []) else r.endBattle winnerId

def stop (r : Room F) : Room F := { r with ended := true, ticker := false }

/-- The incremental snapshot of a tick, after `step`. -/
def delta (tick : ℕ) (sim : BattleSim F) (changed removed : List ℕ) : StateSnapshot F :=
  { tick := tick
    full := false
    players := changed.map sim.fillState
    projectiles := sim.projectileIds.map sim.fillProjectileState
    removedProjectileIds := removed }

/-- The part of `onTick` before the check for a winner. -/
def simulate (ks : List ℕ) (r : Room F) : Room F × List (RoomAct F) :=
  let (sim, changed) := r.sim.step ks kTickMs
  let (removed, sim') := sim.takeRemovedProjectileIds
  let r := { r with tick := r.tick + 1, sim := sim' }
  (r,
    if changed.isEmpty && sim.projectileIds.isEmpty && removed.isEmpty then []
    else [r.broadcast (.stateSnapshot (delta r.tick sim' changed removed))])

def onTick (ks : List ℕ) (r : Room F) : Room F × List (RoomAct F) :=
  if r.ended then (r, [])
  else
    let (r, sent) := r.simulate ks
    let w := r.sim.winnerOrZero
    if w ≠ 0 then
      let (r, ending) := r.endBattle w
      (r, sent ++ ending)
    else (r, sent)

/-- A posted task runs. -/
def exec (r : Room F) : RoomTask F → Room F × List (RoomAct F)
  | .start => r.start
  | .onInput playerId input => (r.onInput playerId input, [])
  | .rebind playerId conn => r.rebind playerId conn
  | .dropConn playerId => (r.dropConn playerId, [])
  | .forceEnd winnerId => r.forceEnd winnerId
  | .stop => (r.stop, [])
  | .resetTicker => ({ r with ticker := false }, [])

end Room

/-- What can happen to a room: a posted task, or its ticker. -/
inductive RoomOp (F : Type) where
  | task (task : RoomTask F)
  | onTick (ks : List ℕ)

namespace Room

variable {F : Type} [Scalar F]

def apply (r : Room F) : RoomOp F → Room F × List (RoomAct F)
  | .task task => r.exec task
  | .onTick ks => r.onTick ks

/-- One operation, with what the room has done so far. -/
def run (s : Room F × List (RoomAct F)) (op : RoomOp F) : Room F × List (RoomAct F) :=
  ((s.1.apply op).1, s.2 ++ (s.1.apply op).2)

/-! ### The simulation inside a room -/

theorem rebind_sim (r : Room F) (q : ℕ) (conn : Option Conn) :
    (r.rebind q conn).1.sim = r.sim ∧ (r.rebind q conn).1.tick = r.tick := by
  unfold rebind
  split <;> exact ⟨rfl, rfl⟩

theorem wf_simulate {r : Room F} (h : r.sim.Wf) (ks : List ℕ) : (r.simulate ks).1.sim.Wf := by
  have hstep := h.step ks kTickMs
  exact ⟨hstep.player_id, hstep.projectile_id, hstep.fresh, hstep.owner⟩

/-- What holds without players, and stays when one joins at a starting place,
holds in a new room. -/
theorem invariant_new {I : BattleSim F → Prop} (hinit : I {}) {ks : List ℕ}
    (hadd : ∀ s id x, x = lit 30 ∨ x = lit 70 → I s → I (s.addPlayer ks id x (lit 50))) (id : ℕ)
    (players : List (ℕ × Option Conn)) : I (new ks id players : Room F).sim := by
  refine invariant_run_of_step (I := fun r : Room F => I r.sim) (fun r e h => ?_) hinit _
  refine hadd r.sim e.1.1 _ ?_ h
  split
  · exact .inl rfl
  · exact .inr rfl

theorem wf_new (ks : List ℕ) (id : ℕ) (players : List (ℕ × Option Conn)) :
    (new ks id players : Room F).sim.Wf :=
  invariant_new BattleSim.wf_init (fun _ id x _ h => h.addPlayer ks id x (lit 50)) id players

theorem wf_apply {r : Room F} (h : r.sim.Wf) (op : RoomOp F) : (r.apply op).1.sim.Wf := by
  cases op with
  | task task =>
      cases task with
      | onInput q input =>
          simp only [apply, exec, onInput]
          split
          · exact h
          · exact h.applyInput q input
      | rebind q conn => exact (rebind_sim r q conn).1 ▸ h
      | forceEnd w =>
          simp only [apply, exec, forceEnd]
          split <;> exact h
      | start | dropConn | stop | resetTicker => exact h
  | onTick ks =>
      have hsim := wf_simulate h ks
      simp only [apply, onTick]
      split
      · exact h
      · split <;> exact hsim

end Room

end GameServer.Game
