import GameServer.Game.Presence
import GameServer.Proto.Serialize

/-!
How long the frames of the server get.

Everything but two messages is short: a room has two players, and a token
has 32 characters. A snapshot grows with the projectiles in flight and a
leaderboard with the accounts on it, and nothing on the sending side bounds
either. `load` weighs the projectiles of a room as a snapshot does; a step
of the simulation adds at most two shots to it, and what it takes away turns
into tombstones, which are lighter. So a bound on the load before a step
bounds the snapshot after it.
-/

namespace GameServer.Game

open GameServer.Lib GameServer.Lib.Wire GameServer.Proto GameServer.Timer
open Scalar

variable {F : Type}

namespace BattleSim

/-! ### The projectiles in flight -/

/-- What the projectiles in flight take in a snapshot. -/
def load (s : BattleSim F) : ℕ :=
  UnorderedMap.weigh (fun id q => projectileCost id q.ownerId) s.projectiles

/-- The same with the tombstones not yet taken. -/
def weight (s : BattleSim F) : ℕ :=
  s.load + (s.removedProjectileIds.map fun id => (varint id).length).sum

theorem weight_removeProjectile {s : BattleSim F} {k : ℕ} {q : Projectile F}
    (h : s.projectiles.lookup k = some q) : (removeProjectile k s).weight ≤ s.weight := by
  have herase := UnorderedMap.weigh_erase (fun id q => projectileCost id q.ownerId) h
  have htomb : (varint k).length ≤ projectileCost k q.ownerId := by
    simp only [projectileCost]
    omega
  simp only [weight, load, removeProjectile, List.map_append, List.sum_append, List.map_cons,
    List.map_nil, List.sum_cons, List.sum_nil] at herase ⊢
  omega

variable [Scalar F]

theorem weight_attackOne (s : BattleSim F) (id : ℕ) :
    (attackOne s id).weight ≤ s.weight + 44 := by
  rcases attackOne_cases s id with h | ⟨p, -, h⟩
  · rw [h]
    exact Nat.le_add_right _ _
  · have hinsert := UnorderedMap.weigh_insert_le (fun id q => projectileCost id q.ownerId)
      s.nextProjectileId (shot s.players s.nextProjectileId id p) s.projectiles
    have hcost := projectileCost_le s.nextProjectileId
      (shot s.players s.nextProjectileId id p).ownerId
    rw [h]
    simp only [weight, load] at hinsert ⊢
    omega

theorem weight_attackAll (ks : List ℕ) (s : BattleSim F) :
    (attackAll ks s).weight ≤ s.weight + 44 * s.players.keys.length := by
  have hloop : ∀ (ids : List ℕ) (s : BattleSim F),
      (ids.foldl attackOne s).weight ≤ s.weight + 44 * ids.length := by
    intro ids
    induction ids with
    | nil => exact fun s => Nat.le_add_right _ _
    | cons id ids ih =>
        intro s
        have hone := weight_attackOne s id
        have hrest := ih (attackOne s id)
        rw [List.foldl_cons, List.length_cons]
        omega
  have hkeys := hloop s.players.keys s
  simpa only [attackAll, weight, load, UnorderedMap.weigh_reorder] using hkeys

theorem weight_advanceOne (dt : F) (acc : BattleSim F × List ℕ) (k : ℕ) :
    (advanceOne dt acc k).1.weight ≤ acc.1.weight := by
  unfold advanceOne
  split
  · exact Nat.le_refl _
  · next q hq =>
      split
      · exact weight_removeProjectile hq
      · have hfly : ({ acc.1 with projectiles := acc.1.projectiles.modify k (fly dt) } :
            BattleSim F).weight = acc.1.weight := by
          have hsame := UnorderedMap.weigh_modify (f := fly dt)
            (w := fun id q => projectileCost id q.ownerId) (fun _ _ => rfl) k acc.1.projectiles
          simp only [weight, load, hsame]
        dsimp only
        split
        · have hlookup : (acc.1.projectiles.modify k (fly dt)).lookup k = some (fly dt q) := by
            simp [hq]
          exact (weight_removeProjectile hlookup).trans (Nat.le_of_eq hfly)
        · exact Nat.le_of_eq hfly

/-- A step adds a shot for each player at most. -/
theorem weight_step (ks : List ℕ) (dtMs : ℕ) (s : BattleSim F) :
    (step ks dtMs s).1.weight ≤ s.load + 44 * s.players.keys.length := by
  have harmed : (armed ks dtMs s).weight ≤ s.load + 44 * s.players.keys.length := by
    refine (weight_attackAll ks _).trans (Nat.le_of_eq ?_)
    simp [weight, load, coolAll, moveAll]
  rw [step_eq]
  exact invariant_run_of_step (I := fun acc : BattleSim F × List ℕ =>
      acc.1.weight ≤ s.load + 44 * s.players.keys.length)
    (fun acc id h => (weight_advanceOne _ acc id).trans h) harmed _

end BattleSim

namespace Room

/-! ### What a room sends -/

/-- The room's projectiles leave space in a snapshot for two players, two
more shots and the counters. -/
def light (r : Room F) : Bool := r.sim.load + 187 ≤ 65534

theorem length_le_two {a b : ℕ} {l : List ℕ} (hnodup : l.Nodup) (h : ∀ k ∈ l, k = a ∨ k = b) :
    l.length ≤ 2 := by
  have hsubset : l ⊆ [a, b] := fun k hk => by simpa using h k hk
  exact (List.subperm_of_subset hnodup hsubset).length_le

theorem Seats.length_playerIds {a b : ℕ} {r : Room F} (h : Seats a b r) :
    r.sim.playerIds.length ≤ 2 := by
  refine length_le_two (a := a) (b := b) r.sim.players.nodupKeys fun k hk => ?_
  obtain ⟨p, hp⟩ := UnorderedMap.mem_keys_iff.mp hk
  exact (h.players.keys k).mp (by rw [hp]; rfl)

variable [Scalar F]

/-- In a snapshot the projectiles of a simulation take what they weigh. -/
theorem cost_projectiles {sim : BattleSim F} (h : sim.Wf) :
    ((sim.projectileIds.map sim.fillProjectileState).map fun q =>
      projectileCost q.projectileId q.ownerId).sum = sim.load := by
  simp only [BattleSim.projectileIds, AList.keys, List.keys, List.map_map, BattleSim.load,
    UnorderedMap.weigh]
  congr 1
  refine List.map_congr_left fun e he => ?_
  have hlookup : sim.projectiles.lookup e.1 = some e.2 := UnorderedMap.mem_entries_iff.mp he
  simp only [Function.comp_apply, BattleSim.fillProjectileState, hlookup]
  rw [h.projectile_id hlookup]

variable (fmt : FloatFormat F)

/-- The message fits into a frame. -/
def Fits (msg : ServerMsg F) : Prop := (msg.serialize fmt).length ≤ 65534

theorem fits_fullSnapshot {a b : ℕ} {r : Room F} (h : Seats a b r) (hlight : r.light = true) :
    Fits fmt (.stateSnapshot r.fullSnapshot) := by
  have hplayers : r.fullSnapshot.players.length ≤ 2 := by
    simpa [fullSnapshot] using h.length_playerIds
  have hcost : r.fullSnapshot.cost = r.sim.load := by
    simp only [StateSnapshot.cost, fullSnapshot, cost_projectiles h.wf]
    simp
  have hlength := length_stateSnapshot fmt hplayers
  simp only [light, decide_eq_true_eq] at hlight
  rw [hcost] at hlength
  exact hlength.trans (by omega)

omit [Scalar F] in
theorem wf_takeRemovedProjectileIds {sim : BattleSim F} (h : sim.Wf) :
    sim.takeRemovedProjectileIds.2.Wf :=
  ⟨h.player_id, h.projectile_id, h.fresh, h.owner⟩

/-- The snapshot of a tick, from the state before it. -/
def tickSnapshot (ks : List ℕ) (r : Room F) : StateSnapshot F :=
  delta (r.tick + 1) (r.sim.step ks kTickMs).1.takeRemovedProjectileIds.2 (r.sim.step ks kTickMs).2
    (r.sim.step ks kTickMs).1.takeRemovedProjectileIds.1

theorem cost_tickSnapshot {r : Room F} (h : r.sim.Wf) (ks : List ℕ) :
    (r.tickSnapshot ks).cost = (r.sim.step ks kTickMs).1.weight := by
  have hshots := cost_projectiles (wf_takeRemovedProjectileIds (h.step ks kTickMs))
  simp only [StateSnapshot.cost, tickSnapshot, delta, hshots]
  rfl

theorem length_players_tickSnapshot {a b : ℕ} {r : Room F} (h : Seats a b r) (ks : List ℕ) :
    (r.tickSnapshot ks).players.length ≤ 2 := by
  have hbetween := between_simulate h.wf h.players ks
  simp only [tickSnapshot, delta, List.length_map]
  refine length_le_two (a := a) (b := b)
    ((BattleSim.sorted_changed ks kTickMs r.sim).imp Nat.ne_of_lt) fun k hk => ?_
  rcases (BattleSim.evolves_step ks kTickMs h.wf).known k hk with hnil | hsome
  · cases hnil
  · exact (hbetween.keys k).mp hsome

theorem fits_tickSnapshot {a b : ℕ} {r : Room F} (h : Seats a b r) (hlight : r.light = true)
    (ks : List ℕ) : Fits fmt (.stateSnapshot (r.tickSnapshot ks)) := by
  have hlength := length_stateSnapshot fmt (length_players_tickSnapshot h ks)
  have hweight := BattleSim.weight_step ks kTickMs r.sim
  have hseats : r.sim.players.keys.length ≤ 2 := h.length_playerIds
  simp only [light, decide_eq_true_eq] at hlight
  rw [cost_tickSnapshot h.wf] at hlength
  exact hlength.trans (by omega)

/-- The room is light, if the operation sends a snapshot. -/
def roomy (r : Room F) : RoomOp F → Bool
  | .onTick _ => r.ended || r.light
  | .task .start | .task (.rebind _ _) => r.light
  | .task _ => true

/-- The messages of an operation. -/
theorem msg_of_apply {r : Room F} {op : RoomOp F} {act : RoomAct F} {c : Conn} {msg : ServerMsg F}
    (hact : act ∈ (r.apply op).2) (hmsg : msg ∈ act.toConn c) :
    msg = r.enterRoom ∨ (∃ w, msg = .battleEnd w) ∨
      (r.roomy op = r.light ∧ (msg = .stateSnapshot r.fullSnapshot ∨
        ∃ ks, r.ended = false ∧ msg = .stateSnapshot (r.tickSnapshot ks))) := by
  have hending : ∀ {r : Room F} {w : ℕ}, act ∈ (r.endBattle w).2 → msg = .battleEnd w := by
    intro r w hact
    simp only [endBattle, List.mem_cons, List.not_mem_nil, or_false] at hact
    rcases hact with rfl | rfl | rfl
    · exact (mem_broadcast hmsg).1
    · cases hmsg
    · cases hmsg
  cases op with
  | onTick ks =>
      have htick : act ∈ (r.simulate ks).2 → msg = .stateSnapshot (r.tickSnapshot ks) := by
        intro hact
        simp only [simulate] at hact
        split at hact
        · cases hact
        · obtain rfl := List.mem_singleton.mp hact
          exact (mem_broadcast hmsg).1
      simp only [apply, onTick] at hact
      split at hact
      · cases hact
      · next hended =>
          have hopen : r.ended = false := by simpa using hended
          have hroomy : r.roomy (.onTick ks) = r.light := by simp [roomy, hopen]
          split at hact
          · rcases List.mem_append.mp hact with hact | hact
            · exact .inr (.inr ⟨hroomy, .inr ⟨ks, hopen, htick hact⟩⟩)
            · exact .inr (.inl ⟨_, hending hact⟩)
          · exact .inr (.inr ⟨hroomy, .inr ⟨ks, hopen, htick hact⟩⟩)
  | task task =>
      cases task with
      | start =>
          simp only [apply, exec, start, List.mem_cons, List.mem_flatMap] at hact
          rcases hact with rfl | ⟨e, -, hact⟩
          · exact .inl (mem_broadcast hmsg).1
          · exact .inr (.inr ⟨rfl, .inl (mem_sendTo hact hmsg).1⟩)
      | rebind q conn =>
          simp only [apply, exec, rebind] at hact
          split at hact
          · cases hact
          · rcases List.mem_append.mp hact with hact | hact
            · exact .inl (mem_sendTo hact hmsg).1
            · exact .inr (.inr ⟨rfl, .inl (mem_sendTo hact hmsg).1⟩)
      | forceEnd w =>
          simp only [apply, exec, forceEnd] at hact
          split at hact
          · cases hact
          · exact .inr (.inl ⟨w, hending hact⟩)
      | onInput | dropConn | stop | resetTicker => cases hact

theorem fits_apply {a b : ℕ} {r : Room F} (h : Seats a b r) {op : RoomOp F}
    (hroomy : r.roomy op = true) {act : RoomAct F} {c : Conn} {msg : ServerMsg F}
    (hact : act ∈ (r.apply op).2) (hmsg : msg ∈ act.toConn c) : Fits fmt msg := by
  rcases msg_of_apply hact hmsg with rfl | ⟨w, rfl⟩ | ⟨hlight, rfl | ⟨ks, -, rfl⟩⟩
  · exact length_enterRoom fmt r.id h.length_playerIds
  · exact length_battleEnd fmt w
  · exact fits_fullSnapshot fmt h (hlight.symm.trans hroomy)
  · exact fits_tickSnapshot fmt h (hlight.symm.trans hroomy) ks

theorem light_new (ks : List ℕ) (id a b : ℕ) (connA connB : Option Conn) :
    (new ks id [(a, connA), (b, connB)] : Room F).light = true := by
  rfl

end Room

end GameServer.Game
