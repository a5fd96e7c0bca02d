import GameServer.Client.SnapshotInterpolator
import GameServer.Game.Room
import GameServer.Lib.Run

/-!
The client's replica follows the room.

A binding of a player's slot to a connection begins with `start` or with a
`rebind`, both of which send a full snapshot there. From then on every tick
either sends what it changed or changed nothing a snapshot tells, so an
interpolator fed with the snapshots of that connection shows the room as it
is, whatever it held before.
-/

namespace GameServer.Client

open GameServer.Lib GameServer.Proto GameServer.Game
open SnapshotInterpolator

variable {F : Type}

/-- The snapshots that an act of a room sends on connection `c`. -/
def snapshotsOn (c : Conn) : RoomAct F → List (StateSnapshot F)
  | .broadcast (.stateSnapshot snap) slots => (slots.filter (·.2 = c)).map fun _ => snap
  | .send _ c' (.stateSnapshot snap) => if c' = c then [snap] else []
  | _ => []

def sampleOfProjectile (q : BattleSim.Projectile F) : SampledProjectile F :=
  { ownerId := q.ownerId, x := q.x, y := q.y, velocityX := q.vx, velocityY := q.vy }

/-- The replica shows what the simulation holds: the last keyframe of every
player has its position and hp, and the projectile table is that of the
server, with owners, positions and velocities. -/
structure Mirrors (it : SnapshotInterpolator F) (sim : BattleSim F) : Prop where
  players : ∀ {k p}, sim.players.lookup k = some p → it.lastBody k = some (p.x, p.y, p.hp)
  projectiles : ∀ k, it.projectiles.lookup k = (sim.projectiles.lookup k).map sampleOfProjectile

/-- `op` gives the slot of player `p` to someone else or to nobody. -/
def Unbinds (p : ℕ) : RoomOp F → Prop
  | .task (.rebind p' _) => p' = p
  | .task (.dropConn p') => p' = p
  | _ => False

/-- Slot `p` is bound to `c`, and the replica fed from `c` is up to date. -/
structure Synced (p : ℕ) (c : Conn) (it : SnapshotInterpolator F) (r : Room F) : Prop where
  wf : r.sim.Wf
  slot : r.conns.lookup p = some (some c)
  mirrors : Mirrors it r.sim
  latest : it.latestTick ≤ r.tick

/-- Ending the battle sends no snapshot. -/
theorem Synced.endBattle {p : ℕ} {c : Conn} {it : SnapshotInterpolator F} {r : Room F}
    (h : Synced p c it r) (w : ℕ) :
    (r.endBattle w).2.flatMap (snapshotsOn c) = [] ∧ Synced p c it (r.endBattle w).1 :=
  ⟨rfl, h.wf, h.slot, h.mirrors, h.latest⟩

/-- What a broadcast of a snapshot sends on a connection that is bound. -/
theorem snapshotsOn_broadcast {r : Room F} {p : ℕ} {c : Conn}
    (h : r.conns.lookup p = some (some c)) (snap : StateSnapshot F) :
    ∃ n, snapshotsOn c (r.broadcast (.stateSnapshot snap)) = List.replicate (n + 1) snap := by
  have hpos : 0 < (r.bound.filter (·.2 = c)).length :=
    List.length_pos_of_mem (List.mem_filter.mpr ⟨Room.mem_bound h, by simp⟩)
  refine ⟨(r.bound.filter (·.2 = c)).length - 1, ?_⟩
  rw [Nat.sub_add_cancel hpos]
  exact List.map_const' ..

/-! ### What the snapshots say -/

variable [Scalar F]

theorem fillState_of_lookup {sim : BattleSim F} (hwf : sim.Wf) {k : ℕ} {p : BattleSim.P F}
    (h : sim.players.lookup k = some p) :
    (sim.fillState k).playerId = k ∧ (sim.fillState k).x = p.x ∧ (sim.fillState k).y = p.y ∧
      (sim.fillState k).hp = p.hp := by
  simp [BattleSim.fillState, h, hwf.player_id h]

/-- The projectiles of a snapshot, merged into a table. -/
theorem lookup_insert_live {sim : BattleSim F} (hwf : sim.Wf)
    (ps : UnorderedMap ℕ (SampledProjectile F)) (k : ℕ) :
    ((sim.projectileIds.map sim.fillProjectileState).foldl
      (fun ps q => ps.insert q.projectileId (sampleOf q)) ps).lookup k =
      match sim.projectiles.lookup k with
      | none => ps.lookup k
      | some q => some (sampleOfProjectile q) := by
  have hfill : ∀ {j q}, sim.projectiles.lookup j = some q →
      (sim.fillProjectileState j).projectileId = j ∧
        sampleOf (sim.fillProjectileState j) = sampleOfProjectile q := by
    intro j q hq
    simp only [BattleSim.fillProjectileState, hq]
    exact ⟨hwf.projectile_id hq, rfl⟩
  rcases lookup_insertAll (sim.projectileIds.map sim.fillProjectileState) ps k with
    ⟨q, hq, hid, hk⟩ | ⟨hnone, hk⟩
  · obtain ⟨j, hj, rfl⟩ := List.mem_map.mp hq
    obtain ⟨q, hlive⟩ := UnorderedMap.mem_keys_iff.mp hj
    obtain ⟨hjk, hsample⟩ := hfill hlive
    obtain rfl := hjk.symm.trans hid
    rw [hk, hlive, hsample]
  · rw [hk]
    cases hlive : sim.projectiles.lookup k with
    | none => rfl
    | some q =>
        refine absurd (hfill hlive).1 (hnone _ (List.mem_map.mpr ⟨k, ?_, rfl⟩))
        exact UnorderedMap.mem_keys_iff.mpr ⟨q, hlive⟩

theorem mirrors_full {r : Room F} (hwf : r.sim.Wf) (it : SnapshotInterpolator F) :
    Mirrors (it.push r.fullSnapshot) r.sim := by
  rw [push_full rfl]
  constructor
  · intro k p hp
    have hk : k ∈ r.sim.playerIds := UnorderedMap.mem_keys_iff.mpr ⟨p, hp⟩
    rcases lastBody_merge {} r.fullSnapshot k with ⟨ps, hps, hid, hbody⟩ | ⟨hnone, -⟩
    · obtain ⟨j, hj, rfl⟩ := List.mem_map.mp hps
      obtain ⟨pj, hpj⟩ := UnorderedMap.mem_keys_iff.mp hj
      obtain ⟨hjk, -⟩ := fillState_of_lookup hwf hpj
      obtain rfl := hjk.symm.trans hid
      obtain ⟨-, hx, hy, hhp⟩ := fillState_of_lookup hwf hp
      rw [hbody, hx, hy, hhp]
    · exact absurd (fillState_of_lookup hwf hp).1
        (hnone _ (List.mem_map.mpr ⟨k, hk, rfl⟩))
  · intro k
    simp only [merge, Room.fullSnapshot, List.foldl_nil]
    rw [lookup_insert_live hwf]
    cases r.sim.projectiles.lookup k <;> rfl

/-- The state of a room after a tick, as far as snapshots tell. -/
theorem mirrors_delta {sim : BattleSim F} (hwf : sim.Wf) {it : SnapshotInterpolator F}
    (h : Mirrors it sim) (ks : List ℕ) (tick : ℕ) :
    let next := sim.step ks Room.kTickMs
    let sim' := next.1.takeRemovedProjectileIds.2
    Mirrors (it.merge (Room.delta tick sim' next.2 next.1.removedProjectileIds)) sim' := by
  intro next sim'
  have hev := BattleSim.evolves_step ks Room.kTickMs hwf
  have hwf' : sim'.Wf := by
    have := hwf.step ks Room.kTickMs
    exact ⟨this.player_id, this.projectile_id, this.fresh, this.owner⟩
  constructor
  · intro k p hp
    rcases lastBody_merge it (Room.delta tick sim' next.2 next.1.removedProjectileIds) k with
      ⟨ps, hps, hid, hbody⟩ | ⟨hnone, hbody⟩
    · -- reported: the entry is that of the player itself
      obtain ⟨j, hj, rfl⟩ := List.mem_map.mp hps
      have hsome : (sim'.players.lookup j).isSome := by
        rcases hev.known j hj with h | h
        · cases h
        · exact h
      obtain ⟨pj, hpj⟩ := Option.isSome_iff_exists.mp hsome
      obtain ⟨hjk, -⟩ := fillState_of_lookup hwf' hpj
      obtain rfl := hjk.symm.trans hid
      obtain ⟨-, hx, hy, hhp⟩ := fillState_of_lookup hwf' hp
      rw [hbody, hx, hy, hhp]
    · -- not reported: the step has not changed it
      have hk : k ∉ next.2 := fun hk =>
        hnone _ (List.mem_map.mpr ⟨k, hk, rfl⟩) (fillState_of_lookup hwf' hp).1
      have hsame := hev.same k hk
      have hp' : (sim.step ks Room.kTickMs).1.players.lookup k = some p := hp
      rw [hp'] at hsame
      obtain ⟨p₀, hp₀, hbody₀⟩ := Option.map_eq_some_iff.mp hsame.symm
      rw [hbody, h.players hp₀]
      exact congrArg some hbody₀
  · intro k
    obtain ⟨hgone, htomb⟩ := BattleSim.step_tombs ks Room.kTickMs hwf k
    simp only [merge, Room.delta]
    rw [lookup_eraseAll, lookup_insert_live hwf']
    split
    · next hmem =>
        have : sim'.projectiles.lookup k = none := htomb hmem
        rw [this]
        rfl
    · next hmem =>
        cases hlive : sim'.projectiles.lookup k with
        | some q => rfl
        | none =>
            dsimp only
            rw [h.projectiles k]
            cases hbefore : sim.projectiles.lookup k with
            | none => rfl
            | some q => exact absurd (hgone (by simp [hbefore]) hlive) hmem

/-- A tick that sends nothing has changed nothing a snapshot tells. -/
theorem mirrors_silent {sim : BattleSim F} (hwf : sim.Wf) {it : SnapshotInterpolator F}
    (h : Mirrors it sim) {ks : List ℕ} (hchanged : (sim.step ks Room.kTickMs).2 = [])
    (hlive : (sim.step ks Room.kTickMs).1.projectileIds = [])
    (hremoved : (sim.step ks Room.kTickMs).1.removedProjectileIds = []) :
    Mirrors it (sim.step ks Room.kTickMs).1.takeRemovedProjectileIds.2 := by
  have hev := BattleSim.evolves_step ks Room.kTickMs hwf
  constructor
  · intro k p hp
    have hp' : (sim.step ks Room.kTickMs).1.players.lookup k = some p := hp
    have hsame := hev.same k (by simp [hchanged])
    rw [hp'] at hsame
    obtain ⟨p₀, hp₀, hbody₀⟩ := Option.map_eq_some_iff.mp hsame.symm
    rw [h.players hp₀]
    exact congrArg some hbody₀
  · intro k
    have hnone : (sim.step ks Room.kTickMs).1.projectiles.lookup k = none := by
      cases hk : (sim.step ks Room.kTickMs).1.projectiles.lookup k with
      | none => rfl
      | some q =>
          have : k ∈ (sim.step ks Room.kTickMs).1.projectileIds := UnorderedMap.mem_keys_iff.mpr ⟨q, hk⟩
          simp [hlive] at this
    have hbefore : sim.projectiles.lookup k = none := by
      cases hk : sim.projectiles.lookup k with
      | none => rfl
      | some q =>
          have := (BattleSim.step_tombs ks Room.kTickMs hwf k).1 (by simp [hk]) hnone
          simp [hremoved] at this
    rw [h.projectiles k, hbefore]
    exact (congrArg (Option.map sampleOfProjectile) hnone).symm

/-! ### A binding -/

/-- Any number of copies of the full snapshot leave the replica up to date,
and one copy brings it there. -/
theorem mirrors_fulls {r : Room F} (hwf : r.sim.Wf) {snaps : List (StateSnapshot F)}
    (hfull : ∀ s ∈ snaps, s = r.fullSnapshot) (it : SnapshotInterpolator F)
    (h : snaps ≠ [] ∨ (Mirrors it r.sim ∧ it.latestTick ≤ r.tick)) :
    Mirrors (snaps.foldl push it) r.sim ∧ (snaps.foldl push it).latestTick ≤ r.tick := by
  induction snaps generalizing it with
  | nil =>
      rcases h with h | h
      · exact absurd rfl h
      · exact h
  | cons s snaps ih =>
      obtain rfl := hfull s (List.mem_cons_self ..)
      refine ih (fun s hs => hfull s (List.mem_cons_of_mem _ hs)) _
        (.inr ⟨mirrors_full hwf it, ?_⟩)
      rw [push_full rfl]
      exact le_rfl

/-- The snapshots of `start` on one connection are full ones. -/
theorem snapshotsOn_start {r : Room F} {c : Conn} {s : StateSnapshot F}
    (hs : s ∈ r.start.2.flatMap (snapshotsOn c)) : s = r.fullSnapshot := by
  simp only [Room.start, List.mem_flatMap, List.mem_cons] at hs
  obtain ⟨act, rfl | ⟨e, -, hact⟩, hs⟩ := hs
  · cases hs
  · cases hconn : e.2 with
    | none => simp [Room.sendFullSnapshot, Room.sendTo, hconn] at hact
    | some c' =>
        simp only [Room.sendFullSnapshot, Room.sendTo, hconn, List.mem_singleton] at hact
        subst hact
        simp only [snapshotsOn] at hs
        split at hs
        · exact List.mem_singleton.mp hs
        · cases hs

theorem snapshotsOn_start_ne_nil {r : Room F} {p : ℕ} {c : Conn}
    (h : r.conns.lookup p = some (some c)) : r.start.2.flatMap (snapshotsOn c) ≠ [] := by
  refine List.ne_nil_of_mem (a := r.fullSnapshot) (List.mem_flatMap.mpr
    ⟨.send p c (.stateSnapshot r.fullSnapshot), ?_, by simp [snapshotsOn]⟩)
  refine List.mem_cons_of_mem _ (List.mem_flatMap.mpr
    ⟨⟨p, some c⟩, UnorderedMap.mem_entries_iff.mpr h, ?_⟩)
  exact List.mem_singleton_self _

/-- What a `rebind` sends: nothing of the kind, or the full snapshot. -/
theorem snapshotsOn_rebind {r : Room F} {q : ℕ} {conn : Option Conn} {c : Conn}
    {s : StateSnapshot F} (hs : s ∈ (r.rebind q conn).2.flatMap (snapshotsOn c)) :
    s = (r.rebind q conn).1.fullSnapshot := by
  unfold Room.rebind at hs ⊢
  split at hs
  · cases hs
  · cases conn with
    | none => cases hs
    | some c' =>
        simp only [Room.sendTo, Room.sendFullSnapshot, List.flatMap_append,
          List.flatMap_singleton, snapshotsOn, Room.enterRoom, List.nil_append] at hs
        split at hs
        · exact List.mem_singleton.mp hs
        · cases hs

theorem snapshotsOn_rebind_ne_nil {r : Room F} {p : ℕ} {c : Conn}
    (h : (r.rebind p (some c)).1.conns.lookup p = some (some c)) :
    (r.rebind p (some c)).2.flatMap (snapshotsOn c) ≠ [] := by
  unfold Room.rebind at h ⊢
  split
  · next hnone => simp [hnone] at h
  · simp [Room.sendTo, Room.sendFullSnapshot, snapshotsOn]

theorem rebind_slot {r : Room F} {p q : ℕ} (h : q ≠ p) (conn : Option Conn) :
    (r.rebind q conn).1.conns.lookup p = r.conns.lookup p := by
  unfold Room.rebind
  split
  · rfl
  · simp [Ne.symm h]

theorem Synced.simulate {p : ℕ} {c : Conn} {it : SnapshotInterpolator F} {r : Room F}
    (h : Synced p c it r) (ks : List ℕ) :
    Synced p c (((r.simulate ks).2.flatMap (snapshotsOn c)).foldl push it) (r.simulate ks).1 := by
  have hwf' := Room.wf_simulate h.wf ks
  have hlatest := h.latest
  unfold Room.simulate at hwf' ⊢
  dsimp only at hwf' ⊢
  split
  · next hsilent =>
      simp only [Bool.and_eq_true, List.isEmpty_iff] at hsilent
      obtain ⟨⟨hchanged, hlive⟩, hremoved⟩ := hsilent
      exact ⟨hwf', h.slot, mirrors_silent h.wf h.mirrors hchanged hlive hremoved,
        hlatest.trans (Nat.le_succ _)⟩
  · rw [List.flatMap_singleton]
    obtain ⟨n, hn⟩ := snapshotsOn_broadcast
      (r := { r with
        tick := r.tick + 1
        sim := (r.sim.step ks Room.kTickMs).1.takeRemovedProjectileIds.2 }) h.slot
      (Room.delta (r.tick + 1) (r.sim.step ks Room.kTickMs).1.takeRemovedProjectileIds.2
        (r.sim.step ks Room.kTickMs).2 (r.sim.step ks Room.kTickMs).1.removedProjectileIds)
    rw [BattleSim.takeRemovedProjectileIds] at hn ⊢
    rw [hn, foldl_push_replicate rfl (by show it.latestTick < r.tick + 1; omega)]
    exact ⟨hwf', h.slot, mirrors_delta h.wf h.mirrors ks (r.tick + 1), Nat.le_refl _⟩

theorem Synced.onTick {p : ℕ} {c : Conn} {it : SnapshotInterpolator F} {r : Room F}
    (h : Synced p c it r) (ks : List ℕ) :
    Synced p c (((r.onTick ks).2.flatMap (snapshotsOn c)).foldl push it) (r.onTick ks).1 := by
  unfold Room.onTick
  split
  · exact h
  · have hsim := h.simulate ks
    dsimp only
    split
    · obtain ⟨hnone, hend⟩ := hsim.endBattle (r.simulate ks).1.sim.winnerOrZero
      rw [List.flatMap_append, hnone, List.append_nil]
      exact hend
    · exact hsim

theorem Synced.exec {p : ℕ} {c : Conn} {it : SnapshotInterpolator F} {r : Room F}
    (h : Synced p c it r) {task : RoomTask F} (hkeep : ¬Unbinds p (.task task)) :
    Synced p c (((r.exec task).2.flatMap (snapshotsOn c)).foldl push it) (r.exec task).1 := by
  cases task with
  | start =>
      obtain ⟨hm, hl⟩ := mirrors_fulls h.wf (fun s hs => snapshotsOn_start hs) it
        (.inr ⟨h.mirrors, h.latest⟩)
      exact ⟨h.wf, h.slot, hm, hl⟩
  | onInput q input =>
      simp only [Room.exec, Room.onInput, List.flatMap_nil, List.foldl_nil]
      split
      · exact h
      · refine ⟨h.wf.applyInput q input, h.slot, ⟨fun {k p'} hp => ?_, h.mirrors.projectiles⟩,
          h.latest⟩
        have hsame := (BattleSim.evolves_applyInput r.sim q input).same k List.not_mem_nil
        dsimp only at hsame
        rw [hp] at hsame
        obtain ⟨p₀, hp₀, hbody₀⟩ := Option.map_eq_some_iff.mp hsame.symm
        rw [h.mirrors.players hp₀]
        exact congrArg some hbody₀
  | rebind q conn =>
      obtain ⟨hsim, htick⟩ := Room.rebind_sim r q conn
      obtain ⟨hm, hl⟩ := mirrors_fulls (r := (r.rebind q conn).1) (hsim ▸ h.wf)
        (fun s hs => snapshotsOn_rebind hs) it
        (.inr ⟨hsim ▸ h.mirrors, htick ▸ h.latest⟩)
      exact ⟨hsim ▸ h.wf, (rebind_slot hkeep conn).trans h.slot, hm, hl⟩
  | dropConn q =>
      refine ⟨h.wf, ?_, h.mirrors, h.latest⟩
      have hne : p ≠ q := fun heq => hkeep heq.symm
      simpa [Room.exec, Room.dropConn, hne] using h.slot
  | forceEnd w =>
      simp only [Room.exec, Room.forceEnd]
      split
      · exact h
      · exact (h.endBattle w).2
  | stop => exact ⟨h.wf, h.slot, h.mirrors, h.latest⟩
  | resetTicker => exact ⟨h.wf, h.slot, h.mirrors, h.latest⟩

theorem Synced.run {p : ℕ} {c : Conn} {it : SnapshotInterpolator F}
    {s : Room F × List (RoomAct F)}
    (h : Synced p c ((s.2.flatMap (snapshotsOn c)).foldl push it) s.1) {op : RoomOp F}
    (hkeep : ¬Unbinds p op) :
    Synced p c (((Room.run s op).2.flatMap (snapshotsOn c)).foldl push it) (Room.run s op).1 := by
  rw [Room.run, List.flatMap_append, List.foldl_append]
  cases op with
  | task task => exact h.exec hkeep
  | onTick ks => exact h.onTick ks

/-! ### Whole runs -/

theorem wf_run (ks : List ℕ) (id : ℕ) (players : List (ℕ × Option Conn))
    (ops : List (RoomOp F)) : (ops.foldl Room.run (Room.new ks id players, [])).1.sim.Wf :=
  @invariant_run_of_step _ _ Room.run (fun s => s.1.sim.Wf) (fun _ op h => Room.wf_apply h op) _
    (Room.wf_new ks id players) ops

/-- The opening of a binding sends a full snapshot. -/
theorem snapshotsOn_opening_ne_nil {r : Room F} {p : ℕ} {c : Conn} {opening : RoomTask F}
    (hopening : opening = .start ∨ opening = .rebind p (some c))
    (hbound : (r.exec opening).1.conns.lookup p = some (some c)) :
    (r.exec opening).2.flatMap (snapshotsOn c) ≠ [] := by
  rcases hopening with rfl | rfl
  · exact snapshotsOn_start_ne_nil (r := r) hbound
  · exact snapshotsOn_rebind_ne_nil hbound

theorem synced_opening {r : Room F} (hwf : r.sim.Wf) {p : ℕ} {c : Conn} {opening : RoomTask F}
    (hopening : opening = .start ∨ opening = .rebind p (some c))
    (hbound : (r.exec opening).1.conns.lookup p = some (some c))
    (it : SnapshotInterpolator F) :
    Synced p c (((r.exec opening).2.flatMap (snapshotsOn c)).foldl push it)
      (r.exec opening).1 := by
  have hne := snapshotsOn_opening_ne_nil hopening hbound
  rcases hopening with rfl | rfl
  · obtain ⟨hm, hl⟩ := mirrors_fulls hwf (fun s hs => snapshotsOn_start hs) it (.inl hne)
    exact ⟨hwf, hbound, hm, hl⟩
  · obtain ⟨hsim, htick⟩ := Room.rebind_sim r p (some c)
    obtain ⟨hm, hl⟩ := mirrors_fulls (r := (r.rebind p (some c)).1) (hsim ▸ hwf)
      (fun s hs => snapshotsOn_rebind hs) it (.inl hne)
    exact ⟨hsim ▸ hwf, hbound, hm, hl⟩

/-- The replica follows the room. Take any run `before` of a room, and a
binding of slot `p` to connection `c` that begins with `start` or `rebind` and
lasts over the operations `ops`. An interpolator that is fed the snapshots
sent on `c` since then shows the room as it is. -/
theorem replica_mirrors_room (ks : List ℕ) (id : ℕ) (players : List (ℕ × Option Conn))
    (before : List (RoomOp F)) (p : ℕ) (c : Conn) (opening : RoomTask F)
    (hopening : opening = .start ∨ opening = .rebind p (some c))
    (ops : List (RoomOp F)) (hkeep : ∀ op ∈ ops, ¬Unbinds p op)
    (it : SnapshotInterpolator F) :
    let r := (before.foldl Room.run (Room.new ks id players, [])).1
    let opened := r.exec opening
    let s := ops.foldl Room.run opened
    opened.1.conns.lookup p = some (some c) →
      Mirrors ((s.2.flatMap (snapshotsOn c)).foldl push it) s.1.sim := by
  intro r opened s hbound
  have hopened : Synced p c ((opened.2.flatMap (snapshotsOn c)).foldl push it) opened.1 :=
    synced_opening (wf_run ks id players before) hopening hbound it
  have hrun : ∀ (ops : List (RoomOp F)) (s : Room F × List (RoomAct F)),
      (∀ op ∈ ops, ¬Unbinds p op) →
      Synced p c ((s.2.flatMap (snapshotsOn c)).foldl push it) s.1 →
      Synced p c (((ops.foldl Room.run s).2.flatMap (snapshotsOn c)).foldl push it)
        (ops.foldl Room.run s).1 := by
    intro ops
    induction ops with
    | nil => exact fun s _ h => h
    | cons op ops ih =>
        intro s hops h
        exact ih _ (fun op' h' => hops op' (List.mem_cons_of_mem _ h'))
          (h.run (hops op (List.mem_cons_self ..)))
  exact (hrun ops opened hkeep hopened).mirrors

/-- A player that comes back in the middle of a battle, moves and shoots. -/
theorem replica_mirrors_room_after_rebind :
    let before : List (RoomOp (Ext ℚ)) := [.task .start, .onTick [], .task (.dropConn 1)]
    let ops : List (RoomOp (Ext ℚ)) :=
      [.task (.onInput 1 ⟨1, .fin 1, .fin 0, true⟩), .onTick [], .onTick []]
    let r := (before.foldl Room.run (Room.new [] 7 [(1, some 10), (2, some 20)], [])).1
    let opened := r.exec (.rebind 1 (some 30))
    let s := ops.foldl Room.run opened
    s.1.sim.projectileIds = [1] ∧
      Mirrors ((s.2.flatMap (snapshotsOn 30)).foldl push {}) s.1.sim := by
  intro before ops r opened s
  have hkeep : ∀ op ∈ ops, ¬Unbinds 1 op := by simp [ops, Unbinds]
  have hbound : opened.1.conns.lookup 1 = some (some 30) := by decide +kernel
  have hmirror := replica_mirrors_room [] 7 [(1, some 10), (2, some 20)] before 1 30
    (.rebind 1 (some 30)) (.inr rfl) ops hkeep {} hbound
  have hlive : s.1.sim.projectileIds = [1] := by decide +kernel
  exact ⟨hlive, hmirror⟩

end GameServer.Client
