import GameServer.Client.Interpolation

/-!
The past of a room, as a client samples it.

A `Watch` is a room with an interpolator that is fed everything the room
sends on one connection, and with a record of what the players' states were
at the end of each tick. As long as no player starts to move in a tick that
follows a silent one, and ticks are exact as a `float`, every sample at a
tick shows that record: `history_is_true`.
-/

namespace GameServer.Client

open GameServer.Lib GameServer.Proto GameServer.Game
open SnapshotInterpolator Scalar

/-- Position and hp of the players. -/
def bodies {F : Type} (sim : BattleSim F) (id : ℕ) : Option (F × F × ℤ) :=
  (sim.players.lookup id).map BattleSim.P.body

/-- `past k` is what the players were in the last state of tick `k`. -/
structure Watch (F : Type) where
  room : Room F
  it : SnapshotInterpolator F
  past : ℕ → ℕ → Option (F × F × ℤ)

namespace Watch

variable {F : Type} [Scalar F]

/-- The watch of connection `c` begins with what the opening of the binding
sends there. -/
def opened (c : Conn) (start : Room F × List (RoomAct F)) (it : SnapshotInterpolator F) :
    Watch F where
  room := start.1
  it := (start.2.flatMap (snapshotsOn c)).foldl push it
  past := Function.update (fun _ _ => none) start.1.tick (bodies start.1.sim)

def step (c : Conn) (w : Watch F) (op : RoomOp F) : Watch F where
  room := (w.room.apply op).1
  it := ((w.room.apply op).2.flatMap (snapshotsOn c)).foldl push w.it
  past := Function.update w.past (w.room.apply op).1.tick (bodies (w.room.apply op).1.sim)

/-- From the first keyframe of a track to the latest tick, a sample at a tick
shows position and hp of that tick. -/
def TrueToHistory (w : Watch F) : Prop :=
  ∀ id track first, w.it.tracks.lookup id = some track → track.head? = some first →
    ∀ k : ℕ, first.tick ≤ k → k ≤ w.it.latestTick →
      ∃ st x y, w.it.trySample id (lit k) = some st ∧ w.past k id = some (x, y, st.hp) ∧
        Same st.x x ∧ Same st.y y

/-- A tick of a running battle is one that a `float` tells apart, no player
goes astray in it, and none moves unless the tick before was sent. -/
def Calm (w : Watch F) : RoomOp F → Prop
  | .task _ => True
  | .onTick _ =>
      w.room.ended = false →
        w.room.tick < exactTicks ∧
          (∀ id p, w.room.sim.players.lookup id = some p → goesAstray p = false) ∧
          (w.it.latestTick = w.room.tick ∨
            ∀ id p, w.room.sim.players.lookup id = some p →
              (BattleSim.movePlayer (lit Room.kTickMs / lit 1000) p).2 = false)

end Watch

/-! ### The snapshots -/

section Snapshots

variable {F : Type} [Scalar F]

theorem map_fillState_playerId {sim : BattleSim F} (hwf : sim.Wf) {ids : List ℕ}
    (h : ∀ id ∈ ids, (sim.players.lookup id).isSome) :
    (ids.map sim.fillState).map (·.playerId) = ids := by
  rw [List.map_map]
  conv_rhs => rw [← List.map_id ids]
  refine List.map_congr_left fun id hid => ?_
  obtain ⟨p, hp⟩ := Option.isSome_iff_exists.mp (h id hid)
  exact (fillState_of_lookup hwf hp).1

omit [Scalar F] in
theorem isSome_of_mem_playerIds {sim : BattleSim F} {id : ℕ} (h : id ∈ sim.playerIds) :
    (sim.players.lookup id).isSome := by
  obtain ⟨p, hp⟩ := UnorderedMap.mem_keys_iff.mp h
  exact Option.isSome_iff_exists.mpr ⟨p, hp⟩

/-- Tasks change neither the tick nor the states of the players, and the
snapshots they send are full ones. -/
theorem exec_bodies (r : Room F) (task : RoomTask F) (c : Conn) :
    (r.exec task).1.tick = r.tick ∧ bodies (r.exec task).1.sim = bodies r.sim ∧
      ∀ s ∈ (r.exec task).2.flatMap (snapshotsOn c), s = (r.exec task).1.fullSnapshot := by
  cases task with
  | start => exact ⟨rfl, rfl, fun s hs => snapshotsOn_start hs⟩
  | onInput q input =>
      simp only [Room.exec, Room.onInput]
      split
      · exact ⟨rfl, rfl, by simp⟩
      · refine ⟨rfl, funext fun id => ?_, by simp⟩
        exact (BattleSim.evolves_applyInput r.sim q input).same id List.not_mem_nil
  | rebind q conn =>
      obtain ⟨hsim, htick⟩ := Room.rebind_sim r q conn
      exact ⟨htick, congrArg bodies hsim, fun s hs => snapshotsOn_rebind hs⟩
  | dropConn q => exact ⟨rfl, rfl, by simp [Room.exec]⟩
  | forceEnd w =>
      simp only [Room.exec, Room.forceEnd]
      split
      · exact ⟨rfl, rfl, by simp⟩
      · exact ⟨rfl, rfl, by simp [Room.endBattle, Room.broadcast, snapshotsOn]⟩
  | stop => exact ⟨rfl, rfl, by simp [Room.exec]⟩
  | resetTicker => exact ⟨rfl, rfl, by simp [Room.exec]⟩

/-- Full snapshots leave one keyframe for each player. -/
theorem fulls_tracks {r : Room F} (hwf : r.sim.Wf) {snaps : List (StateSnapshot F)}
    (hfull : ∀ s ∈ snaps, s = r.fullSnapshot) (hne : snaps ≠ []) (it : SnapshotInterpolator F) :
    (snaps.foldl push it).latestTick = r.tick ∧
      ∀ id track, (snaps.foldl push it).tracks.lookup id = some track →
        (r.sim.players.lookup id).isSome ∧ ∃ kf, kf.tick = r.tick ∧ track = [kf] := by
  rcases List.eq_nil_or_concat snaps with rfl | ⟨init, last, rfl⟩
  · exact absurd rfl hne
  · obtain rfl := hfull last (by simp)
    have hids : ∀ id ∈ r.sim.playerIds, (r.sim.players.lookup id).isSome :=
      fun id hid => isSome_of_mem_playerIds hid
    have hnodup : (r.fullSnapshot.players.map (·.playerId)).Nodup := by
      rw [show r.fullSnapshot.players = r.sim.playerIds.map r.sim.fillState from rfl,
        map_fillState_playerId hwf hids]
      exact AList.keys_nodup _
    rw [List.concat_eq_append, List.foldl_concat, push_full rfl]
    refine ⟨rfl, fun id track htrack => ?_⟩
    obtain ⟨hlisted, kf, hkf, htr⟩ := merge_tracks hnodup (fun track h => by cases h) htrack
    refine ⟨?_, kf, hkf, htr⟩
    obtain ⟨p, hp, hid⟩ := hlisted.resolve_left (by simp)
    obtain ⟨j, hj, rfl⟩ := List.mem_map.mp hp
    obtain ⟨q, hq⟩ := UnorderedMap.mem_keys_iff.mp hj
    obtain rfl := (fillState_of_lookup hwf hq).1.symm.trans hid
    exact hids j hj

omit [Scalar F] in
/-- The last keyframe of a track is the player as it is. -/
theorem Mirrors.body_of_getLast {it : SnapshotInterpolator F} {sim : BattleSim F}
    (h : Mirrors it sim) {id : ℕ} {track : List (Keyframe F)}
    (htrack : it.tracks.lookup id = some track) (hsome : (sim.players.lookup id).isSome)
    {kf : Keyframe F} (hlast : track.getLast? = some kf) :
    bodies sim id = some kf.body := by
  obtain ⟨player, hp⟩ := Option.isSome_iff_exists.mp hsome
  have hbody := h.players hp
  rw [lastBody, htrack, Option.bind_some, hlast, Option.map_some] at hbody
  rw [bodies, hp]
  exact hbody.symm

/-- What a tick of a running battle does: it sends nothing and nothing has
changed, or the interpolator merges one incremental snapshot. -/
theorem onTick_bodies {r : Room F} (hended : r.ended = false) {p : ℕ} {c : Conn}
    {it : SnapshotInterpolator F} (hsynced : Synced p c it r) (ks : List ℕ) :
    (r.onTick ks).1.tick = r.tick + 1 ∧
      bodies (r.onTick ks).1.sim = bodies (r.sim.step ks Room.kTickMs).1 ∧
      (((r.onTick ks).2.flatMap (snapshotsOn c)).foldl push it = it ∧
          bodies (r.onTick ks).1.sim = bodies r.sim ∨
        ((r.onTick ks).2.flatMap (snapshotsOn c)).foldl push it =
          it.merge (Room.delta (r.tick + 1) (r.onTick ks).1.sim (r.sim.step ks Room.kTickMs).2
            (r.sim.step ks Room.kTickMs).1.removedProjectileIds)) := by
  have hroom : (r.onTick ks).1.tick = r.tick + 1 ∧
      (r.onTick ks).1.sim = (r.sim.step ks Room.kTickMs).1.takeRemovedProjectileIds.2 ∧
      (r.onTick ks).2.flatMap (snapshotsOn c) = (r.simulate ks).2.flatMap (snapshotsOn c) := by
    simp only [Room.onTick, hended, Bool.false_eq_true, if_false]
    split
    · refine ⟨rfl, rfl, ?_⟩
      rw [List.flatMap_append, (hsynced.simulate ks |>.endBattle _).1, List.append_nil]
    · exact ⟨rfl, rfl, rfl⟩
  obtain ⟨htick, hsim, hsent⟩ := hroom
  refine ⟨htick, by rw [hsim]; rfl, ?_⟩
  rw [hsent, hsim]
  unfold Room.simulate
  dsimp only
  split
  case isTrue hsilent =>
      simp only [Bool.and_eq_true, List.isEmpty_iff] at hsilent
      refine .inl ⟨rfl, funext fun id => ?_⟩
      exact (BattleSim.evolves_step ks Room.kTickMs hsynced.wf).same id (by simp [hsilent.1.1])
  case isFalse =>
      right
      rw [List.flatMap_singleton]
      obtain ⟨n, hn⟩ := snapshotsOn_broadcast
        (r := { r with
          tick := r.tick + 1
          sim := (r.sim.step ks Room.kTickMs).1.takeRemovedProjectileIds.2 }) hsynced.slot
        (Room.delta (r.tick + 1) (r.sim.step ks Room.kTickMs).1.takeRemovedProjectileIds.2
          (r.sim.step ks Room.kTickMs).2 (r.sim.step ks Room.kTickMs).1.removedProjectileIds)
      have hlatest := hsynced.latest
      rw [BattleSim.takeRemovedProjectileIds] at hn ⊢
      rw [hn, foldl_push_replicate rfl (by show it.latestTick < r.tick + 1; omega)]

end Snapshots

/-! ### The invariant -/

section Watching

variable {F : Type} [Scalar F]

/-- Every player is in the arena or lost. -/
def Located (states : ℕ → Option (F × F × ℤ)) : Prop :=
  ∀ id b, states id = some b → InField b.1 ∧ InField b.2.1

structure Watched (p : ℕ) (c : Conn) (w : Watch F) : Prop where
  synced : Synced p c w.it w.room
  located : Located (bodies w.room.sim)
  now : w.past w.room.tick = bodies w.room.sim
  tracks : ∀ id track, w.it.tracks.lookup id = some track →
    (w.room.sim.players.lookup id).isSome ∧
      Recorded (w.past · id) w.it.latestTick w.room.tick track

variable {p : ℕ} {c : Conn} {w : Watch F}

/-- One keyframe of the present for each player. -/
theorem Watched.of_fulls {room : Room F} {it : SnapshotInterpolator F}
    {past : ℕ → ℕ → Option (F × F × ℤ)} (hsynced : Synced p c it room)
    (hlocated : Located (bodies room.sim)) (hnow : past room.tick = bodies room.sim)
    (hlatest : it.latestTick = room.tick)
    (htracks : ∀ id track, it.tracks.lookup id = some track →
      (room.sim.players.lookup id).isSome ∧ ∃ kf, kf.tick = room.tick ∧ track = [kf]) :
    Watched p c ⟨room, it, past⟩ := by
  refine ⟨hsynced, hlocated, hnow, fun id track htrack => ?_⟩
  obtain ⟨hsome, kf, hkf, rfl⟩ := htracks id track htrack
  refine ⟨hsome, ?_⟩
  rw [hlatest]
  refine recorded_single hkf ?_
  exact (congrFun hnow id).trans (hsynced.mirrors.body_of_getLast htrack hsome rfl)

theorem Watched.task (h : Watched p c w) {task : RoomTask F}
    (hkeep : ¬Unbinds p (.task task)) : Watched p c (w.step c (.task task)) := by
  obtain ⟨htick, hbodies, hfull⟩ := exec_bodies w.room task c
  have hsynced := h.synced.exec hkeep
  have hlocated : Located (bodies (w.room.exec task).1.sim) := hbodies ▸ h.located
  have hnow : w.past (w.room.exec task).1.tick = bodies (w.room.exec task).1.sim := by
    rw [htick, h.now, hbodies]
  have hpast : Function.update w.past (w.room.exec task).1.tick
      (bodies (w.room.exec task).1.sim) = w.past := by
    rw [← hnow, Function.update_eq_self]
  have hstep : w.step c (.task task) = ⟨(w.room.exec task).1,
      ((w.room.exec task).2.flatMap (snapshotsOn c)).foldl push w.it, w.past⟩ := by
    simp only [Watch.step, Room.apply, hpast]
  rw [hstep]
  by_cases hnil : (w.room.exec task).2.flatMap (snapshotsOn c) = []
  · rw [hnil] at hsynced ⊢
    refine ⟨hsynced, hlocated, hnow, fun id track htrack => ?_⟩
    obtain ⟨hid, hrec⟩ := h.tracks id track htrack
    have hsome : (bodies (w.room.exec task).1.sim id).isSome = (bodies w.room.sim id).isSome := by
      rw [hbodies]
    simp only [bodies, Option.isSome_map] at hsome
    exact ⟨hsome.trans hid, by rw [htick]; exact hrec⟩
  · obtain ⟨hlatest, htracks⟩ := fulls_tracks hsynced.wf hfull hnil w.it
    exact .of_fulls hsynced hlocated hnow hlatest htracks

theorem watched_opened {r : Room F} (hwf : r.sim.Wf) (hlocated : Located (bodies r.sim))
    {opening : RoomTask F} (hopening : opening = .start ∨ opening = .rebind p (some c))
    (hbound : (r.exec opening).1.conns.lookup p = some (some c))
    (it : SnapshotInterpolator F) :
    Watched p c (Watch.opened c (r.exec opening) it) := by
  obtain ⟨-, hbodies, hfull⟩ := exec_bodies r opening c
  have hsynced := synced_opening hwf hopening hbound it
  have hne := snapshotsOn_opening_ne_nil hopening hbound
  obtain ⟨hlatest, htracks⟩ := fulls_tracks hsynced.wf hfull hne it
  exact .of_fulls hsynced (hbodies ▸ hlocated) (Function.update_self ..) hlatest htracks

/-- After a step a player is where phase 1 has put it. -/
theorem bodies_step {ks : List ℕ} {dtMs : ℕ} {sim : BattleSim F} {id : ℕ}
    {b : F × F × ℤ} (h : bodies (sim.step ks dtMs).1 id = some b) :
    ∃ player, sim.players.lookup id = some player ∧
      b.1 = (BattleSim.movePlayer (lit dtMs / lit 1000) player).1.x ∧
      b.2.1 = (BattleSim.movePlayer (lit dtMs / lit 1000) player).1.y := by
  obtain ⟨player', hp', rfl⟩ := Option.map_eq_some_iff.mp h
  have hmap := BattleSim.map_step (f := fun q : BattleSim.P F => (q.x, q.y))
    (fun _ _ => rfl) (fun _ _ => rfl) ks dtMs sim id
  rw [hp', Option.map_some] at hmap
  obtain ⟨player, hp, hxy⟩ := Option.map_eq_some_iff.mp hmap.symm
  obtain ⟨hx, hy⟩ := Prod.ext_iff.mp hxy
  exact ⟨player, hp, hx.symm, hy.symm⟩

variable [Fenced F]

theorem Located.step {sim : BattleSim F} (h : Located (bodies sim)) (ks : List ℕ)
    (dtMs : ℕ) : Located (bodies (sim.step ks dtMs).1) := by
  intro id b hb
  obtain ⟨player, hp, hx, hy⟩ := bodies_step hb
  obtain ⟨hx₀, hy₀⟩ := h id player.body (by rw [bodies, hp]; rfl)
  rw [hx, hy]
  exact movePlayer_inField _ hx₀ hy₀

theorem located_new (ks : List ℕ) (id : ℕ) (players : List (ℕ × Option Conn)) :
    Located (bodies (Room.new ks id players : Room F).sim) := by
  refine Room.invariant_new (I := fun s => Located (bodies s)) (fun q b hb => by cases hb)
    (fun s id x hx h q b hb => ?_) id players
  simp only [bodies, BattleSim.addPlayer, UnorderedMap.lookup_reorder,
    UnorderedMap.lookup_insert_eq] at hb
  split at hb
  · obtain rfl := Option.some.inj hb
    have hy : InField (lit 50 : F) := .inl (Fenced.starts 50 (by decide) (by decide))
    rcases hx with rfl | rfl
    · exact ⟨.inl (Fenced.starts 30 (by decide) (by decide)), hy⟩
    · exact ⟨.inl (Fenced.starts 70 (by decide) (by decide)), hy⟩
  · exact h q b hb

theorem located_apply {r : Room F} (h : Located (bodies r.sim)) (op : RoomOp F) :
    Located (bodies (r.apply op).1.sim) := by
  cases op with
  | task task =>
      obtain ⟨-, hbodies, -⟩ := exec_bodies r task 0
      exact hbodies ▸ h
  | onTick ks =>
      have hstep := h.step ks Room.kTickMs
      simp only [Room.apply, Room.onTick]
      split
      · exact h
      · split <;> exact hstep

variable [Interpolates F 100 exactTicks]

omit [Fenced F] in
theorem Watched.trueToHistory (h : Watched p c w) : w.TrueToHistory := by
  intro id track first htrack hfirst k hlo hhi
  obtain ⟨st, x, y, hst, hshown⟩ :=
    (h.tracks id track htrack).2.sample h.synced.latest hfirst hlo hhi
  refine ⟨st, x, y, ?_, hshown⟩
  rw [trySample, htrack]
  exact hst

/-- Under the condition the new keyframe of a tick links up with the last one. -/
theorem Watched.steady (h : Watched p c w) (hended : w.room.ended = false) {ks : List ℕ}
    (hcalm : w.Calm (.onTick ks)) {id : ℕ} {track : List (Keyframe F)}
    (htrack : w.it.tracks.lookup id = some track) {a kf : Keyframe F}
    (hlast : track.getLast? = some a) (htick : kf.tick = w.room.tick + 1)
    (hbody : bodies (w.room.sim.step ks Room.kTickMs).1 id = some kf.body) {k : ℕ}
    (hlo : a.tick ≤ k) (hhi : k < kf.tick) :
    Same (interpolate (lit k) a kf).x a.x ∧ Same (interpolate (lit k) a kf).y a.y := by
  obtain ⟨hexact, hstraight, hmoves⟩ := hcalm hended
  obtain ⟨hsome, hrec⟩ := h.tracks id track htrack
  obtain ⟨a', ha', hatick, -⟩ := hrec.ends
  obtain rfl := Option.some.inj (ha'.symm.trans hlast)
  have hnow := h.synced.mirrors.body_of_getLast htrack hsome hlast
  obtain ⟨player, hp, hx, hy⟩ := bodies_step hbody
  have hplayer : player.body = a'.body := by
    rw [bodies, hp] at hnow
    exact Option.some.inj hnow
  obtain ⟨hax, hay⟩ : player.x = a'.x ∧ player.y = a'.y := by
    simp only [BattleSim.P.body, Keyframe.body, Prod.mk.injEq] at hplayer
    exact ⟨hplayer.1, hplayer.2.1⟩
  obtain ⟨hlx, hly⟩ := h.located id _ hnow
  refine interpolate_steady hlo hhi (by omega) hlx hly ?_
  rcases hmoves with hsent | hstill
  · left
    obtain ⟨hinx, hiny⟩ := movePlayer_within (hstraight id player hp)
    rw [hax, ← show kf.x = _ from hx] at hinx
    rw [hay, ← show kf.y = _ from hy] at hiny
    exact ⟨by omega, hinx, hiny⟩
  · right
    have hstay := BattleSim.movePlayer_body (hstill id player hp)
    simp only [BattleSim.P.body, Prod.mk.injEq] at hstay
    exact ⟨hx.trans (hstay.1.trans hax), hy.trans (hstay.2.1.trans hay)⟩

/-- The tracks after a tick that was sent. -/
theorem Watched.merged (h : Watched p c w) (hended : w.room.ended = false) {ks : List ℕ}
    (hcalm : w.Calm (.onTick ks)) {room : Room F} {it : SnapshotInterpolator F}
    (hsynced : Synced p c it room) (htick : room.tick = w.room.tick + 1)
    (hbodies : bodies room.sim = bodies (w.room.sim.step ks Room.kTickMs).1)
    (hit : it = w.it.merge (Room.delta (w.room.tick + 1) room.sim
      (w.room.sim.step ks Room.kTickMs).2
      (w.room.sim.step ks Room.kTickMs).1.removedProjectileIds)) {id : ℕ}
    {track : List (Keyframe F)} (htrack : it.tracks.lookup id = some track) :
    (room.sim.players.lookup id).isSome ∧
      Recorded (Function.update w.past room.tick (bodies room.sim) · id) it.latestTick
        room.tick track := by
  have hev := BattleSim.evolves_step ks Room.kTickMs h.synced.wf
  have hsome : ∀ id, (room.sim.players.lookup id).isSome =
      ((w.room.sim.step ks Room.kTickMs).1.players.lookup id).isSome := by
    intro id
    have := congrArg Option.isSome (congrFun hbodies id)
    simpa [bodies] using this
  have hknown : ∀ id ∈ (w.room.sim.step ks Room.kTickMs).2,
      (room.sim.players.lookup id).isSome := by
    intro id hid
    rcases hev.known id hid with hnil | hin
    · cases hnil
    · exact (hsome id).trans hin
  have hplayers : (((w.room.sim.step ks Room.kTickMs).2.map room.sim.fillState).map
      (·.playerId)) = (w.room.sim.step ks Room.kTickMs).2 :=
    map_fillState_playerId hsynced.wf hknown
  have hnodup : ((w.room.sim.step ks Room.kTickMs).2).Nodup :=
    (BattleSim.sorted_changed ks Room.kTickMs w.room.sim).imp fun hlt => Nat.ne_of_lt hlt
  have hlatest := h.synced.latest
  have hold : ∀ track, w.it.tracks.lookup id = some track →
      ∃ last, track.getLast? = some last ∧ last.tick ≠ w.room.tick + 1 := by
    intro track htrack
    obtain ⟨last, hlast, hltick, -⟩ := (h.tracks id track htrack).2.ends
    exact ⟨last, hlast, by omega⟩
  have htrack' := htrack
  rw [hit] at htrack'
  obtain ⟨hfrom, kf, hkf, rfl⟩ := merge_tracks (by rw [← hplayers] at hnodup; exact hnodup)
    hold htrack'
  have hin : (room.sim.players.lookup id).isSome := by
    rcases hfrom with hold | ⟨player, hplayer, hid⟩
    · obtain ⟨track, htrack⟩ := Option.isSome_iff_exists.mp hold
      exact (hsome id).trans ((hev.isSome_iff id).trans (h.tracks id track htrack).1)
    · refine hknown id ?_
      rw [← hplayers, ← hid]
      exact List.mem_map_of_mem hplayer
  have hbody := hsynced.mirrors.body_of_getLast htrack hin (getLast?_appendKeyframe _ kf)
  have hpast : ∀ k, k ≤ w.room.tick →
      Function.update w.past room.tick (bodies room.sim) k = w.past k :=
    fun k hk => Function.update_of_ne (by omega) _ _
  refine ⟨hin, ?_⟩
  rw [show it.latestTick = w.room.tick + 1 from by rw [hit]; rfl, htick]
  rw [htick] at hpast
  cases hlook : w.it.tracks.lookup id with
  | none =>
      refine recorded_single hkf ?_
      rw [Function.update_self]
      exact hbody
  | some track =>
      refine (h.tracks id track hlook).2.append hlatest (fun k hk => congrFun (hpast k hk) id) hkf
        (hcalm hended).1 ?_ fun a ha k hlo hhi => ?_
      · rw [Function.update_self]
        exact hbody
      · exact h.steady hended hcalm hlook ha hkf (hbodies ▸ hbody) hlo hhi

theorem Watched.onTick (h : Watched p c w) {ks : List ℕ} (hcalm : w.Calm (.onTick ks)) :
    Watched p c (w.step c (.onTick ks)) := by
  have hsynced := h.synced.onTick ks
  cases hended : w.room.ended with
  | true =>
      have hroom : w.room.onTick ks = (w.room, []) := by simp [Room.onTick, hended]
      have hstep : w.step c (.onTick ks) = w := by
        simp only [Watch.step, Room.apply, hroom, List.flatMap_nil, List.foldl_nil, ← h.now,
          Function.update_eq_self]
      rw [hstep]
      exact h
  | false =>
      obtain ⟨htick, hbodies, hsent⟩ := onTick_bodies hended h.synced ks
      have hlocated : Located (bodies (w.room.onTick ks).1.sim) := by
        rw [hbodies]
        exact h.located.step ks Room.kTickMs
      have hnow : Function.update w.past (w.room.onTick ks).1.tick
          (bodies (w.room.onTick ks).1.sim) (w.room.onTick ks).1.tick =
            bodies (w.room.onTick ks).1.sim := Function.update_self ..
      refine ⟨hsynced, hlocated, hnow, fun id track htrack => ?_⟩
      rcases hsent with ⟨hit, hsame⟩ | hit
      · have hlook : w.it.tracks.lookup id = some track := by rw [← hit]; exact htrack
        obtain ⟨hid, hrec⟩ := h.tracks id track hlook
        have hsome : (bodies (w.room.onTick ks).1.sim id).isSome =
            (bodies w.room.sim id).isSome := by
          rw [hsame]
        simp only [bodies, Option.isSome_map] at hsome
        refine ⟨hsome.trans hid, ?_⟩
        simp only [Watch.step, Room.apply, htick, hit, hsame]
        refine hrec.silent h.synced.latest (fun k hk => ?_) ?_
        · rw [Function.update_of_ne (by omega)]
        · rw [Function.update_self, h.now]
      · exact h.merged hended hcalm hsynced htick hbodies hit htrack

/-! ### Whole runs -/

/-- Take any run `before` of a room and a binding of slot `p` to connection
`c` that begins with `start` or `rebind` and lasts over the operations `ops`.
If every tick of it is calm, then after every operation every sample at a
tick, from the first keyframe of a track to the latest tick, is position and
hp of that tick. -/
theorem history_is_true (ks : List ℕ) (id : ℕ) (players : List (ℕ × Option Conn))
    (before : List (RoomOp F)) (p : ℕ) (c : Conn) (opening : RoomTask F)
    (hopening : opening = .start ∨ opening = .rebind p (some c))
    (ops : List (RoomOp F)) (hkeep : ∀ op ∈ ops, ¬Unbinds p op)
    (it : SnapshotInterpolator F) :
    let r := (before.foldl Room.run (Room.new ks id players, [])).1
    let w := Watch.opened c (r.exec opening) it
    w.room.conns.lookup p = some (some c) → Along (Watch.step c) Watch.Calm w ops →
      Visits (Watch.step c) Watch.TrueToHistory w ops := by
  intro r w hbound hcalm
  have hlocated : Located (bodies r.sim) :=
    @invariant_run_of_step _ _ Room.run (fun s => Located (bodies s.1.sim))
      (fun _ op h => located_apply h op) _ (located_new ks id players) before
  have hopened : Watched p c w :=
    watched_opened (wf_run ks id players before) hlocated hopening hbound it
  have hboth := hcalm.and (along_of_forall (fun op hop _ => hkeep op hop) w)
  refine visits_of_along (fun w h => h.trueToHistory) (fun w op h hok => ?_) hopened hboth
  cases op with
  | task task => exact h.task hok.2
  | onTick ks => exact h.onTick hok.1

end Watching

instance {F : Type} [Scalar F] (w : Watch F) : (op : RoomOp F) → Decidable (w.Calm op)
  | .task _ => .isTrue trivial
  | .onTick _ =>
      letI : Decidable (∀ id p, w.room.sim.players.lookup id = some p → goesAstray p = false) :=
        decidable_of_iff _ BattleSim.forall_lookup_iff.symm
      letI : Decidable (∀ id p, w.room.sim.players.lookup id = some p →
          (BattleSim.movePlayer (lit Room.kTickMs / lit 1000) p).2 = false) :=
        decidable_of_iff _ BattleSim.forall_lookup_iff.symm
      inferInstanceAs (Decidable (_ → _ ∧ _ ∧ (_ ∨ _)))

/-- A player that moves in every tick, and then stands. -/
theorem history_is_true_of_a_walk :
    let ops : List (RoomOp (Ext ℚ)) :=
      [.task (.onInput 1 ⟨1, .fin 1, .fin 0, false⟩), .onTick [], .onTick [],
        .task (.onInput 1 ⟨2, .fin 0, .fin 0, false⟩), .onTick [], .onTick []]
    let w := Watch.opened 10 ((Room.new [] 7 [(1, some 10), (2, some 20)]).exec .start) {}
    Visits (Watch.step 10) Watch.TrueToHistory w ops ∧
      ((ops.foldl (Watch.step 10) w).it.trySample 1 (lit 1)).map (·.x) =
        some (.fin 31) := by
  intro ops w
  have hkeep : ∀ op ∈ ops, ¬Unbinds 1 op := by simp [ops, Unbinds]
  refine ⟨history_is_true [] 7 [(1, some 10), (2, some 20)] [] 1 10 .start (.inl rfl) ops hkeep
    {} (by decide +kernel) (by decide +kernel), by decide +kernel⟩

/-- Two silent ticks and then a move: at tick 2 the player was at 30 and is
drawn two thirds of the way to 31. -/
theorem drift_after_silent_ticks :
    let ops : List (RoomOp (Ext ℚ)) :=
      [.onTick [], .onTick [], .task (.onInput 1 ⟨1, .fin 1, .fin 0, false⟩), .onTick []]
    let w := Watch.opened 10 ((Room.new [] 7 [(1, some 10), (2, some 20)]).exec .start) {}
    let w' := ops.foldl (Watch.step 10) w
    w'.it.latestTick = 3 ∧ w'.past 2 1 = some (.fin 30, .fin 50, 100) ∧
      (w'.it.trySample 1 (lit 2)).map (·.x) = some (.fin (92 / 3)) ∧
      ¬w'.TrueToHistory := by
  intro ops w w'
  have hrun : w'.it.latestTick = 3 ∧ w'.past 2 1 = some (.fin 30, .fin 50, 100) ∧
      (w'.it.trySample 1 (lit 2)).map (·.x) = some (.fin (92 / 3)) ∧
      ((w'.it.tracks.lookup 1).bind List.head?).map (·.tick) = some 0 := by
    decide +kernel
  clear_value w'
  obtain ⟨hlatest, hpast, hsample, hfirst⟩ := hrun
  refine ⟨hlatest, hpast, hsample, fun htrue => ?_⟩
  obtain ⟨first, hfirst, htick⟩ := Option.map_eq_some_iff.mp hfirst
  obtain ⟨track, htrack, hhead⟩ := Option.bind_eq_some_iff.mp hfirst
  obtain ⟨st, x, y, hst, hshown, hx, -⟩ := htrue 1 track first htrack hhead 2 (by omega) (by omega)
  rw [show ((2 : ℕ) : ℚ) = 2 from rfl] at hst
  rw [hst, Option.map_some] at hsample
  rw [hpast] at hshown
  obtain rfl : x = .fin 30 := (congrArg Prod.fst (Option.some.inj hshown)).symm
  rw [show st.x = .fin (92 / 3) from Option.some.inj hsample] at hx
  exact absurd hx (by decide +kernel)

end GameServer.Client
