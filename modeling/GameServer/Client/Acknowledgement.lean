import GameServer.Client.Replica

/-!
The acknowledgement of inputs.

`last_input_seq` travels in the entries of the snapshots, and an incremental
snapshot has an entry only for a player whose position or hp has changed. An
input is acknowledged with the next tick if it moves its player, or if the
player happens to be hit in that tick; one that does neither is not. The
exact condition is `inputs_acknowledged`.
-/

namespace GameServer.Client

open GameServer.Lib GameServer.Proto GameServer.Game
open Scalar

variable {F : Type}

/-- The entries about player `p` in the snapshots sent on `c`, oldest first. -/
def entriesOn (c : Conn) (p : ℕ) (acts : List (RoomAct F)) : List (PlayerState F) :=
  ((acts.flatMap (snapshotsOn c)).flatMap (·.players)).filter (·.playerId = p)

/-- What the client on `c` was last told about the inputs of `p`. -/
def lastAck (c : Conn) (p : ℕ) (acts : List (RoomAct F)) : Option ℕ :=
  (entriesOn c p acts).getLast?.map (·.lastInputSeq)

/-- The number of the last input applied for `p`. -/
def appliedSeq (sim : BattleSim F) (p : ℕ) : Option ℕ := (sim.players.lookup p).map (·.seq)

/-- Every bound player has been told about its last input. -/
def Acked (s : Room F × List (RoomAct F)) : Prop :=
  ∀ p c, s.1.conns.lookup p = some (some c) → lastAck c p s.2 = appliedSeq s.1.sim p

/-! ### The log of what was sent -/

theorem lastAck_append (c : Conn) (p : ℕ) (acts acts' : List (RoomAct F)) :
    lastAck c p (acts ++ acts') = (lastAck c p acts').or (lastAck c p acts) := by
  simp only [lastAck, entriesOn, List.flatMap_append, List.filter_append, List.getLast?_append]
  cases List.getLast? _ <;> rfl

/-- Entries that are all the same. -/
theorem getLast?_eq_of_forall {α : Type*} {l : List α} {a : α} (hne : l ≠ [])
    (h : ∀ x ∈ l, x = a) : l.getLast? = some a := by
  rw [List.getLast?_eq_some_getLast hne, h _ (List.getLast_mem hne)]

variable [Scalar F]

/-- Every acknowledgement that is due at the end of the operation is there. -/
def AckedAfter (s : Room F × List (RoomAct F)) : RoomOp F → Prop
  | .task _ => True
  | .onTick ks => Acked (Room.run s (.onTick ks))

/-- The stored input of `p` moves it in the next step, or a projectile in
flight hits it there. -/
def Noticed (ks : List ℕ) (sim : BattleSim F) (p : ℕ) : Prop :=
  (∃ player, sim.players.lookup p = some player ∧
      (BattleSim.movePlayer (lit Room.kTickMs / lit 1000) player).2 = true) ∨
    p ∈ BattleSim.victims (lit Room.kTickMs / lit 1000) sim.projectiles
      (BattleSim.armed ks Room.kTickMs sim).players sim.projectiles.keys

/-- A tick comes while the battle is on, and notices every bound player whose
last input is not acknowledged yet. -/
def Surfaces (s : Room F × List (RoomAct F)) : RoomOp F → Prop
  | .task _ => True
  | .onTick ks =>
      ∀ p c, s.1.conns.lookup p = some (some c) → lastAck c p s.2 ≠ appliedSeq s.1.sim p →
        s.1.ended = false ∧ Noticed ks s.1.sim p

/-! ### One tick -/

theorem movePlayer_seq (dt : F) (p : BattleSim.P F) :
    (BattleSim.movePlayer dt p).1.seq = p.seq := by
  rcases BattleSim.movePlayer_cases dt p with h | ⟨mx, my, h⟩
  · rw [h]
  · rw [h]
    simp only [BattleSim.moveBy]
    split <;> rfl

/-- A step changes no sequence number. -/
theorem appliedSeq_step (ks : List ℕ) (dtMs : ℕ) (sim : BattleSim F) (p : ℕ) :
    appliedSeq (sim.step ks dtMs).1 p = appliedSeq sim p := by
  unfold appliedSeq
  rw [BattleSim.map_step (fun _ _ => rfl) (fun _ _ => rfl) ks dtMs sim p]
  congr 1
  funext player
  exact movePlayer_seq _ player

theorem fillState_seq (sim : BattleSim F) {p : ℕ} (h : (sim.players.lookup p).isSome) :
    some (sim.fillState p).lastInputSeq = appliedSeq sim p := by
  obtain ⟨player, hp⟩ := Option.isSome_iff_exists.mp h
  simp [BattleSim.fillState, appliedSeq, hp]

/-- The entries about `p` in a broadcast of a tick are those of `p` itself. -/
theorem mem_entriesOn_delta {r : Room F} {sim : BattleSim F} (hwf : sim.Wf)
    {changed : List ℕ} (hknown : ∀ id ∈ changed, (sim.players.lookup id).isSome)
    {q : ℕ} {c : Conn} (hslot : r.conns.lookup q = some (some c)) (tick : ℕ) (removed : List ℕ)
    (p : ℕ) (x : PlayerState F) :
    x ∈ entriesOn c p [r.broadcast (.stateSnapshot (Room.delta tick sim changed removed))] ↔
      p ∈ changed ∧ x = sim.fillState p := by
  have hid : ∀ id ∈ changed, (sim.fillState id).playerId = id := by
    intro id hmem
    obtain ⟨player, hp⟩ := Option.isSome_iff_exists.mp (hknown id hmem)
    exact (fillState_of_lookup hwf hp).1
  obtain ⟨n, hn⟩ := snapshotsOn_broadcast hslot (Room.delta tick sim changed removed)
  have hplayers : x ∈ entriesOn c p
      [r.broadcast (.stateSnapshot (Room.delta tick sim changed removed))] ↔
      (∃ id ∈ changed, sim.fillState id = x) ∧ x.playerId = p := by
    rw [entriesOn, List.flatMap_singleton, hn]
    simp [Room.delta]
  rw [hplayers]
  constructor
  · rintro ⟨⟨id, hmem, rfl⟩, hp⟩
    obtain rfl := (hid id hmem).symm.trans hp
    exact ⟨hmem, rfl⟩
  · rintro ⟨hmem, rfl⟩
    exact ⟨⟨p, hmem, rfl⟩, hid p hmem⟩

/-- What a tick tells about `p` on a bound connection: its number if the step
reports it, and nothing otherwise. -/
theorem lastAck_simulate {r : Room F} (hwf : r.sim.Wf) {p q : ℕ} {c : Conn}
    (hslot : r.conns.lookup q = some (some c)) (ks : List ℕ) :
    lastAck c p (r.simulate ks).2 =
      if p ∈ (r.sim.step ks Room.kTickMs).2 then appliedSeq r.sim p else none := by
  have hwf' := Room.wf_simulate hwf ks
  have hknown : ∀ id ∈ (r.sim.step ks Room.kTickMs).2,
      ((r.simulate ks).1.sim.players.lookup id).isSome := by
    intro id hid
    rcases (BattleSim.evolves_step ks Room.kTickMs hwf).known id hid with h | h
    · cases h
    · exact h
  have hsent : (r.simulate ks).2 = [] ∧ (r.sim.step ks Room.kTickMs).2 = [] ∨
      (r.simulate ks).2 = [(r.simulate ks).1.broadcast (.stateSnapshot
        (Room.delta (r.tick + 1) (r.simulate ks).1.sim (r.sim.step ks Room.kTickMs).2
          (r.sim.step ks Room.kTickMs).1.removedProjectileIds))] := by
    simp only [Room.simulate]
    split
    · next hsilent =>
        simp only [Bool.and_eq_true, List.isEmpty_iff] at hsilent
        exact .inl ⟨rfl, hsilent.1.1⟩
    · exact .inr rfl
  rcases hsent with ⟨hsent, hnone⟩ | hsent
  · rw [hsent, hnone, if_neg List.not_mem_nil]
    rfl
  · have hmem := mem_entriesOn_delta (r := (r.simulate ks).1) hwf' hknown hslot (r.tick + 1)
      (r.sim.step ks Room.kTickMs).1.removedProjectileIds p
    rw [hsent, lastAck]
    split
    case isTrue hp =>
        have hlast := getLast?_eq_of_forall
          (List.ne_nil_of_mem ((hmem _).mpr ⟨hp, rfl⟩)) fun x hx => ((hmem x).mp hx).2
        rw [hlast, Option.map_some, fillState_seq _ (hknown p hp)]
        exact appliedSeq_step ks Room.kTickMs r.sim p
    case isFalse hp =>
        rw [List.eq_nil_iff_forall_not_mem.mpr fun x hx => hp ((hmem x).mp hx).1]
        rfl

/-- The end of a battle adds no snapshot to its last tick. -/
theorem onTick_simulates {r : Room F} (h : r.ended = false) (ks : List ℕ) :
    (r.onTick ks).1.conns = r.conns ∧ (r.onTick ks).1.sim = (r.simulate ks).1.sim ∧
      ∀ c p, lastAck c p (r.onTick ks).2 = lastAck c p (r.simulate ks).2 := by
  simp only [Room.onTick, h, Bool.false_eq_true, if_false]
  split
  · refine ⟨rfl, rfl, fun c p => ?_⟩
    rw [lastAck_append]
    rfl
  · exact ⟨rfl, rfl, fun _ _ => rfl⟩

theorem ackedAfter_iff {s : Room F × List (RoomAct F)} (hwf : s.1.sim.Wf) (op : RoomOp F) :
    AckedAfter s op ↔ Surfaces s op := by
  cases op with
  | task task => exact Iff.rfl
  | onTick ks =>
      simp only [AckedAfter, Surfaces, Acked, Room.run, Room.apply]
      cases hended : s.1.ended with
      | true =>
          simp only [Room.onTick, hended, if_true, List.append_nil]
          refine forall_congr' fun p => forall_congr' fun c => forall_congr' fun hslot => ?_
          simp
      | false =>
          obtain ⟨hconns, hsim, hsent⟩ := onTick_simulates hended ks
          rw [hconns, hsim]
          refine forall_congr' fun p => forall_congr' fun c => forall_congr' fun hslot => ?_
          have hseq : appliedSeq (s.1.simulate ks).1.sim p = appliedSeq s.1.sim p :=
            appliedSeq_step ks Room.kTickMs s.1.sim p
          have hnoticed : p ∈ (s.1.sim.step ks Room.kTickMs).2 ↔ Noticed ks s.1.sim p :=
            BattleSim.mem_changed hwf ks Room.kTickMs p
          rw [lastAck_append, hsent, lastAck_simulate hwf hslot, hseq]
          by_cases hp : p ∈ (s.1.sim.step ks Room.kTickMs).2
          · have hsome : (appliedSeq s.1.sim p).isSome := by
              rcases (BattleSim.evolves_step ks Room.kTickMs hwf).known p hp with h | h
              · cases h
              · have hstep := appliedSeq_step ks Room.kTickMs s.1.sim p
                rw [← hstep]
                simpa [appliedSeq] using h
            obtain ⟨n, hn⟩ := Option.isSome_iff_exists.mp hsome
            simp [hp, hn, hnoticed.mp hp]
          · simp [hp, mt hnoticed.mpr hp]

/-! ### Whole runs -/

/-- In every run of a room after `start`, every tick ends with the inputs of
all bound players acknowledged if and only if every tick notices the players
whose last input is not acknowledged yet. -/
theorem inputs_acknowledged (ks : List ℕ) (id : ℕ) (players : List (ℕ × Option Conn))
    (ops : List (RoomOp F)) :
    Along Room.run AckedAfter (Room.run (Room.new ks id players, []) (.task .start)) ops ↔
      Along Room.run Surfaces (Room.run (Room.new ks id players, []) (.task .start)) ops :=
  along_congr_of_invariant (I := fun s => s.1.sim.Wf) (fun _ op h => Room.wf_apply h op)
    (fun _ op h => ackedAfter_iff h op) (Room.wf_new ks id players) ops

/-- A player that stands still and fires: the projectile is in the snapshot,
the input that fired it is not acknowledged. -/
theorem attack_is_not_acknowledged :
    let ops : List (RoomOp (Ext ℚ)) :=
      [.task .start, .task (.onInput 1 ⟨1, .fin 0, .fin 0, true⟩), .onTick []]
    let s := ops.foldl Room.run (Room.new [] 7 [(1, some 10), (2, some 20)], [])
    s.1.conns.lookup 1 = some (some 10) ∧ appliedSeq s.1.sim 1 = some 1 ∧
      lastAck 10 1 s.2 = some 0 ∧ ¬Acked s := by
  intro ops s
  have hrun : s.1.conns.lookup 1 = some (some 10) ∧ appliedSeq s.1.sim 1 = some 1 ∧
      lastAck 10 1 s.2 = some 0 := by
    decide +kernel
  refine ⟨hrun.1, hrun.2.1, hrun.2.2, fun hacked => ?_⟩
  have hack := hacked 1 10 hrun.1
  rw [hrun.2.1, hrun.2.2] at hack
  exact absurd hack (by decide)

end GameServer.Client
