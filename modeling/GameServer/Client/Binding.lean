import GameServer.Client.Replica
import GameServer.Game.Presence

/-!
What a room says through the slot of one player.

A binding of a slot begins when the room is built with a connection in it, or
with a `rebind` to a connection, and lasts until the next `rebind` or
`dropConn` of the slot. A client sees one binding at a time, and what it sees
is a small grammar: the room is introduced by `EnterRoom` and a full snapshot,
then come the snapshots of later ticks, then the end of the battle.

The grammar holds for every binding, also for one that begins after the
battle has ended: there it consists of the introduction alone. No `BattleEnd`
follows, because `rebind` is the one operation that does not look at `ended`.
-/

namespace GameServer.Client

open GameServer.Lib GameServer.Proto GameServer.Game
open BattleSim

variable {F : Type}

/-- The messages that an act of a room sends through the slot of player `p`. -/
def through (p : ℕ) : RoomAct F → List (ServerMsg F)
  | .broadcast msg slots => (slots.filter (·.1 = p)).map fun _ => msg
  | .send q _ msg => if q = p then [msg] else []
  | .queueTickerReset | .onEnd _ _ => []

/-- What is said to one slot of a table, entry by entry, is said to the
connection in it. -/
theorem flatMap_slot {conns : UnorderedMap ℕ (Option Conn)} {p : ℕ}
    {f : (Σ _ : ℕ, Option Conn) → List (ServerMsg F)}
    (hskip : ∀ e ∈ conns.entries, e.1 ≠ p → f e = []) :
    conns.entries.flatMap f = match conns.lookup p with
      | none => []
      | some conn => f ⟨p, conn⟩ := by
  rw [List.flatMap_eq_foldl, UnorderedMap.foldl_entries_of_skip (k := p)]
  · cases conns.lookup p <;> rfl
  · intro msgs e he hne
    rw [hskip e he hne, List.append_nil]

/-- A broadcast reaches a slot once if there is a connection in it. -/
theorem through_broadcast (r : Room F) (p : ℕ) (msg : ServerMsg F) :
    through p (r.broadcast msg) = match r.conns.lookup p with
      | some (some _) => [msg]
      | _ => [] := by
  have hentries : through p (r.broadcast msg) =
      r.conns.entries.flatMap fun e => if e.1 = p then (e.2.map fun _ => msg).toList else [] := by
    simp only [through, Room.broadcast, Room.bound, List.filterMap_eq_flatMap_toList,
      List.filter_flatMap, List.map_flatMap]
    congr 1
    funext e
    rcases e with ⟨q, _ | c⟩
    · simp
    · by_cases hq : q = p <;> simp [hq]
  rw [hentries, flatMap_slot]
  · rcases r.conns.lookup p with _ | _ | c
    · rfl
    · simp
    · simp
  · intro e _ hne
    rw [if_neg hne]

theorem through_sendTo (p q : ℕ) (conn : Option Conn) (msg : ServerMsg F) :
    (Room.sendTo q conn msg).flatMap (through p) = match conn with
      | some _ => if q = p then [msg] else []
      | none => [] := by
  cases conn with
  | none => rfl
  | some c => simp [Room.sendTo, through]

/-! ### The grammar -/

/-- The snapshot has one entry for every player and for every projectile in
flight, with what the simulation holds. -/
structure Complete (r : Room F) (snap : StateSnapshot F) : Prop where
  full : snap.full = true
  tick : snap.tick = r.tick
  players : snap.players = r.sim.players.entries.map fun e =>
    { playerId := e.1, x := e.2.x, y := e.2.y, hp := e.2.hp, lastInputSeq := e.2.seq }
  projectiles : snap.projectiles = r.sim.projectiles.entries.map fun e =>
    { projectileId := e.1, ownerId := e.2.ownerId, x := e.2.x, y := e.2.y
      velocityX := e.2.vx, velocityY := e.2.vy }

/-- Non-full snapshots with increasing ticks after `tick`, and at most one
`BattleEnd`, as the last message. -/
def Continues (tick : ℕ) (msgs : List (ServerMsg F)) : Prop :=
  ∃ (deltas : List (StateSnapshot F)) (ending : List (ServerMsg F)),
    msgs = deltas.map .stateSnapshot ++ ending ∧
      (∀ d ∈ deltas, d.full = false) ∧
      (tick :: deltas.map (·.tick)).Pairwise (· < ·) ∧
      (ending = [] ∨ ∃ w, ending = [.battleEnd w])

/-- What is said through a slot during a binding that begins in room `r`. -/
def Sentence (id : ℕ) (members : List ℕ) (r : Room F) (msgs : List (ServerMsg F)) : Prop :=
  ∃ ids snap rest,
    msgs = .enterRoom id ids :: .stateSnapshot snap :: rest ∧
      ids.Nodup ∧ (∀ k, k ∈ ids ↔ k ∈ members) ∧ Complete r snap ∧ Continues snap.tick rest

/-- The task begins a binding of the slot of player `p` in room `r`: it starts
a room that was built with a connection in the slot, or puts one there. -/
def Opens (p : ℕ) (r : Room F) : RoomTask F → Prop
  | .start => ∃ c, r.conns.lookup p = some (some c)
  | .rebind q (some _) => q = p ∧ (r.conns.lookup p).isSome
  | _ => False

/-! ### The introduction -/

variable [Scalar F]

theorem complete_fullSnapshot {r : Room F} (hwf : r.sim.Wf) : Complete r r.fullSnapshot where
  full := rfl
  tick := rfl
  players := by
    simp only [Room.fullSnapshot, playerIds, AList.keys, List.keys, List.map_map]
    refine List.map_congr_left fun e he => ?_
    have hlookup := UnorderedMap.mem_entries_iff.mp he
    simp [fillState, hlookup, hwf.player_id hlookup]
  projectiles := by
    simp only [Room.fullSnapshot, projectileIds, AList.keys, List.keys, List.map_map]
    refine List.map_congr_left fun e he => ?_
    have hlookup := UnorderedMap.mem_entries_iff.mp he
    simp [fillProjectileState, hlookup, hwf.projectile_id hlookup]

/-- A task that begins a binding sends the introduction through the slot. -/
theorem Opens.says {p : ℕ} {r : Room F} {task : RoomTask F} (h : Opens p r task) :
    (r.exec task).2.flatMap (through p) = [r.enterRoom, .stateSnapshot r.fullSnapshot] := by
  cases task with
  | start =>
      obtain ⟨c, hc⟩ := h
      simp only [Room.exec, Room.start, List.flatMap_cons, List.flatMap_assoc,
        through_broadcast, hc]
      rw [flatMap_slot, hc]
      · simp [Room.sendFullSnapshot, through_sendTo]
      · intro e _ hne
        rw [Room.sendFullSnapshot, through_sendTo]
        split
        · rw [if_neg hne]
        · rfl
  | rebind q conn =>
      cases conn with
      | none => exact h.elim
      | some c =>
          obtain ⟨rfl, hslot⟩ := h
          obtain ⟨slot, hslot⟩ := Option.isSome_iff_exists.mp hslot
          simp only [Room.exec, Room.rebind, hslot, List.flatMap_append, Room.sendFullSnapshot,
            through_sendTo, if_true]
          rfl
  | onInput | dropConn | forceEnd | stop | resetTicker => exact h.elim

/-- After such a task the slot is bound, and nothing else has changed that a
client is told. -/
theorem Opens.bound {p : ℕ} {r : Room F} {task : RoomTask F} (h : Opens p r task) :
    (∃ c, (r.exec task).1.conns.lookup p = some (some c)) ∧ (r.exec task).1.tick = r.tick := by
  cases task with
  | start => exact ⟨h, rfl⟩
  | rebind q conn =>
      cases conn with
      | none => exact h.elim
      | some c =>
          obtain ⟨rfl, hslot⟩ := h
          obtain ⟨slot, hslot⟩ := Option.isSome_iff_exists.mp hslot
          exact ⟨⟨c, by simp [Room.exec, Room.rebind, hslot]⟩, (Room.rebind_sim r q _).2⟩
  | onInput | dropConn | forceEnd | stop | resetTicker => exact h.elim

/-! ### The course of a binding -/

/-- `msgs` continues the introduction of a binding in which the room has come
to `r`: no tick is ahead of the room, and a `BattleEnd` means that it ended. -/
def Course (tick : ℕ) (r : Room F) (msgs : List (ServerMsg F)) : Prop :=
  ∃ (deltas : List (StateSnapshot F)) (ending : List (ServerMsg F)),
    msgs = deltas.map .stateSnapshot ++ ending ∧
      (∀ d ∈ deltas, d.full = false) ∧
      (tick :: deltas.map (·.tick)).Pairwise (· < ·) ∧
      (∀ t ∈ tick :: deltas.map (·.tick), t ≤ r.tick) ∧
      (ending = [] ∨ r.ended = true ∧ ∃ w, ending = [.battleEnd w])

omit [Scalar F] in
theorem Course.continues {tick : ℕ} {r : Room F} {msgs : List (ServerMsg F)}
    (h : Course tick r msgs) : Continues tick msgs := by
  obtain ⟨deltas, ending, hmsgs, hdeltas, hticks, -, hending⟩ := h
  exact ⟨deltas, ending, hmsgs, hdeltas, hticks, hending.imp_right And.right⟩

omit [Scalar F] in
/-- The room says nothing and goes on. -/
theorem Course.quiet {tick : ℕ} {r r' : Room F} {msgs : List (ServerMsg F)}
    (h : Course tick r msgs) (htick : r.tick ≤ r'.tick) (hended : r.ended = true → r'.ended = true) :
    Course tick r' msgs := by
  obtain ⟨deltas, ending, hmsgs, hdeltas, hticks, hlate, hending⟩ := h
  refine ⟨deltas, ending, hmsgs, hdeltas, hticks, fun t ht => (hlate t ht).trans htick, ?_⟩
  exact hending.imp_right fun hend => ⟨hended hend.1, hend.2⟩

omit [Scalar F] in
/-- While the room has not ended, only snapshots have been sent. -/
theorem Course.of_open {tick : ℕ} {r : Room F} {msgs : List (ServerMsg F)}
    (h : Course tick r msgs) (hopen : r.ended = false) :
    ∃ deltas : List (StateSnapshot F), msgs = deltas.map .stateSnapshot ∧
      (∀ d ∈ deltas, d.full = false) ∧ (tick :: deltas.map (·.tick)).Pairwise (· < ·) ∧
      ∀ t ∈ tick :: deltas.map (·.tick), t ≤ r.tick := by
  obtain ⟨deltas, ending, rfl, hdeltas, hticks, hlate, rfl | ⟨hended, -⟩⟩ := h
  · exact ⟨deltas, List.append_nil _, hdeltas, hticks, hlate⟩
  · rw [hopen] at hended
    cases hended

omit [Scalar F] in
/-- A room that has not ended sends the snapshot of a new tick. -/
theorem Course.snapshot {tick : ℕ} {r r' : Room F} {msgs : List (ServerMsg F)}
    (h : Course tick r msgs) (hopen : r.ended = false) (htick : r.tick < r'.tick)
    {d : StateSnapshot F} (hfull : d.full = false) (hd : d.tick = r'.tick) :
    Course tick r' (msgs ++ [.stateSnapshot d]) := by
  obtain ⟨deltas, rfl, hdeltas, hticks, hlate⟩ := h.of_open hopen
  refine ⟨deltas ++ [d], [], ?_, ?_, ?_, ?_, .inl rfl⟩
  · simp
  · intro d' hd'
    rcases List.mem_append.mp hd' with hold | hnew
    · exact hdeltas d' hold
    · rw [List.mem_singleton.mp hnew]
      exact hfull
  · rw [List.map_append, ← List.cons_append, List.pairwise_append]
    refine ⟨hticks, List.pairwise_singleton _ _, fun t ht t' ht' => ?_⟩
    obtain rfl : t' = d.tick := by simpa using ht'
    have := hlate t ht
    omega
  · intro t ht
    rw [List.map_append, ← List.cons_append] at ht
    rcases List.mem_append.mp ht with hold | hnew
    · exact (hlate t hold).trans htick.le
    · obtain rfl : t = d.tick := by simpa using hnew
      exact hd.le

omit [Scalar F] in
/-- A room that has not ended announces the end. -/
theorem Course.endBattle {tick p : ℕ} {r : Room F} {msgs : List (ServerMsg F)}
    (h : Course tick r msgs) {c : Conn} (hslot : r.conns.lookup p = some (some c))
    (hopen : r.ended = false) (w : ℕ) :
    Course tick (r.endBattle w).1 (msgs ++ (r.endBattle w).2.flatMap (through p)) := by
  have hsaid : (r.endBattle w).2.flatMap (through p) = [.battleEnd w] := by
    simp only [Room.endBattle, List.flatMap_cons, through_broadcast, hslot]
    rfl
  rw [hsaid]
  obtain ⟨deltas, rfl, hdeltas, hticks, hlate⟩ := h.of_open hopen
  exact ⟨deltas, [.battleEnd w], rfl, hdeltas, hticks, hlate, .inr ⟨rfl, w, rfl⟩⟩

/-- The part of a tick before the check for a winner. -/
theorem Course.simulate {tick p : ℕ} {r : Room F} {msgs : List (ServerMsg F)}
    (h : Course tick r msgs) {c : Conn} (hslot : r.conns.lookup p = some (some c))
    (hopen : r.ended = false) (ks : List ℕ) :
    Course tick (r.simulate ks).1 (msgs ++ (r.simulate ks).2.flatMap (through p)) := by
  simp only [Room.simulate]
  split
  · rw [List.flatMap_nil, List.append_nil]
    exact h.quiet (Nat.le_succ _) id
  · rw [List.flatMap_singleton, through_broadcast]
    simp only [hslot]
    exact h.snapshot hopen (Nat.lt_succ_self _) rfl rfl

theorem Course.onTick {tick p : ℕ} {r : Room F} {msgs : List (ServerMsg F)}
    (h : Course tick r msgs) {c : Conn} (hslot : r.conns.lookup p = some (some c))
    (ks : List ℕ) :
    Course tick (r.onTick ks).1 (msgs ++ (r.onTick ks).2.flatMap (through p)) := by
  cases hended : r.ended with
  | true =>
      simp only [Room.onTick, hended, if_true, List.flatMap_nil, List.append_nil]
      exact h
  | false =>
      have hsim := h.simulate hslot hended ks
      simp only [Room.onTick, hended, Bool.false_eq_true, if_false]
      split
      · rw [List.flatMap_append, ← List.append_assoc]
        exact hsim.endBattle hslot hended _
      · exact hsim

/-- One operation within a binding. Of the operations that speak, `start` does
not occur again, and a `rebind` of another slot says nothing here. -/
theorem Course.apply {tick p : ℕ} {r : Room F} {msgs : List (ServerMsg F)}
    (h : Course tick r msgs) {c : Conn} (hslot : r.conns.lookup p = some (some c))
    {op : RoomOp F} (hstart : op ≠ .task .start) (hkeep : ¬Unbinds p op) :
    Course tick (r.apply op).1 (msgs ++ (r.apply op).2.flatMap (through p)) := by
  cases op with
  | onTick ks => exact h.onTick hslot ks
  | task task =>
      cases task with
      | start => exact absurd rfl hstart
      | onInput q input =>
          simp only [Room.apply, Room.exec, Room.onInput, List.flatMap_nil, List.append_nil]
          split <;> exact h
      | rebind q conn =>
          have hq : q ≠ p := hkeep
          have hnone : (r.rebind q conn).2.flatMap (through p) = [] := by
            simp only [Room.rebind]
            split
            · rfl
            · simp only [List.flatMap_append, Room.sendFullSnapshot, through_sendTo, if_neg hq]
              cases conn <;> rfl
          simp only [Room.apply, Room.exec, hnone, List.append_nil]
          refine h.quiet (Room.rebind_sim r q conn).2.ge fun hended => ?_
          exact Room.apply_ended hended (.task (.rebind q conn))
      | forceEnd w =>
          cases hended : r.ended with
          | true =>
              simp only [Room.apply, Room.exec, Room.forceEnd, hended, if_true, List.flatMap_nil,
                List.append_nil]
              exact h
          | false =>
              simp only [Room.apply, Room.exec, Room.forceEnd, hended, Bool.false_eq_true,
                if_false]
              exact h.endBattle hslot hended w
      | stop =>
          simp only [Room.apply, Room.exec, List.flatMap_nil, List.append_nil]
          exact h.quiet le_rfl fun _ => rfl
      | dropConn | resetTicker =>
          simp only [Room.apply, Room.exec, List.flatMap_nil, List.append_nil]
          exact h.quiet le_rfl id

/-- A slot stays bound until it is given away. -/
theorem slot_of_not_unbinds {r : Room F} {p : ℕ} {op : RoomOp F} (hkeep : ¬Unbinds p op) :
    (r.apply op).1.conns.lookup p = r.conns.lookup p := by
  cases op with
  | onTick ks => rw [Room.apply, Room.conns_onTick]
  | task task =>
      cases task with
      | rebind q conn => exact rebind_slot hkeep conn
      | dropConn q =>
          have hne : p ≠ q := fun heq => hkeep heq.symm
          simp [Room.apply, Room.exec, Room.dropConn, hne]
      | onInput | forceEnd =>
          simp only [Room.apply, Room.exec, Room.onInput, Room.forceEnd]
          split <;> rfl
      | start | stop | resetTicker => rfl

/-! ### Whole runs -/

/-- The room is the one that was built for these members. -/
structure Houses (id : ℕ) (members : List ℕ) (r : Room F) : Prop where
  id_eq : r.id = id
  wf : r.sim.Wf
  members : ∀ k, (r.sim.players.lookup k).isSome ↔ k ∈ members

theorem houses_new (ks : List ℕ) (id : ℕ) (players : List (ℕ × Option Conn)) :
    Houses id (players.map Prod.fst) (Room.new ks id players : Room F) := by
  have hloop : ∀ (l : List ((ℕ × Option Conn) × ℕ)) (r : Room F),
      let r' := l.foldl (fun r e =>
        { r with
          sim := r.sim.addPlayer ks e.1.1
            (if e.2 % 2 = 0 then Scalar.lit 30 else Scalar.lit 70) (Scalar.lit 50)
          conns := UnorderedMap.reorder ks (r.conns.insert e.1.1 e.1.2) }) r
      r'.id = r.id ∧ ∀ k, (r'.sim.players.lookup k).isSome ↔
        (r.sim.players.lookup k).isSome ∨ k ∈ (l.map Prod.fst).map Prod.fst := by
    intro l
    induction l with
    | nil => simp
    | cons e l ih =>
        intro r
        obtain ⟨hid, hmembers⟩ := ih
          { r with
            sim := r.sim.addPlayer ks e.1.1
              (if e.2 % 2 = 0 then Scalar.lit 30 else Scalar.lit 70) (Scalar.lit 50)
            conns := UnorderedMap.reorder ks (r.conns.insert e.1.1 e.1.2) }
        refine ⟨hid, fun k => (hmembers k).trans ?_⟩
        simp only [addPlayer, UnorderedMap.lookup_reorder, UnorderedMap.lookup_insert_eq,
          List.map_cons, List.mem_cons]
        by_cases hk : k = e.1.1 <;> simp [hk]
  obtain ⟨hid, hmembers⟩ := hloop players.zipIdx { id := id }
  refine ⟨hid, Room.wf_new ks id players, fun k => (hmembers k).trans ?_⟩
  rw [List.zipIdx_map_fst]
  simp

theorem Houses.apply {id : ℕ} {members : List ℕ} {r : Room F} (h : Houses id members r)
    (op : RoomOp F) : Houses id members (r.apply op).1 := by
  refine ⟨(Room.apply_id r op).trans h.id_eq, Room.wf_apply h.wf op, fun k => ?_⟩
  have hsame : ((r.apply op).1.sim.players.lookup k).isSome = (r.sim.players.lookup k).isSome := by
    cases op with
    | task task => exact (Room.evolves_apply r _ (by simp)).isSome_iff k
    | onTick ks =>
        have hstep := (evolves_step ks Room.kTickMs h.wf).isSome_iff k
        simp only [Room.apply, Room.onTick]
        split
        · rfl
        · split <;> exact hstep
  rw [hsame]
  exact h.members k

/-- The messages of a binding so far: the introduction and its course. -/
structure Told (p : ℕ) (r₀ : Room F) (s : Room F × List (RoomAct F)) : Prop where
  slot : ∃ c, s.1.conns.lookup p = some (some c)
  said : ∃ rest, s.2.flatMap (through p) =
    r₀.enterRoom :: .stateSnapshot r₀.fullSnapshot :: rest ∧ Course r₀.tick s.1 rest

theorem told_opens {p : ℕ} {r : Room F} {task : RoomTask F} (h : Opens p r task) :
    Told p r (r.exec task) := by
  obtain ⟨hslot, htick⟩ := h.bound
  refine ⟨hslot, [], h.says, [], [], rfl, by simp, by simp, ?_, .inl rfl⟩
  simp [htick]

theorem Told.run {p : ℕ} {r₀ : Room F} {s : Room F × List (RoomAct F)} (h : Told p r₀ s)
    {op : RoomOp F} (hstart : op ≠ .task .start) (hkeep : ¬Unbinds p op) :
    Told p r₀ (Room.run s op) := by
  obtain ⟨⟨c, hslot⟩, rest, hsaid, hcourse⟩ := h
  refine ⟨⟨c, (slot_of_not_unbinds hkeep).trans hslot⟩, _, ?_, hcourse.apply hslot hstart hkeep⟩
  rw [Room.run, List.flatMap_append, hsaid]
  rfl

/-- What a room says through a slot, from the task that begins a binding over
all operations that leave the slot alone, is a sentence of the grammar. -/
theorem binding_grammar (ks : List ℕ) (id : ℕ) (players : List (ℕ × Option Conn))
    (ops : List (RoomOp F)) (hstart : .task .start ∉ ops) (p : ℕ)
    (before : List (RoomOp F)) (opening : RoomTask F) (during after : List (RoomOp F))
    (hsplit : .task .start :: ops = before ++ .task opening :: (during ++ after))
    (hkeep : ∀ op ∈ during, ¬Unbinds p op) :
    let r := (before.foldl Room.run (Room.new ks id players, [])).1
    Opens p r opening →
      Sentence id (players.map Prod.fst) r
        ((during.foldl Room.run (r.exec opening)).2.flatMap (through p)) := by
  intro r hopens
  have hr : Houses id (players.map Prod.fst) r :=
    @invariant_run_of_step _ _ Room.run (fun s => Houses id (players.map Prod.fst) s.1)
      (fun _ op h => h.apply op) _ (houses_new ks id players) before
  -- `start` is the first operation, and the binding goes on after it
  have honce : ∀ op ∈ during, op ≠ .task .start := by
    rintro op hop rfl
    refine hstart ?_
    cases before with
    | nil =>
        rw [(List.cons_eq_cons.mp hsplit).2]
        exact List.mem_append_left _ hop
    | cons op' before =>
        rw [(List.cons_eq_cons.mp hsplit).2]
        exact List.mem_append_right _ (List.mem_cons_of_mem _ (List.mem_append_left _ hop))
  have halong : Along Room.run (fun _ op => op ≠ .task .start ∧ ¬Unbinds p op)
      (r.exec opening) during :=
    along_of_forall (fun op hop _ => ⟨honce op hop, hkeep op hop⟩) _
  have htold : Told p r (during.foldl Room.run (r.exec opening)) :=
    invariant_run (fun s op h hop => h.run hop.1 hop.2) (told_opens hopens) halong
  obtain ⟨-, rest, hsaid, hcourse⟩ := htold
  refine ⟨r.sim.playerIds, r.fullSnapshot, rest, ?_, r.sim.players.nodupKeys, fun k => ?_,
    complete_fullSnapshot hr.wf, hcourse.continues⟩
  · rw [hsaid, Room.enterRoom, hr.id_eq]
  · rw [← hr.members k, AList.lookup_isSome]
    rfl

/-- A player comes back in the middle of the battle and sees its end. -/
theorem binding_grammar_after_rebind :
    let ops : List (RoomOp (Ext ℚ)) :=
      [.onTick [], .task (.dropConn 1), .onTick [], .task (.rebind 1 (some 30)),
        .task (.onInput 1 ⟨1, .fin 1, .fin 0, true⟩), .onTick [], .task (.rebind 2 none),
        .task (.forceEnd 1), .onTick []]
    let r := ((.task .start :: ops.take 3).foldl Room.run
      (Room.new [] 7 [(1, some 10), (2, some 20)], [])).1
    Sentence 7 [1, 2] r
      (((ops.drop 4).foldl Room.run (r.exec (.rebind 1 (some 30)))).2.flatMap (through 1)) := by
  intro ops r
  have hkeep : ∀ op ∈ ops.drop 4, ¬Unbinds 1 op := by simp [ops, Unbinds]
  have hslot : (r.conns.lookup 1).isSome := by decide +kernel
  exact binding_grammar [] 7 [(1, some 10), (2, some 20)] ops (by simp [ops]) 1
    (.task .start :: ops.take 3) (.rebind 1 (some 30)) (ops.drop 4) [] (by simp [ops]) hkeep
    ⟨rfl, hslot⟩

/-! ### Rooms that have ended -/

/-- The message introduces a battle or shows it going on. -/
def showsBattle : ServerMsg F → Bool
  | .enterRoom _ _ | .stateSnapshot _ => true
  | _ => false

/-- No connection receives an `EnterRoom` or a `StateSnapshot`. -/
def Silent (acts : List (RoomAct F)) : Prop :=
  ∀ c, ∀ act ∈ acts, ∀ msg ∈ act.toConn c, showsBattle msg = false

/-- The operation does not bind a player of the room to a connection. -/
def BindsNobody (r : Room F) (op : RoomOp F) : Prop :=
  ∀ q c, op = .task (.rebind q (some c)) → r.conns.lookup q = none

/-- All operations but `start` and `rebind` look at `ended` or say nothing. -/
theorem apply_of_ended {r : Room F} (hended : r.ended = true) {op : RoomOp F}
    (hstart : op ≠ .task .start) :
    (r.apply op).2 = [] ∨ ∃ q conn, op = .task (.rebind q conn) := by
  cases op with
  | onTick ks => exact .inl (by simp [Room.apply, Room.onTick, hended])
  | task task =>
      cases task with
      | start => exact absurd rfl hstart
      | rebind q conn => exact .inr ⟨q, conn, rfl⟩
      | forceEnd w => exact .inl (by simp [Room.apply, Room.exec, Room.forceEnd, hended])
      | onInput | dropConn | stop | resetTicker => exact .inl rfl

/-- An operation on an ended room is silent exactly if it binds nobody. -/
theorem silent_iff {r : Room F} (hended : r.ended = true) {op : RoomOp F}
    (hstart : op ≠ .task .start) : Silent (r.apply op).2 ↔ BindsNobody r op := by
  constructor
  · rintro hsilent q c rfl
    by_contra hslot
    obtain ⟨slot, hslot⟩ := Option.ne_none_iff_exists'.mp hslot
    have hsaid : RoomAct.send q c r.enterRoom ∈ (r.apply (.task (.rebind q (some c)))).2 := by
      simp only [Room.apply, Room.exec, Room.rebind, hslot]
      exact List.mem_append_left _ (List.mem_singleton.mpr rfl)
    have hreached : r.enterRoom ∈ (RoomAct.send q c r.enterRoom).toConn c := by
      simp [RoomAct.toConn]
    cases hsilent c _ hsaid _ hreached
  · intro hnobody c act hact
    have hnothing : (r.apply op).2 = [] := by
      rcases apply_of_ended hended hstart with hnone | ⟨q, conn, rfl⟩
      · exact hnone
      · cases conn with
        | none =>
            simp only [Room.apply, Room.exec, Room.rebind]
            split <;> rfl
        | some c => simp [Room.apply, Room.exec, Room.rebind, hnobody q c rfl]
    rw [hnothing] at hact
    cases hact

/-- A room that has ended shows no battle to any connection, over a whole run
of operations after `start`, exactly if no player of it is bound to a
connection after the end. -/
theorem ended_room_silent (r : Room F) (ops : List (RoomOp F)) (hstart : .task .start ∉ ops) :
    Along Room.run (fun s op => s.1.ended = true → Silent (s.1.apply op).2) (r, []) ops ↔
      Along Room.run (fun s op => s.1.ended = true → BindsNobody s.1 op) (r, []) ops := by
  refine along_congr fun op hop s => forall_congr' fun hended => ?_
  exact silent_iff hended fun heq => hstart (heq ▸ hop)

/-- Nobody comes back after the end. -/
theorem ended_room_silent_without_rebind :
    let r : Room (Ext ℚ) := (Room.new [] 7 [(1, some 10), (2, some 20)]).start.1
    let ops : List (RoomOp (Ext ℚ)) :=
      [.task (.rebind 2 (some 30)), .onTick [], .task (.forceEnd 1), .onTick [],
        .task (.dropConn 2)]
    Along Room.run (fun s op => s.1.ended = true → Silent (s.1.apply op).2) (r, []) ops := by
  intro r ops
  refine (ended_room_silent r ops (by simp [ops])).mpr ⟨?_, ?_, ?_, ?_, ?_, trivial⟩
  · intro hended
    cases hended
  all_goals
    intro _ q c hop
    cases hop

/-- Player 2 drops out, player 1 is declared the winner, and the `rebind` of
player 2 is run after that: it is shown a battle that is over. -/
theorem rebind_shows_ended_room :
    let r : Room (Ext ℚ) := (Room.new [] 7 [(1, some 10), (2, some 20)]).start.1
    let ops : List (RoomOp (Ext ℚ)) :=
      [.task (.dropConn 2), .task (.forceEnd 1), .task (.rebind 2 (some 30))]
    ¬Along Room.run (fun s op => s.1.ended = true → Silent (s.1.apply op).2) (r, []) ops := by
  intro r ops h
  have hsilent := h.2.2.1 rfl
  have hsaid : (((((r.apply (.task (.dropConn 2))).1.apply (.task (.forceEnd 1))).1.apply
      (.task (.rebind 2 (some 30)))).2.flatMap (RoomAct.toConn 30)).any showsBattle) = true := by
    decide +kernel
  obtain ⟨msg, hmsg, hshows⟩ := List.any_eq_true.mp hsaid
  obtain ⟨act, hact, hmsg⟩ := List.mem_flatMap.mp hmsg
  rw [hsilent 30 act hact msg hmsg] at hshows
  cases hshows

end GameServer.Client
