import GameServer.Game.Duel
import GameServer.Game.Lobby

/-!
What a step of a room means to the lobby.

`Room.apply_cases` says once what an operation of a two-player room can do:
send something, or end the battle, which it does with a fixed sequence of
acts. `runRoom_quiet` and `runRoom_closing` carry the two cases over to the
lobby as equations for its state. All later invariants go through these
lemmas and do not look into the rooms again.
-/

namespace GameServer.Game

open GameServer.Lib GameServer.Proto
open BattleSim

/-- The room sends something other than the end of the battle. -/
def RoomAct.quiet {F : Type} : RoomAct F → Bool
  | .broadcast (.battleEnd _) _ | .queueTickerReset | .onEnd _ _ => false
  | .broadcast _ _ | .send _ _ _ => true

namespace Room

variable {F : Type}

/-- How a room ends its battle. -/
def closing (r : Room F) (w : ℕ) : List (RoomAct F) :=
  [r.broadcast (.battleEnd w), .queueTickerReset, .onEnd r.id w]

/-- The room belongs to the players `a` and `b`. -/
structure Seats (a b : ℕ) (r : Room F) : Prop where
  wf : r.sim.Wf
  players : Between a b r.sim.players
  conns : ∀ p, (r.conns.lookup p).isSome ↔ p = a ∨ p = b
  a_ne : a ≠ 0
  b_ne : b ≠ 0

/-- The winner that a tick finds sits in the room. -/
theorem Seats.winner {a b : ℕ} {r : Room F} (h : Seats a b r)
    (hw : r.sim.winnerOrZero ≠ 0) : r.sim.winnerOrZero = a ∨ r.sim.winnerOrZero = b := by
  rw [winnerOrZero_eq] at hw ⊢
  split
  · next k hk =>
      have hmem : k ∈ r.sim.livingIds := by
        rw [hk]
        exact List.mem_singleton_self k
      obtain ⟨p, hp, -⟩ := BattleSim.mem_livingIds.mp hmem
      exact (h.players.keys k).mp (by rw [hp]; rfl)
  · next hno =>
      split at hw
      · next k hk => exact absurd hk (hno k)
      · exact absurd rfl hw

variable [Scalar F]

theorem seats_new (ks : List ℕ) (id : ℕ) (d : Pairing) :
    Seats d.a d.b (new ks id d.players : Room F) := by
  have hfair := fair_new (F := F) ks id d
  refine ⟨hfair.wf, hfair.between, fun p => ?_, d.a_ne, d.b_ne⟩
  have hlookup : (new ks id d.players : Room F).conns.lookup p =
      (UnorderedMap.reorder ks ((UnorderedMap.reorder ks
        ((∅ : UnorderedMap ℕ (Option Conn)).insert d.a d.connA)).insert d.b d.connB)).lookup p :=
    rfl
  rw [hlookup]
  simp only [UnorderedMap.lookup_reorder, UnorderedMap.lookup_insert_eq]
  split
  · simp [*]
  · split
    · simp [*]
    · simp [*]

@[simp] theorem apply_id (r : Room F) (op : RoomOp F) : (r.apply op).1.id = r.id := by
  cases op with
  | onTick ks =>
      simp only [apply, onTick]
      split
      · rfl
      · split <;> rfl
  | task task =>
      cases task with
      | onInput =>
          simp only [apply, exec, onInput]
          split <;> rfl
      | rebind =>
          simp only [apply, exec, rebind]
          split <;> rfl
      | forceEnd =>
          simp only [apply, exec, forceEnd]
          split <;> rfl
      | start | dropConn | stop | resetTicker => rfl

/-- The slots change hands but stay the same slots. -/
theorem apply_conns (r : Room F) (op : RoomOp F) (p : ℕ) :
    ((r.apply op).1.conns.lookup p).isSome = (r.conns.lookup p).isSome := by
  cases op with
  | onTick ks =>
      simp only [apply, onTick]
      split
      · rfl
      · split <;> rfl
  | task task =>
      cases task with
      | onInput =>
          simp only [apply, exec, onInput]
          split <;> rfl
      | rebind q conn =>
          simp only [apply, exec, rebind]
          split
          · rfl
          · simp only [UnorderedMap.lookup_modify]
            split <;> simp
      | dropConn q =>
          simp only [apply, exec, dropConn, UnorderedMap.lookup_modify]
          split <;> simp
      | forceEnd =>
          simp only [apply, exec, forceEnd]
          split <;> rfl
      | start | stop | resetTicker => rfl

theorem Seats.apply {a b : ℕ} {r : Room F} (h : Seats a b r) (op : RoomOp F) :
    Seats a b (r.apply op).1 := by
  refine ⟨wf_apply h.wf op, ?_, fun p => ?_, h.a_ne, h.b_ne⟩
  · cases op with
    | onTick ks =>
        have hsim := between_simulate h.wf h.players ks
        simp only [Room.apply, onTick]
        split
        · exact h.players
        · split <;> exact hsim
    | task task =>
        have hev := evolves_apply r (.task task) (by simp)
        exact h.players.evolve hev
  · exact (iff_of_eq (congrArg (· = true) (apply_conns r op p))).trans (h.conns p)

theorem simulate_quiet (r : Room F) (ks : List ℕ) :
    ∀ act ∈ (r.simulate ks).2, act.quiet = true := by
  intro act hact
  simp only [simulate] at hact
  split at hact
  · cases hact
  · rw [List.mem_singleton] at hact
    subst hact
    rfl

/-- What an operation can do: it leaves the battle as it is and only sends,
or it ends it, for the winner that a task names or that a tick found. -/
theorem apply_cases {a b : ℕ} {r : Room F} (h : Seats a b r) {op : RoomOp F}
    (hstop : op ≠ .task .stop) :
    ((r.apply op).1.ended = r.ended ∧ ∀ act ∈ (r.apply op).2, act.quiet = true) ∨
    ∃ w pre, r.ended = false ∧ (r.apply op).1.ended = true ∧
      (op = .task (.forceEnd w) ∨ ((∃ ks, op = .onTick ks) ∧ (w = a ∨ w = b))) ∧
      (∀ act ∈ pre, act.quiet = true) ∧ (r.apply op).2 = pre ++ (r.apply op).1.closing w := by
  cases op with
  | onTick ks =>
      cases hended : r.ended with
      | true =>
          left
          simp [apply, onTick, hended]
      | false =>
          have hseats : Seats a b (r.simulate ks).1 :=
            ⟨wf_simulate h.wf ks, between_simulate h.wf h.players ks, h.conns, h.a_ne, h.b_ne⟩
          simp only [apply, onTick, hended, Bool.false_eq_true, if_false]
          by_cases hw : (r.simulate ks).1.sim.winnerOrZero ≠ 0
          · right
            rw [if_pos hw]
            exact ⟨_, _, trivial, rfl, .inr ⟨⟨ks, rfl⟩, hseats.winner hw⟩, simulate_quiet r ks, rfl⟩
          · left
            rw [if_neg hw]
            exact ⟨hended, simulate_quiet r ks⟩
  | task task =>
      cases task with
      | forceEnd w =>
          cases hended : r.ended with
          | true =>
              left
              simp [apply, exec, forceEnd, hended]
          | false =>
              right
              simp only [apply, exec, forceEnd, hended, Bool.false_eq_true, if_false]
              exact ⟨w, [], trivial, rfl, .inl rfl, by simp, rfl⟩
      | stop => exact absurd rfl hstop
      | start =>
          refine .inl ⟨rfl, fun act hact => ?_⟩
          simp only [apply, exec, start, List.mem_cons, List.mem_flatMap] at hact
          rcases hact with rfl | ⟨e, -, hact⟩
          · rfl
          · cases hconn : e.2 with
            | none => simp [sendFullSnapshot, sendTo, hconn] at hact
            | some c =>
                simp only [sendFullSnapshot, sendTo, hconn, List.mem_singleton] at hact
                subst hact
                rfl
      | onInput q input =>
          left
          simp only [apply, exec, onInput]
          split <;> simp
      | rebind q conn =>
          left
          simp only [apply, exec, rebind]
          split
          · simp
          · cases conn <;> simp [sendTo, sendFullSnapshot, RoomAct.quiet]
      | dropConn | resetTicker => exact .inl ⟨rfl, by simp [apply, exec]⟩

/-- Only `forceEnd` among the posted tasks ends a battle. -/
theorem exec_quiet {a b : ℕ} {r : Room F} (h : Seats a b r) {task : RoomTask F}
    (hstop : task ≠ .stop) (hforce : ∀ w, task ≠ .forceEnd w) :
    ∀ act ∈ (r.exec task).2, act.quiet = true := by
  have hop : (RoomOp.task task : RoomOp F) ≠ .task .stop := by simpa using hstop
  rcases apply_cases h hop with
    ⟨-, hquiet⟩ | ⟨w, -, -, -, hop, -⟩
  · exact hquiet
  · rcases hop with hop | ⟨⟨ks, hop⟩, -⟩
    · exact absurd (RoomOp.task.inj hop) (hforce w)
    · cases hop

end Room

namespace Lobby

variable {F : Type}

/-- `onEnd_` reaches the lobby. -/
def closeRoom (roomId winnerId : ℕ) (s : Lobby F) : Lobby F :=
  if s.gameThreads = 0 then s.onRoomEnd roomId winnerId
  else { s with roomEnds := s.roomEnds ++ [(roomId, winnerId)] }

theorem foldl_perform_quiet (roomId : ℕ) {acts : List (RoomAct F)}
    (h : ∀ act ∈ acts, act.quiet = true) (s : Lobby F) :
    acts.foldl (perform roomId) s = { s with log := s.log ++ acts.map (Entry.room roomId) } := by
  induction acts generalizing s with
  | nil => simp
  | cons act acts ih =>
      have hact := h act (List.mem_cons_self ..)
      have hone : perform roomId s act = s.emit (.room roomId act) := by
        cases act with
        | queueTickerReset | onEnd => simp [RoomAct.quiet] at hact
        | broadcast | send => rfl
      rw [List.foldl_cons, hone, ih fun act' h' => h act' (List.mem_cons_of_mem _ h')]
      simp [emit]

theorem runRoom_quiet {s : Lobby F} {roomId : ℕ} {cell : RoomCell F}
    (hcell : s.cells.lookup roomId = some cell) {f : Room F → Room F × List (RoomAct F)}
    (h : ∀ act ∈ (f cell.room).2, act.quiet = true) :
    s.runRoom roomId f =
      { s with
        cells := s.cells.modify roomId fun cell => { cell with room := (f cell.room).1 }
        log := s.log ++ (f cell.room).2.map (Entry.room roomId) } := by
  simp only [runRoom, hcell]
  rw [foldl_perform_quiet roomId h]
  rfl

theorem runRoom_closing {s : Lobby F} {roomId : ℕ} {cell : RoomCell F}
    (hcell : s.cells.lookup roomId = some cell) {f : Room F → Room F × List (RoomAct F)}
    {pre : List (RoomAct F)} {w : ℕ} (hpre : ∀ act ∈ pre, act.quiet = true)
    (hacts : (f cell.room).2 = pre ++ (f cell.room).1.closing w) :
    s.runRoom roomId f =
      closeRoom (f cell.room).1.id w
        { s with
          cells := s.cells.modify roomId fun cell =>
            { room := (f cell.room).1, mailbox := cell.mailbox ++ [.resetTicker] }
          log := s.log ++ (f cell.room).2.map (Entry.room roomId) } := by
  simp only [runRoom, hcell]
  rw [hacts, List.foldl_append, foldl_perform_quiet roomId hpre]
  simp only [Room.closing, Room.broadcast, List.foldl_cons, List.foldl_nil, perform, mail,
    modifyCell, emit, UnorderedMap.modify_modify, closeRoom]
  simp [List.append_assoc]

variable [Scalar F]

/-- What posting a task does to the cell of the room, if the task does not
end the battle. -/
def deliver (gameThreads : ℕ) (task : RoomTask F) (cell : RoomCell F) : RoomCell F :=
  if gameThreads = 0 then { cell with room := (cell.room.exec task).1 }
  else { cell with mailbox := cell.mailbox ++ [task] }

/-- The acts that posting a task brings about at once. -/
def postedActs (gameThreads : ℕ) (task : RoomTask F) (cell : RoomCell F) : List (RoomAct F) :=
  if gameThreads = 0 then (cell.room.exec task).2 else []

theorem post_quiet {s : Lobby F} {roomId : ℕ} {cell : RoomCell F}
    (hcell : s.cells.lookup roomId = some cell) {task : RoomTask F}
    (h : ∀ act ∈ (cell.room.exec task).2, act.quiet = true) :
    s.post roomId task =
      { s with
        cells := s.cells.modify roomId (deliver s.gameThreads task)
        log := s.log ++ (postedActs s.gameThreads task cell).map (Entry.room roomId) } := by
  by_cases hg : s.gameThreads = 0
  · have hdeliver : deliver s.gameThreads task =
        fun cell => { cell with room := (cell.room.exec task).1 } := by
      funext cell
      simp [deliver, hg]
    rw [post, if_pos hg, runRoom_quiet hcell h, hdeliver, postedActs, if_pos hg]
  · have hdeliver : deliver s.gameThreads task =
        fun cell => { cell with mailbox := cell.mailbox ++ [task] } := by
      funext cell
      simp [deliver, hg]
    rw [post, if_neg hg, hdeliver, postedActs, if_neg hg]
    simp [mail, modifyCell]

theorem post_mail {s : Lobby F} (hg : s.gameThreads ≠ 0) (roomId : ℕ) (task : RoomTask F) :
    s.post roomId task = s.mail roomId task := by
  simp [post, hg]

end Lobby

end GameServer.Game
