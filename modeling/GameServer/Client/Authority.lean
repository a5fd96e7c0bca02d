import GameServer.Client.Agreement
import GameServer.Game.Online

/-!
Who acts for a player.

The lobby takes the sender of a message for the player that `connToPlayer_`
has for the connection. `Vetted` runs the lobby and writes down beside it
who has proved on which connection to be whom: by a login, which makes a new
player, or by a reconnect, which names a player and has to show its token.
Whenever a message makes the lobby act for a player, the credentials of the
connection are recorded with it, as they are at that moment.

An input takes one more hop, through the mailbox of the room. The calls that
a room executes are a prefix of those that were ordered, and whatever input a
room holds for a player was put there by one of them.
-/

namespace GameServer.Client

open GameServer.Lib GameServer.Proto GameServer.Timer GameServer.Game
open Lobby

variable {F : Type}

/-! ### Credentials -/

/-- What is known about a connection when it acts for a player. -/
structure Credentials where
  conn : Conn
  /-- The player of the last login or reconnect that succeeded there, if the
  connection has not ended since. -/
  authenticated : Option ℕ
  /-- The connection of the player's session. -/
  holder : Option Conn

def Credentials.Prove (c : Credentials) (p : ℕ) : Prop :=
  c.authenticated = some p ∧ c.holder = some c.conn

/-- `applyInput` is to be called in a room. -/
structure Call (F : Type) where
  roomId : ℕ
  playerId : ℕ
  input : PlayerInput F
deriving DecidableEq

/-- A call and the credentials with which it was ordered. -/
structure Order (F : Type) where
  call : Call F
  credentials : Credentials

structure Vetted (F : Type) where
  lobby : Lobby F
  authenticated : UnorderedMap Conn ℕ := ∅
  /-- The token that the login of each player made. -/
  issued : UnorderedMap ℕ String := ∅
  /-- The credentials with which a player last entered the queue. -/
  asked : UnorderedMap ℕ Credentials := ∅
  orders : List (Order F) := []
  /-- The calls that rooms have come to. A room whose battle is over ignores
  them. -/
  executed : List (Call F) := []

/-- The call that `onInput` posts to a room. -/
def inputCall (s : Lobby F) (conn : Conn) (input : PlayerInput F) : Option (Call F) :=
  (s.sessionOf conn).bind fun p =>
    if p.state = .kInRoom && p.roomId ∈ s.rooms then some ⟨p.roomId, p.playerId, input⟩ else none

def taskCall (r : ℕ) : RoomTask F → Option (Call F)
  | .onInput p input => some ⟨r, p, input⟩
  | _ => none

/-- The call that a room executes in an event: it comes from the mailbox, or
at once if the room shares the loop of the lobby. -/
def executes (s : Lobby F) : LobbyEvent F → Option (Call F)
  | .input conn input => if s.gameThreads = 0 then inputCall s conn input else none
  | .roomTask r =>
      if s.gameThreads = 0 ∧ s.firing ≠ [] then none
      else (s.cells.lookup r).bind fun cell => cell.mailbox.head?.bind (taskCall r)
  | _ => none

namespace Vetted

/-- The lobby is free to handle the event. -/
def handles (s : Vetted F) (e : LobbyEvent F) : Bool := !e.waits || s.lobby.firing.isEmpty

def credentials (s : Vetted F) (conn : Conn) (p : ℕ) : Credentials :=
  { conn := conn
    authenticated := s.authenticated.lookup conn
    holder := (s.lobby.sessions.lookup p).bind Session.conn }

def authenticate (s : Vetted F) : LobbyEvent F → UnorderedMap Conn ℕ
  | .login conn _ _ _ _ => s.authenticated.insert conn s.lobby.nextPlayerId
  | .reconnect conn pid token _ =>
      if s.lobby.accepts pid token then s.authenticated.insert conn pid else s.authenticated
  | .disconnect conn => s.authenticated.erase conn
  | _ => s.authenticated

def issue (s : Vetted F) : LobbyEvent F → UnorderedMap ℕ String
  | .login _ _ token _ _ => s.issued.insert s.lobby.nextPlayerId token
  | _ => s.issued

def ask (s : Vetted F) : LobbyEvent F → UnorderedMap ℕ Credentials
  | .matchReq conn _ =>
      match s.lobby.sessionOf conn with
      | none => s.asked
      | some p =>
          if p.state = .kLobby then s.asked.insert p.playerId (s.credentials conn p.playerId)
          else s.asked
  | _ => s.asked

def order (s : Vetted F) : LobbyEvent F → List (Order F)
  | .input conn input =>
      (inputCall s.lobby conn input).toList.map fun call =>
        ⟨call, s.credentials conn call.playerId⟩
  | _ => []

variable [Scalar F]

def step (s : Vetted F) (e : LobbyEvent F) : Vetted F :=
  if s.handles e then
    { lobby := s.lobby.step e
      authenticated := s.authenticate e
      issued := s.issue e
      asked := s.ask e
      orders := s.orders ++ s.order e
      executed := s.executed ++ (executes s.lobby e).toList }
  else s

def init (gameThreads : ℕ) (writer : Bool) : Vetted F := { lobby := Lobby.init gameThreads writer }

def run (gameThreads : ℕ) (writer : Bool) (es : List (LobbyEvent F)) : Vetted F :=
  es.foldl step (init gameThreads writer)

end Vetted

/-! ### What rooms hold and what waits for them -/

/-- The input that the room holds for a player, once there is one. -/
def heldInput (r : Room F) (p : ℕ) : Option (PlayerInput F) :=
  (r.sim.players.lookup p).bind fun q => if q.hasInput then some q.input else none

theorem heldInput_congr {r r' : Room F} (h : r'.sim = r.sim) : heldInput r' = heldInput r := by
  unfold heldInput
  rw [h]

theorem heldInput_onInput {r : Room F} {p : ℕ} {input : PlayerInput F} {q : ℕ} {i : PlayerInput F}
    (h : heldInput (r.onInput p input) q = some i) :
    heldInput r q = some i ∨ q = p ∧ i = input := by
  unfold Room.onInput at h
  split at h
  · exact .inl h
  · simp only [heldInput, BattleSim.applyInput, UnorderedMap.lookup_modify] at h
    split at h
    · next hq =>
        obtain ⟨x, hx, hi⟩ := Option.bind_eq_some_iff.mp h
        obtain ⟨y, -, rfl⟩ := Option.map_eq_some_iff.mp hx
        exact .inr ⟨hq, (Option.some.inj hi).symm⟩
    · exact .inl h

section

variable [Scalar F]

/-- The other tasks leave the simulation alone. -/
theorem heldInput_exec (r : Room F) {task : RoomTask F} (h : ∀ n, taskCall n task = none) :
    heldInput (r.exec task).1 = heldInput r := by
  cases task with
  | onInput p input => cases h 0
  | rebind q conn => exact heldInput_congr (Room.rebind_sim r q conn).1
  | forceEnd w =>
      simp only [Room.exec, Room.forceEnd]
      split <;> rfl
  | start | dropConn | stop | resetTicker => rfl

theorem heldInput_simulate (r : Room F) (ks : List ℕ) :
    heldInput (r.simulate ks).1 = heldInput r := by
  funext p
  have hmap := BattleSim.map_step
    (f := fun q : BattleSim.P F => if q.hasInput then some q.input else none)
    (fun _ _ => rfl) (fun _ _ => rfl) ks Room.kTickMs r.sim p
  have hmove : ∀ dt (q : BattleSim.P F), (BattleSim.movePlayer dt q).1.hasInput = q.hasInput ∧
      (BattleSim.movePlayer dt q).1.input = q.input := by
    intro dt q
    rcases BattleSim.movePlayer_cases dt q with h | ⟨mx, my, h⟩
    · rw [h]
      exact ⟨rfl, rfl⟩
    · rw [h]
      simp only [BattleSim.moveBy]
      split <;> exact ⟨rfl, rfl⟩
  simp only [hmove] at hmap
  have hjoin := congrArg Option.join hmap
  simp only [← Option.bind_id_eq_join, Option.bind_map] at hjoin
  exact hjoin

theorem heldInput_onTick (r : Room F) (ks : List ℕ) : heldInput (r.onTick ks).1 = heldInput r := by
  have hsim := heldInput_simulate r ks
  unfold Room.onTick
  split
  · rfl
  · dsimp only
    split <;> exact hsim

theorem heldInput_new (ks : List ℕ) (id : ℕ) (players : List (ℕ × Option Conn)) (p : ℕ) :
    heldInput (Room.new ks id players : Room F) p = none := by
  refine Room.invariant_new (I := fun s => (s.players.lookup p).bind (fun q =>
    if q.hasInput then some q.input else none) = none) rfl (fun s id x _ h => ?_) id players
  simp only [BattleSim.addPlayer, UnorderedMap.lookup_reorder, UnorderedMap.lookup_insert_eq]
  split
  · rfl
  · exact h

end

/-! ### The view of the lobby -/

/-- Who waits in the queue, which calls wait for each room and which inputs
the rooms hold. -/
@[ext] structure Desk (F : Type) where
  waiting : Finset ℕ
  calls : ℕ → List (Call F)
  held : ℕ → ℕ → Option (PlayerInput F)

def desk (s : Lobby F) : Desk F :=
  { waiting := s.matchQueue.waiting
    calls := fun r => (s.cells.lookup r).elim [] fun cell => cell.mailbox.filterMap (taskCall r)
    held := fun r p => (s.cells.lookup r).bind fun cell => heldInput cell.room p }

/-- The rule for a change of one room. -/
theorem desk_modifyCell {s : Lobby F} {r : ℕ} {f : RoomCell F → RoomCell F}
    (hcalls : ∀ cell, s.cells.lookup r = some cell →
      (f cell).mailbox.filterMap (taskCall r) = cell.mailbox.filterMap (taskCall r))
    (hheld : ∀ cell, heldInput (f cell).room = heldInput cell.room) :
    desk (s.modifyCell r f) = desk s := by
  refine Desk.ext rfl (funext fun r' => ?_) (funext fun r' => funext fun p => ?_)
  · simp only [desk, modifyCell, UnorderedMap.lookup_modify]
    split
    · next hr =>
        subst hr
        cases hcell : s.cells.lookup r' with
        | none => rfl
        | some cell => exact hcalls cell hcell
    · rfl
  · simp only [desk, modifyCell, UnorderedMap.lookup_modify]
    split
    · next hr =>
        subst hr
        cases s.cells.lookup r' with
        | none => rfl
        | some cell => exact congrFun (hheld cell) p
    · rfl

theorem desk_mail {r : ℕ} {task : RoomTask F} (h : taskCall r task = none) (s : Lobby F) :
    desk (s.mail r task) = desk s :=
  desk_modifyCell (f := fun cell => { cell with mailbox := cell.mailbox ++ [task] })
    (fun cell _ => by simp [h]) fun _ => rfl

theorem seesRooms_desk : SeesRooms (desk : Lobby F → Desk F) where
  congr _ hcells _ hqueue _ := by
    unfold desk
    rw [hcells, hqueue]
  reset _ s := desk_mail rfl s

section Handlers

variable [Scalar F]

theorem desk_post {r : ℕ} {task : RoomTask F} (h : ∀ n, taskCall n task = none) (s : Lobby F) :
    desk (s.post r task) = desk s :=
  seesRooms_desk.overlooks.post
    (fun _ => desk_modifyCell (fun _ _ => rfl) fun cell => heldInput_exec cell.room h)
    (desk_mail (h r)) s

theorem desk_postToRoom (p : Session) {task : RoomTask F} (h : ∀ n, taskCall n task = none)
    (s : Lobby F) : desk (s.postToRoom p task) = desk s :=
  seesRooms_desk.overlooks.postToRoom p
    (fun _ => desk_modifyCell (fun _ _ => rfl) fun cell => heldInput_exec cell.room h)
    (desk_mail (h p.roomId)) s

/-! ### Handlers -/

/-- A player who loses its connection leaves the queue. -/
theorem desk_onDisconnect {s : Lobby F} (hbase : Base s) (conn : Conn) :
    (s.connToPlayer.lookup conn = none ∧ desk (s.onDisconnect conn) = desk s) ∨
    ∃ pid, s.connToPlayer.lookup conn = some pid ∧
      desk (s.onDisconnect conn) = { desk s with waiting := (desk s).waiting.erase pid } := by
  cases hpid : s.connToPlayer.lookup conn with
  | none => exact .inl ⟨rfl, by simp [onDisconnect, hpid]⟩
  | some pid =>
      right
      refine ⟨pid, rfl, ?_⟩
      obtain ⟨p, hp, -⟩ := hbase.tables.bound hpid
      have hp : s.sessions.lookup pid = some p := hp
      have hunbind : desk (s.unbindSession conn pid p) =
          { desk s with waiting := (desk s).waiting.erase pid } := by
        unfold unbindSession
        split
        · rfl
        · next hstate =>
            have hnot : pid ∉ s.matchQueue.waiting :=
              fun hmem => hstate ((hbase.tables.session hp).queue.mpr hmem)
            exact Desk.ext (Finset.erase_eq_of_notMem hnot).symm rfl rfl
      have heq : s.onDisconnect conn = (((s.unbindSession conn pid p).postToRoom p
          (.dropConn pid)).scheduleExpiry pid).enqueue (.delOnline p.account) := by
        simp [onDisconnect, hpid, hp]
      rw [heq, seesRooms_desk.enqueue]
      show desk ((s.unbindSession conn pid p).postToRoom p (.dropConn pid)) = _
      rw [desk_postToRoom p fun _ => rfl, hunbind]

omit [Scalar F] in
theorem desk_matchTimeout (pid : ℕ) (s : Lobby F) :
    desk (s.matchTimeout pid) = desk s ∨
      desk (s.matchTimeout pid) = { desk s with waiting := (desk s).waiting.erase pid } := by
  unfold matchTimeout
  dsimp only
  split
  · right
    split <;> rfl
  · exact .inl rfl

theorem desk_fireNext (now : ℕ) (s : Lobby F) :
    desk (s.fireNext now) = desk s ∨
      ∃ pid, desk (s.fireNext now) = { desk s with waiting := (desk s).waiting.erase pid } := by
  rcases fireNext_cases s now with heq | ⟨n, rest, -, -, heq⟩ | ⟨n, rest, node, w, -, -, -, heq⟩
  · rw [heq]
    exact .inl rfl
  · rw [heq]
    exact .inl rfl
  · rw [heq]
    cases hcb : node.cb with
    | matchTimeout pid =>
        exact (desk_matchTimeout pid { s with firing := rest, wheel := w }).imp_right
          fun h => ⟨pid, h⟩
    | expireSession pid =>
        exact .inl (seesRooms_desk.expireSession pid (fun p _ => desk_postToRoom p fun _ => rfl) _)
    | sweep => exact .inl rfl

/-! ### Calls on their way -/

/-- Between two states players have joined the queue and calls have been
ordered and executed. What waited and was ordered was executed or waits now,
in this order, and an input that a room holds now it held before or was given. -/
structure Relays (s s' : Lobby F) (joined : Finset ℕ) (ordered executed : List (Call F)) :
    Prop where
  waiting : (desk s').waiting ⊆ joined ∪ (desk s).waiting
  calls : ∀ r, executed.filter (·.roomId = r) ++ (desk s').calls r =
    (desk s).calls r ++ ordered.filter (·.roomId = r)
  held : ∀ {r p i}, (desk s').held r p = some i → (desk s).held r p = some i ∨
    ⟨r, p, i⟩ ∈ executed

omit [Scalar F] in
theorem relays_of_eq {s s' : Lobby F} {joined : Finset ℕ}
    (hwaiting : (desk s').waiting ⊆ joined ∪ (desk s).waiting)
    (hcalls : (desk s').calls = (desk s).calls) (hheld : (desk s').held = (desk s).held) :
    Relays s s' joined [] [] := by
  refine ⟨hwaiting, fun r => ?_, fun h => .inl (hheld ▸ h)⟩
  rw [hcalls, List.filter_nil, List.nil_append, List.append_nil]

omit [Scalar F] in
/-- The rule for what does not concern the desk, apart from somebody who
leaves the queue. -/
theorem relays_of_desk {s s' : Lobby F} (h : desk s' = desk s ∨
    ∃ pid, desk s' = { desk s with waiting := (desk s).waiting.erase pid }) :
    Relays s s' ∅ [] [] := by
  rcases h with h | ⟨pid, h⟩
  · exact relays_of_eq (by rw [h, Finset.empty_union]) (by rw [h]) (by rw [h])
  · refine relays_of_eq ?_ (by rw [h]) (by rw [h])
    rw [h, Finset.empty_union]
    exact Finset.erase_subset ..

omit [Scalar F] in
/-- On the loop of the lobby nothing but ticker resets waits for a room. -/
theorem calls_inline {s : Lobby F} (hbase : Base s) (hinline : s.gameThreads = 0) (r : ℕ) :
    (desk s).calls r = [] := by
  cases hcell : s.cells.lookup r with
  | none => simp [desk, hcell]
  | some cell =>
      simp only [desk, hcell, Option.elim_some]
      rw [List.filterMap_eq_nil_iff]
      intro task htask
      rw [(hbase.cell hcell).idle hinline task htask]
      rfl

omit [Scalar F] in
/-- A room executes a call. -/
theorem relays_exec {s : Lobby F} {r p : ℕ} {input : PlayerInput F} {f : RoomCell F → RoomCell F}
    {ordered : List (Call F)} {cell : RoomCell F} (hcell : s.cells.lookup r = some cell)
    (hroom : (f cell).room = cell.room.onInput p input)
    (hcalls : (⟨r, p, input⟩ : Call F) :: (f cell).mailbox.filterMap (taskCall r) =
      cell.mailbox.filterMap (taskCall r) ++ ordered)
    (hordered : ∀ call ∈ ordered, call.roomId = r) :
    Relays s (s.modifyCell r f) ∅ ordered [⟨r, p, input⟩] := by
  refine ⟨Finset.subset_union_right, ?_, ?_⟩
  · intro r'
    by_cases hr : r' = r
    · subst hr
      simp only [desk, modifyCell, UnorderedMap.lookup_modify, if_true, hcell, Option.map_some,
        Option.elim_some, decide_true, List.filter_cons_of_pos, List.filter_nil,
        List.singleton_append]
      rw [hcalls, List.filter_eq_self.mpr fun call h => decide_eq_true (hordered call h)]
    · have hnone : ordered.filter (·.roomId = r') = [] := by
        rw [List.filter_eq_nil_iff]
        intro call h
        rw [hordered call h]
        simpa using Ne.symm hr
      rw [hnone, List.append_nil]
      simp [desk, modifyCell, hr, Ne.symm hr]
  · intro r' p' i hi
    simp only [desk, modifyCell, UnorderedMap.lookup_modify] at hi ⊢
    split at hi
    · next hr =>
        subst hr
        rw [hcell, Option.map_some, Option.bind_some, hroom] at hi
        rcases heldInput_onInput hi with hi | ⟨rfl, rfl⟩
        · left
          rw [hcell]
          exact hi
        · exact .inr (List.mem_singleton_self _)
    · exact .inl hi

omit [Scalar F] in
/-- A call is put into the mailbox of a room. -/
theorem relays_mail {s : Lobby F} {r : ℕ} {cell : RoomCell F} (hcell : s.cells.lookup r = some cell)
    (p : ℕ) (input : PlayerInput F) :
    Relays s (s.mail r (.onInput p input)) ∅ [⟨r, p, input⟩] [] := by
  refine ⟨Finset.subset_union_right, ?_, ?_⟩
  · intro r'
    by_cases hr : r' = r
    · subst hr
      simp [desk, mail, modifyCell, hcell, taskCall]
    · simp [desk, mail, modifyCell, hr, Ne.symm hr]
  · intro r' q i hi
    left
    simp only [desk, mail, modifyCell, UnorderedMap.lookup_modify] at hi ⊢
    split at hi
    · next hr =>
        subst hr
        rw [hcell] at hi ⊢
        exact hi
    · exact hi

theorem relays_onInput {s : Lobby F} (hbase : Base s) (conn : Conn) (input : PlayerInput F) :
    Relays s (s.onInput conn input) ∅ (inputCall s conn input).toList
      (executes s (.input conn input)).toList := by
  cases hp : s.sessionOf conn with
  | none =>
      simp only [onInput, executes, inputCall, hp, Option.bind_none, ite_self]
      exact relays_of_desk (.inl rfl)
  | some p =>
      by_cases hin : (p.state = .kInRoom && p.roomId ∈ s.rooms) = true
      · have hcall : inputCall s conn input = some ⟨p.roomId, p.playerId, input⟩ := by
          simp only [inputCall, hp, Option.bind_some, if_pos hin]
        have hmem : p.roomId ∈ s.rooms := by
          simp only [Bool.and_eq_true, decide_eq_true_eq] at hin
          exact hin.2
        obtain ⟨cell, hcell⟩ := Option.isSome_iff_exists.mp (hbase.live hmem)
        have heq : s.onInput conn input = s.post p.roomId (.onInput p.playerId input) := by
          simp only [onInput, hp, postToRoom, hin, if_true]
        rw [heq, executes, hcall]
        by_cases hg : s.gameThreads = 0
        · have hpost : s.post p.roomId (.onInput p.playerId input) =
              s.modifyCell p.roomId fun cell =>
                { cell with room := cell.room.onInput p.playerId input } := by
            simp [post, hg, runRoom, hcell, Room.exec]
          have hidle := calls_inline hbase hg p.roomId
          simp only [desk, hcell, Option.elim_some] at hidle
          rw [hpost, if_pos hg]
          refine relays_exec hcell rfl ?_ (by simp)
          rw [hidle]
          rfl
        · have hpost : s.post p.roomId (.onInput p.playerId input) =
              s.mail p.roomId (.onInput p.playerId input) := by
            simp [post, hg]
          rw [hpost, if_neg hg]
          exact relays_mail hcell p.playerId input
      · have hcall : inputCall s conn input = none := by
          simp only [inputCall, hp, Option.bind_some, if_neg hin]
        have heq : s.onInput conn input = s := by
          simp only [onInput, hp, postToRoom, if_neg hin]
        rw [heq, executes, hcall, ite_self]
        exact relays_of_desk (.inl rfl)

theorem relays_roomTask {s : Lobby F} (r : ℕ) (hfree : ¬(s.gameThreads = 0 ∧ s.firing ≠ [])) :
    Relays s (s.roomTask r) ∅ [] (executes s (.roomTask r)).toList := by
  unfold roomTask
  simp only [executes, if_neg hfree]
  split
  · next hcell =>
      rw [hcell]
      exact relays_of_desk (.inl rfl)
  · next cell hcell =>
      rw [hcell, Option.bind_some]
      split
      · next hmail =>
          rw [hmail]
          exact relays_of_desk (.inl rfl)
      · next task rest hmail =>
          rw [hmail, List.head?_cons, Option.bind_some]
          cases hcall : taskCall r task with
          | some call =>
              obtain ⟨p, input, rfl⟩ : ∃ p input, task = .onInput p input := by
                cases task with
                | onInput p input => exact ⟨p, input, rfl⟩
                | start | rebind | dropConn | forceEnd | stop | resetTicker => cases hcall
              obtain rfl := Option.some.inj hcall
              have hrun : (s.modifyCell r fun cell => { cell with mailbox := rest }).runRoom r
                  (·.exec (.onInput p input)) = s.modifyCell r fun cell =>
                    { cell with mailbox := rest, room := cell.room.onInput p input } := by
                simp [runRoom, modifyCell, hcell, Room.exec, UnorderedMap.modify_modify]
              rw [hrun]
              refine relays_exec hcell rfl ?_ (by simp)
              rw [hmail, List.append_nil]
              rfl
          | none =>
              have hnone : ∀ n, taskCall n task = none := by
                intro n
                cases task with
                | onInput p input => cases hcall
                | start | rebind | dropConn | forceEnd | stop | resetTicker => rfl
              refine relays_of_desk (.inl ?_)
              rw [seesRooms_desk.overlooks.runRoom fun _ => desk_modifyCell (fun _ _ => rfl) fun cell =>
                heldInput_exec cell.room hnone]
              refine desk_modifyCell (fun cell' hcell' => ?_) fun _ => rfl
              obtain rfl := Option.some.inj (hcell.symm.trans hcell')
              simp [hmail, hcall]

/-! ### The queue -/

/-- The player whom a match request puts into the queue. -/
def joins (s : Lobby F) (conn : Conn) : Finset ℕ :=
  match s.sessionOf conn with
  | none => ∅
  | some p => if p.state = .kLobby then {p.playerId} else ∅

theorem onMatch_self {s : Lobby F} (ks : List ℕ) {conn : Conn}
    (h : ∀ p, s.sessionOf conn = some p → p.state ≠ .kLobby) : s.onMatch ks conn = s := by
  cases hp : s.sessionOf conn with
  | none => simp only [onMatch, hp]
  | some p => simp [onMatch, hp, h p hp]

/-- The match request takes a player and the sender into the new room. -/
def Paired (s : Lobby F) (ks : List ℕ) (conn : Conn) (p : ℕ) : Prop :=
  ∃ x, s.sessionOf conn = some x ∧ x.playerId ≠ p ∧
    ∀ q ∈ [x.playerId, p], ∃ y, (s.onMatch ks conn).sessions.lookup q = some y ∧
      y.state = .kInRoom ∧ y.roomId = s.nextRoomId

/-- Whose session `onMatch` can change, and who waits after it: the player of
the connection, and those who waited before. -/
theorem affected_onMatch {s : Lobby F} (hbase : Base s) (ks : List ℕ) {conn : Conn} {p : Session}
    (hp : s.sessionOf conn = some p) (hstate : p.state = .kLobby) :
    (∀ q, (s.onMatch ks conn).sessions.lookup q ≠ s.sessions.lookup q →
      q = p.playerId ∨ q ∈ s.matchQueue.waiting ∧ Paired s ks conn q) ∧
    (s.onMatch ks conn).matchQueue.waiting ⊆ insert p.playerId s.matchQueue.waiting := by
  obtain ⟨-, hsess, hconn⟩ := sessionOf_some hbase.tables hp
  have hconn : p.conn.isSome := by simp [hconn]
  obtain ⟨-, hpush, -⟩ := hbase.joinQueue hsess hconn hstate
  have hjoin : ∀ q, q ≠ p.playerId →
      (s.joinQueue p.playerId).sessions.lookup q = s.sessions.lookup q := by
    intro q hq
    simp [joinQueue, hq]
  rcases onMatch_eq hbase ks hp hstate with
    ⟨-, heq⟩ | ⟨a, b, pa, pb, q, hne, hwait, hpa, hpb, hq, heq⟩
  · rw [heq]
    refine ⟨fun q hdiff => .inl ?_, hpush.subset⟩
    by_contra hqp
    exact hdiff (hjoin q hqp)
  · have hpair : Move (fun _ => True) s _ := .pair ks hsess hconn hstate hne hwait hpa hpb hq
    have hcore : (((s.joinQueue p.playerId).pairUp ks a b pa pb q).post s.nextRoomId
        .start).core = ((s.joinQueue p.playerId).pairUp ks a b pa pb q).core :=
      (hbase.move hpair).core_post (by rw [cells_joined, if_pos rfl]; rfl) (by simp) (by simp)
    have hsessions := congrArg Core.sessions hcore
    have hqueue := congrArg Core.matchQueue hcore
    have hlook : ∀ q', (s.onMatch ks conn).sessions.lookup q' =
        ((s.joinQueue p.playerId).sessions.lookup q').map fun x =>
          if q' = a ∨ q' = b then { x with state := .kInRoom, roomId := s.nextRoomId } else x := by
      intro q'
      rw [heq]
      exact (congrArg (AList.lookup q') hsessions).trans
        (lookup_pairUp ks a b pa pb q (s.joinQueue p.playerId) q')
    have hroom : ∀ q' ∈ insert p.playerId s.matchQueue.waiting, ∃ y,
        (s.onMatch ks conn).sessions.lookup q' = some y ∧ y.state = .kInRoom ∧
          y.roomId = s.nextRoomId := by
      intro q' hmem
      rw [hwait, Finset.mem_insert, Finset.mem_singleton] at hmem
      obtain ⟨y, hy⟩ : ∃ y, (s.joinQueue p.playerId).sessions.lookup q' = some y := by
        rcases hmem with rfl | rfl
        · exact ⟨pa, hpa⟩
        · exact ⟨pb, hpb⟩
      rw [hlook, hy, Option.map_some, if_pos hmem]
      exact ⟨_, rfl, rfl, rfl⟩
    refine ⟨fun q' hdiff => ?_, ?_⟩
    · by_cases hq' : q' = p.playerId
      · exact .inl hq'
      · have hmem : q' ∈ s.matchQueue.waiting := by
          by_contra hout
          have hnot : ¬(q' = a ∨ q' = b) := by
            have hout' : q' ∉ insert p.playerId s.matchQueue.waiting := fun hmem =>
              (Finset.mem_insert.mp hmem).elim hq' hout
            simpa [hwait] using hout'
          refine hdiff ((hlook q').trans ?_)
          simp [hjoin q' hq', hnot]
        refine .inr ⟨hmem, p, hp, Ne.symm hq', fun q'' hq'' => hroom q'' ?_⟩
        rcases List.mem_cons.mp hq'' with rfl | hq''
        · exact Finset.mem_insert_self ..
        · rw [List.mem_singleton.mp hq'']
          exact Finset.mem_insert_of_mem hmem
    · rw [heq]
      have hempty : ((s.joinQueue p.playerId).pairUp ks a b pa pb q).matchQueue = q := by
        obtain ⟨wheel, timers, heq⟩ := pairUp_eq ks a b pa pb q (s.joinQueue p.playerId)
        rw [heq]
        rfl
      have hnone : (((s.joinQueue p.playerId).pairUp ks a b pa pb q).post s.nextRoomId
          .start).matchQueue.waiting = ∅ :=
        (congrArg MatchQueue.waiting (hqueue.trans hempty)).trans hq
      rw [hnone]
      exact Finset.empty_subset _

/-- A new room holds no input, and nothing waits for it. -/
theorem desk_pairUp {s : Lobby F} (hbase : Base s) (pid : ℕ) (ks : List ℕ) (a b : ℕ)
    (pa pb : Session) (q : MatchQueue) :
    (desk ((s.joinQueue pid).pairUp ks a b pa pb q)).calls = (desk s).calls ∧
      (desk ((s.joinQueue pid).pairUp ks a b pa pb q)).held = (desk s).held := by
  have hfresh : s.cells.lookup s.nextRoomId = none := by
    rw [Option.eq_none_iff_forall_ne_some]
    intro cell hcell
    exact absurd (hbase.cell hcell).lt (Nat.lt_irrefl _)
  refine ⟨funext fun r => ?_, funext fun r => funext fun p => ?_⟩
  · simp only [desk, cells_joined]
    split
    · next hr =>
        rw [hr, hfresh]
        rfl
    · rfl
  · simp only [desk, cells_joined]
    split
    · next hr => rw [hr, hfresh, Option.bind_some, heldInput_new, Option.bind_none]
    · rfl

theorem relays_onMatch {s : Lobby F} (hbase : Base s) (ks : List ℕ) (conn : Conn) :
    Relays s (s.onMatch ks conn) (joins s conn) [] [] := by
  by_cases h : ∃ p, s.sessionOf conn = some p ∧ p.state = .kLobby
  · obtain ⟨p, hp, hstate⟩ := h
    have hjoins : joins s conn = {p.playerId} := by simp [joins, hp, hstate]
    have hwaiting := (affected_onMatch hbase ks hp hstate).2
    rw [Finset.insert_eq, ← hjoins] at hwaiting
    rcases onMatch_eq hbase ks hp hstate with
      ⟨-, heq⟩ | ⟨a, b, pa, pb, q, -, -, -, -, -, heq⟩
    · refine relays_of_eq hwaiting ?_ ?_
      · rw [heq]
        rfl
      · rw [heq]
        rfl
    · have hstart : desk (s.onMatch ks conn) =
          desk ((s.joinQueue p.playerId).pairUp ks a b pa pb q) := by
        rw [heq]
        exact desk_post (fun _ => rfl) _
      obtain ⟨hcalls, hheld⟩ := desk_pairUp hbase p.playerId ks a b pa pb q
      exact relays_of_eq hwaiting (hstart ▸ hcalls) (hstart ▸ hheld)
  · rw [onMatch_self ks fun p hp hstate => h ⟨p, hp, hstate⟩]
    exact relays_of_eq Finset.subset_union_right rfl rfl

/-! ### The invariant -/

/-- What an event orders. -/
def ordered (s : Lobby F) : LobbyEvent F → List (Call F)
  | .input conn input => (inputCall s conn input).toList
  | _ => []

theorem relays_step {s : Lobby F} (hbase : Base s) (e : LobbyEvent F)
    (hfree : e.waits = true → s.firing = []) :
    Relays s (s.step e) (match e with | .matchReq conn _ => joins s conn | _ => ∅) (ordered s e)
      (executes s e).toList := by
  have hquiet : (desk (s.handle e) = desk s ∨
      ∃ pid, desk (s.handle e) = { desk s with waiting := (desk s).waiting.erase pid }) →
      Relays s (s.step e) ∅ [] [] := by
    intro hdesk
    rcases step_cases s e with hself | ⟨-, hstep⟩
    · rw [hself]
      exact relays_of_desk (.inl rfl)
    · rw [hstep]
      exact relays_of_desk hdesk
  cases e with
  | input conn input =>
      rw [step_of_waits rfl (hfree rfl)]
      exact relays_onInput hbase conn input
  | roomTask r =>
      by_cases hblocked : s.gameThreads = 0 ∧ s.firing ≠ []
      · simp only [Lobby.step, executes, if_pos hblocked]
        exact relays_of_desk (.inl rfl)
      · have hstep : s.step (.roomTask r) = s.roomTask r := by
          simp only [Lobby.step, if_neg hblocked]
        rw [hstep]
        exact relays_roomTask r hblocked
  | matchReq conn ks =>
      rw [step_of_waits rfl (hfree rfl)]
      exact relays_onMatch hbase ks conn
  | disconnect conn =>
      exact hquiet ((desk_onDisconnect hbase conn).imp And.right (Exists.imp fun _ h => h.2))
  | fireNext now => exact hquiet (desk_fireNext now s)
  | login conn account token now ks =>
      exact hquiet (.inl (seesRooms_desk.onLogin conn account token now ks s))
  | reconnect conn pid token now =>
      exact hquiet (.inl (seesRooms_desk.onReconnect conn pid token now
        (fun p => desk_postToRoom p fun _ => rfl) s))
  | heartbeat conn clientMs now =>
      exact hquiet (.inl (seesRooms_desk.onHeartbeat conn clientMs now s))
  | leaderboard conn topN => exact hquiet (.inl (seesRooms_desk.onLeaderboard conn topN s))
  | roomEnd => exact hquiet (.inl (seesRooms_desk.overlooks.handleRoomEnd s))
  | wheelTick => exact hquiet (.inl rfl)
  | roomTick r ks =>
      exact hquiet (.inl (seesRooms_desk.overlooks.roomTick r (fun _ =>
        desk_modifyCell (fun _ _ => rfl) fun cell => heldInput_onTick cell.room ks) s))
  | storeTask top => exact hquiet (.inl (seesRooms_desk.storeTask top s))

end Handlers

/-- The credentials on record agree with the tables of the lobby. Who waits
has asked for it, and still has the same connection. -/
structure Vouched (r : Roll) (waiting : Finset ℕ) (authenticated : UnorderedMap Conn ℕ)
    (issued : UnorderedMap ℕ String) (asked : UnorderedMap ℕ Credentials) : Prop where
  authenticated : ∀ c, authenticated.lookup c = r.bound.lookup c
  issued : ∀ {p account token}, r.identity p = some (account, token) →
    issued.lookup p = some token
  asked : ∀ p ∈ waiting, ∃ c, asked.lookup p = some c ∧ c.Prove p ∧
    ∃ account, r.owner p = some (c.conn, account)

section Vouched

variable {r r' : Roll} {waiting waiting' : Finset ℕ} {authenticated : UnorderedMap Conn ℕ}
  {issued : UnorderedMap ℕ String} {asked : UnorderedMap ℕ Credentials}
  (h : Vouched r waiting authenticated issued asked)

include h

theorem Vouched.keep (hbound : r'.bound = r.bound)
    (hidentity : ∀ {p x}, r'.identity p = some x → r.identity p = some x)
    (howner : r'.owner = r.owner) (hwaiting : waiting' ⊆ waiting) :
    Vouched r' waiting' authenticated issued asked := by
  refine ⟨fun c => hbound ▸ h.authenticated c, fun hp => h.issued (hidentity hp), fun p hp => ?_⟩
  rw [howner]
  exact h.asked p (hwaiting hp)

/-- A player without a connection proves to be itself on one: a new player
by its login, or an old one by its token. -/
theorem Vouched.attach {c : Conn} {p : ℕ} {account : String}
    {issued' : UnorderedMap ℕ String} (hnone : r.owner p = none)
    (hbound : r'.bound = r.bound.insert c p)
    (hissued : ∀ {q account token}, r'.identity q = some (account, token) →
      issued'.lookup q = some token)
    (howner : r'.owner = Function.update r.owner p (some (c, account)))
    (hwaiting : waiting' ⊆ waiting) :
    Vouched r' waiting' (authenticated.insert c p) issued' asked := by
  refine ⟨fun c' => ?_, hissued, fun q hq => ?_⟩
  · rw [hbound, UnorderedMap.lookup_insert_eq, UnorderedMap.lookup_insert_eq, h.authenticated]
  · obtain ⟨cred, hasked, hprove, account', hcred⟩ := h.asked q (hwaiting hq)
    have hne : q ≠ p := by
      rintro rfl
      rw [hnone] at hcred
      cases hcred
    exact ⟨cred, hasked, hprove, account', by rw [howner, Function.update_of_ne hne, hcred]⟩

theorem Vouched.detach {c : Conn} {p : ℕ} (hbound : r'.bound = r.bound.erase c)
    (hidentity : r'.identity = r.identity) (howner : r'.owner = Function.update r.owner p none)
    (hwaiting : waiting' ⊆ waiting.erase p) :
    Vouched r' waiting' (authenticated.erase c) issued asked := by
  refine ⟨fun c' => ?_, fun hp => h.issued (hidentity ▸ hp), fun q hq => ?_⟩
  · rw [hbound, UnorderedMap.lookup_erase_eq, UnorderedMap.lookup_erase_eq, h.authenticated]
  · obtain ⟨hne, hmem⟩ := Finset.mem_erase.mp (hwaiting hq)
    obtain ⟨cred, hasked, hprove, account, hcred⟩ := h.asked q hmem
    exact ⟨cred, hasked, hprove, account, by rw [howner, Function.update_of_ne hne, hcred]⟩

/-- A player with good credentials enters the queue. -/
theorem Vouched.join {p : ℕ} {c : Credentials} {account : String} (hprove : c.Prove p)
    (howner : r.owner p = some (c.conn, account)) (hwaiting : waiting' ⊆ insert p waiting) :
    Vouched r waiting' authenticated issued (asked.insert p c) := by
  refine ⟨h.authenticated, h.issued, fun q hq => ?_⟩
  rw [UnorderedMap.lookup_insert_eq]
  split
  · next hqp =>
      subst hqp
      exact ⟨c, rfl, hprove, account, howner⟩
  · next hqp => exact h.asked q (Finset.mem_of_mem_insert_of_ne (hwaiting hq) hqp)

end Vouched

namespace Vetted

/-- What holds along every run. -/
structure Trusted (s : Vetted F) : Prop where
  base : Base s.lobby
  vouched : Vouched s.lobby.roll (desk s.lobby).waiting s.authenticated s.issued s.asked
  orders : ∀ o ∈ s.orders, o.credentials.Prove o.call.playerId
  calls : ∀ r, s.executed.filter (·.roomId = r) ++ (desk s.lobby).calls r =
    (s.orders.map Order.call).filter (·.roomId = r)
  held : ∀ {r p i}, (desk s.lobby).held r p = some i → ⟨r, p, i⟩ ∈ s.executed

/-- The player that the lobby takes the sender for has proved to be it. -/
theorem Trusted.prove {s : Vetted F} (h : s.Trusted) {conn : Conn} {p : Session}
    (hp : s.lobby.sessionOf conn = some p) : (s.credentials conn p.playerId).Prove p.playerId := by
  obtain ⟨hpid, hsess, hconn⟩ := sessionOf_some h.base.tables hp
  exact ⟨(h.vouched.authenticated conn).trans hpid, by simp [credentials, hsess, hconn]⟩

theorem inputCall_eq_some {s : Lobby F} {conn : Conn} {input : PlayerInput F} {call : Call F}
    (h : inputCall s conn input = some call) :
    ∃ p, s.sessionOf conn = some p ∧ call.playerId = p.playerId := by
  obtain ⟨p, hp, hcall⟩ := Option.bind_eq_some_iff.mp h
  split at hcall
  · exact ⟨p, hp, congrArg Call.playerId (Option.some.inj hcall).symm⟩
  · cases hcall

theorem map_call_order (s : Vetted F) (e : LobbyEvent F) :
    (s.order e).map Order.call = ordered s.lobby e := by
  cases e with
  | input conn input =>
      simp only [order, ordered, List.map_map]
      exact List.map_id _
  | _ => rfl

theorem Trusted.order {s : Vetted F} (h : s.Trusted) (e : LobbyEvent F) :
    ∀ o ∈ s.order e, o.credentials.Prove o.call.playerId := by
  intro o ho
  cases e with
  | input conn input =>
      obtain ⟨call, hcall, rfl⟩ := List.mem_map.mp ho
      obtain ⟨p, hp, hid⟩ := inputCall_eq_some (Option.mem_toList.mp hcall)
      rw [hid]
      exact h.prove hp
  | _ => cases ho

theorem trusted_init (gameThreads : ℕ) (writer : Bool) :
    (init gameThreads writer : Vetted F).Trusted := by
  refine ⟨base_init gameThreads writer, ⟨fun _ => rfl, fun hp => ?_, fun p hp => ?_⟩,
    fun o ho => ?_, fun _ => rfl, fun hi => ?_⟩
  · cases hp
  · exact absurd hp (Finset.notMem_empty p)
  · cases ho
  · cases hi

theorem Trusted.vouched_login {s : Vetted F} (h : s.Trusted) (conn : Conn)
    (account token : String) (now : ℕ) (ks : List ℕ) {waiting : Finset ℕ}
    (hwaiting : waiting ⊆ (desk s.lobby).waiting) :
    Vouched (s.lobby.onLogin conn account token now ks).roll waiting
      (s.authenticated.insert conn s.lobby.nextPlayerId)
      (s.issued.insert s.lobby.nextPlayerId token) s.asked := by
  have hnone : s.lobby.roll.owner s.lobby.nextPlayerId = none := by
    rw [Option.eq_none_iff_forall_ne_some]
    rintro ⟨c, a⟩ hp
    obtain ⟨x, hx, -⟩ := owner_eq_some.mp hp
    exact absurd (h.base.tables.session hx).lt (Nat.lt_irrefl _)
  have howner : (s.lobby.onLogin conn account token now ks).roll.owner =
      Function.update s.lobby.roll.owner s.lobby.nextPlayerId (some (conn, account)) := by
    rw [roll_onLogin, Roll.owner_enqueue]
  refine h.vouched.attach hnone (by rw [roll_onLogin, Roll.bound_enqueue]) ?_ howner hwaiting
  intro q account' token' hq
  rw [roll_onLogin, Roll.identity_enqueue] at hq
  simp only [Function.update_apply] at hq
  rw [UnorderedMap.lookup_insert_eq]
  split
  · next hqp =>
      rw [if_pos hqp] at hq
      rw [(Prod.mk.inj (Option.some.inj hq)).2]
  · next hqp =>
      rw [if_neg hqp] at hq
      exact h.vouched.issued hq

variable [Scalar F]

theorem Trusted.vouched_reconnect {s : Vetted F} (h : s.Trusted) (conn : Conn) (pid : ℕ)
    (token : String) (now : ℕ) {waiting : Finset ℕ} (hwaiting : waiting ⊆ (desk s.lobby).waiting) :
    Vouched (s.lobby.onReconnect conn pid token now).roll waiting
      (s.authenticate (.reconnect conn pid token now)) s.issued s.asked := by
  rcases roll_onReconnect h.base conn pid token now with
    ⟨hacc, heq⟩ | ⟨account, hacc, -, hnone, heq⟩
  · simp only [authenticate, hacc, Bool.false_eq_true, if_false, heq]
    exact h.vouched.keep rfl (fun hx => hx) rfl hwaiting
  · simp only [authenticate, hacc, if_true, heq]
    refine h.vouched.attach hnone (Roll.bound_enqueue ..) ?_ (Roll.owner_enqueue ..) hwaiting
    intro q account' token' hq
    rw [Roll.identity_enqueue] at hq
    exact h.vouched.issued hq

theorem Trusted.vouched_disconnect {s : Vetted F} (h : s.Trusted) (conn : Conn) :
    Vouched (s.lobby.onDisconnect conn).roll (desk (s.lobby.onDisconnect conn)).waiting
      (s.authenticated.erase conn) s.issued s.asked := by
  rcases roll_onDisconnect h.base conn with ⟨hnone, heq⟩ | ⟨pid, p, hpid, -, -, heq⟩
  · have hdesk : desk (s.lobby.onDisconnect conn) = desk s.lobby := by
      rcases desk_onDisconnect h.base conn with ⟨-, hdesk⟩ | ⟨pid, hpid, -⟩
      · exact hdesk
      · cases hpid.symm.trans hnone
    rw [heq, hdesk]
    refine ⟨fun c => ?_, h.vouched.issued, h.vouched.asked⟩
    rw [UnorderedMap.lookup_erase_eq, h.vouched.authenticated]
    split
    · next hc => rw [hc, hnone]
    · rfl
  · have hdesk : (desk (s.lobby.onDisconnect conn)).waiting = (desk s.lobby).waiting.erase pid := by
      rcases desk_onDisconnect h.base conn with ⟨hnone, -⟩ | ⟨pid', hpid', hdesk⟩
      · cases hnone.symm.trans hpid
      · obtain rfl := Option.some.inj (hpid'.symm.trans hpid)
        exact congrArg Desk.waiting hdesk
    rw [heq, hdesk]
    exact h.vouched.detach (Roll.bound_enqueue ..) (Roll.identity_enqueue ..) (Roll.owner_enqueue ..)
      subset_rfl

theorem Trusted.vouched_match {s : Vetted F} (h : s.Trusted) (conn : Conn) (ks : List ℕ) :
    Vouched (s.lobby.onMatch ks conn).roll (desk (s.lobby.onMatch ks conn)).waiting
      s.authenticated s.issued (s.ask (.matchReq conn ks)) := by
  rw [roll_onMatch]
  have hwaiting := (relays_onMatch h.base ks conn).waiting
  cases hp : s.lobby.sessionOf conn with
  | none =>
      simp only [joins, hp, Finset.empty_union] at hwaiting
      simp only [ask, hp]
      exact h.vouched.keep rfl (fun hx => hx) rfl hwaiting
  | some p =>
      by_cases hstate : p.state = .kLobby
      · obtain ⟨-, hsess, hconn⟩ := sessionOf_some h.base.tables hp
        simp only [joins, hp, if_pos hstate, ← Finset.insert_eq] at hwaiting
        simp only [ask, hp, if_pos hstate]
        exact h.vouched.join (h.prove hp) (owner_eq_some.mpr ⟨p, hsess, hconn, rfl⟩) hwaiting
      · simp only [joins, hp, if_neg hstate, Finset.empty_union] at hwaiting
        simp only [ask, hp, if_neg hstate]
        exact h.vouched.keep rfl (fun hx => hx) rfl hwaiting

theorem Trusted.vouched_step {s : Vetted F} (h : s.Trusted) (e : LobbyEvent F)
    (hfree : e.waits = true → s.lobby.firing = []) :
    Vouched (s.lobby.step e).roll (desk (s.lobby.step e)).waiting (s.authenticate e) (s.issue e)
      (s.ask e) := by
  have hwaiting := (relays_step h.base e hfree).waiting
  have hkeep : e.enrols = false → (desk (s.lobby.step e)).waiting ⊆ ∅ ∪ (desk s.lobby).waiting →
      Vouched (s.lobby.step e).roll (desk (s.lobby.step e)).waiting s.authenticated s.issued
        s.asked := by
    intro he hwaiting
    rw [Finset.empty_union] at hwaiting
    rw [roll_step_of_not_enrols he]
    exact h.vouched.keep rfl (fun hx => hx) rfl hwaiting
  cases e with
  | login conn account token now ks =>
      rw [Finset.empty_union] at hwaiting
      rw [step_of_waits rfl (hfree rfl)] at hwaiting ⊢
      exact h.vouched_login conn account token now ks hwaiting
  | reconnect conn pid token now =>
      rw [Finset.empty_union] at hwaiting
      rw [step_of_waits rfl (hfree rfl)] at hwaiting ⊢
      exact h.vouched_reconnect conn pid token now hwaiting
  | disconnect conn =>
      rw [step_of_waits rfl (hfree rfl)]
      exact h.vouched_disconnect conn
  | matchReq conn ks =>
      rw [step_of_waits rfl (hfree rfl)]
      exact h.vouched_match conn ks
  | fireNext now =>
      rw [Finset.empty_union] at hwaiting
      show Vouched (s.lobby.fireNext now).roll _ s.authenticated s.issued s.asked
      rcases roll_fireNext now s.lobby with heq | ⟨pid, heq⟩
      · rw [heq]
        exact h.vouched.keep rfl (fun hx => hx) rfl hwaiting
      · rw [heq]
        refine h.vouched.keep rfl (fun {p x} hx => ?_) rfl hwaiting
        simp only [Function.update_apply] at hx
        split at hx
        · cases hx
        · exact hx
  | storeTask top =>
      rw [Finset.empty_union] at hwaiting
      show Vouched (s.lobby.storeTask top).roll _ s.authenticated s.issued s.asked
      rw [roll_storeTask]
      exact h.vouched.keep rfl (fun hx => hx) rfl hwaiting
  | input | heartbeat | leaderboard | roomEnd | wheelTick | roomTask | roomTick =>
      exact hkeep rfl hwaiting

theorem Trusted.step {s : Vetted F} (h : s.Trusted) (e : LobbyEvent F) : (s.step e).Trusted := by
  unfold Vetted.step
  split
  · next hhandles =>
      have hfree : e.waits = true → s.lobby.firing = [] := by
        intro he
        simpa [handles, he] using hhandles
      have hrelay := relays_step h.base e hfree
      refine ⟨h.base.step e, h.vouched_step e hfree, fun o ho => ?_, fun r => ?_, fun hi => ?_⟩
      · exact (List.mem_append.mp ho).elim (h.orders o) (h.order e o)
      · rw [List.map_append, map_call_order, List.filter_append, List.filter_append, ← h.calls r,
          List.append_assoc, List.append_assoc, hrelay.calls r]
      · rcases hrelay.held hi with hi | hi
        · exact List.mem_append_left _ (h.held hi)
        · exact List.mem_append_right _ hi
  · exact h

theorem trusted_run (gameThreads : ℕ) (writer : Bool) (es : List (LobbyEvent F)) :
    (run gameThreads writer es).Trusted :=
  invariant_run_of_step (I := Trusted) (fun _ e h => h.step e) (trusted_init gameThreads writer) es

/-! ### Acting for a player -/

omit [Scalar F] in
/-- Who waits has asked for it, and still has the same connection. -/
theorem Trusted.asked {s : Vetted F} (h : s.Trusted) {p : ℕ}
    (hp : p ∈ s.lobby.matchQueue.waiting) :
    ∃ c, s.asked.lookup p = some c ∧ c.Prove p ∧
      (s.lobby.sessions.lookup p).bind Session.conn = some c.conn := by
  obtain ⟨c, hasked, hprove, account, howner⟩ := h.vouched.asked p hp
  obtain ⟨x, hx, hconn, -⟩ := owner_eq_some.mp howner
  exact ⟨c, hasked, hprove, by simp [hx, hconn]⟩

/-- The player waits, and its connection is `conn`. -/
def WaitsOn (p : ℕ) (conn : Conn) (s : Vetted F) : Prop :=
  p ∈ s.lobby.matchQueue.waiting ∧ (s.lobby.sessions.lookup p).bind Session.conn = some conn

/-- The events `es` end with a wait of player `p`: after the events `before`
it entered the queue by a match request with credentials `c`, and it has been
waiting with that connection ever since. -/
def AskedSince (gameThreads : ℕ) (writer : Bool) (p : ℕ) (c : Credentials)
    (es before : List (LobbyEvent F)) : Prop :=
  ∃ ks after, es = before ++ .matchReq c.conn ks :: after ∧
    (run gameThreads writer before).handles (.matchReq c.conn ks) = true ∧
    (run gameThreads writer before).credentials c.conn p = c ∧
    p ∉ (run gameThreads writer before).lobby.matchQueue.waiting ∧
    Visits step (WaitsOn p c.conn)
      ((run gameThreads writer before).step (.matchReq c.conn ks)) after

omit [Scalar F] in
/-- Who waits is not in the lobby, so its credentials stay on record. -/
theorem Trusted.ask_of_waiting {s : Vetted F} (h : s.Trusted) {p : ℕ}
    (hp : p ∈ s.lobby.matchQueue.waiting) (e : LobbyEvent F) :
    (s.ask e).lookup p = s.asked.lookup p := by
  cases e with
  | matchReq conn ks =>
      simp only [ask]
      split
      · rfl
      · next x hx =>
          split
          · next hstate =>
              have hsess := (sessionOf_some h.base.tables hx).2.1
              rw [AList.lookup_insert_ne]
              rintro rfl
              have hmatching := (h.base.tables.session hsess).queue.mpr hp
              cases hstate.symm.trans hmatching
          · rfl
  | _ => rfl

/-- Who enters the queue does so by a match request of its own. -/
theorem Trusted.joined {s : Vetted F} (h : s.Trusted) {e : LobbyEvent F}
    (hfree : e.waits = true → s.lobby.firing = []) {p : ℕ}
    (hnot : p ∉ s.lobby.matchQueue.waiting)
    (hp : p ∈ (s.lobby.step e).matchQueue.waiting) :
    ∃ conn ks, e = .matchReq conn ks ∧ (s.ask e).lookup p = some (s.credentials conn p) := by
  have hjoins := (Finset.mem_union.mp ((relays_step h.base e hfree).waiting hp)).resolve_right hnot
  cases e with
  | matchReq conn ks =>
      refine ⟨conn, ks, rfl, ?_⟩
      simp only [joins] at hjoins
      simp only [ask]
      split at hjoins
      · exact absurd hjoins (Finset.notMem_empty p)
      · next x hx =>
          split at hjoins
          · next hstate =>
              obtain rfl := Finset.mem_singleton.mp hjoins
              rw [if_pos hstate]
              exact AList.lookup_insert _
          · exact absurd hjoins (Finset.notMem_empty p)
  | _ => exact absurd hjoins (Finset.notMem_empty p)

theorem run_concat (gameThreads : ℕ) (writer : Bool) (es : List (LobbyEvent F))
    (e : LobbyEvent F) :
    run gameThreads writer (es ++ [e]) = (run gameThreads writer es).step e :=
  List.foldl_concat ..

theorem AskedSince.concat {gameThreads : ℕ} {writer : Bool} {p : ℕ} {c : Credentials}
    {es before : List (LobbyEvent F)} (h : AskedSince gameThreads writer p c es before)
    {e : LobbyEvent F} (hwaits : WaitsOn p c.conn (run gameThreads writer (es ++ [e]))) :
    AskedSince gameThreads writer p c (es ++ [e]) before := by
  obtain ⟨ks, after, rfl, hhandles, hcred, hnot, hvisits⟩ := h
  refine ⟨ks, after ++ [e], by simp, hhandles, hcred, hnot, hvisits.concat ?_⟩
  have hrun : run gameThreads writer (before ++ .matchReq c.conn ks :: after ++ [e]) =
      step (after.foldl step ((run gameThreads writer before).step (.matchReq c.conn ks))) e := by
    simp [run]
  exact hrun ▸ hwaits

/-- Whoever waits has been waiting since its request, with the connection
that it came on. -/
theorem exists_askedSince (gameThreads : ℕ) (writer : Bool) {p : ℕ} (es : List (LobbyEvent F))
    (hp : p ∈ (run gameThreads writer es).lobby.matchQueue.waiting) :
    ∃ c before, (run gameThreads writer es).asked.lookup p = some c ∧
      AskedSince gameThreads writer p c es before := by
  induction es using List.reverseRecOn with
  | nil => exact absurd hp (Finset.notMem_empty p)
  | append_singleton es e ih =>
      have htrusted := trusted_run gameThreads writer es
      obtain ⟨c, hasked, -, hconn⟩ := (trusted_run gameThreads writer (es ++ [e])).asked hp
      have hwaits : WaitsOn p c.conn (run gameThreads writer (es ++ [e])) := ⟨hp, hconn⟩
      refine ⟨c, ?_⟩
      by_cases hold : p ∈ (run gameThreads writer es).lobby.matchQueue.waiting
      · -- it was waiting already, and its request is further back
        obtain ⟨c', before, hasked', hsince⟩ := ih hold
        have hsame : ((run gameThreads writer es).step e).asked.lookup p = some c' := by
          unfold step
          split
          · exact (htrusted.ask_of_waiting hold e).trans hasked'
          · exact hasked'
        obtain rfl : c' = c := by
          rw [run_concat] at hasked
          exact Option.some.inj (hsame.symm.trans hasked)
        exact ⟨before, hasked, hsince.concat hwaits⟩
      · -- this event is its request
        rw [run_concat] at hp hasked hwaits ⊢
        have hstep := hp
        have hafter := hasked
        unfold step at hstep hafter
        split at hstep
        · next hhandles =>
            rw [if_pos hhandles] at hafter
            have hfree : e.waits = true → (run gameThreads writer es).lobby.firing = [] := by
              intro he
              simpa [handles, he] using hhandles
            obtain ⟨conn, ks, rfl, hask⟩ := htrusted.joined hfree hold hstep
            obtain rfl := Option.some.inj (hask.symm.trans hafter)
            exact ⟨es, hasked, ks, [], rfl, hhandles, rfl, hold, hwaits⟩
        · exact absurd hstep hold

/-- A connection only acts for the player it has proved to be. -/
structure Authorised (s : Vetted F) : Prop where
  /-- The calls a room executes are the first of those that were ordered. -/
  executed : ∀ r, s.executed.filter (·.roomId = r) <+:
    (s.orders.map Order.call).filter (·.roomId = r)
  orders : ∀ o ∈ s.orders, o.credentials.Prove o.call.playerId
  /-- What a room holds as the input of a player comes from such a call. -/
  held : ∀ r cell p i, s.lobby.cells.lookup r = some cell → heldInput cell.room p = some i →
    ⟨r, p, i⟩ ∈ s.executed
  /-- A match request changes the session of its sender, and the session of a
  player who waits because it has asked for it, and whom it takes into a room
  with the sender. -/
  matched : ∀ ks conn p,
    (s.lobby.onMatch ks conn).sessions.lookup p ≠ s.lobby.sessions.lookup p →
      (s.credentials conn p).Prove p ∨
        p ∈ s.lobby.matchQueue.waiting ∧ Paired s.lobby ks conn p ∧
          ∃ c, s.asked.lookup p = some c ∧ c.Prove p ∧
            (s.lobby.sessions.lookup p).bind Session.conn = some c.conn
  /-- Who is let in by a reconnect has shown the token of the login, and the
  player had no connection. -/
  reconnected : ∀ conn pid token now p t, Entry.send conn (.loginResp 0 p t) ∈
    (s.lobby.onReconnect conn pid token now).log.drop s.lobby.log.length →
      s.issued.lookup pid = some token ∧ ∃ x, s.lobby.sessions.lookup pid = some x ∧ x.conn = none

theorem Trusted.matched {s : Vetted F} (h : s.Trusted) {ks : List ℕ} {conn : Conn} {p : ℕ}
    (hdiff : (s.lobby.onMatch ks conn).sessions.lookup p ≠ s.lobby.sessions.lookup p) :
    (s.credentials conn p).Prove p ∨
      p ∈ s.lobby.matchQueue.waiting ∧ Paired s.lobby ks conn p ∧
        ∃ c, s.asked.lookup p = some c ∧ c.Prove p ∧
          (s.lobby.sessions.lookup p).bind Session.conn = some c.conn := by
  by_cases hsender : ∃ x, s.lobby.sessionOf conn = some x ∧ x.state = .kLobby
  · obtain ⟨x, hx, hstate⟩ := hsender
    rcases (affected_onMatch h.base ks hx hstate).1 p hdiff with rfl | ⟨hwaiting, hpaired⟩
    · exact .inl (h.prove hx)
    · obtain ⟨c, hasked, hprove, hconn⟩ := h.asked hwaiting
      exact .inr ⟨hwaiting, hpaired, c, hasked, hprove, hconn⟩
  · have hself := onMatch_self ks fun x hx hstate => hsender ⟨x, hx, hstate⟩
    rw [hself] at hdiff
    exact absurd rfl hdiff

theorem Trusted.reconnected {s : Vetted F} (h : s.Trusted) {conn : Conn} {pid : ℕ}
    {token : String} {now p : ℕ} {t : String} (hsent : Entry.send conn (.loginResp 0 p t) ∈
      (s.lobby.onReconnect conn pid token now).log.drop s.lobby.log.length) :
    s.issued.lookup pid = some token ∧
      ∃ x, s.lobby.sessions.lookup pid = some x ∧ x.conn = none := by
  rcases onReconnect_cases s.lobby conn pid token now with
    ⟨-, heq⟩ | ⟨x, -, hx, htoken, hnone, -⟩
  · rw [heq] at hsent
    simp [reject, emit] at hsent
  · have hidentity : s.lobby.roll.identity pid = some (x.account, token) := by
      simp [roll, hx, htoken]
    exact ⟨h.vouched.issued hidentity, x, hx, hnone⟩

theorem Trusted.authorised {s : Vetted F} (h : s.Trusted) : s.Authorised where
  executed r := ⟨_, h.calls r⟩
  orders := h.orders
  held r cell p i hcell hi := h.held (by simp [desk, hcell, hi])
  matched _ _ _ := h.matched
  reconnected _ _ _ _ _ _ := h.reconnected

/-- In every run, whatever the connections send, they only act for players
they have proved to be, or for one who waits for an opponent, as it has since
it asked for that, with the same connection. The player id in a match request
makes no difference. -/
theorem acts_as_authenticated (gameThreads : ℕ) (writer : Bool) (es : List (LobbyEvent F)) :
    (run gameThreads writer es).Authorised ∧
      (∀ p ∈ (run gameThreads writer es).lobby.matchQueue.waiting,
        ∃ c before, (run gameThreads writer es).asked.lookup p = some c ∧
          AskedSince gameThreads writer p c es before) ∧
      ∀ conn now rng ks id id', handler conn now rng ks (.matchReq id : ClientMsg F) =
        handler conn now rng ks (.matchReq id') :=
  ⟨(trusted_run gameThreads writer es).authorised,
    fun _ hp => exists_askedSince gameThreads writer es hp, fun _ _ _ _ _ _ => rfl⟩

/-- Player 1 waits for an opponent. The match request of player 2, which
comes on another connection, takes player 1 into a room. -/
theorem match_request_changes_opponent :
    let s : Vetted (Ext ℚ) := run 2 true
      [.login 1 "alice" "t" 0 [], .login 2 "bob" "u" 0 [], .matchReq 1 []]
    s.lobby.firing = [] ∧
      ((s.lobby.sessions.lookup 1).map Session.state = some .kMatching ∧
        (((s.lobby.onMatch [] 2).sessions.lookup 1).map Session.state = some .kInRoom)) ∧
      ¬(s.credentials 2 1).Prove 1 := by
  intro s
  refine ⟨by decide +kernel, by decide +kernel, fun hprove => ?_⟩
  have hother : (s.credentials 2 1).authenticated = some 2 := by decide +kernel
  cases hother.symm.trans hprove.1

end Vetted

end GameServer.Client
