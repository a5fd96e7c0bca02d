import GameServer.Game.MatchQueue
import GameServer.Game.Room
import GameServer.Timer.TimerWheel

/-!
The lobby of `src/game/GameServer.{h,cc}` and the rooms it drives.

The lobby runs on one thread. Its handlers are called with what the IO
threads parsed; the clock, the random token and the order of a hash table
are arguments of the event. The match and session timers sit in its wheel,
which `wheelTick` moves by one tick; the callbacks of that tick then run one
by one (`fireNext`), and no handler runs before the last of them.

A room runs on the lobby's own loop (`gameThreads = 0`) or on a game loop.
In the first case a task posted to it runs at once, inside the handler that
posts it, and so does `onRoomEnd` when the room calls back. In the second
case tasks wait in the mailbox of the room and `onRoomEnd` waits in
`roomEnds`; rooms may then make a step between any two steps of the lobby,
also between two timer callbacks. Rooms that share a loop are given
independent mailboxes, which allows more interleavings than the source has.

Everything sent, and everything else that later statements speak about, is
recorded in `log`, which no operation reads.
-/

namespace GameServer.Game

open GameServer.Lib GameServer.Proto GameServer.Timer
open Scalar

inductive SessionState where
  | kLobby
  | kMatching
  | kInRoom
deriving DecidableEq

structure Session where
  playerId : ℕ
  token : String
  account : String
  conn : Option Conn
  roomId : ℕ := 0
  state : SessionState := .kLobby
  lastHeartbeatMs : ℕ
  expireTimerId : ℕ := 0

def kHeartbeatTimeoutMs : ℕ := 10000

def kMatchTimeoutMs : ℕ := 30000

def kSessionKeepMs : ℕ := 30000

def kSweepIntervalMs : ℕ := 5000

/-- `%016llx`. -/
def hex16 (n : ℕ) : List Char :=
  let digits := Nat.toDigits 16 (n % 2 ^ 64)
  List.replicate (16 - digits.length) '0' ++ digits

/-- Two random numbers make a token. -/
def genToken (rng : ℕ × ℕ) : String := String.ofList (hex16 rng.1 ++ hex16 rng.2)

/-- The callbacks the lobby puts into its wheel. -/
inductive TimerCb where
  | matchTimeout (playerId : ℕ)
  | expireSession (playerId : ℕ)
  | sweep
deriving DecidableEq

/-- The tasks the lobby gives to the storage thread. -/
inductive StoreTask where
  | setOnline (account : String)
  | delOnline (account : String)
  | settle (winner loser : String)
  | leaderboard (conn : Conn) (n : ℕ)
deriving DecidableEq

/-- A room and the tasks posted to its loop. -/
structure RoomCell (F : Type) where
  room : Room F
  mailbox : List (RoomTask F) := []

inductive Entry (F : Type) where
  | send (conn : Conn) (msg : ServerMsg F)
  | shutdown (conn : Conn)
  | enqueue (task : StoreTask)
  | executed (task : StoreTask)
  /-- `tryMatch` made a room for two players with these accounts. -/
  | created (roomId a b : ℕ) (accountA accountB : String)
  | room (roomId : ℕ) (act : RoomAct F)
  /-- `onRoomEnd` ran and enqueued this settlement. -/
  | settled (roomId winnerId : ℕ) (task : Option StoreTask)
  /-- `onMatch` put the player into the queue. -/
  | queued (playerId tick : ℕ)

structure Lobby (F : Type) where
  gameThreads : ℕ
  /-- Whether storage is enabled, that is `writer_` is not null. -/
  writer : Bool
  connToPlayer : UnorderedMap Conn ℕ := ∅
  sessions : UnorderedMap ℕ Session := ∅
  /-- The keys of `rooms_`; the room of key `r` is cell `r`. -/
  rooms : List ℕ := []
  matchQueue : MatchQueue := {}
  matchTimer : UnorderedMap ℕ ℕ := ∅
  wheel : TimerWheel TimerCb := {}
  /-- The timers of the current tick that `fireSlot` has not come to yet. -/
  firing : List NodePtr := []
  nextPlayerId : ℕ := 1
  nextRoomId : ℕ := 1
  store : List StoreTask := []
  cells : UnorderedMap ℕ (RoomCell F) := ∅
  /-- `onRoomEnd` calls on their way from a game loop to the lobby. -/
  roomEnds : List (ℕ × ℕ) := []
  log : List (Entry F) := []

namespace Lobby

variable {F : Type}

def emit (e : Entry F) (s : Lobby F) : Lobby F := { s with log := s.log ++ [e] }

/-- `writer_->enqueue`, if there is a writer. -/
def enqueue (task : StoreTask) (s : Lobby F) : Lobby F :=
  if s.writer then { s with store := s.store ++ [task], log := s.log ++ [.enqueue task] } else s

def sessionOf (conn : Conn) (s : Lobby F) : Option Session :=
  (s.connToPlayer.lookup conn).bind fun pid => s.sessions.lookup pid

/-! ### Rooms -/

/-- The account that a loop over the sessions of a room leaves in the
variable for the winner, or for the loser. -/
def lastAccount (roomId : ℕ) (which : ℕ → Bool) (s : Lobby F) : String :=
  s.sessions.entries.foldl (fun acc e =>
    if e.2.roomId = roomId && which e.1 then e.2.account else acc) ""

def onRoomEnd (roomId winnerId : ℕ) (s : Lobby F) : Lobby F :=
  let winnerAcc := s.lastAccount roomId (· = winnerId)
  let loserAcc := s.lastAccount roomId (· ≠ winnerId)
  let task := StoreTask.settle winnerAcc loserAcc
  let s := { s with
    rooms := s.rooms.erase roomId
    sessions := s.sessions.mapVal fun _ (p : Session) =>
      if p.roomId = roomId then { p with roomId := 0, state := .kLobby } else p }
  if s.writer && winnerAcc ≠ "" && loserAcc ≠ "" then
    (s.enqueue task).emit (.settled roomId winnerId (some task))
  else s.emit (.settled roomId winnerId none)

def modifyCell (roomId : ℕ) (f : RoomCell F → RoomCell F) (s : Lobby F) : Lobby F :=
  { s with cells := s.cells.modify roomId f }

/-- Put a task at the end of a room's mailbox. -/
def mail (roomId : ℕ) (task : RoomTask F) (s : Lobby F) : Lobby F :=
  s.modifyCell roomId fun cell => { cell with mailbox := cell.mailbox ++ [task] }

/-- Carry out what a room has done. -/
def perform (roomId : ℕ) (s : Lobby F) (act : RoomAct F) : Lobby F :=
  let s := s.emit (.room roomId act)
  match act with
  | .queueTickerReset => s.mail roomId .resetTicker
  | .onEnd rid winner =>
      if s.gameThreads = 0 then s.onRoomEnd rid winner
      else { s with roomEnds := s.roomEnds ++ [(rid, winner)] }
  | .broadcast _ _ | .send _ _ _ => s

/-- A room makes a step. -/
def runRoom (roomId : ℕ) (f : Room F → Room F × List (RoomAct F)) (s : Lobby F) : Lobby F :=
  match s.cells.lookup roomId with
  | none => s
  | some cell =>
      (f cell.room).2.foldl (perform roomId)
        (s.modifyCell roomId fun cell => { cell with room := (f cell.room).1 })

variable [Scalar F]

/-- `room->loop()->runInLoop(task)` from the lobby thread. -/
def post (roomId : ℕ) (task : RoomTask F) (s : Lobby F) : Lobby F :=
  if s.gameThreads = 0 then s.runRoom roomId (·.exec task) else s.mail roomId task

/-! ### Handlers -/

/-- Enter a new session into the tables. -/
def addSession (conn : Conn) (session : Session) (ks : List ℕ) (s : Lobby F) : Lobby F :=
  { s with
    nextPlayerId := s.nextPlayerId + 1
    sessions := UnorderedMap.reorder ks (s.sessions.insert s.nextPlayerId session)
    connToPlayer := s.connToPlayer.insert conn s.nextPlayerId }

def onLogin (conn : Conn) (account token : String) (now : ℕ) (ks : List ℕ) (s : Lobby F) :
    Lobby F :=
  s.addSession conn
    { playerId := s.nextPlayerId, token := token, account := account, conn := some conn
      lastHeartbeatMs := now } ks
    |>.emit (.send conn (.loginResp 0 s.nextPlayerId token))
    |>.enqueue (.setOnline account)

def reject (conn : Conn) (s : Lobby F) : Lobby F :=
  s.emit (.send conn (.loginResp 1 0 "")) |>.emit (.shutdown conn)

/-- Bind session `p` to a connection again; its expiry is called off. -/
def rebindSession (conn : Conn) (pid : ℕ) (p : Session) (now : ℕ) (s : Lobby F) : Lobby F :=
  { s with
    wheel := if p.expireTimerId ≠ 0 then s.wheel.cancel p.expireTimerId else s.wheel
    sessions := s.sessions.modify pid fun p =>
      { p with conn := some conn, lastHeartbeatMs := now, expireTimerId := 0 }
    connToPlayer := s.connToPlayer.insert conn p.playerId }

/-- Post a task to the room of session `p`, if it is in one. -/
def postToRoom (p : Session) (task : RoomTask F) (s : Lobby F) : Lobby F :=
  if p.state = .kInRoom && p.roomId ∈ s.rooms then s.post p.roomId task else s

def onReconnect (conn : Conn) (pid : ℕ) (token : String) (now : ℕ) (s : Lobby F) : Lobby F :=
  match s.sessions.lookup pid with
  | none => s.reject conn
  | some p =>
      if p.token ≠ token || p.conn.isSome then s.reject conn
      else
        s.rebindSession conn pid p now
          |>.emit (.send conn (.loginResp 0 p.playerId p.token))
          |>.postToRoom p (.rebind p.playerId (some conn))
          |>.enqueue (.setOnline p.account)

/-- Cancel the match timer of a player who has been paired. -/
def cancelMatchTimer (pid : ℕ) (s : Lobby F) : Lobby F :=
  match s.matchTimer.lookup pid with
  | none => s
  | some id => { s with wheel := s.wheel.cancel id, matchTimer := s.matchTimer.erase pid }

/-- The room that `tryMatch` makes for two sessions. -/
def createRoom (ks : List ℕ) (a b : ℕ) (pa pb : Session) (s : Lobby F) : Lobby F :=
  let enter (p : Session) : Session := { p with state := .kInRoom, roomId := s.nextRoomId }
  { s with
    nextRoomId := s.nextRoomId + 1
    rooms := s.nextRoomId :: s.rooms
    cells := s.cells.insert s.nextRoomId
      { room := Room.new ks s.nextRoomId [(pa.playerId, pa.conn), (pb.playerId, pb.conn)] }
    sessions := (s.sessions.modify a enter).modify b enter
    log := s.log ++ [.created s.nextRoomId a b pa.account pb.account] }

/-- `none` from `popPair` is undefined behaviour of the source; nothing is
said about the lobby then. -/
def tryMatch (ks : List ℕ) (s : Lobby F) : Lobby F :=
  match s.matchQueue.popPair with
  | none => s
  | some (none, q) => { s with matchQueue := q }
  | some (some (a, b), q) =>
      let s := { s with matchQueue := q }
      match s.sessions.lookup a, s.sessions.lookup b with
      | some pa, some pb =>
          (((s.cancelMatchTimer a).cancelMatchTimer b).createRoom ks a b pa pb).post
            s.nextRoomId .start
      | _, _ => s

/-- The player has been pushed: start its timer. -/
def joinQueue (pid : ℕ) (s : Lobby F) : Lobby F :=
  { s with
    matchQueue := (s.matchQueue.push pid).1
    sessions := s.sessions.modify pid fun p => { p with state := .kMatching }
    wheel := (s.wheel.add kMatchTimeoutMs (TimerCb.matchTimeout pid)).1
    matchTimer := s.matchTimer.insert pid
      (s.wheel.add kMatchTimeoutMs (TimerCb.matchTimeout pid)).2
    log := s.log ++ [.queued pid s.wheel.nowTick] }

def onMatch (ks : List ℕ) (conn : Conn) (s : Lobby F) : Lobby F :=
  match s.sessionOf conn with
  | none => s
  | some p =>
      if p.state ≠ .kLobby then s
      else if (s.matchQueue.push p.playerId).2 then (s.joinQueue p.playerId).tryMatch ks
      else s

def onInput (conn : Conn) (input : PlayerInput F) (s : Lobby F) : Lobby F :=
  match s.sessionOf conn with
  | none => s
  | some p => s.postToRoom p (.onInput p.playerId input)

def onHeartbeat (conn : Conn) (clientMs : ℤ) (now : ℕ) (s : Lobby F) : Lobby F :=
  let s := match s.sessionOf conn with
    | none => s
    | some p =>
        { s with sessions := s.sessions.modify p.playerId fun p =>
          { p with lastHeartbeatMs := now } }
  s.emit (.send conn (.heartbeat clientMs))

/-- Take the connection away from session `p`; a player in the queue goes
back to the lobby. -/
def unbindSession (conn : Conn) (pid : ℕ) (p : Session) (s : Lobby F) : Lobby F :=
  if p.state = .kMatching then
    { s with
      connToPlayer := s.connToPlayer.erase conn
      sessions := s.sessions.modify pid fun p => { p with conn := none, state := .kLobby }
      matchQueue := s.matchQueue.remove pid }
  else
    { s with
      connToPlayer := s.connToPlayer.erase conn
      sessions := s.sessions.modify pid fun p => { p with conn := none } }

/-- Start the timer that ends a session without a connection. -/
def scheduleExpiry (pid : ℕ) (s : Lobby F) : Lobby F :=
  { s with
    wheel := (s.wheel.add kSessionKeepMs (TimerCb.expireSession pid)).1
    sessions := s.sessions.modify pid fun p =>
      { p with expireTimerId := (s.wheel.add kSessionKeepMs (TimerCb.expireSession pid)).2 } }

def onDisconnect (conn : Conn) (s : Lobby F) : Lobby F :=
  match s.connToPlayer.lookup conn with
  | none => s
  | some pid =>
      match s.sessions.lookup pid with
      | none => { s with connToPlayer := s.connToPlayer.erase conn }
      | some p =>
          s.unbindSession conn pid p
            |>.postToRoom p (.dropConn pid)
            |>.scheduleExpiry pid
            |>.enqueue (.delOnline p.account)

/-- The loop that looks for the opponent of `pid` among the sessions. -/
def opponent (pid roomId : ℕ) (s : Lobby F) : ℕ :=
  s.sessions.entries.foldl (fun w e =>
    if e.2.roomId = roomId && e.1 ≠ pid then e.1 else w) 0

def eraseSession (pid : ℕ) (s : Lobby F) : Lobby F :=
  { s with sessions := s.sessions.erase pid }

def expireSession (pid : ℕ) (s : Lobby F) : Lobby F :=
  match s.sessions.lookup pid with
  | none => s
  | some p =>
      if p.conn.isSome then s
      else
        s.postToRoom p (.forceEnd (s.opponent pid p.roomId)) |>.eraseSession pid

/-- Does not touch the lobby: it runs on an IO thread. -/
def onLeaderboard (conn : Conn) (topN : ℕ) (s : Lobby F) : Lobby F :=
  let n := if 0 < topN ∧ topN ≤ 100 then topN else 10
  if s.writer then s.enqueue (.leaderboard conn n)
  else s.emit (.send conn (.leaderboardResp []))

/-! ### Timer callbacks -/

/-- A player leaves the queue because its time is up. -/
def leaveQueue (pid : ℕ) (s : Lobby F) : Lobby F :=
  { s with
    matchQueue := s.matchQueue.remove pid
    sessions := s.sessions.modify pid fun p => { p with state := .kLobby } }

/-- `EnterRoom` with room 0 tells the player that no opponent was found. -/
def matchTimeout (pid : ℕ) (s : Lobby F) : Lobby F :=
  let s := { s with matchTimer := s.matchTimer.erase pid }
  if s.matchQueue.contains pid then
    match (s.sessions.lookup pid).bind Session.conn with
    | none => s.leaveQueue pid
    | some c => s.leaveQueue pid |>.emit (.send c (.enterRoom 0 []))
  else s

/-- The subtraction is that of `uint64_t`. -/
def silent (now : ℕ) (p : Session) : Bool :=
  kHeartbeatTimeoutMs < (now + (2 ^ 64 - p.lastHeartbeatMs)) % 2 ^ 64

def sweepHeartbeats (now : ℕ) (s : Lobby F) : Lobby F :=
  { s with
    log := s.log ++ s.sessions.entries.filterMap fun e =>
      match e.2.conn with
      | none => none
      | some c => if silent now e.2 then some (.shutdown c) else none }

def scheduleSweep (s : Lobby F) : Lobby F :=
  { s with wheel := (s.wheel.add kSweepIntervalMs .sweep).1 }

def call (now : ℕ) (cb : TimerCb) (s : Lobby F) : Lobby F :=
  match cb with
  | .matchTimeout pid => s.matchTimeout pid
  | .expireSession pid => s.expireSession pid
  | .sweep => (s.sweepHeartbeats now).scheduleSweep

/-- The lobby when `start` has run. -/
def init (gameThreads : ℕ) (writer : Bool) : Lobby F :=
  scheduleSweep { gameThreads := gameThreads, writer := writer }

end Lobby

/-! ### Events -/

inductive LobbyEvent (F : Type) where
  | login (conn : Conn) (account token : String) (now : ℕ) (ks : List ℕ)
  | reconnect (conn : Conn) (playerId : ℕ) (token : String) (now : ℕ)
  | matchReq (conn : Conn) (ks : List ℕ)
  | input (conn : Conn) (input : PlayerInput F)
  | heartbeat (conn : Conn) (clientMs : ℤ) (now : ℕ)
  | disconnect (conn : Conn)
  | leaderboard (conn : Conn) (topN : ℕ)
  /-- The oldest waiting `onRoomEnd` runs. -/
  | roomEnd
  /-- The wheel driver calls `advance(100)`. -/
  | wheelTick
  /-- The next callback of the current tick runs. -/
  | fireNext (now : ℕ)
  /-- The oldest task of a room runs on its loop. -/
  | roomTask (roomId : ℕ)
  | roomTick (roomId : ℕ) (ks : List ℕ)
  /-- The storage thread executes its oldest task; `top` is what Redis
  answers to a leaderboard query. -/
  | storeTask (top : List (String × F))

namespace Lobby

variable {F : Type} [Scalar F]

def fireNext (now : ℕ) (s : Lobby F) : Lobby F :=
  match s.firing with
  | [] => s
  | n :: rest =>
      let s := { s with firing := rest }
      match s.wheel.take n with
      | none => s
      | some (node, w) => { s with wheel := w }.call now node.cb

def wheelTick (s : Lobby F) : Lobby F :=
  { s with wheel := s.wheel.beginStep.1, firing := s.wheel.beginStep.2 }

def handleRoomEnd (s : Lobby F) : Lobby F :=
  match s.roomEnds with
  | [] => s
  | (roomId, winnerId) :: rest => { s with roomEnds := rest }.onRoomEnd roomId winnerId

def roomTask (roomId : ℕ) (s : Lobby F) : Lobby F :=
  match s.cells.lookup roomId with
  | none => s
  | some cell =>
      match cell.mailbox with
      | [] => s
      | task :: rest =>
          (s.modifyCell roomId fun cell => { cell with mailbox := rest }).runRoom roomId
            (·.exec task)

def roomTick (roomId : ℕ) (ks : List ℕ) (s : Lobby F) : Lobby F :=
  match s.cells.lookup roomId with
  | none => s
  | some cell => if cell.room.ticker then s.runRoom roomId (·.onTick ks) else s

def storeTask (top : List (String × F)) (s : Lobby F) : Lobby F :=
  match s.store with
  | [] => s
  | task :: rest =>
      let s := { s with store := rest }.emit (.executed task)
      match task with
      | .leaderboard conn n => s.emit (.send conn (.leaderboardResp (top.take n)))
      | _ => s

/-- A handler runs on the lobby thread, so not in the middle of a wheel tick.
A room on the lobby's own loop has to wait for it as well. -/
def step (s : Lobby F) : LobbyEvent F → Lobby F
  | .login conn account token now ks =>
      if s.firing = [] then s.onLogin conn account token now ks else s
  | .reconnect conn pid token now => if s.firing = [] then s.onReconnect conn pid token now else s
  | .matchReq conn ks => if s.firing = [] then s.onMatch ks conn else s
  | .input conn input => if s.firing = [] then s.onInput conn input else s
  | .heartbeat conn clientMs now => if s.firing = [] then s.onHeartbeat conn clientMs now else s
  | .disconnect conn => if s.firing = [] then s.onDisconnect conn else s
  | .leaderboard conn topN => s.onLeaderboard conn topN
  | .roomEnd => if s.firing = [] then s.handleRoomEnd else s
  | .wheelTick => if s.firing = [] then s.wheelTick else s
  | .fireNext now => s.fireNext now
  | .roomTask roomId => if s.gameThreads = 0 ∧ s.firing ≠ [] then s else s.roomTask roomId
  | .roomTick roomId ks => if s.gameThreads = 0 ∧ s.firing ≠ [] then s else s.roomTick roomId ks
  | .storeTask top => s.storeTask top

end Lobby

end GameServer.Game
