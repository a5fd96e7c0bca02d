import GameServer.Game.LobbyTables
import Mathlib.Logic.Relation

/-!
The moves of the lobby.

A handler, a timer callback and a step of a room are each made of a few
updates. `Move` lists them, with what is known of the state at the moment of
the update, and `step_moves` says that every event is a sequence of moves.
An invariant is then shown once for each move, and not again for each
handler that makes it.

Some moves are open only to events that commit a `Deed`: they are those
that some of the later invariants do not survive. An invariant that needs a
deed to be absent says so by its hypothesis on `φ`.
-/

namespace GameServer.Game

open GameServer.Lib GameServer.Proto GameServer.Timer

inductive Deed where
  /-- A login, or an accepted reconnect, on a connection that is bound already. -/
  | bindsTwice
  /-- A player loses its connection while it waits in the queue. -/
  | dropsMatching
  /-- A player forfeits a battle that runs on another thread. -/
  | forfeits
  /-- A login or reconnect request on this connection. -/
  | requests (conn : Conn)
  /-- The end of this connection. -/
  | closes (conn : Conn)
  /-- A room whose battle is over is told about this connection. -/
  | lateRebind (conn : Conn)
deriving DecidableEq

/-- Entries of the log that no invariant speaks about. -/
def Entry.plain {F : Type} : Entry F → Bool
  | .send _ (.heartbeat _) | .send _ (.leaderboardResp _) | .send _ (.loginResp 1 _ _) => true
  | .shutdown _ | .enqueue (.setOnline _) | .enqueue (.delOnline _)
  | .enqueue (.leaderboard _ _) | .executed _ => true
  | _ => false

/-- The connection that a `LoginResp` is sent to. -/
def Entry.answers {F : Type} : Entry F → Option Conn
  | .send conn (.loginResp _ _ _) => some conn
  | _ => none

def RoomTask.rebinds {F : Type} : RoomTask F → Option Conn
  | .rebind _ conn => conn
  | _ => none

namespace Lobby

variable {F : Type}

/-- The callback that `fireNext` runs. -/
def nextCallback (s : Lobby F) : Option TimerCb :=
  (s.firing.head?.bind s.wheel.take).map fun x => x.1.cb

/-- `onReconnect` accepts the request. -/
def accepts (pid : ℕ) (token : String) (s : Lobby F) : Bool :=
  match s.sessions.lookup pid with
  | none => false
  | some p => p.token = token && p.conn.isNone

/-- The deeds that an event commits when it is handled in a state. -/
def commits (s : Lobby F) : LobbyEvent F → Deed → Bool
  | .login conn _ _ _ _, .bindsTwice => s.firing = [] && (s.connToPlayer.lookup conn).isSome
  | .reconnect conn pid token _, .bindsTwice =>
      s.firing = [] && s.accepts pid token && (s.connToPlayer.lookup conn).isSome
  | .disconnect conn, .dropsMatching =>
      s.firing = [] && (s.sessionOf conn).any (·.state = .kMatching)
  | .fireNext _, .forfeits =>
      match s.nextCallback with
      | some (.expireSession pid) =>
          s.gameThreads ≠ 0 &&
            (s.sessions.lookup pid).any fun p => p.conn.isNone && p.state = .kInRoom
      | _ => false
  | .login conn _ _ _ _, .requests c | .reconnect conn _ _ _, .requests c => c = conn
  | .disconnect conn, .closes c => c = conn
  | .roomTask r, .lateRebind c =>
      (s.cells.lookup r).any fun cell =>
        cell.room.ended && cell.mailbox.head?.any fun task => task.rebinds = some c
  | _, _ => false

/-- What the lobby posts to room `r`. -/
def Postable (s : Lobby F) (r : ℕ) : RoomTask F → Prop
  | .start => s.nextRoomId = r + 1 ∧ ∃ cell, s.cells.lookup r = some cell ∧
      cell.mailbox = [] ∧ cell.room.ticker = false ∧ cell.room.ended = false
  | .onInput p _ => ∃ x, s.sessions.lookup p = some x ∧ x.roomId = r
  | .rebind p conn => ∃ x c, s.sessions.lookup p = some x ∧ x.roomId = r ∧ x.conn = some c ∧
      conn = some c
  | .dropConn p => ∃ x, s.sessions.lookup p = some x ∧ x.roomId = r ∧ x.conn = none
  | .forceEnd w => ∃ p x, s.sessions.lookup p = some x ∧ x.roomId = r ∧ x.conn = none ∧
      w = s.opponent p r
  | .stop | .resetTicker => False

/-- Where an operation on a room comes from, and the tasks it leaves in the
mailbox of the room. -/
inductive Source (s : Lobby F) (r : ℕ) (cell : RoomCell F) :
    RoomOp F → List (RoomTask F) → Prop where
  | tick (ks : List ℕ) (hticker : cell.room.ticker = true) :
      Source s r cell (.onTick ks) cell.mailbox
  | head {task : RoomTask F} {mailbox : List (RoomTask F)} (hmail : cell.mailbox = task :: mailbox) :
      Source s r cell (.task task) mailbox
  | posted {task : RoomTask F} (hinline : s.gameThreads = 0) (hpost : s.Postable r task) :
      Source s r cell (.task task) cell.mailbox

/-- `cells` is the table of rooms with room `r` replaced. -/
def Replaced (s : Lobby F) (r : ℕ) (cell : RoomCell F) (cells : UnorderedMap ℕ (RoomCell F)) :
    Prop :=
  ∀ r', cells.lookup r' = if r' = r then some cell else s.cells.lookup r'

@[simp] theorem connToPlayer_unbindSession (conn : Conn) (pid : ℕ) (p : Session) (s : Lobby F) :
    (s.unbindSession conn pid p).connToPlayer = s.connToPlayer.erase conn := by
  unfold unbindSession
  split <;> rfl

theorem lookup_unbindSession (conn : Conn) (pid : ℕ) (p : Session) (s : Lobby F) (p' : ℕ) :
    (s.unbindSession conn pid p).sessions.lookup p' = (s.sessions.lookup p').map fun x =>
      if p' = pid then { x with
        conn := none
        state := if p.state = .kMatching then .kLobby else x.state } else x := by
  unfold unbindSession
  split
  · rw [UnorderedMap.lookup_modify]
    split <;> simp
  · rw [UnorderedMap.lookup_modify]
    split <;> simp

theorem cancelMatchTimer_eq (pid : ℕ) (s : Lobby F) :
    ∃ wheel timers, s.cancelMatchTimer pid = { s with wheel := wheel, matchTimer := timers } := by
  unfold cancelMatchTimer
  split
  · exact ⟨s.wheel, s.matchTimer, rfl⟩
  · exact ⟨_, _, rfl⟩

variable [Scalar F]

/-- Two players leave the queue for a new room. -/
def pairUp (ks : List ℕ) (a b : ℕ) (pa pb : Session) (q : MatchQueue) (s : Lobby F) : Lobby F :=
  ((({ s with matchQueue := q }.cancelMatchTimer a).cancelMatchTimer b).createRoom ks a b pa pb)

/-- Apart from the timers, pairing is what `createRoom` does. -/
theorem pairUp_eq (ks : List ℕ) (a b : ℕ) (pa pb : Session) (q : MatchQueue) (s : Lobby F) :
    ∃ wheel timers, s.pairUp ks a b pa pb q =
      ({ s with matchQueue := q, wheel := wheel, matchTimer := timers } : Lobby F).createRoom
        ks a b pa pb := by
  obtain ⟨w₁, m₁, h₁⟩ := cancelMatchTimer_eq a ({ s with matchQueue := q } : Lobby F)
  obtain ⟨w₂, m₂, h₂⟩ := cancelMatchTimer_eq b
    ({ s with matchQueue := q, wheel := w₁, matchTimer := m₁ } : Lobby F)
  exact ⟨w₂, m₂, by rw [pairUp, h₁, h₂]⟩

theorem cells_pairUp (ks : List ℕ) (a b : ℕ) (pa pb : Session) (q : MatchQueue) (s : Lobby F)
    (r : ℕ) :
    (s.pairUp ks a b pa pb q).cells.lookup r = if r = s.nextRoomId then
      some ⟨Room.new ks s.nextRoomId [(pa.playerId, pa.conn), (pb.playerId, pb.conn)], []⟩
      else s.cells.lookup r := by
  obtain ⟨wheel, timers, heq⟩ := pairUp_eq ks a b pa pb q s
  rw [heq]
  exact UnorderedMap.lookup_insert_eq _ _ _ _

/-- The same for a player who has just joined the queue. -/
theorem cells_joined (ks : List ℕ) (pid a b : ℕ) (pa pb : Session) (q : MatchQueue) (s : Lobby F)
    (r : ℕ) :
    ((s.joinQueue pid).pairUp ks a b pa pb q).cells.lookup r = if r = s.nextRoomId then
      some ⟨Room.new ks s.nextRoomId [(pa.playerId, pa.conn), (pb.playerId, pb.conn)], []⟩
      else s.cells.lookup r :=
  cells_pairUp ks a b pa pb q (s.joinQueue pid) r

theorem new_cell_pairUp (ks : List ℕ) (a b : ℕ) (pa pb : Session) (q : MatchQueue) (s : Lobby F) :
    (s.pairUp ks a b pa pb q).cells.lookup s.nextRoomId =
      some ⟨Room.new ks s.nextRoomId [(pa.playerId, pa.conn), (pb.playerId, pb.conn)], []⟩ := by
  rw [cells_pairUp, if_pos rfl]

theorem lookup_pairUp (ks : List ℕ) (a b : ℕ) (pa pb : Session) (q : MatchQueue) (s : Lobby F)
    (p : ℕ) :
    (s.pairUp ks a b pa pb q).sessions.lookup p = (s.sessions.lookup p).map fun x =>
      if p = a ∨ p = b then { x with state := .kInRoom, roomId := s.nextRoomId } else x := by
  obtain ⟨wheel, timers, heq⟩ := pairUp_eq ks a b pa pb q s
  rw [heq]
  simp only [createRoom, UnorderedMap.lookup_modify]
  cases s.sessions.lookup p with
  | none => simp
  | some x =>
      by_cases ha : p = a
      · by_cases hb : p = b
        · simp only [if_pos ha, if_pos hb, Option.map_some, if_pos (Or.inl ha)]
        · simp only [if_pos ha, if_neg hb, Option.map_some, if_pos (Or.inl ha)]
      · by_cases hb : p = b
        · simp only [if_neg ha, if_pos hb, Option.map_some, if_pos (Or.inr hb)]
        · simp only [if_neg ha, if_neg hb, Option.map_some, if_neg (not_or.mpr ⟨ha, hb⟩)]

end Lobby

open Lobby

inductive Move {F : Type} [Scalar F] (φ : Deed → Prop) (s : Lobby F) : Lobby F → Prop where
  | plain (es : List (Entry F)) (store : List StoreTask) (hplain : ∀ e ∈ es, e.plain = true)
      (hanswer : ∀ e ∈ es, ∀ c, e.answers = some c → φ (.requests c)) :
      Move φ s { s with log := s.log ++ es, store := store }
  | heartbeat (pid now : ℕ) :
      Move φ s { s with sessions := s.sessions.modify pid fun p =>
        { p with lastHeartbeatMs := now } }
  | login (conn : Conn) (account token : String) (now : ℕ) (ks : List ℕ)
      (hfresh : s.connToPlayer.lookup conn = none ∨ φ .bindsTwice)
      (hrequest : φ (.requests conn)) :
      Move φ s ((s.addSession conn
        { playerId := s.nextPlayerId, token := token, account := account, conn := some conn
          lastHeartbeatMs := now } ks).emit (.send conn (.loginResp 0 s.nextPlayerId token)))
  | rebind (conn : Conn) {pid : ℕ} {p : Session} (now : ℕ)
      (hp : s.sessions.lookup pid = some p) (hnone : p.conn = none)
      (hfresh : s.connToPlayer.lookup conn = none ∨ φ .bindsTwice)
      (hrequest : φ (.requests conn)) :
      Move φ s ((s.rebindSession conn pid p now).emit
        (.send conn (.loginResp 0 p.playerId p.token)))
  | unbind {conn : Conn} {pid : ℕ} {p : Session} (hconn : s.connToPlayer.lookup conn = some pid)
      (hp : s.sessions.lookup pid = some p) (hstate : p.state ≠ .kMatching ∨ φ .dropsMatching)
      (hclose : φ (.closes conn)) :
      Move φ s (s.unbindSession conn pid p)
  | scheduleExpiry (pid : ℕ) : Move φ s (s.scheduleExpiry pid)
  | erase {pid : ℕ} {p : Session} (hp : s.sessions.lookup pid = some p) (hnone : p.conn = none)
      (hroom : p.roomId = 0) : Move φ s (s.eraseSession pid)
  | forfeit {pid : ℕ} {p : Session} (hthreads : s.gameThreads ≠ 0)
      (hp : s.sessions.lookup pid = some p) (hnone : p.conn = none) (hroom : p.roomId ≠ 0)
      (hdeed : φ .forfeits) :
      Move φ s ((s.mail p.roomId (.forceEnd (s.opponent pid p.roomId))).eraseSession pid)
  | wait {pid : ℕ} {p : Session} (hp : s.sessions.lookup pid = some p) (hconn : p.conn.isSome)
      (hstate : p.state = .kLobby) (hempty : s.matchQueue.waiting = ∅) :
      Move φ s { s.joinQueue pid with matchQueue := (s.matchQueue.push pid).1.compact }
  | pair {pid a b : ℕ} {p pa pb : Session} {q : MatchQueue} (ks : List ℕ)
      (hp : s.sessions.lookup pid = some p) (hconn : p.conn.isSome) (hstate : p.state = .kLobby)
      (hne : a ≠ b) (hwaiting : insert pid s.matchQueue.waiting = {a, b})
      (hpa : (s.joinQueue pid).sessions.lookup a = some pa)
      (hpb : (s.joinQueue pid).sessions.lookup b = some pb) (hq : q.waiting = ∅) :
      Move φ s ((s.joinQueue pid).pairUp ks a b pa pb q)
  | matchTimeout {n : NodePtr} {rest : List NodePtr} {node : Node TimerCb}
      {w : TimerWheel TimerCb} {pid : ℕ} (hfiring : s.firing = n :: rest)
      (htake : s.wheel.take n = some (node, w)) (hcb : node.cb = .matchTimeout pid) :
      Move φ s ({ s with firing := rest, wheel := w }.matchTimeout pid)
  | take {n : NodePtr} {rest : List NodePtr} {node : Node TimerCb} {w : TimerWheel TimerCb}
      (hfiring : s.firing = n :: rest) (htake : s.wheel.take n = some (node, w))
      (hcb : ∀ pid, node.cb ≠ .matchTimeout pid) :
      Move φ s { s with firing := rest, wheel := w }
  | skip {n : NodePtr} {rest : List NodePtr} (hfiring : s.firing = n :: rest)
      (htake : s.wheel.take n = none) : Move φ s { s with firing := rest }
  | wheelTick (hfiring : s.firing = []) : Move φ s s.wheelTick
  | scheduleSweep : Move φ s s.scheduleSweep
  | mail {r : ℕ} {cell : RoomCell F} {task : RoomTask F} (hthreads : s.gameThreads ≠ 0)
      (hcell : s.cells.lookup r = some cell) (hpost : s.Postable r task)
      (hforce : ∀ w, task ≠ .forceEnd w) : Move φ s (s.mail r task)
  | quiet {r : ℕ} {cell : RoomCell F} {op : RoomOp F} {mailbox : List (RoomTask F)}
      {cells : UnorderedMap ℕ (RoomCell F)} (hcell : s.cells.lookup r = some cell)
      (hsource : s.Source r cell op mailbox)
      (hended : (cell.room.apply op).1.ended = cell.room.ended)
      (hquiet : ∀ act ∈ (cell.room.apply op).2, act.quiet = true)
      (hforce : ∀ w, op = .task (.forceEnd w) → cell.room.ended = true)
      (hcells : s.Replaced r ⟨(cell.room.apply op).1, mailbox⟩ cells)
      (hlate : ∀ p c, op = .task (.rebind p (some c)) → cell.room.ended = true →
        φ (.lateRebind c)) :
      Move φ s { s with
        cells := cells
        log := s.log ++ (cell.room.apply op).2.map (Entry.room r) }
  | closing {r : ℕ} {cell : RoomCell F} {op : RoomOp F} {mailbox : List (RoomTask F)}
      {cells : UnorderedMap ℕ (RoomCell F)} {winner : ℕ} {pre : List (RoomAct F)}
      (hcell : s.cells.lookup r = some cell) (hsource : s.Source r cell op mailbox)
      (hrunning : cell.room.ended = false) (hended : (cell.room.apply op).1.ended = true)
      (hwinner : op = .task (.forceEnd winner) ∨ (cell.room.conns.lookup winner).isSome)
      (hpre : ∀ act ∈ pre, act.quiet = true)
      (hacts : (cell.room.apply op).2 = pre ++ (cell.room.apply op).1.closing winner)
      (hcells : s.Replaced r ⟨(cell.room.apply op).1, mailbox ++ [.resetTicker]⟩ cells) :
      Move φ s (closeRoom r winner { s with
        cells := cells
        log := s.log ++ (cell.room.apply op).2.map (Entry.room r) })
  | roomEnd {r winner : ℕ} {rest : List (ℕ × ℕ)} (hends : s.roomEnds = (r, winner) :: rest) :
      Move φ s ({ s with roomEnds := rest }.onRoomEnd r winner)

theorem Move.mono {F : Type} [Scalar F] {φ ψ : Deed → Prop} {s s' : Lobby F} (h : Move φ s s')
    (himp : ∀ deed, φ deed → ψ deed) : Move ψ s s' := by
  cases h with
  | plain es store hplain hanswer =>
      exact .plain es store hplain fun e he c hc => himp _ (hanswer e he c hc)
  | heartbeat pid now => exact .heartbeat pid now
  | login conn account token now ks hfresh hrequest =>
      exact .login conn account token now ks (hfresh.imp_right (himp _)) (himp _ hrequest)
  | rebind conn now hp hnone hfresh hrequest =>
      exact .rebind conn now hp hnone (hfresh.imp_right (himp _)) (himp _ hrequest)
  | unbind hconn hp hstate hclose =>
      exact .unbind hconn hp (hstate.imp_right (himp _)) (himp _ hclose)
  | scheduleExpiry pid => exact .scheduleExpiry pid
  | erase hp hnone hroom => exact .erase hp hnone hroom
  | forfeit hthreads hp hnone hroom hdeed =>
      exact .forfeit hthreads hp hnone hroom (himp _ hdeed)
  | wait hp hconn hstate hempty => exact .wait hp hconn hstate hempty
  | pair ks hp hconn hstate hne hwaiting hpa hpb hq =>
      exact .pair ks hp hconn hstate hne hwaiting hpa hpb hq
  | matchTimeout hfiring htake hcb => exact .matchTimeout hfiring htake hcb
  | take hfiring htake hcb => exact .take hfiring htake hcb
  | skip hfiring htake => exact .skip hfiring htake
  | wheelTick hfiring => exact .wheelTick hfiring
  | scheduleSweep => exact .scheduleSweep
  | mail hthreads hcell hpost hforce => exact .mail hthreads hcell hpost hforce
  | quiet hcell hsource hended hquiet hforce hcells hlate =>
      exact .quiet hcell hsource hended hquiet hforce hcells fun p c hop he =>
        himp _ (hlate p c hop he)
  | closing hcell hsource hrunning hended hwinner hpre hacts hcells =>
      exact .closing hcell hsource hrunning hended hwinner hpre hacts hcells
  | roomEnd hends => exact .roomEnd hends

end GameServer.Game
