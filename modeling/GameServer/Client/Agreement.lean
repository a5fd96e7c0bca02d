import GameServer.Client.Engagement

/-!
One client and the server, joined by channels.

`Sys` is the lobby with its rooms, one `GameSession` and the connection that
the client has at the moment: a FIFO channel in each direction. Everything
else that can happen at the server is an arbitrary event of the lobby: other
clients, timers, rooms, the storage thread. A connection that the client has
given up belongs to that part as well, so what was under way on it may still
arrive, or not, followed by its end.

The client enters a battle when it is told so, and also on its own account,
when it is let in again after it has lost its connection in a battle. By then
the battle may be over. It may also end while the room waits to be told of
the new connection, and `rebind` sends `EnterRoom` all the same.
-/

namespace GameServer.Client

open GameServer.Lib GameServer.Proto GameServer.Timer GameServer.Game
open Lobby

variable {F : Type}

theorem genToken_ne (rng : ℕ × ℕ) : genToken rng ≠ "" := by
  have hlength : 0 < (hex16 rng.1).length := by
    simp only [hex16, List.length_append, List.length_replicate]
    omega
  intro h
  have hnil : hex16 rng.1 ++ hex16 rng.2 = [] := by
    simpa [genToken] using congrArg String.toList h
  rw [(List.append_eq_nil_iff.mp hnil).1] at hlength
  exact absurd hlength (by simp)

/-- The connection of the client. `down` is what has been sent to it and `up`
what it has sent; `closed` says that the server knows that it is gone. -/
structure Link (F : Type) where
  conn : Conn
  up : List (ClientMsg F)
  down : List (ServerMsg F) := []
  closed : Bool := false

structure Sys (F : Type) where
  lobby : Lobby F
  client : GameSession := {}
  link : Option (Link F) := none
  /-- All connections there have been. -/
  used : List Conn := []

inductive SysEvent (F : Type) where
  | connecting
  | connected (conn : Conn) (account : String)
  | disconnected
  | backToLobby
  | requestMatch
  | requestLeaderboard (topN : ℕ)
  | sendInput (moveX moveY : F) (attack : Bool)
  | tick (nowMs : ℤ)
  /-- The client handles the oldest message it has been sent. -/
  | receive
  /-- The server handles the oldest message of the client. -/
  | deliver (now : ℕ) (rng : ℕ × ℕ) (ks : List ℕ)
  /-- The server handles the end of the client's connection. -/
  | close
  /-- Anything else that happens at the server. -/
  | server (e : LobbyEvent F)

/-- The handler that the dispatcher calls for a message. -/
def handler (conn : Conn) (now : ℕ) (rng : ℕ × ℕ) (ks : List ℕ) : ClientMsg F → LobbyEvent F
  | .loginReq account => .login conn account (genToken rng) now ks
  | .reconnectReq playerId token => .reconnect conn playerId token now
  | .matchReq _ => .matchReq conn ks
  | .playerInput input => .input conn input
  | .heartbeat clientMs => .heartbeat conn clientMs now
  | .leaderboardReq topN => .leaderboard conn topN

/-- The connection that an event comes from. -/
def eventConn : LobbyEvent F → Option Conn
  | .login conn _ _ _ _ | .reconnect conn _ _ _ | .matchReq conn _ | .input conn _
  | .heartbeat conn _ _ | .disconnect conn | .leaderboard conn _ => some conn
  | _ => none

/-- Handled on the IO thread; the lobby need not be free. -/
def isLeaderboardReq : ClientMsg F → Bool
  | .leaderboardReq _ => true
  | _ => false

namespace Sys

/-- The client has acted and sent something. -/
def act (r : GameSession × List (ClientMsg F)) (s : Sys F) : Sys F :=
  { s with client := r.1, link := s.link.map fun l => { l with up := l.up ++ r.2 } }

variable [Scalar F]

/-- The server handles an event. What it sends to the client's connection goes
into the channel. -/
def serve (e : LobbyEvent F) (s : Sys F) : Sys F :=
  { s with
    lobby := s.lobby.step e
    link := s.link.map fun l =>
      if l.closed then l
      else { l with
        down := l.down ++ sentTo l.conn ((s.lobby.step e).log.drop s.lobby.log.length) } }

def deliver (now : ℕ) (rng : ℕ × ℕ) (ks : List ℕ) (s : Sys F) : Sys F :=
  match s.link with
  | none => s
  | some l =>
      if l.closed then s
      else
        match l.up with
        | [] => s
        | msg :: up =>
            if s.lobby.firing = [] || isLeaderboardReq msg then
              serve (handler l.conn now rng ks msg) { s with link := some { l with up := up } }
            else s

def receive (s : Sys F) : Sys F :=
  match s.link with
  | none => s
  | some l =>
      match l.down with
      | [] => s
      | msg :: down =>
          { s with client := s.client.handleMessage msg, link := some { l with down := down } }

def close (s : Sys F) : Sys F :=
  match s.link with
  | none => s
  | some l =>
      if l.closed || s.lobby.firing ≠ [] then s
      else serve (.disconnect l.conn) { s with link := some { l with closed := true } }

def connected (conn : Conn) (account : String) (s : Sys F) : Sys F :=
  if s.link.isNone && s.client.state = .connecting && conn ∉ s.used then
    let (client, up) := s.client.transportConnected account
    { s with client := client, link := some { conn := conn, up := up }, used := conn :: s.used }
  else s

def step (s : Sys F) : SysEvent F → Sys F
  | .connecting =>
      if s.link.isNone then { s with client := s.client.transportConnecting } else s
  | .connected conn account => s.connected conn account
  | .disconnected => { s with client := s.client.transportDisconnected, link := none }
  | .backToLobby => s.act (s.client.backToLobby, [])
  | .requestMatch => s.act s.client.requestMatch
  | .requestLeaderboard topN => s.act (s.client.requestLeaderboard topN)
  | .sendInput moveX moveY attack => s.act (s.client.sendInput moveX moveY attack)
  | .tick nowMs => s.act (s.client.tick nowMs)
  | .receive => s.receive
  | .deliver now rng ks => s.deliver now rng ks
  | .close => s.close
  | .server e =>
      match eventConn e with
      | none => s.serve e
      | some conn =>
          if s.link.any (·.conn = conn) then s else serve e { s with used := conn :: s.used }

def init (gameThreads : ℕ) (writer : Bool) : Sys F := { lobby := Lobby.init gameThreads writer }

def run (gameThreads : ℕ) (writer : Bool) (es : List (SysEvent F)) : Sys F :=
  es.foldl step (init gameThreads writer)

/-- The client is connected, and nothing is in flight. -/
structure Settled (s : Sys F) (l : Link F) : Prop where
  link : s.link = some l
  opened : l.closed = false
  up : l.up = []
  down : l.down = []
  mailboxes : ∀ r cell, s.lobby.cells.lookup r = some cell → cell.mailbox = []
  roomEnds : s.lobby.roomEnds = []

/-- `Settled` as a check. -/
def isSettled (s : Sys F) : Bool :=
  s.link.any (fun l => !l.closed && l.up.isEmpty && l.down.isEmpty) &&
    s.lobby.cells.entries.all (·.2.mailbox.isEmpty) && s.lobby.roomEnds.isEmpty

omit [Scalar F] in
theorem settled_of_isSettled {s : Sys F} (h : s.isSettled = true) : ∃ l, s.Settled l := by
  simp only [isSettled, Bool.and_eq_true, Option.any_eq_true_iff_get, List.all_eq_true,
    List.isEmpty_iff] at h
  obtain ⟨⟨⟨hsome, hlink⟩, hcells⟩, hends⟩ := h
  simp only [Bool.not_eq_true'] at hlink
  obtain ⟨⟨hclosed, hup⟩, hdown⟩ := hlink
  refine ⟨s.link.get hsome, (Option.some_get hsome).symm, hclosed, hup, hdown,
    fun r cell hcell => ?_, hends⟩
  exact hcells ⟨r, cell⟩ (UnorderedMap.mem_entries_iff.mpr hcell)

/-- A client in a battle has a session in a room whose battle goes on. -/
def Agrees (s : Sys F) : Prop :=
  ∀ l, s.Settled l → s.client.state = .inBattle → ∃ p x cell,
    s.lobby.connToPlayer.lookup l.conn = some p ∧ s.lobby.sessions.lookup p = some x ∧
    x.state = .kInRoom ∧ s.lobby.cells.lookup x.roomId = some cell ∧ cell.room.ended = false

/-- The server lets the client in again after it has lost its connection in a
battle, but its session is in no room any more. -/
def returnsLate (s : Sys F) (l : Link F) : Bool :=
  match l.up with
  | .reconnectReq pid token :: _ =>
      s.client.wasInBattle && s.lobby.accepts pid token &&
        (s.lobby.sessions.lookup pid).any (·.state ≠ .kInRoom)
  | _ => false

/-- The steps in which client and server lose each other: a late return, or
a rebind to the client's connection in a room whose battle is over. -/
def strays (s : Sys F) : SysEvent F → Bool
  | .deliver _ _ _ => s.link.any fun l => !l.closed && s.lobby.firing = [] && s.returnsLate l
  | .server e => s.link.any fun l => !l.closed && s.lobby.commits e (.lateRebind l.conn)
  | _ => false

end Sys

/-! ### Events of the server -/

theorem commits_requests {s : Lobby F} {e : LobbyEvent F} {c : Conn}
    (h : s.commits e (.requests c) = true) : eventConn e = some c := by
  cases e with
  | login | reconnect => exact congrArg some (of_decide_eq_true h).symm
  | _ => cases h

theorem commits_closes {s : Lobby F} {e : LobbyEvent F} {c : Conn}
    (h : s.commits e (.closes c) = true) : eventConn e = some c := by
  cases e with
  | disconnect => exact congrArg some (of_decide_eq_true h).symm
  | _ => cases h

/-- An event of another connection is neither a request of `c` nor its end. -/
theorem not_commits_of_ne {s : Lobby F} {e : LobbyEvent F} {c : Conn} (h : eventConn e ≠ some c)
    (deed : Deed) (hd : s.commits e deed = true) : deed ≠ .requests c ∧ deed ≠ .closes c := by
  constructor
  · rintro rfl
    exact h (commits_requests hd)
  · rintro rfl
    exact h (commits_closes hd)

variable [Scalar F]

omit [Scalar F] in
theorem Tracks.trans {p : ℕ} {c : Conn} {s t u : Lobby F} (h : Tracks p c s t)
    (h' : Tracks p c t u) : Tracks p c s u := by
  obtain ⟨-, es, hlog, hlogin, heng⟩ := h
  obtain ⟨hbound, es', hlog', hlogin', heng'⟩ := h'
  refine ⟨hbound, es ++ es', by rw [hlog', hlog, List.append_assoc], ?_, fun client hclient hin => ?_⟩
  · intro msg hmsg
    rw [sentTo_append] at hmsg
    exact (List.mem_append.mp hmsg).elim (hlogin msg) (hlogin' msg)
  · rw [sentTo_append, GameSession.handleAll_append] at hin
    exact heng' _ (heng client hclient) hin

theorem fresh_step {s : Lobby F} (hbase : Base s) {c : Conn} (h : Fresh c s) (e : LobbyEvent F)
    (hconn : ∀ deed, s.commits e deed = true → deed ≠ .requests c ∧ deed ≠ .closes c) :
    Fresh c (s.step e) ∧
      ∃ es, (s.step e).log = s.log ++ es ∧ ∀ msg ∈ sentTo c es, msg.inert = true := by
  refine invariant_of_moves (φ := fun deed => s.commits e deed)
    (I := fun t => Fresh c t ∧ ∃ es, t.log = s.log ++ es ∧ ∀ msg ∈ sentTo c es, msg.inert = true)
    (fun t t' ht ⟨hfresh, es, hlog, hes⟩ hmove => ?_) hbase
    ⟨h, [], (List.append_nil _).symm, by simp⟩ (step_moves hbase e)
  obtain ⟨hfresh', es', hlog', hes'⟩ := hfresh.move (fun hd => (hconn _ hd).1 rfl)
    (fun hd => (hconn _ hd).2 rfl) ht hmove
  refine ⟨hfresh', es ++ es', by rw [hlog', hlog, List.append_assoc], fun msg hmsg => ?_⟩
  rw [sentTo_append] at hmsg
  exact (List.mem_append.mp hmsg).elim (hes msg) (hes' msg)

theorem fresh_of_unused {s : Lobby F} (hbase : Base s) {c : Conn} (h : Fresh c s)
    {e : LobbyEvent F} (hconn : eventConn e ≠ some c) : Fresh c (s.step e) :=
  (fresh_step hbase h e (not_commits_of_ne hconn)).1

/-- What is known of the lobby in every state of a run. -/
structure Sound (s : Lobby F) : Prop where
  base : Base s
  orderly : Orderly s
  seating : Seating s

theorem Sound.moves {φ : Deed → Prop} {s s' : Lobby F} (h : Sound s) (hmoves : Moves φ s s') :
    Sound s' := by
  have hrest := invariant_of_moves (I := fun t => Orderly t ∧ Seating t)
    (fun t t' ht hI hmove => ⟨hI.1.move ht hmove, hI.2.move ht hmove⟩) h.base
    ⟨h.orderly, h.seating⟩ hmoves
  exact ⟨h.base.moves hmoves, hrest.1, hrest.2⟩

theorem Sound.step {s : Lobby F} (h : Sound s) (e : LobbyEvent F) : Sound (s.step e) :=
  h.moves (step_moves h.base e)

theorem bound_step {s : Lobby F} (hsound : Sound s) {p : ℕ} {c : Conn} (h : Bound p c s)
    (e : LobbyEvent F) (hconn : ∀ deed, s.commits e deed = true →
      deed ≠ .requests c ∧ deed ≠ .closes c ∧ deed ≠ .lateRebind c) :
    Tracks p c s (s.step e) := by
  have hrefl : Tracks p c s s :=
    .of_inert h id (show s.log = s.log ++ [] from (List.append_nil _).symm) (by simp)
  have hall := invariant_of_moves (φ := fun deed => s.commits e deed)
    (I := fun t => (Orderly t ∧ Seating t) ∧ Tracks p c s t)
    (fun t t' ht hI hmove => ⟨⟨hI.1.1.move ht hmove, hI.1.2.move ht hmove⟩,
      hI.2.trans (hI.2.bound.move (fun hd => (hconn _ hd).1 rfl) (fun hd => (hconn _ hd).2.1 rfl)
        (fun hd => (hconn _ hd).2.2 rfl) ht hI.1.1 hI.1.2 hmove)⟩) hsound.base
    ⟨⟨hsound.orderly, hsound.seating⟩, hrefl⟩ (step_moves hsound.base e)
  exact hall.2

/-! ### Requests -/

omit [Scalar F] in
theorem Bound.congr {p : ℕ} {c : Conn} {s s' : Lobby F} (h : Bound p c s)
    (htable : s'.connToPlayer = s.connToPlayer) (hsessions : s'.sessions = s.sessions)
    (hcells : s'.cells = s.cells) : Bound p c s' := by
  have hcarries : ∀ r, s'.Carries p r ↔ s.Carries p r := by
    intro r
    unfold Lobby.Carries
    rw [hsessions]
  refine ⟨by rw [htable]; exact h.table, ⟨?_, ?_, ?_⟩, fun r cell => ?_, fun r cell => ?_⟩
  · rw [hsessions]
    exact h.held.sessions
  · rw [hcells]
    exact h.held.slots
  · rw [hcells]
    exact h.held.tasks
  · rw [hcells, hcarries]
    exact h.seated r cell
  · rw [hcells, hcarries]
    exact h.aims r cell

omit [Scalar F] in
theorem Engaged.congr {p : ℕ} {c : Conn} {s s' : Lobby F} (h : Engaged p c s)
    (hsessions : s'.sessions = s.sessions) (hcells : s'.cells = s.cells) : Engaged p c s' := by
  refine h.frame hcells fun r _ => ?_
  unfold Lobby.Carries
  rw [hsessions]

omit [Scalar F] in
/-- Nothing that matters here is changed by an order to the storage thread. -/
theorem enqueue_rest (c : Conn) (task : StoreTask) (s : Lobby F) :
    (s.enqueue task).connToPlayer = s.connToPlayer ∧ (s.enqueue task).sessions = s.sessions ∧
      (s.enqueue task).cells = s.cells ∧
      ∃ es, (s.enqueue task).log = s.log ++ es ∧ sentTo c es = [] := by
  unfold enqueue
  split
  · exact ⟨rfl, rfl, rfl, _, rfl, rfl⟩
  · exact ⟨rfl, rfl, rfl, [], (List.append_nil _).symm, rfl⟩

omit [Scalar F] in
/-- A login on a connection that nothing is known of. -/
theorem bound_onLogin {s : Lobby F} {c : Conn} (h : Fresh c s) (account token : String) (now : ℕ)
    (ks : List ℕ) :
    Bound s.nextPlayerId c (s.onLogin c account token now ks) ∧
      ∃ es, (s.onLogin c account token now ks).log = s.log ++ es ∧
        sentTo c es = [.loginResp 0 s.nextPlayerId token] := by
  obtain ⟨htable, hsessions, hcells, es, hlog, hes⟩ := enqueue_rest c (.setOnline account)
    ((s.addSession c { playerId := s.nextPlayerId, token := token, account := account
                       conn := some c, lastHeartbeatMs := now } ks).emit
      (.send c (.loginResp 0 s.nextPlayerId token)))
  constructor
  · refine Bound.congr ⟨?_, ⟨fun q x hx hc => ?_, ?_, ?_⟩, ?_, ?_⟩ htable hsessions hcells
    · exact (UnorderedMap.lookup_insert_eq _ _ _ _).trans (if_pos rfl)
    · by_contra hne
      simp only [emit, addSession, UnorderedMap.lookup_reorder, UnorderedMap.lookup_insert_eq,
        if_neg hne] at hx
      exact h.held.sessions q x hx hc
    · exact fun r cell q hcell hq => (h.held.slots r cell q hcell hq).elim
    · exact fun r cell q hcell hq => (h.held.tasks r cell q hcell hq).elim
    · rintro r cell hcell - (hc | hc)
      · exact (h.held.slots r cell _ hcell hc).elim
      · exact (h.held.tasks r cell _ hcell hc).elim
    · rintro r cell ⟨x, hx, hr⟩ hne -
      simp only [emit, addSession, UnorderedMap.lookup_reorder, UnorderedMap.lookup_insert_eq,
        if_true] at hx
      obtain rfl := Option.some.inj hx
      exact absurd hr.symm hne
  · refine ⟨.send c (.loginResp 0 s.nextPlayerId token) :: es, ?_, ?_⟩
    · exact hlog.trans (List.append_assoc ..)
    · rw [sentTo_send, hes]

/-- The session has the new connection, but its room has not. -/
structure HalfBound (p : ℕ) (c : Conn) (x : Session) (s : Lobby F) : Prop where
  table : s.connToPlayer.lookup c = some p
  session : s.sessions.lookup p = some x
  sessions : ∀ q y, s.sessions.lookup q = some y → y.conn = some c → q = p
  slots : ∀ r cell q, s.cells.lookup r = some cell →
    cell.room.conns.lookup q ≠ some (some c)
  tasks : ∀ r cell q, s.cells.lookup r = some cell →
    RoomTask.rebind q (some c) ∉ cell.mailbox

omit [Scalar F] in
theorem HalfBound.bound {p : ℕ} {c : Conn} {x : Session} {s : Lobby F} (h : HalfBound p c x s)
    (hroom : x.roomId = 0) : Bound p c s := by
  refine ⟨h.table, ⟨h.sessions, ?_, ?_⟩, ?_, ?_⟩
  · exact fun r cell q hcell hq => absurd hq (h.slots r cell q hcell)
  · exact fun r cell q hcell hq => absurd hq (h.tasks r cell q hcell)
  · rintro r cell hcell - (hc | hc)
    · exact absurd hc (h.slots r cell p hcell)
    · exact absurd hc (h.tasks r cell p hcell)
  · intro r cell hr hne
    exact absurd (hr.unique ⟨x, h.session, hroom⟩) hne

/-! What a room does with a connection that it is told about. -/

theorem ended_deliver_rebind (gameThreads p : ℕ) (c : Conn) (cell : RoomCell F) :
    (deliver gameThreads (.rebind p (some c)) cell).room.ended = cell.room.ended := by
  simp only [deliver, Room.exec, Room.rebind]
  split
  · split <;> rfl
  · rfl

theorem slot_deliver_rebind {gameThreads p q : ℕ} {c : Conn} {cell : RoomCell F}
    (h : (deliver gameThreads (.rebind p (some c)) cell).room.conns.lookup q = some (some c)) :
    cell.room.conns.lookup q = some (some c) ∨ q = p := by
  unfold deliver at h
  split at h
  · have h : (cell.room.apply (.task (.rebind p (some c)))).1.conns.lookup q = some (some c) := h
    refine (Room.slot_apply h).imp_right fun hop => ?_
    simpa using hop.symm
  · exact .inl h

theorem mailbox_deliver_rebind {gameThreads p q : ℕ} {c : Conn} {cell : RoomCell F}
    (h : RoomTask.rebind q (some c) ∈ (deliver gameThreads (.rebind p (some c)) cell).mailbox) :
    RoomTask.rebind q (some c) ∈ cell.mailbox ∨ q = p := by
  unfold deliver at h
  split at h
  · exact .inl h
  · refine (List.mem_append.mp h).imp_right fun hmem => ?_
    simpa using hmem

theorem isLoginResp_postedActs {gameThreads p r : ℕ} {c : Conn} {cell : RoomCell F}
    {msg : ServerMsg F}
    (h : msg ∈ sentTo c ((postedActs gameThreads (.rebind p (some c)) cell).map (Entry.room r))) :
    msg.isLoginResp = false := by
  rw [sentTo_room] at h
  obtain ⟨act, hact, hin⟩ := List.mem_flatMap.mp h
  unfold postedActs at hact
  split at hact
  · have hact : act ∈ (cell.room.apply (.task (.rebind p (some c)))).2 := hact
    obtain ⟨-, hinert | ⟨w, hw⟩ | ⟨rfl, -⟩⟩ := Room.mem_toConn hact hin
    · exact isLoginResp_of_inert hinert
    · rw [hw] at hin
      obtain ⟨rfl, -⟩ := Room.mem_broadcast hin
      rfl
    · rfl
  · cases hact

/-- The room is told: at once, or by a task. -/
theorem HalfBound.post {p : ℕ} {c : Conn} {x : Session} {s : Lobby F} (h : HalfBound p c x s)
    (hbase : Base s) (hseating : Seating s) (hroom : x.roomId ≠ 0) :
    Bound p c (s.post x.roomId (.rebind p (some c))) ∧
      Engaged p c (s.post x.roomId (.rebind p (some c))) ∧
      ∃ es, (s.post x.roomId (.rebind p (some c))).log = s.log ++ es ∧
        ∀ msg ∈ sentTo c es, msg.isLoginResp = false := by
  have hmem : x.roomId ∈ s.rooms := (hbase.tables.session h.session).room hroom
  obtain ⟨cell, hcell⟩ := Option.isSome_iff_exists.mp (hbase.live hmem)
  have hok := hbase.cell hcell
  obtain ⟨a, b, hseats⟩ := hok.seats
  have hr : s.Carries p x.roomId := ⟨x, h.session, rfl⟩
  obtain ⟨d, hd, hseat⟩ := hseating.seated p x.roomId hr hroom
  obtain rfl := Option.some.inj (hcell.symm.trans hd)
  rw [post_quiet hcell (Room.exec_quiet hseats (by simp) (by simp))]
  have hcells : ∀ r', (s.cells.modify x.roomId (deliver s.gameThreads
      (.rebind p (some c)))).lookup r' =
      if r' = x.roomId then some (deliver s.gameThreads (.rebind p (some c)) cell)
      else s.cells.lookup r' := by
    intro r'
    rw [UnorderedMap.lookup_modify]
    split
    · next heq => rw [heq, hcell]; rfl
    · rfl
  refine ⟨⟨h.table, ⟨h.sessions, fun r' d q hd hq => ?_, fun r' d q hd hq => ?_⟩,
    fun r' d hd _ hc => ?_, fun r' d hr' _ hd => ?_⟩, ?_, _, rfl,
    fun msg hmsg => isLoginResp_postedActs hmsg⟩
  · rw [hcells] at hd
    split at hd
    · obtain rfl := Option.some.inj hd
      exact (slot_deliver_rebind hq).resolve_left (h.slots _ cell q hcell)
    · exact absurd hq (h.slots r' d q hd)
  · rw [hcells] at hd
    split at hd
    · obtain rfl := Option.some.inj hd
      exact (mailbox_deliver_rebind hq).resolve_left (h.tasks _ cell q hcell)
    · exact absurd hq (h.tasks r' d q hd)
  · rw [hcells] at hd
    split at hd
    · next heq => exact heq ▸ hr
    · rcases hc with hc | hc
      · exact absurd hc (h.slots r' d p hd)
      · exact absurd hc (h.tasks r' d p hd)
  · have heq : r' = x.roomId := Lobby.Carries.unique hr' hr
    rw [hcells, if_pos heq] at hd
    obtain rfl := Option.some.inj hd
    rw [aim_deliver hok.idle hseat, RoomTask.setSlot, if_pos rfl]
  · have hended := ended_deliver_rebind s.gameThreads p c cell
    cases hrun : cell.room.ended with
    | false =>
        exact .inl ⟨x.roomId, _, hr, hroom, (hcells _).trans (if_pos rfl), hended.trans hrun⟩
    | true =>
        refine .inr ⟨x.roomId, _, (hcells _).trans (if_pos rfl), hended.trans hrun, ?_⟩
        have hthreads : s.gameThreads ≠ 0 := by
          intro h0
          rw [hok.running h0 hmem] at hrun
          cases hrun
        simp [deliver, hthreads]

/-- A reconnect that is accepted, on a connection that nothing is known of. -/
theorem bound_onReconnect {s : Lobby F} (hsound : Sound s) {c : Conn} (h : Fresh c s) {pid : ℕ}
    {x : Session} (hx : s.sessions.lookup pid = some x) (hnone : x.conn = none) (now : ℕ) :
    Bound pid c (s.onReconnect c pid x.token now) ∧
      (x.state = .kInRoom → Engaged pid c (s.onReconnect c pid x.token now)) ∧
      ∃ es msgs, (s.onReconnect c pid x.token now).log = s.log ++ es ∧
        sentTo c es = .loginResp 0 pid x.token :: msgs ∧
        (∀ msg ∈ msgs, msg.isLoginResp = false) ∧ (x.state ≠ .kInRoom → msgs = []) := by
  have hok := hsound.base.tables.session hx
  have hid : x.playerId = pid := hok.id
  have hmove : Move (fun _ => True) s ((s.rebindSession c pid x now).emit
      (.send c (.loginResp 0 x.playerId x.token))) :=
    .rebind c now hx hnone (.inr trivial) trivial
  have hsound' := hsound.moves (.single hmove)
  have heq : s.onReconnect c pid x.token now = (((s.rebindSession c pid x now).emit
      (.send c (.loginResp 0 x.playerId x.token))).postToRoom x
      (.rebind x.playerId (some c))).enqueue (.setOnline x.account) := by
    simp [onReconnect, hx, hnone]
  rw [hid] at heq hsound'
  have hhalf : HalfBound pid c
      { x with conn := some c, lastHeartbeatMs := now, expireTimerId := 0 }
      ((s.rebindSession c pid x now).emit (.send c (.loginResp 0 pid x.token))) := by
    refine ⟨?_, ?_, fun q y hy hc => ?_, ?_, ?_⟩
    · simp only [emit, rebindSession, hid]
      exact (UnorderedMap.lookup_insert_eq _ _ _ _).trans (if_pos rfl)
    · simp [emit, rebindSession, hx]
    · by_contra hne
      simp only [emit, rebindSession, UnorderedMap.lookup_modify, if_neg hne] at hy
      exact h.held.sessions q y hy hc
    · exact fun r cell q hcell hq => h.held.slots r cell q hcell hq
    · exact fun r cell q hcell hq => h.held.tasks r cell q hcell hq
  rw [heq]
  by_cases hstate : x.state = .kInRoom
  · have hroom : x.roomId ≠ 0 := hok.inRoom.mpr hstate
    have hmem : x.roomId ∈ s.rooms := hok.room hroom
    have hpost : ∀ task, ((s.rebindSession c pid x now).emit
        (.send c (.loginResp 0 pid x.token))).postToRoom x task =
        ((s.rebindSession c pid x now).emit
          (.send c (.loginResp 0 pid x.token))).post x.roomId task := by
      intro task
      rw [postToRoom, if_pos]
      simp only [hstate, decide_true, Bool.true_and, decide_eq_true_eq]
      exact hmem
    rw [hpost]
    obtain ⟨hbound, heng, es, hlog, hes⟩ := hhalf.post hsound'.base hsound'.seating hroom
    obtain ⟨htable, hsessions, hcells, es', hlog', hes'⟩ := enqueue_rest c (.setOnline x.account)
      (((s.rebindSession c pid x now).emit (.send c (.loginResp 0 pid x.token))).post x.roomId
        (.rebind pid (some c)))
    refine ⟨hbound.congr htable hsessions hcells, fun _ => heng.congr hsessions hcells,
      .send c (.loginResp 0 pid x.token) :: (es ++ es'), sentTo c es, ?_, ?_, hes,
      fun hno => absurd hstate hno⟩
    · rw [hlog', hlog]
      simp only [emit, rebindSession, List.append_assoc, List.cons_append, List.nil_append]
    · rw [sentTo_send, sentTo_append, hes', List.append_nil]
  · have hroom : x.roomId = 0 := by
      by_contra hne
      exact hstate (hok.inRoom.mp hne)
    have hpost : ∀ task, ((s.rebindSession c pid x now).emit
        (.send c (.loginResp 0 pid x.token))).postToRoom x task =
        (s.rebindSession c pid x now).emit (.send c (.loginResp 0 pid x.token)) := by
      intro task
      rw [postToRoom, if_neg]
      simp [hstate]
    rw [hpost]
    obtain ⟨htable, hsessions, hcells, es', hlog', hes'⟩ := enqueue_rest c (.setOnline x.account)
      ((s.rebindSession c pid x now).emit (.send c (.loginResp 0 pid x.token)))
    refine ⟨(hhalf.bound hroom).congr htable hsessions hcells, fun hyes => absurd hyes hstate,
      .send c (.loginResp 0 pid x.token) :: es', [], ?_, ?_, by simp, fun _ => rfl⟩
    · rw [hlog']
      simp only [emit, rebindSession, List.append_assoc, List.cons_append, List.nil_append]
    · rw [sentTo_send, hes']

/-! ### The whole system -/

def isRequest : ClientMsg F → Bool
  | .loginReq _ | .reconnectReq _ _ => true
  | _ => false

/-- The request that a client makes in its state. -/
def Fits (client : GameSession) : ClientMsg F → Prop
  | .loginReq _ => client.wasInBattle = false
  | .reconnectReq pid token => pid ≠ 0 ∧ token ≠ ""
  | _ => False

/-- How things stand between the client and the server on an open link: the
request is still to be handled, it has been refused, or it was granted to
player `p`. -/
inductive LinkOk (client : GameSession) (l : Link F) (s : Lobby F) : Prop where
  | waiting {msg : ClientMsg F} {up : List (ClientMsg F)} (hup : l.up = msg :: up)
      (hfits : Fits client msg) (hrest : ∀ m ∈ up, isRequest m = false) (hfresh : Fresh l.conn s)
      (hdown : ∀ m ∈ l.down, m.inert = true) (hstate : client.state ≠ .inBattle)
  | refused (hup : ∀ m ∈ l.up, isRequest m = false) (hfresh : Fresh l.conn s)
      (hstate : (client.handleAll l.down).state ≠ .inBattle)
  | granted {p : ℕ} (hup : ∀ m ∈ l.up, isRequest m = false) (hbound : Bound p l.conn s)
      (hcan : (client.handleAll l.down).canReconnect = true)
      (hengaged : (client.handleAll l.down).state = .inBattle → Engaged p l.conn s)

structure SysOk (s : Sys F) : Prop where
  sound : Sound s.lobby
  fresh : ∀ c, c ∉ s.used → Fresh c s.lobby
  good : s.client.Good
  used : ∀ l, s.link = some l → l.conn ∈ s.used
  safe : ∀ l, s.link = some l → s.client.Safe l.down
  link : ∀ l, s.link = some l → l.closed = false → LinkOk s.client l s.lobby

omit [Scalar F] in
theorem sysOk_init (gameThreads : ℕ) (writer : Bool) :
    SysOk (Sys.init gameThreads writer : Sys F) := by
  refine ⟨⟨base_init gameThreads writer, orderly_init gameThreads writer,
    seating_init gameThreads writer⟩, fun c _ => fresh_init c gameThreads writer, ?_, ?_, ?_, ?_⟩
  · simp [GameSession.Good, Sys.init]
  · simp [Sys.init]
  · simp [Sys.init]
  · simp [Sys.init]

omit [Scalar F] in
/-- The user does something, and perhaps sends something. -/
theorem SysOk.act {s : Sys F} (h : SysOk s) {r : GameSession × List (ClientMsg F)}
    (hclient : GameSession.Follows r.1 s.client) (hmsgs : ∀ m ∈ r.2, isRequest m = false) :
    SysOk (s.act r) := by
  refine ⟨h.sound, h.fresh, hclient.good h.good, fun l' hl' => ?_, fun l' hl' => ?_,
    fun l' hl' hopen => ?_⟩
  all_goals
    obtain ⟨l, hl, rfl⟩ := Option.map_eq_some_iff.mp hl'
  · exact h.used l hl
  · exact hclient.safe (h.safe l hl)
  · have hup : ∀ {up : List (ClientMsg F)}, (∀ m ∈ up, isRequest m = false) →
        ∀ m ∈ up ++ r.2, isRequest m = false := fun hup m hm =>
      (List.mem_append.mp hm).elim (hup m) (hmsgs m)
    have hafter := hclient.handleAll l.down
    cases h.link l hl hopen with
    | @waiting msg up hl' hfits hrest hfresh hdown hstate =>
        have hl₂ : l.up ++ r.2 = msg :: (up ++ r.2) := by rw [hl', List.cons_append]
        refine .waiting hl₂ ?_ (hup hrest) hfresh hdown
          fun hin => hstate (hclient.inBattle hin)
        cases msg with
        | loginReq account => exact hclient.wasInBattle.trans hfits
        | _ => exact hfits
    | refused hl' hfresh hstate =>
        exact .refused (hup hl') hfresh fun hin => hstate (hafter.inBattle hin)
    | granted hl' hbound hcan hengaged =>
        exact .granted (hup hl') hbound (hafter.canReconnect.trans hcan) fun hin =>
          hengaged (hafter.inBattle hin)

/-- An event of the server that is not the client's request, nor the end of
its connection, nor a late rebind to it. -/
theorem SysOk.serve {s : Sys F} (h : SysOk s) (e : LobbyEvent F)
    (hused : ∀ c, eventConn e = some c → c ∈ s.used)
    (hlink : ∀ l, s.link = some l → l.closed = false → ∀ deed, s.lobby.commits e deed = true →
      deed ≠ .requests l.conn ∧ deed ≠ .closes l.conn ∧ deed ≠ .lateRebind l.conn) :
    SysOk (s.serve e) := by
  have hfresh : ∀ c, c ∉ s.used → Fresh c (s.lobby.step e) := fun c hc =>
    fresh_of_unused h.sound.base (h.fresh c hc) fun he => hc (hused c he)
  have hdrop : ∀ {es : List (Entry F)}, (s.lobby.step e).log = s.lobby.log ++ es →
      (s.lobby.step e).log.drop s.lobby.log.length = es := by
    intro es hes
    rw [hes, List.drop_left]
  -- what has been added to an open link
  have hopen : ∀ l, s.link = some l → l.closed = false → ∃ es,
      (s.lobby.step e).log = s.lobby.log ++ es ∧ s.client.Safe (l.down ++ sentTo l.conn es) ∧
      LinkOk s.client { l with down := l.down ++ sentTo l.conn es } (s.lobby.step e) := by
    intro l hl hclosed
    have hdeeds := hlink l hl hclosed
    have hconn : ∀ deed, s.lobby.commits e deed = true →
        deed ≠ .requests l.conn ∧ deed ≠ .closes l.conn := fun deed hd =>
      ⟨(hdeeds deed hd).1, (hdeeds deed hd).2.1⟩
    cases h.link l hl hclosed with
    | waiting hup hfits hrest hf hdown hstate =>
        obtain ⟨hf', es, hlog, hes⟩ := fresh_step h.sound.base hf e hconn
        have hall : ∀ m ∈ l.down ++ sentTo l.conn es, m.inert = true := fun m hm =>
          (List.mem_append.mp hm).elim (hdown m) (hes m)
        exact ⟨es, hlog, GameSession.safe_inert hall h.good,
          .waiting hup hfits hrest hf' hall hstate⟩
    | refused hup hf hstate =>
        obtain ⟨hf', es, hlog, hes⟩ := fresh_step h.sound.base hf e hconn
        refine ⟨es, hlog, (h.safe l hl).append (GameSession.safe_inert hes (h.safe l hl).last),
          .refused hup hf' ?_⟩
        rw [GameSession.handleAll_append, GameSession.handleAll_inert hes]
        exact hstate
    | granted hup hbound hcan hengaged =>
        obtain ⟨hbound', es, hlog, hlogin, heng⟩ := bound_step h.sound hbound e hdeeds
        obtain ⟨hsafe, hcan'⟩ := GameSession.safe_of_canReconnect hlogin hcan
        refine ⟨es, hlog, (h.safe l hl).append hsafe, .granted hup hbound' ?_ fun hin => ?_⟩
        · rw [GameSession.handleAll_append]
          exact hcan'
        · rw [GameSession.handleAll_append] at hin
          exact heng _ hengaged hin
  refine ⟨h.sound.step e, hfresh, h.good, fun l' hl' => ?_, fun l' hl' => ?_, fun l' hl' hclosed' => ?_⟩
  all_goals
    obtain ⟨l, hl, rfl⟩ := Option.map_eq_some_iff.mp hl'
  · split <;> exact h.used l hl
  · split
    · exact h.safe l hl
    · next hclosed =>
        obtain ⟨es, hlog, hsafe, -⟩ := hopen l hl (by simpa using hclosed)
        rw [hdrop hlog]
        exact hsafe
  · split at hclosed'
    · next hclosed =>
        rw [hclosed] at hclosed'
        cases hclosed'
    · next hclosed =>
        obtain ⟨es, hlog, -, hok⟩ := hopen l hl (by simpa using hclosed)
        rw [if_neg hclosed, hdrop hlog]
        exact hok

/-- The link is open, and of the messages on it the request `msg` comes next. -/
structure Asking (s : Sys F) (l : Link F) (msg : ClientMsg F) (up : List (ClientMsg F)) : Prop where
  link : s.link = some l
  opened : l.closed = false
  fits : Fits s.client msg
  rest : ∀ m ∈ up, isRequest m = false
  fresh : Fresh l.conn s.lobby
  down : ∀ m ∈ l.down, m.inert = true
  state : s.client.state ≠ .inBattle

omit [Scalar F] in
/-- A request that comes next is the one that the link began with. -/
theorem SysOk.asking {s : Sys F} (h : SysOk s) {l : Link F} (hl : s.link = some l)
    (hopen : l.closed = false) {msg : ClientMsg F} {up : List (ClientMsg F)}
    (hup : l.up = msg :: up) (hmsg : isRequest msg = true) : Asking s l msg up := by
  cases h.link l hl hopen with
  | waiting hup' hfits hrest hfresh hdown hstate =>
      obtain ⟨rfl, rfl⟩ := List.cons.inj (hup.symm.trans hup')
      exact ⟨hl, hopen, hfits, hrest, hfresh, hdown, hstate⟩
  | refused hno | granted hno =>
      rw [hno msg (by rw [hup]; exact List.mem_cons_self ..)] at hmsg
      cases hmsg

omit [Scalar F] in
/-- The messages before the answer leave the client as it is. -/
theorem Asking.handleAll {s : Sys F} {l : Link F} {msg : ClientMsg F} {up : List (ClientMsg F)}
    (ha : Asking s l msg up) (msgs : List (ServerMsg F)) :
    s.client.handleAll (l.down ++ msgs) = s.client.handleAll msgs := by
  rw [GameSession.handleAll_append, GameSession.handleAll_inert ha.down]

/-- What has to be shown of the answer to a request. -/
theorem SysOk.answered {s : Sys F} (h : SysOk s) {l : Link F} {msg : ClientMsg F}
    {up : List (ClientMsg F)} (ha : Asking s l msg up) {e : LobbyEvent F}
    (hconn : eventConn e = some l.conn) {es : List (Entry F)}
    (hlog : (s.lobby.step e).log = s.lobby.log ++ es) (hsafe : s.client.Safe (sentTo l.conn es))
    (hok : LinkOk s.client { l with up := up, down := l.down ++ sentTo l.conn es }
      (s.lobby.step e)) :
    SysOk (Sys.serve e { s with link := some { l with up := up } }) := by
  have hused := h.used l ha.link
  have hlink : (Sys.serve e { s with link := some { l with up := up } }).link =
      some { l with up := up, down := l.down ++ sentTo l.conn es } := by
    simp only [Sys.serve, Option.map_some, ha.opened, Bool.false_eq_true, if_false, hlog,
      List.drop_left]
  refine ⟨h.sound.step _, fun c hc => ?_, h.good, fun l' hl' => ?_, fun l' hl' => ?_,
    fun l' hl' _ => ?_⟩
  · refine fresh_of_unused h.sound.base (h.fresh c hc) ?_
    rw [hconn]
    rintro ⟨⟩
    exact hc hused
  all_goals
    obtain rfl := Option.some.inj (hlink.symm.trans hl')
  · exact hused
  · refine (h.safe l ha.link).append ?_
    rw [GameSession.handleAll_inert ha.down]
    exact hsafe
  · exact hok

theorem SysOk.login {s : Sys F} (h : SysOk s) {l : Link F} {account : String}
    {up : List (ClientMsg F)} (ha : Asking s l (.loginReq account) up)
    (hfiring : s.lobby.firing = []) (now : ℕ) (rng : ℕ × ℕ) (ks : List ℕ) :
    SysOk (Sys.serve (.login l.conn account (genToken rng) now ks)
      { s with link := some { l with up := up } }) := by
  obtain ⟨hbound, es, hlog, hes⟩ := bound_onLogin ha.fresh account (genToken rng) now ks
  have hstep : s.lobby.step (.login l.conn account (genToken rng) now ks) =
      s.lobby.onLogin l.conn account (genToken rng) now ks := by
    simp only [Lobby.step, hfiring, if_true]
  have hcan : (s.client.handleMessage (.loginResp 0 s.lobby.nextPlayerId (genToken rng) :
      ServerMsg F)).canReconnect = true :=
    GameSession.canReconnect_loginResp h.sound.base.tables.player_pos (genToken_ne rng) _
  refine h.answered ha rfl (by rw [hstep]; exact hlog) ?_ ?_
  · rw [hes]
    exact ⟨h.good, fun _ => hcan⟩
  · rw [hstep]
    refine .granted ha.rest hbound ?_ fun hin => ?_
    · rw [ha.handleAll, hes]
      exact hcan
    · rw [ha.handleAll, hes] at hin
      exact absurd hin (GameSession.inBattle_loginResp (F := F) ha.fits _ _)

theorem SysOk.rejected {s : Sys F} (h : SysOk s) {l : Link F} {pid : ℕ} {token : String}
    {up : List (ClientMsg F)} (ha : Asking s l (.reconnectReq pid token) up) {now : ℕ}
    (hstep : s.lobby.step (.reconnect l.conn pid token now) = s.lobby.reject l.conn) :
    SysOk (Sys.serve (.reconnect l.conn pid token now)
      { s with link := some { l with up := up } }) := by
  have hsent : sentTo l.conn [Entry.send l.conn (.loginResp 1 0 ""), .shutdown l.conn] =
      [(.loginResp 1 0 "" : ServerMsg F)] := by
    rw [sentTo_send]
    rfl
  have hlost : (s.client.handleMessage (.loginResp 1 0 "" : ServerMsg F)).state ≠ .inBattle :=
    ha.state
  have hlog : (s.lobby.step (.reconnect l.conn pid token now)).log =
      s.lobby.log ++ [.send l.conn (.loginResp 1 0 ""), .shutdown l.conn] := by
    rw [hstep]
    simp [reject, emit]
  refine h.answered ha rfl hlog ?_ ?_
  · rw [hsent]
    refine ⟨h.good, fun hin => ?_⟩
    rcases hin with hin | hin
    · exact absurd hin hlost
    · cases hin
  · refine .refused ha.rest ?_ ?_
    · rw [hstep]
      exact ⟨ha.fresh.table, ha.fresh.held.sessions, ha.fresh.held.slots, ha.fresh.held.tasks⟩
    · rw [ha.handleAll, hsent]
      exact hlost

/-- A client that comes back to no room must not expect one. -/
theorem SysOk.accepted {s : Sys F} (h : SysOk s) {l : Link F} {pid : ℕ} {x : Session}
    {up : List (ClientMsg F)} (ha : Asking s l (.reconnectReq pid x.token) up)
    (hfiring : s.lobby.firing = []) (hx : s.lobby.sessions.lookup pid = some x)
    (hnone : x.conn = none) (hback : s.client.wasInBattle = false ∨ x.state = .kInRoom)
    (now : ℕ) :
    SysOk (Sys.serve (.reconnect l.conn pid x.token now)
      { s with link := some { l with up := up } }) := by
  obtain ⟨hbound, heng, es, msgs, hlog, hes, hmsgs, hnil⟩ :=
    bound_onReconnect h.sound ha.fresh hx hnone now
  have hstep : s.lobby.step (.reconnect l.conn pid x.token now) =
      s.lobby.onReconnect l.conn pid x.token now := by
    simp only [Lobby.step, hfiring, if_true]
  have hcan : (s.client.handleMessage (.loginResp 0 pid x.token :
      ServerMsg F)).canReconnect = true :=
    GameSession.canReconnect_loginResp ha.fits.1 ha.fits.2 _
  obtain ⟨hsafe, hcan'⟩ := GameSession.safe_of_canReconnect hmsgs hcan
  refine h.answered ha rfl (by rw [hstep]; exact hlog) ?_ ?_
  · rw [hes]
    exact ⟨h.good, hsafe⟩
  · rw [hstep]
    refine .granted ha.rest hbound ?_ fun hin => ?_
    · rw [ha.handleAll, hes]
      exact hcan'
    · by_cases hroom : x.state = .kInRoom
      · exact heng hroom
      · -- the client was in no battle, and it is told of none
        have hwas := hback.resolve_right hroom
        rw [ha.handleAll, hes, hnil hroom] at hin
        exact absurd hin (GameSession.inBattle_loginResp (F := F) hwas _ _)

/-- The client's request is handled. -/
theorem SysOk.request {s : Sys F} (h : SysOk s) {l : Link F} (hl : s.link = some l)
    (hopen : l.closed = false) {msg : ClientMsg F} {up : List (ClientMsg F)}
    (hup : l.up = msg :: up) (hmsg : isRequest msg = true) (hfiring : s.lobby.firing = [])
    (hreturn : s.returnsLate l = false) (now : ℕ) (rng : ℕ × ℕ) (ks : List ℕ) :
    SysOk (Sys.serve (handler l.conn now rng ks msg)
      { s with link := some { l with up := up } }) := by
  have ha := h.asking hl hopen hup hmsg
  cases msg with
  | loginReq account => exact h.login ha hfiring now rng ks
  | reconnectReq pid token =>
      rcases onReconnect_cases s.lobby l.conn pid token now with
        ⟨-, heq⟩ | ⟨x, hacc, hx, rfl, hnone, -⟩
      · refine h.rejected ha ?_
        simp only [Lobby.step, hfiring, if_true, heq]
      · refine h.accepted ha hfiring hx hnone ?_ now
        simp only [Sys.returnsLate, hup, hacc, hx, Bool.and_true, Option.any_some,
          Bool.and_eq_false_iff, decide_eq_false_iff_not, not_not, ne_eq] at hreturn
        exact hreturn
  | matchReq | playerInput | heartbeat | leaderboardReq => cases hmsg

omit [Scalar F] in
theorem fits_request {client : GameSession} (h : client.Good) (account : String) :
    Fits client (client.request account : ClientMsg F) := by
  cases hcan : client.canReconnect with
  | true =>
      simp only [GameSession.request, hcan, if_true]
      simp only [GameSession.canReconnect, Bool.and_eq_true, decide_eq_true_eq] at hcan
      refine ⟨hcan.1, ?_⟩
      cases htoken : client.token with
      | none => simp [htoken] at hcan
      | some token => simpa [htoken] using hcan.2
  | false =>
      simp only [GameSession.request, hcan, Bool.false_eq_true, if_false]
      show client.wasInBattle = false
      by_contra hwas
      have hyes := h (.inr (by simpa using hwas))
      rw [hcan] at hyes
      cases hyes

omit [Scalar F] in
theorem SysOk.connected {s : Sys F} (h : SysOk s) (conn : Conn) (account : String) :
    SysOk (s.connected conn account) := by
  unfold Sys.connected
  split
  · next hcond =>
      simp only [Bool.and_eq_true, decide_eq_true_eq] at hcond
      obtain ⟨-, hnew⟩ := hcond
      have hgood : (s.client.transportConnected account : GameSession × List (ClientMsg F)).1.Good := by
        intro hin
        rcases hin with hin | hin
        · cases hin
        · exact h.good (.inr hin)
      refine ⟨h.sound, fun c hc => h.fresh c fun hmem => hc (List.mem_cons_of_mem _ hmem), hgood,
        fun l hl => ?_, fun l hl => ?_, fun l hl _ => ?_⟩
      all_goals
        obtain rfl := Option.some.inj hl
      · exact List.mem_cons_self ..
      · exact hgood
      · refine .waiting rfl ?_ (by simp) (h.fresh conn hnew) (by simp) (by
          simp [GameSession.transportConnected])
        exact fits_request h.good account
  · exact h

omit [Scalar F] in
theorem SysOk.receive {s : Sys F} (h : SysOk s) : SysOk s.receive := by
  unfold Sys.receive
  split
  · exact h
  · next l hl =>
      split
      · exact h
      · next msg down hdown =>
          have hsafe := h.safe l hl
          rw [hdown] at hsafe
          refine ⟨h.sound, h.fresh, hsafe.2.good, fun l' hl' => ?_, fun l' hl' => ?_,
            fun l' hl' hopen => ?_⟩
          all_goals
            obtain rfl := Option.some.inj hl'
          · exact h.used l hl
          · exact hsafe.2
          · cases h.link l hl hopen with
            | waiting hup hfits hrest hfresh hinert hstate =>
                rw [hdown] at hinert
                rw [GameSession.handleMessage_inert (hinert msg (List.mem_cons_self ..))]
                exact .waiting hup hfits hrest hfresh
                  (fun m hm => hinert m (List.mem_cons_of_mem _ hm)) hstate
            | refused hup hfresh hstate =>
                rw [hdown] at hstate
                exact .refused hup hfresh hstate
            | granted hup hbound hcan hengaged =>
                rw [hdown] at hcan hengaged
                exact .granted hup hbound hcan hengaged

omit [Scalar F] in
/-- The server has taken a message other than a request from the channel. -/
theorem SysOk.taken {s : Sys F} (h : SysOk s) {l : Link F} (hl : s.link = some l)
    {msg : ClientMsg F} {up : List (ClientMsg F)} (hup : l.up = msg :: up)
    (hmsg : isRequest msg = false) : SysOk { s with link := some { l with up := up } } := by
  refine ⟨h.sound, h.fresh, h.good, fun l' hl' => ?_, fun l' hl' => ?_, fun l' hl' hopen => ?_⟩
  all_goals
    obtain rfl := Option.some.inj hl'
  · exact h.used l hl
  · exact h.safe l hl
  · have hrest : (∀ m ∈ l.up, isRequest m = false) → ∀ m ∈ up, isRequest m = false :=
      fun hall m hm => hall m (by rw [hup]; exact List.mem_cons_of_mem _ hm)
    cases h.link l hl hopen with
    | @waiting msg' up' hup' hfits =>
        obtain ⟨rfl, rfl⟩ := List.cons.inj (hup.symm.trans hup')
        cases msg with
        | loginReq | reconnectReq => cases hmsg
        | _ => cases hfits
    | refused hall hfresh hstate => exact .refused (hrest hall) hfresh hstate
    | granted hall hbound hcan hengaged => exact .granted (hrest hall) hbound hcan hengaged

theorem SysOk.deliver {s : Sys F} (h : SysOk s) (now : ℕ) (rng : ℕ × ℕ) (ks : List ℕ)
    (hok : s.strays (.deliver now rng ks) = false) : SysOk (s.deliver now rng ks) := by
  unfold Sys.deliver
  split
  · exact h
  · next l hl =>
      split
      · exact h
      · next hopen =>
          have hopen : l.closed = false := by simpa using hopen
          split
          · exact h
          · next msg up hup =>
              split
              · next hfree =>
                  cases hmsg : isRequest msg with
                  | true =>
                      have hfiring : s.lobby.firing = [] := by
                        cases msg with
                        | loginReq | reconnectReq => simpa [isLeaderboardReq] using hfree
                        | _ => cases hmsg
                      have hreturn : s.returnsLate l = false := by
                        simpa [Sys.strays, hl, hopen, hfiring] using hok
                      exact h.request hl hopen hup hmsg hfiring hreturn now rng ks
                  | false =>
                      refine (h.taken hl hup hmsg).serve _ (fun c hc => ?_) fun l' hl' _ deed hd => ?_
                      · have hconn : c = l.conn := by
                          cases msg <;> exact (Option.some.inj hc).symm
                        rw [hconn]
                        exact h.used l hl
                      · cases msg with
                        | loginReq | reconnectReq => cases hmsg
                        | matchReq | playerInput | heartbeat | leaderboardReq => cases deed <;> cases hd
              · exact h

theorem SysOk.close {s : Sys F} (h : SysOk s) : SysOk s.close := by
  unfold Sys.close
  split
  · exact h
  · next l hl =>
      split
      · exact h
      · have hclosed : SysOk { s with link := some { l with closed := true } } := by
          refine ⟨h.sound, h.fresh, h.good, fun l' hl' => ?_, fun l' hl' => ?_,
            fun l' hl' hopen => ?_⟩
          all_goals
            obtain rfl := Option.some.inj hl'
          · exact h.used l hl
          · exact h.safe l hl
          · cases hopen
        refine hclosed.serve _ (fun c hc => ?_) fun l' hl' hopen => ?_
        · obtain rfl := Option.some.inj hc
          exact h.used l hl
        · obtain rfl := Option.some.inj hl'
          cases hopen

theorem SysOk.server {s : Sys F} (h : SysOk s) (e : LobbyEvent F)
    (hok : s.strays (.server e) = false) : SysOk (s.step (.server e)) := by
  have hlate : ∀ l, s.link = some l → l.closed = false → ∀ deed, s.lobby.commits e deed = true →
      deed ≠ .lateRebind l.conn := by
    rintro l hl hopen deed hd rfl
    simp [Sys.strays, hl, hopen, hd] at hok
  simp only [Sys.step]
  split
  · next hnone =>
      refine h.serve e (fun c hc => ?_) fun l hl hopen deed hd => ?_
      · rw [hnone] at hc
        cases hc
      · obtain ⟨hreq, hclose⟩ := not_commits_of_ne (by rw [hnone]; simp) deed hd
        exact ⟨hreq, hclose, hlate l hl hopen deed hd⟩
  · next conn hsome =>
      split
      · exact h
      · next hother =>
          have hused : SysOk { s with used := conn :: s.used } :=
            ⟨h.sound, fun c hc => h.fresh c fun hmem => hc (List.mem_cons_of_mem _ hmem), h.good,
              fun l hl => List.mem_cons_of_mem _ (h.used l hl), h.safe, h.link⟩
          refine hused.serve e (fun c hc => ?_) fun l hl hopen deed hd => ?_
          · obtain rfl := Option.some.inj (hsome.symm.trans hc)
            exact List.mem_cons_self ..
          · have hne : eventConn e ≠ some l.conn := by
              intro heq
              obtain rfl := Option.some.inj (hsome.symm.trans heq)
              have hl : s.link = some l := hl
              simp [hl] at hother
            obtain ⟨hreq, hclose⟩ := not_commits_of_ne hne deed hd
            exact ⟨hreq, hclose, hlate l hl hopen deed hd⟩

theorem SysOk.step {s : Sys F} (h : SysOk s) (e : SysEvent F) (hok : s.strays e = false) :
    SysOk (s.step e) := by
  have hsame : ∀ {client : GameSession}, client.playerId = s.client.playerId →
      client.token = s.client.token → client.wasInBattle = s.client.wasInBattle →
      (client.state = .inBattle → s.client.state = .inBattle) →
      GameSession.Follows client s.client := fun h₁ h₂ h₃ h₄ => ⟨h₁, h₂, h₃, h₄⟩
  cases e with
  | connecting =>
      simp only [Sys.step]
      split
      · next hnone =>
          have hnone : s.link = none := by simpa using hnone
          refine ⟨h.sound, h.fresh, fun hin => h.good ?_, ?_, ?_, ?_⟩
          · rcases hin with hin | hin
            · cases hin
            · exact .inr hin
          all_goals
            simp [hnone]
      · exact h
  | connected conn account => exact h.connected conn account
  | disconnected =>
      refine ⟨h.sound, h.fresh, fun hin => h.good ?_, by simp [Sys.step], by simp [Sys.step],
        by simp [Sys.step]⟩
      rcases hin with hin | hin
      · cases hin
      · exact .inl (of_decide_eq_true hin)
  | backToLobby =>
      refine h.act ?_ (by simp)
      unfold GameSession.backToLobby
      split
      · exact hsame rfl rfl rfl (by simp)
      · exact hsame rfl rfl rfl id
  | requestMatch =>
      refine h.act ?_ ?_
      · unfold GameSession.requestMatch
        split
        · exact hsame rfl rfl rfl id
        · exact hsame rfl rfl rfl (by simp)
      · unfold GameSession.requestMatch
        split <;> simp [isRequest]
  | requestLeaderboard topN =>
      refine h.act ?_ ?_
      · unfold GameSession.requestLeaderboard
        split <;> exact hsame rfl rfl rfl id
      · unfold GameSession.requestLeaderboard
        split <;> simp [isRequest]
  | sendInput moveX moveY attack =>
      refine h.act ?_ ?_
      · unfold GameSession.sendInput
        split <;> exact hsame rfl rfl rfl id
      · unfold GameSession.sendInput
        split <;> simp [isRequest]
  | tick nowMs =>
      refine h.act ?_ ?_
      · unfold GameSession.tick
        split
        · exact hsame rfl rfl rfl id
        · split <;> exact hsame rfl rfl rfl id
      · unfold GameSession.tick
        split
        · simp
        · split <;> simp [isRequest]
  | receive => exact h.receive
  | deliver now rng ks => exact h.deliver now rng ks hok
  | close => exact h.close
  | server e => exact h.server e hok

/-- As long as the client does not come back too late, and no room is told of
its connection when the battle is over, client and server agree whenever
nothing is in flight. -/
theorem client_and_server_agree (gameThreads : ℕ) (writer : Bool) (es : List (SysEvent F))
    (hok : Along Sys.step (fun s e => s.strays e = false) (Sys.init gameThreads writer) es) :
    (Sys.run gameThreads writer es).Agrees := by
  have h : SysOk (Sys.run gameThreads writer es) :=
    invariant_run (I := SysOk) (fun s e hs he => hs.step e he) (sysOk_init gameThreads writer) hok
  generalize Sys.run gameThreads writer es = s at h
  intro l hsettled hin
  have hafter : s.client.handleAll l.down = s.client := by
    rw [hsettled.down]
    rfl
  cases h.link l hsettled.link hsettled.opened with
  | waiting hup =>
      rw [hsettled.up] at hup
      cases hup
  | refused _ _ hstate =>
      rw [hafter] at hstate
      exact absurd hin hstate
  | @granted p _ hbound _ hengaged =>
      rw [hafter] at hengaged
      rcases hengaged hin with ⟨r, cell, ⟨x, hx, rfl⟩, hne, hcell, hrun⟩ | ⟨r, cell, hcell, -, hmem⟩
      · exact ⟨p, x, cell, hbound.table, hx, (h.sound.base.tables.session hx).inRoom.mp hne, hcell,
          hrun⟩
      · rw [hsettled.mailboxes r cell hcell] at hmem
        cases hmem

/-- A client loses its connection in a battle and comes back on another one
while the battle goes on. -/
theorem client_and_server_agree_after_reconnect :
    let es : List (SysEvent (Ext ℚ)) :=
      [.connecting, .connected 1 "alice", .deliver 0 (1, 2) [], .receive, .requestMatch,
        .deliver 0 (0, 0) [], .server (.login 2 "bob" "u" 0 []), .server (.matchReq 2 []),
        .receive, .receive, .disconnected, .server (.disconnect 1), .connecting,
        .connected 3 "alice", .deliver 5 (0, 0) [], .receive, .receive, .receive]
    let s := Sys.run 0 false es
    (∃ l, s.Settled l) ∧ s.client.state = .inBattle ∧ s.Agrees := by
  intro es s
  have hrun : Along Sys.step (fun s e => s.strays e = false) (Sys.init 0 false) es ∧
      s.isSettled = true ∧ s.client.state = .inBattle := by
    decide +kernel
  exact ⟨Sys.settled_of_isSettled hrun.2.1, hrun.2.2, client_and_server_agree 0 false es hrun.1⟩

/-- The same, but the battle ends while the client is away. -/
theorem return_after_battle_is_not_noticed :
    let es : List (SysEvent (Ext ℚ)) :=
      [.connecting, .connected 1 "alice", .deliver 0 (1, 2) [], .receive, .requestMatch,
        .deliver 0 (0, 0) [], .server (.login 2 "bob" "u" 0 []), .server (.matchReq 2 []),
        .receive, .receive, .disconnected, .server (.disconnect 1),
        .server (.input 2 ⟨1, .fin 0, .fin 0, true⟩)] ++
      List.replicate 43 (.server (.roomTick 1 [])) ++
      [.server (.roomTask 1), .connecting, .connected 3 "alice", .deliver 5 (0, 0) [], .receive]
    let s := Sys.run 0 false es
    (∃ l, s.Settled l) ∧ s.client.state = .inBattle ∧
      (∃ x, s.lobby.sessionOf 3 = some x ∧ x.state = .kLobby) ∧ ¬s.Agrees := by
  intro es s
  have hrun : s.isSettled = true ∧ s.client.state = .inBattle ∧
      (s.lobby.sessionOf 3).map Session.state = some .kLobby ∧ s.link.map Link.conn = some 3 := by
    decide +kernel
  clear_value s
  obtain ⟨hsettled, hin, hsession, hlink⟩ := hrun
  obtain ⟨l, hl⟩ := Sys.settled_of_isSettled hsettled
  obtain ⟨x, hx, hstate⟩ := Option.map_eq_some_iff.mp hsession
  refine ⟨⟨l, hl⟩, hin, ⟨x, hx, hstate⟩, fun hagree => ?_⟩
  obtain ⟨p, y, cell, hconn, hy, hroom, -⟩ := hagree l hl hin
  rw [hl.link, Option.map_some, Option.some_inj] at hlink
  rw [hlink] at hconn
  have hsame : s.lobby.sessionOf 3 = some y := by simp [Lobby.sessionOf, hconn, hy]
  obtain rfl := Option.some.inj (hx.symm.trans hsame)
  rw [hstate] at hroom
  cases hroom

end GameServer.Client
