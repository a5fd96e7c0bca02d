import GameServer.Game.LobbyMoves

/-!
What holds in every reachable state, whatever the events are.

`Base` adds to `Tables` what is known of the rooms: each has its own id, two
seats for two different players, and no task in its mailbox that would stop
it. Rooms on the lobby's own loop leave no room for anything to be under
way: their mailboxes hold nothing but the reset of the ticker, and a room in
the table has not ended.
-/

namespace GameServer.Game

open GameServer.Lib GameServer.Proto GameServer.Timer
open Lobby

variable {F : Type}

/-- What is known of the room with id `r`, given the number of threads, the
next room id and the room table. -/
structure CellOk (gameThreads nextRoomId : ℕ) (rooms : List ℕ) (r : ℕ) (cell : RoomCell F) :
    Prop where
  id : cell.room.id = r
  pos : r ≠ 0
  lt : r < nextRoomId
  seats : ∃ a b, Room.Seats a b cell.room
  no_stop : RoomTask.stop ∉ cell.mailbox
  idle : gameThreads = 0 → ∀ task ∈ cell.mailbox, task = .resetTicker
  running : gameThreads = 0 → r ∈ rooms → cell.room.ended = false

structure Base (s : Lobby F) : Prop where
  tables : Tables s.core
  few : s.matchQueue.waiting.card ≤ 1
  cell : ∀ {r cell}, s.cells.lookup r = some cell →
    CellOk s.gameThreads s.nextRoomId s.rooms r cell
  live : ∀ {r}, r ∈ s.rooms → (s.cells.lookup r).isSome
  ends : ∀ e ∈ s.roomEnds, e.1 ≠ 0
  inline : s.gameThreads = 0 → s.roomEnds = []

/-- The rule for moves that change nothing `Base` reads. -/
theorem Base.congr {s s' : Lobby F} (h : Base s) (hcore : s'.core = s.core)
    (hcells : s'.cells = s.cells) (hends : s'.roomEnds = s.roomEnds)
    (hthreads : s'.gameThreads = s.gameThreads) : Base s' := by
  have hrooms : s'.rooms = s.rooms := congrArg Core.rooms hcore
  have hqueue : s'.matchQueue = s.matchQueue := congrArg Core.matchQueue hcore
  have hnext : s'.nextRoomId = s.nextRoomId := congrArg Core.nextRoomId hcore
  refine ⟨hcore ▸ h.tables, hqueue ▸ h.few, ?_, ?_, hends ▸ h.ends, ?_⟩
  · rw [hcells, hnext, hrooms, hthreads]
    exact h.cell
  · rw [hcells, hrooms]
    exact h.live
  · rw [hthreads, hends]
    exact h.inline

/-! ### Ending a room -/

namespace Lobby

theorem core_onRoomEnd (r w : ℕ) (s : Lobby F) : (s.onRoomEnd r w).core = s.core.endRoom r := by
  simp only [onRoomEnd]
  split
  · simp only [enqueue]
    split <;> rfl
  · rfl

theorem lookup_onRoomEnd (r w : ℕ) (s : Lobby F) (p : ℕ) :
    (s.onRoomEnd r w).sessions.lookup p = (s.sessions.lookup p).map (Session.leave r) := by
  have hsessions : (s.onRoomEnd r w).sessions = (s.core.endRoom r).sessions :=
    congrArg Core.sessions (core_onRoomEnd r w s)
  rw [hsessions]
  exact UnorderedMap.lookup_mapVal _ _ _

theorem cells_onRoomEnd (r w : ℕ) (s : Lobby F) :
    (s.onRoomEnd r w).cells = s.cells ∧ (s.onRoomEnd r w).roomEnds = s.roomEnds ∧
      (s.onRoomEnd r w).gameThreads = s.gameThreads := by
  simp only [onRoomEnd]
  split
  · simp only [enqueue]
    split <;> exact ⟨rfl, rfl, rfl⟩
  · exact ⟨rfl, rfl, rfl⟩

end Lobby

/-- `onRoomEnd` takes the room out of the table; only the other rooms have
to satisfy the condition on rooms in the table. -/
theorem base_onRoomEnd {s : Lobby F} {r : ℕ} (htables : Tables s.core)
    (hfew : s.matchQueue.waiting.card ≤ 1)
    (hcell : ∀ {r' cell}, s.cells.lookup r' = some cell →
      CellOk s.gameThreads s.nextRoomId (s.rooms.erase r) r' cell)
    (hlive : ∀ {r}, r ∈ s.rooms → (s.cells.lookup r).isSome)
    (hends : ∀ e ∈ s.roomEnds, e.1 ≠ 0) (hinline : s.gameThreads = 0 → s.roomEnds = [])
    (hr : r ≠ 0) (w : ℕ) : Base (s.onRoomEnd r w) := by
  have hcore := core_onRoomEnd r w s
  obtain ⟨hcells, hroomEnds, hthreads⟩ := cells_onRoomEnd r w s
  have hrooms : (s.onRoomEnd r w).rooms = s.rooms.erase r := congrArg Core.rooms hcore
  have hqueue : (s.onRoomEnd r w).matchQueue = s.matchQueue := congrArg Core.matchQueue hcore
  have hnext : (s.onRoomEnd r w).nextRoomId = s.nextRoomId := congrArg Core.nextRoomId hcore
  refine ⟨hcore ▸ htables.endRoom hr, hqueue ▸ hfew, ?_, ?_, hroomEnds ▸ hends, ?_⟩
  · rw [hcells, hthreads, hnext, hrooms]
    exact hcell
  · rw [hcells, hrooms]
    exact fun hmem => hlive (List.mem_of_mem_erase hmem)
  · rw [hthreads, hroomEnds]
    exact hinline

theorem Base.roomEnd {s : Lobby F} (h : Base s) {r w : ℕ} {rest : List (ℕ × ℕ)}
    (hends : s.roomEnds = (r, w) :: rest) :
    Base ({ s with roomEnds := rest }.onRoomEnd r w) := by
  have hr : r ≠ 0 := h.ends (r, w) (by simp [hends])
  have hthreads : s.gameThreads ≠ 0 := fun hg => by
    have := h.inline hg
    simp [hends] at this
  refine base_onRoomEnd (s := { s with roomEnds := rest }) h.tables h.few (fun hcell => ?_) h.live
    (fun e he => ?_) (fun hg => absurd hg hthreads) hr w
  · have hok := h.cell hcell
    exact ⟨hok.id, hok.pos, hok.lt, hok.seats, hok.no_stop, hok.idle, fun hg => absurd hg hthreads⟩
  · exact h.ends e (by rw [hends]; exact List.mem_cons_of_mem _ he)

/-! ### Rooms -/

theorem Lobby.Source.mem {s : Lobby F} {r : ℕ} {cell : RoomCell F} {op : RoomOp F}
    {mailbox : List (RoomTask F)} (h : s.Source r cell op mailbox) {task : RoomTask F}
    (htask : task ∈ mailbox) : task ∈ cell.mailbox := by
  cases h with
  | tick => exact htask
  | head hmail => rw [hmail]; exact List.mem_cons_of_mem _ htask
  | posted => exact htask

theorem Base.mail {s : Lobby F} (h : Base s) (r : ℕ) {task : RoomTask F}
    (hthreads : s.gameThreads ≠ 0) (hstop : task ≠ .stop) : Base (s.mail r task) := by
  refine ⟨h.tables, h.few, fun {r' cell} hcell => ?_, fun {r'} hr' => ?_, h.ends, h.inline⟩
  · simp only [Lobby.mail, modifyCell, UnorderedMap.lookup_modify] at hcell
    split at hcell
    · obtain ⟨cell', hcell', rfl⟩ := Option.map_eq_some_iff.mp hcell
      have hok := h.cell hcell'
      refine ⟨hok.id, hok.pos, hok.lt, hok.seats, ?_, fun hg => absurd hg hthreads, hok.running⟩
      simp [hok.no_stop, Ne.symm hstop]
    · exact h.cell hcell
  · have hsome := h.live hr'
    simp only [Lobby.mail, modifyCell, UnorderedMap.lookup_modify]
    split <;> simpa using hsome

/-! ### Sessions -/

theorem Base.heartbeat {s : Lobby F} (h : Base s) (pid now : ℕ) :
    Base { s with sessions := s.sessions.modify pid fun p => { p with lastHeartbeatMs := now } } :=
  ⟨h.tables.touch pid (f := fun p => { p with lastHeartbeatMs := now }) fun _ =>
    ⟨rfl, rfl, rfl, rfl⟩, h.few, h.cell, h.live, h.ends, h.inline⟩

theorem Base.unbindSession {s : Lobby F} (h : Base s) {conn : Conn} {pid : ℕ} {p : Session}
    (hpid : s.connToPlayer.lookup conn = some pid) (hp : s.sessions.lookup pid = some p) :
    Base (s.unbindSession conn pid p) := by
  unfold Lobby.unbindSession
  split
  · next hm =>
      refine ⟨?_, (Finset.card_erase_le).trans h.few, h.cell, h.live, h.ends, h.inline⟩
      exact h.tables.unbind hpid hp (f := fun p => { p with conn := none, state := .kLobby })
        (fun _ => ⟨rfl, rfl, rfl⟩) (.inr ⟨hm, fun _ => rfl, rfl⟩)
  · next hm =>
      refine ⟨?_, h.few, h.cell, h.live, h.ends, h.inline⟩
      exact h.tables.unbind hpid hp (f := fun p => { p with conn := none })
        (fun _ => ⟨rfl, rfl, rfl⟩) (.inl ⟨hm, fun _ => rfl, rfl⟩)

theorem Base.eraseSession {s : Lobby F} (h : Base s) {pid : ℕ} {p : Session}
    (hp : s.sessions.lookup pid = some p) (hnone : p.conn = none) :
    Base (s.eraseSession pid) :=
  ⟨h.tables.expire hp hnone, h.few, h.cell, h.live, h.ends, h.inline⟩

theorem Base.matchTimeout {s : Lobby F} (h : Base s) (pid : ℕ) : Base (s.matchTimeout pid) := by
  have hleave : pid ∈ s.matchQueue.waiting →
      Base (({ s with matchTimer := s.matchTimer.erase pid } : Lobby F).leaveQueue pid) := by
    intro hmem
    obtain ⟨p, hp⟩ := Option.isSome_iff_exists.mp (h.tables.waiting hmem)
    have hok := h.tables.session hp
    have hroom : p.roomId = 0 := hok.roomId_of_matching (hok.queue.mpr hmem)
    have horder : s.matchQueue.Ok := h.tables.order
    refine ⟨?_, (Finset.card_erase_le).trans h.few, h.cell, h.live, h.ends, h.inline⟩
    exact h.tables.setState hp hroom (f := fun p => { p with state := .kLobby })
      (fun _ => ⟨rfl, rfl, rfl, rfl⟩) (horder.remove pid) (.inr ⟨rfl, rfl⟩)
  unfold Lobby.matchTimeout
  dsimp only
  split
  · next hmem =>
      have hmem : pid ∈ s.matchQueue.waiting := by simpa [MatchQueue.contains] using hmem
      split
      · exact hleave hmem
      · exact (hleave hmem).congr rfl rfl rfl rfl
  · exact h.congr rfl rfl rfl rfl

theorem Base.login {s : Lobby F} (h : Base s) (conn : Conn) (account token : String) (now : ℕ)
    (ks : List ℕ) :
    Base (s.addSession conn
      { playerId := s.nextPlayerId, token := token, account := account, conn := some conn
        lastHeartbeatMs := now } ks) :=
  ⟨h.tables.login ks conn rfl rfl rfl rfl, h.few, h.cell, h.live, h.ends, h.inline⟩

theorem Base.rebindSession {s : Lobby F} (h : Base s) {pid : ℕ} {p : Session}
    (hp : s.sessions.lookup pid = some p) (hnone : p.conn = none) (conn : Conn) (now : ℕ) :
    Base (s.rebindSession conn pid p now) := by
  refine ⟨?_, h.few, h.cell, h.live, h.ends, h.inline⟩
  have hid : p.playerId = pid := (h.tables.session hp).id
  have htables := h.tables.reconnect hp hnone conn
    (f := fun p => { p with conn := some conn, lastHeartbeatMs := now, expireTimerId := 0 })
    fun _ => ⟨rfl, rfl, rfl, rfl⟩
  rw [← hid] at htables
  simpa only [Lobby.core, Lobby.rebindSession, hid] using htables

theorem Base.scheduleExpiry {s : Lobby F} (h : Base s) (pid : ℕ) : Base (s.scheduleExpiry pid) :=
  ⟨h.tables.touch pid (f := fun p =>
    { p with expireTimerId := (s.wheel.add kSessionKeepMs (TimerCb.expireSession pid)).2 }) fun _ =>
    ⟨rfl, rfl, rfl, rfl⟩, h.few, h.cell, h.live, h.ends, h.inline⟩

/-! ### The queue -/

/-- A player in the lobby enters the queue. The queue may hold two players
then; all the rest is in order. -/
theorem Base.joinQueue {s : Lobby F} (h : Base s) {pid : ℕ} {p : Session}
    (hp : s.sessions.lookup pid = some p) (hconn : p.conn.isSome) (hstate : p.state = .kLobby) :
    pid ∉ s.matchQueue.waiting ∧ (s.matchQueue.push pid).1.waiting = insert pid s.matchQueue.waiting ∧
      Tables (s.joinQueue pid).core := by
  have hok := h.tables.session hp
  have hroom : p.roomId = 0 := by
    by_contra hne
    have := hok.inRoom.mp hne
    rw [hstate] at this
    cases this
  have hnot : pid ∉ s.matchQueue.waiting := by
    rw [← show _ ↔ pid ∈ s.matchQueue.waiting from hok.queue, hstate]
    simp
  have hw := (MatchQueue.push_of_notMem hnot).2
  have horder : s.matchQueue.Ok := h.tables.order
  refine ⟨hnot, hw, ?_⟩
  exact h.tables.setState hp hroom (f := fun p => { p with state := .kMatching })
    (fun _ => ⟨rfl, rfl, rfl, rfl⟩) (horder.push pid) (.inl ⟨rfl, hconn, hw⟩)

theorem Base.wait {s : Lobby F} (h : Base s) {pid : ℕ} {p : Session}
    (hp : s.sessions.lookup pid = some p) (hconn : p.conn.isSome) (hstate : p.state = .kLobby)
    (hempty : s.matchQueue.waiting = ∅) :
    Base { s.joinQueue pid with matchQueue := (s.matchQueue.push pid).1.compact } := by
  obtain ⟨-, hw, ht⟩ := h.joinQueue hp hconn hstate
  refine ⟨?_, ?_, h.cell, h.live, h.ends, h.inline⟩
  · exact ⟨fun hx => let hok := ht.session hx
        ⟨hok.id, hok.pos, hok.lt, hok.queue, hok.conn, hok.inRoom, hok.room⟩, ht.waiting, ht.two,
      ht.bound, ht.rooms_lt, ht.rooms_nodup, ht.order.compact, ht.player_pos, ht.room_pos⟩
  · show (s.matchQueue.push pid).1.waiting.card ≤ 1
    rw [hw, hempty]
    rfl

theorem Lobby.Postable.ne_stop {s : Lobby F} {r : ℕ} {task : RoomTask F} (h : s.Postable r task) :
    task ≠ .stop := by
  rintro rfl
  exact h

theorem base_init (gameThreads : ℕ) (writer : Bool) :
    Base (Lobby.init gameThreads writer : Lobby F) := by
  refine ⟨⟨?_, ?_, ?_, ?_, ?_, ?_, MatchQueue.ok_init, by simp [Lobby.core, Lobby.init,
    Lobby.scheduleSweep], by simp [Lobby.core, Lobby.init, Lobby.scheduleSweep]⟩, ?_, ?_, ?_, ?_, ?_⟩
  all_goals
    simp [Lobby.core, Lobby.init, Lobby.scheduleSweep]

variable [Scalar F]

/-- The new room belongs to the two players it is made for. -/
theorem Base.seats_new {s : Lobby F} (h : Base s) {pid a b : ℕ} {p pa pb : Session}
    (hp : s.sessions.lookup pid = some p) (hconn : p.conn.isSome) (hstate : p.state = .kLobby)
    (hne : a ≠ b) (hpa : (s.joinQueue pid).sessions.lookup a = some pa)
    (hpb : (s.joinQueue pid).sessions.lookup b = some pb) (ks : List ℕ) :
    Room.Seats a b (Room.new ks s.nextRoomId
      [(pa.playerId, pa.conn), (pb.playerId, pb.conn)] : Room F) := by
  obtain ⟨-, -, ht⟩ := h.joinQueue hp hconn hstate
  have hoka := ht.session hpa
  have hokb := ht.session hpb
  let d : Pairing := ⟨a, b, pa.conn, pb.conn, hne, hoka.pos, hokb.pos⟩
  have hplayers : [(pa.playerId, pa.conn), (pb.playerId, pb.conn)] = d.players := by
    rw [hoka.id, hokb.id]
    rfl
  rw [hplayers]
  exact Room.seats_new ks s.nextRoomId d

/-- Two waiting players leave the queue for a room of their own. -/
theorem Base.pair {s : Lobby F} (h : Base s) {pid a b : ℕ} {p pa pb : Session} {q : MatchQueue}
    (hp : s.sessions.lookup pid = some p) (hconn : p.conn.isSome) (hstate : p.state = .kLobby)
    (hne : a ≠ b) (hwaiting : insert pid s.matchQueue.waiting = {a, b})
    (hpa : (s.joinQueue pid).sessions.lookup a = some pa)
    (hpb : (s.joinQueue pid).sessions.lookup b = some pb) (hq : q.waiting = ∅) (ks : List ℕ) :
    Base ((s.joinQueue pid).pairUp ks a b pa pb q) := by
  obtain ⟨-, hw, ht⟩ := h.joinQueue hp hconn hstate
  rw [hwaiting] at hw
  have hwait : (s.joinQueue pid).core.matchQueue.waiting = {a, b} := hw
  have hseats := h.seats_new hp hconn hstate hne hpa hpb ks
  obtain ⟨wheel, timers, heq⟩ := pairUp_eq ks a b pa pb q (s.joinQueue pid)
  rw [heq]
  refine ⟨?_, ?_, ?_, ?_, h.ends, h.inline⟩
  · have hempty : q.waiting = ((s.joinQueue pid).core.matchQueue.waiting.erase a).erase b := by
      rw [hq, hwait]
      ext x
      simp
      tauto
    have horder : q.Ok := fun x hx => by simp [hq] at hx
    exact ht.pair (a := a) (b := b) (by simp [hwait]) (by simp [hwait])
      (f := fun p => { p with state := .kInRoom, roomId := s.nextRoomId })
      (fun _ => ⟨rfl, rfl, rfl, rfl⟩) horder hempty
  · show q.waiting.card ≤ 1
    rw [hq]
    simp
  · intro r cell hr
    simp only [Lobby.createRoom, UnorderedMap.lookup_insert_eq] at hr
    split at hr
    · next hrn =>
        obtain rfl := Option.some.inj hr
        subst hrn
        exact ⟨rfl, h.tables.room_pos, Nat.lt_succ_self _, ⟨a, b, hseats⟩, by simp, by simp,
          fun _ _ => rfl⟩
    · next hrn =>
        have hok := h.cell hr
        exact ⟨hok.id, hok.pos, Nat.lt_succ_of_lt hok.lt, hok.seats, hok.no_stop, hok.idle,
          fun hg hmem => hok.running hg ((List.mem_cons.mp hmem).resolve_left hrn)⟩
  · intro r hr
    simp only [Lobby.createRoom, UnorderedMap.lookup_insert_eq, List.mem_cons] at hr ⊢
    split
    · rfl
    · next hrn => exact h.live (hr.resolve_left hrn)

/-! ### Steps of a room -/

/-- A room has made a step that does not end it. -/
theorem Base.quiet {s : Lobby F} (h : Base s) {r : ℕ} {cell : RoomCell F} {op : RoomOp F}
    {mailbox : List (RoomTask F)} {cells : UnorderedMap ℕ (RoomCell F)}
    (hcell : s.cells.lookup r = some cell) (hsource : s.Source r cell op mailbox)
    (hended : (cell.room.apply op).1.ended = cell.room.ended)
    (hcells : s.Replaced r ⟨(cell.room.apply op).1, mailbox⟩ cells) (log : List (Entry F)) :
    Base { s with cells := cells, log := log } := by
  have hok := h.cell hcell
  obtain ⟨a, b, hseats⟩ := hok.seats
  refine ⟨h.tables, h.few, fun {r' cell'} hcell' => ?_, fun {r'} hr' => ?_, h.ends, h.inline⟩
  · rw [hcells r'] at hcell'
    split at hcell'
    · next hr =>
        subst hr
        obtain rfl := Option.some.inj hcell'
        exact ⟨(Room.apply_id _ _).trans hok.id, hok.pos, hok.lt, ⟨a, b, hseats.apply op⟩,
          fun hmem => hok.no_stop (hsource.mem hmem),
          fun hg task htask => hok.idle hg task (hsource.mem htask),
          fun hg hr => hended.trans (hok.running hg hr)⟩
    · exact h.cell hcell'
  · simp only [hcells r']
    split
    · rfl
    · exact h.live hr'

/-- A room has ended, and the lobby has been told or will be. -/
theorem Base.closing {s : Lobby F} (h : Base s) {r : ℕ} {cell : RoomCell F} {op : RoomOp F}
    {mailbox : List (RoomTask F)} {cells : UnorderedMap ℕ (RoomCell F)}
    (hcell : s.cells.lookup r = some cell) (hsource : s.Source r cell op mailbox)
    (hcells : s.Replaced r ⟨(cell.room.apply op).1, mailbox ++ [.resetTicker]⟩ cells)
    (w : ℕ) (log : List (Entry F)) :
    Base (closeRoom r w { s with cells := cells, log := log }) := by
  have hok := h.cell hcell
  obtain ⟨a, b, hseats⟩ := hok.seats
  have hnodup : s.rooms.Nodup := h.tables.rooms_nodup
  have hcell' : ∀ {r' cell'}, cells.lookup r' = some cell' →
      CellOk s.gameThreads s.nextRoomId (s.rooms.erase r) r' cell' := by
    intro r' cell' hcell'
    rw [hcells r'] at hcell'
    split at hcell'
    · next hr =>
        subst hr
        obtain rfl := Option.some.inj hcell'
        refine ⟨(Room.apply_id _ _).trans hok.id, hok.pos, hok.lt, ⟨a, b, hseats.apply op⟩,
          fun hmem => ?_, fun hg task htask => ?_, fun _ hr => absurd hr hnodup.not_mem_erase⟩
        · simp only [List.mem_append, List.mem_singleton, reduceCtorEq, or_false] at hmem
          exact hok.no_stop (hsource.mem hmem)
        · rcases List.mem_append.mp htask with htask | htask
          · exact hok.idle hg task (hsource.mem htask)
          · exact List.mem_singleton.mp htask
    · have hok' := h.cell hcell'
      exact ⟨hok'.id, hok'.pos, hok'.lt, hok'.seats, hok'.no_stop, hok'.idle,
        fun hg hr => hok'.running hg (List.mem_of_mem_erase hr)⟩
  have hlive : ∀ {r'}, r' ∈ s.rooms → (cells.lookup r').isSome := by
    intro r' hr'
    rw [hcells r']
    split
    · rfl
    · exact h.live hr'
  unfold closeRoom
  split
  · exact base_onRoomEnd (s := { s with cells := cells, log := log }) h.tables h.few hcell' hlive
      h.ends h.inline hok.pos w
  · next hg =>
      refine ⟨h.tables, h.few, fun hcell₁ => ?_, hlive, fun e he => ?_, fun hg' => absurd hg' hg⟩
      · have hok' := hcell' hcell₁
        exact ⟨hok'.id, hok'.pos, hok'.lt, hok'.seats, hok'.no_stop, hok'.idle,
          fun hg' => absurd hg' hg⟩
      · rcases List.mem_append.mp he with he | he
        · exact h.ends e he
        · rw [List.mem_singleton] at he
          exact he ▸ hok.pos

theorem Base.core_post {s : Lobby F} (h : Base s) {r : ℕ} {task : RoomTask F}
    (hcell : (s.cells.lookup r).isSome) (hstop : task ≠ .stop)
    (hforce : ∀ w, task ≠ .forceEnd w) : (s.post r task).core = s.core := by
  obtain ⟨cell, hcell⟩ := Option.isSome_iff_exists.mp hcell
  obtain ⟨a, b, hseats⟩ := (h.cell hcell).seats
  rw [post_quiet hcell (Room.exec_quiet hseats hstop hforce)]
  rfl

/-- Only a forfeit posted to a room can reach the tables of the lobby. -/
theorem Base.core_postToRoom {s : Lobby F} (h : Base s) (p : Session) {task : RoomTask F}
    (hstop : task ≠ .stop) (hforce : ∀ w, task ≠ .forceEnd w) :
    (s.postToRoom p task).core = s.core := by
  unfold postToRoom
  split
  · next hin =>
      simp only [Bool.and_eq_true, decide_eq_true_eq] at hin
      exact h.core_post (h.live hin.2) hstop hforce
  · rfl

/-! ### All moves -/

theorem Base.move {φ : Deed → Prop} {s s' : Lobby F} (h : Base s) (hmove : Move φ s s') :
    Base s' := by
  cases hmove with
  | plain => exact h.congr rfl rfl rfl rfl
  | heartbeat pid now => exact h.heartbeat pid now
  | login conn account token now ks =>
      exact (h.login conn account token now ks).congr rfl rfl rfl rfl
  | rebind conn now hp hnone => exact (h.rebindSession hp hnone conn now).congr rfl rfl rfl rfl
  | unbind hconn hp => exact h.unbindSession hconn hp
  | scheduleExpiry pid => exact h.scheduleExpiry pid
  | erase hp hnone => exact h.eraseSession hp hnone
  | forfeit hthreads hp hnone => exact (h.mail _ hthreads (by simp)).eraseSession hp hnone
  | wait hp hconn hstate hempty => exact h.wait hp hconn hstate hempty
  | pair ks hp hconn hstate hne hwaiting hpa hpb hq =>
      exact h.pair hp hconn hstate hne hwaiting hpa hpb hq ks
  | matchTimeout hfiring htake hcb =>
      refine Base.matchTimeout ?_ _
      exact h.congr rfl rfl rfl rfl
  | take | skip | wheelTick | scheduleSweep => exact h.congr rfl rfl rfl rfl
  | mail hthreads hcell hpost => exact h.mail _ hthreads hpost.ne_stop
  | quiet hcell hsource hended _ _ hcells => exact h.quiet hcell hsource hended hcells _
  | closing hcell hsource _ _ _ _ _ hcells => exact h.closing hcell hsource hcells _ _
  | roomEnd hends => exact h.roomEnd hends

end GameServer.Game
