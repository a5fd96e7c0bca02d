import GameServer.Game.Presence

/-!
The slots of a room follow the sessions of its players.

A room gets the connections of its players when it is built. Later the lobby
tells it of every change, by a task. What a slot is going to hold when the
mailbox is empty (`RoomCell.aim`) is then what the session holds, at every
moment between two events.

Within `onDisconnect` and `onReconnect` it is not: the session is updated
first, and the room is told next. `Follows P` says it of the players in `P`
only, so that these two handlers can leave one player out until the task is
posted.
-/

namespace GameServer.Game

open GameServer.Lib GameServer.Proto GameServer.Timer
open Lobby

variable {F : Type}

/-- The session of player `p` is in room `r` and has connection `conn`. -/
def Lobby.Sits (s : Lobby F) (p r : ℕ) (conn : Option Conn) : Prop :=
  ∃ x, s.sessions.lookup p = some x ∧ x.roomId = r ∧ x.conn = conn

theorem Lobby.Sits.carries {s : Lobby F} {p r : ℕ} {conn : Option Conn} (h : s.Sits p r conn) :
    s.Carries p r := by
  obtain ⟨x, hx, hr, -⟩ := h
  exact ⟨x, hx, hr⟩

/-- For the players in `P`, the room will have the connection of the session. -/
def Follows (P : ℕ → Prop) (s : Lobby F) : Prop :=
  ∀ p r conn cell, P p → s.Sits p r conn → r ≠ 0 → s.cells.lookup r = some cell →
    cell.aim p = conn

/-- The rule for steps that leave the rooms alone. -/
theorem Follows.frame {P : ℕ → Prop} {s s' : Lobby F} (h : Follows P s)
    (hcells : s'.cells = s.cells)
    (hsits : ∀ p r conn, P p → s'.Sits p r conn → r ≠ 0 → s.Sits p r conn) : Follows P s' := by
  intro p r conn cell hp hsit hr hcell
  rw [hcells] at hcell
  exact h p r conn cell hp (hsits p r conn hp hsit hr) hr hcell

theorem sits_modify {s s' : Lobby F} (p₀ : ℕ) (f : Session → Session)
    (hsessions : s'.sessions = s.sessions.modify p₀ f)
    (hf : ∀ x, ((f x).roomId, (f x).conn) = (x.roomId, x.conn)) {p r : ℕ} {conn : Option Conn}
    (h : s'.Sits p r conn) : s.Sits p r conn := by
  obtain ⟨y, hy, hr, hc⟩ := h
  rw [hsessions, UnorderedMap.lookup_modify] at hy
  split at hy
  · obtain ⟨x, hx, rfl⟩ := Option.map_eq_some_iff.mp hy
    obtain ⟨hroom, hconn⟩ := Prod.mk.inj (hf x)
    exact ⟨x, hx, hroom.symm.trans hr, hconn.symm.trans hc⟩
  · exact ⟨y, hy, hr, hc⟩

/-- Ending a room takes its players out and leaves the others where they are. -/
theorem Follows.onRoomEnd {P : ℕ → Prop} {s : Lobby F} (h : Follows P s) (r w : ℕ) :
    Follows P (s.onRoomEnd r w) := by
  refine h.frame (cells_onRoomEnd r w s).1 fun p r' conn _ hsit hr' => ?_
  obtain ⟨y, hy, hyr, hyc⟩ := hsit
  rw [lookup_onRoomEnd] at hy
  obtain ⟨x, hx, rfl⟩ := Option.map_eq_some_iff.mp hy
  rw [Session.leave_conn] at hyc
  refine ⟨x, hx, ?_, hyc⟩
  unfold Session.leave at hyr
  split at hyr
  · exact absurd hyr.symm hr'
  · exact hyr

/-- The rule for steps that replace one room. -/
theorem Follows.replace {P : ℕ → Prop} {s s' : Lobby F} (h : Follows P s) {r : ℕ}
    {cell' : RoomCell F} (hcells : s.Replaced r cell' s'.cells)
    (hsits : ∀ p r conn, s'.Sits p r conn → s.Sits p r conn)
    (haim : ∀ p conn, P p → s.Sits p r conn → cell'.aim p = conn) : Follows P s' := by
  intro p r' conn d hp hsit hr' hd
  rw [hcells r'] at hd
  split at hd
  · next heq =>
      subst heq
      obtain rfl := Option.some.inj hd
      exact haim p conn hp (hsits p r' conn hsit)
  · exact h p r' conn d hp (hsits p r' conn hsit) hr' hd

/-- What the lobby posts to a room agrees with the sessions. -/
theorem Lobby.Postable.setSlot {s : Lobby F} {r : ℕ} {task : RoomTask F}
    (h : s.Postable r task) {p : ℕ} {conn : Option Conn} (hsit : s.Sits p r conn) :
    task.setSlot p conn = conn := by
  obtain ⟨x, hx, -, hxc⟩ := hsit
  cases task with
  | rebind q conn' =>
      obtain ⟨y, c, hy, -, hyc, rfl⟩ := h
      simp only [RoomTask.setSlot]
      split
      · next hq =>
          subst hq
          obtain rfl := Option.some.inj (hx.symm.trans hy)
          exact hyc.symm.trans hxc
      · rfl
  | dropConn q =>
      obtain ⟨y, hy, -, hyc⟩ := h
      simp only [RoomTask.setSlot]
      split
      · next hq =>
          subst hq
          obtain rfl := Option.some.inj (hx.symm.trans hy)
          exact hyc.symm.trans hxc
      · rfl
  | start | onInput | forceEnd | stop | resetTicker => rfl

variable [Scalar F]

/-- An operation leaves the slot of a player with what its session says. -/
theorem Follows.aim_apply {P : ℕ → Prop} {s : Lobby F} (h : Follows P s) (hbase : Base s)
    (hseating : Seating s) {r : ℕ} {cell : RoomCell F} {op : RoomOp F}
    {mailbox : List (RoomTask F)} (hcell : s.cells.lookup r = some cell)
    (hsource : s.Source r cell op mailbox) {p : ℕ} {conn : Option Conn} (hp : P p)
    (hsit : s.Sits p r conn) : RoomCell.aim ⟨(cell.room.apply op).1, mailbox⟩ p = conn :=
  hbase.aim_apply hseating hcell hsource hsit.carries
    (h p r conn cell hp hsit (hbase.cell hcell).pos hcell) fun _ hpost => hpost.setSlot hsit

theorem Follows.closing {P : ℕ → Prop} {s : Lobby F} (h : Follows P s) (hbase : Base s)
    (hseating : Seating s) {r w : ℕ} {cell : RoomCell F} {op : RoomOp F}
    {mailbox : List (RoomTask F)} {cells : UnorderedMap ℕ (RoomCell F)}
    (hcell : s.cells.lookup r = some cell) (hsource : s.Source r cell op mailbox)
    (hcells : s.Replaced r ⟨(cell.room.apply op).1, mailbox ++ [.resetTicker]⟩ cells)
    (log : List (Entry F)) :
    Follows P (closeRoom r w { s with cells := cells, log := log }) := by
  have hreplaced : Follows P { s with cells := cells, log := log } := by
    refine h.replace hcells (fun _ _ _ hsit => hsit) fun p conn hp hsit => ?_
    rw [aim_append ⟨(cell.room.apply op).1, mailbox⟩ .resetTicker p]
    exact h.aim_apply hbase hseating hcell hsource hp hsit
  unfold closeRoom
  split
  · exact hreplaced.onRoomEnd r w
  · exact hreplaced.frame rfl fun _ _ _ _ hsit _ => hsit

/-- A new room has the connections of its players. -/
theorem Follows.pair {P : ℕ → Prop} {s : Lobby F} (h : Follows P s) (hbase : Base s)
    {pid a b : ℕ} {p pa pb : Session} {q : MatchQueue} (hp : s.sessions.lookup pid = some p)
    (hconn : p.conn.isSome) (hstate : p.state = .kLobby)
    (hpa : (s.joinQueue pid).sessions.lookup a = some pa)
    (hpb : (s.joinQueue pid).sessions.lookup b = some pb) (ks : List ℕ) :
    Follows P ((s.joinQueue pid).pairUp ks a b pa pb q) := by
  have hcells := cells_joined ks pid a b pa pb q s
  have hids : pa.playerId = a ∧ pb.playerId = b := by
    obtain ⟨-, -, htables⟩ := hbase.joinQueue hp hconn hstate
    exact ⟨(htables.session hpa).id, (htables.session hpb).id⟩
  intro c r conn cell hc hsit hr hcell
  obtain ⟨y, hy, hyr, hyc⟩ := hsit
  rw [lookup_pairUp] at hy
  obtain ⟨x, hx, rfl⟩ := Option.map_eq_some_iff.mp hy
  rw [hcells] at hcell
  by_cases hmember : c = a ∨ c = b
  · rw [if_pos hmember] at hyr hyc
    have hnew : r = s.nextRoomId := hyr.symm
    rw [if_pos hnew] at hcell
    obtain rfl := Option.some.inj hcell
    simp only [RoomCell.aim, List.foldl_nil, Room.conns_new, hids.1, hids.2]
    split
    · next hb =>
        obtain rfl := Option.some.inj (hpb.symm.trans (hb ▸ hx))
        exact hyc
    · next hb =>
        have ha := hmember.resolve_right hb
        rw [if_pos ha]
        obtain rfl := Option.some.inj (hpa.symm.trans (ha ▸ hx))
        exact hyc
  · rw [if_neg hmember] at hyr hyc
    have hold : s.Sits c r conn :=
      sits_modify pid (fun p => { p with state := .kMatching }) rfl (fun _ => rfl)
        ⟨x, hx, hyr, hyc⟩
    have hne : r ≠ s.nextRoomId := by
      rintro rfl
      obtain ⟨z, hz, hzr⟩ := hold.carries
      exact absurd (hbase.tables.rooms_lt ((hbase.tables.session hz).room (hzr ▸ hr)))
        (by rw [hzr]; exact Nat.lt_irrefl _)
    rw [if_neg hne] at hcell
    exact h c r conn cell hc hold hr hcell

/-- All moves but those that give a session a connection or take it away. -/
theorem Follows.move {P : ℕ → Prop} {φ : Deed → Prop} (hrequests : ∀ c, ¬φ (.requests c))
    (hcloses : ∀ c, ¬φ (.closes c)) {s s' : Lobby F} (hbase : Base s) (hseating : Seating s)
    (h : Follows P s) (hmove : Move φ s s') : Follows P s' := by
  have hmodify : ∀ {t : Lobby F} (p₀ : ℕ) (f : Session → Session),
      t.sessions = s.sessions.modify p₀ f →
      (∀ x, ((f x).roomId, (f x).conn) = (x.roomId, x.conn)) → t.cells = s.cells →
      Follows P t := fun p₀ f hsessions hf hcells =>
    h.frame hcells fun _ _ _ _ hsit _ => sits_modify p₀ f hsessions hf hsit
  have herase : ∀ (pid : ℕ) {t : Lobby F}, Follows P t → Follows P (t.eraseSession pid) := by
    intro pid t ht
    refine ht.frame rfl fun p r conn _ hsit _ => ?_
    obtain ⟨x, hx, hr, hc⟩ := hsit
    rw [eraseSession, UnorderedMap.lookup_erase_eq] at hx
    split at hx
    · cases hx
    · exact ⟨x, hx, hr, hc⟩
  cases hmove with
  | plain | take | skip | wheelTick | scheduleSweep =>
      exact h.frame rfl fun _ _ _ _ hsit _ => hsit
  | heartbeat pid now =>
      exact hmodify pid (fun p => { p with lastHeartbeatMs := now }) rfl (fun _ => rfl) rfl
  | login conn _ _ _ _ _ hrequest => exact absurd hrequest (hrequests conn)
  | rebind conn _ _ _ _ hrequest => exact absurd hrequest (hrequests conn)
  | unbind _ _ _ hclose => exact absurd hclose (hcloses _)
  | scheduleExpiry pid =>
      exact hmodify pid (fun p => { p with
        expireTimerId := (s.wheel.add kSessionKeepMs (TimerCb.expireSession pid)).2 })
        rfl (fun _ => rfl) rfl
  | erase => exact herase _ h
  | @forfeit pid p hthreads hp hnone hroom =>
      have hmem : p.roomId ∈ s.rooms := (hbase.tables.session hp).room hroom
      obtain ⟨cell, hcell⟩ := Option.isSome_iff_exists.mp (hbase.live hmem)
      refine herase pid (h.replace (replaced_mail hcell _) (fun _ _ _ hsit => hsit)
        fun p' conn hp' hsit => ?_)
      rw [aim_append]
      exact h p' _ conn cell hp' hsit hroom hcell
  | @wait pid =>
      exact hmodify pid (fun p => { p with state := .kMatching }) rfl (fun _ => rfl) rfl
  | pair ks hp hconn hstate _ _ hpa hpb => exact h.pair hbase hp hconn hstate hpa hpb ks
  | @matchTimeout n rest node w pid =>
      unfold Lobby.matchTimeout
      dsimp only
      split
      · split <;> exact hmodify pid (fun p => { p with state := .kLobby }) rfl (fun _ => rfl) rfl
      · exact h.frame rfl fun _ _ _ _ hsit _ => hsit
  | @mail r cell task _ hcell hpost =>
      refine h.replace (replaced_mail hcell task) (fun _ _ _ hsit => hsit) fun p conn hp hsit => ?_
      rw [aim_append, h p r conn cell hp hsit (hbase.cell hcell).pos hcell]
      exact hpost.setSlot hsit
  | quiet hcell hsource _ _ _ hcells =>
      exact h.replace hcells (fun _ _ _ hsit => hsit) fun p conn hp hsit =>
        h.aim_apply hbase hseating hcell hsource hp hsit
  | closing hcell hsource _ _ _ _ _ hcells =>
      exact h.closing hbase hseating hcell hsource hcells _
  | @roomEnd r winner rest =>
      have htaken : Follows P { s with roomEnds := rest } :=
        h.frame rfl fun _ _ _ _ hsit _ => hsit
      exact htaken.onRoomEnd r winner

/-! ### The two handlers that change a connection -/

/-- The room of player `p` is told the connection that the session has now. -/
theorem Follows.post {s : Lobby F} {p : ℕ} {x : Session} (h : Follows (· ≠ p) s) (hbase : Base s)
    (hseating : Seating s) (hx : s.sessions.lookup p = some x) (hroom : x.roomId ≠ 0)
    {task : RoomTask F} (hstop : task ≠ .stop) (hforce : ∀ w, task ≠ .forceEnd w)
    (htask : ∀ slot, task.setSlot p slot = x.conn)
    (hother : ∀ q, q ≠ p → ∀ slot, task.setSlot q slot = slot) :
    Follows (fun _ => True) (s.post x.roomId task) := by
  have hmem : x.roomId ∈ s.rooms := (hbase.tables.session hx).room hroom
  obtain ⟨cell, hcell⟩ := Option.isSome_iff_exists.mp (hbase.live hmem)
  have hok := hbase.cell hcell
  obtain ⟨a, b, hseats⟩ := hok.seats
  rw [post_quiet hcell (Room.exec_quiet hseats hstop hforce)]
  -- posting applies `setSlot` to every slot of the room
  have haim : ∀ q conn, s.Sits q x.roomId conn →
      (deliver s.gameThreads task cell).aim q = task.setSlot q (cell.aim q) := by
    intro q conn hsit
    obtain ⟨d, hd, hseat⟩ := hseating.seated q x.roomId hsit.carries hroom
    obtain rfl := Option.some.inj (hcell.symm.trans hd)
    exact aim_deliver hok.idle hseat task
  intro q r conn d _ hsit hr hd
  have hsit : s.Sits q r conn := hsit
  dsimp only at hd
  rw [UnorderedMap.lookup_modify] at hd
  by_cases heq : r = x.roomId
  · subst heq
    rw [if_pos rfl, hcell] at hd
    obtain rfl := Option.some.inj hd
    rw [haim q conn hsit]
    by_cases hq : q = p
    · subst hq
      obtain ⟨y, hy, -, hyc⟩ := hsit
      obtain rfl := Option.some.inj (hx.symm.trans hy)
      exact (htask _).trans hyc
    · rw [hother q hq]
      exact h q x.roomId conn cell hq hsit hroom hcell
  · rw [if_neg heq] at hd
    refine h q r conn d ?_ hsit hr hd
    rintro rfl
    obtain ⟨y, hy, hyr, -⟩ := hsit
    obtain rfl := Option.some.inj (hx.symm.trans hy)
    exact heq hyr.symm

/-- The same for a player that may be in no room. `y` is the session as the
handler has found it. -/
theorem Follows.postToRoom {s : Lobby F} {p : ℕ} {x : Session} (h : Follows (· ≠ p) s)
    (hbase : Base s) (hseating : Seating s) (hx : s.sessions.lookup p = some x) (y : Session)
    (hroom : y.roomId = x.roomId) (hin : y.state = .kInRoom ↔ x.state = .kInRoom)
    {task : RoomTask F} (hstop : task ≠ .stop) (hforce : ∀ w, task ≠ .forceEnd w)
    (htask : ∀ slot, task.setSlot p slot = x.conn)
    (hother : ∀ q, q ≠ p → ∀ slot, task.setSlot q slot = slot) :
    Follows (fun _ => True) (s.postToRoom y task) := by
  have hok := hbase.tables.session hx
  by_cases hstate : y.state = .kInRoom
  · have hne : x.roomId ≠ 0 := hok.inRoom.mpr (hin.mp hstate)
    have hmem : y.roomId ∈ s.rooms := hroom ▸ hok.room hne
    rw [Lobby.postToRoom, if_pos (by simp [hstate, hmem]), hroom]
    exact h.post hbase hseating hx hne hstop hforce htask hother
  · have hzero : x.roomId = 0 := by
      by_contra hne
      exact hstate (hin.mpr (hok.inRoom.mp hne))
    rw [Lobby.postToRoom, if_neg (by simp [hstate])]
    intro q r conn cell _ hsit hr hcell
    refine h q r conn cell ?_ hsit hr hcell
    rintro rfl
    obtain ⟨z, hz, hzr, -⟩ := hsit
    obtain rfl := Option.some.inj (hx.symm.trans hz)
    exact hr (hzr.symm.trans hzero)

omit [Scalar F] in
theorem Follows.enqueue {P : ℕ → Prop} {s : Lobby F} (h : Follows P s) (task : StoreTask) :
    Follows P (s.enqueue task) := by
  unfold Lobby.enqueue
  split
  · exact h.frame rfl fun _ _ _ _ hsit _ => hsit
  · exact h

omit [Scalar F] in
theorem Follows.reject {P : ℕ → Prop} {s : Lobby F} (h : Follows P s) (conn : Conn) :
    Follows P (s.reject conn) :=
  h.frame rfl fun _ _ _ _ hsit _ => hsit

omit [Scalar F] in
/-- The rule for a step that changes the session of one player, who is left
out from then on. -/
theorem Follows.except {P : ℕ → Prop} {s s' : Lobby F} (h : Follows P s) (p : ℕ)
    (hcells : s'.cells = s.cells)
    (hsessions : ∀ q, q ≠ p → s'.sessions.lookup q = s.sessions.lookup q) (hP : ∀ q, q ≠ p → P q) :
    Follows (· ≠ p) s' := by
  intro q r conn cell hq hsit hr hcell
  obtain ⟨x, hx, hxr, hxc⟩ := hsit
  rw [hsessions q hq] at hx
  rw [hcells] at hcell
  exact h q r conn cell (hP q hq) ⟨x, hx, hxr, hxc⟩ hr hcell

omit [Scalar F] in
theorem Follows.onLogin {s : Lobby F} (h : Follows (fun _ => True) s) (conn : Conn)
    (account token : String) (now : ℕ) (ks : List ℕ) :
    Follows (fun _ => True) (s.onLogin conn account token now ks) := by
  -- a new session is in no room
  have hadded : ∀ session : Session, session.roomId = 0 →
      Follows (fun _ => True) ((s.addSession conn session ks).emit
        (.send conn (.loginResp 0 s.nextPlayerId token))) := by
    intro session hzero
    refine h.frame rfl fun p r c _ hsit hr => ?_
    obtain ⟨x, hx, hxr, hxc⟩ := hsit
    simp only [emit, addSession, UnorderedMap.lookup_reorder, UnorderedMap.lookup_insert_eq] at hx
    split at hx
    · obtain rfl := Option.some.inj hx
      exact absurd (hxr.symm.trans hzero) hr
    · exact ⟨x, hx, hxr, hxc⟩
  exact (hadded _ rfl).enqueue _

theorem Follows.onReconnect {s : Lobby F} (h : Follows (fun _ => True) s) (hbase : Base s)
    (hseating : Seating s) (conn : Conn) (pid : ℕ) (token : String) (now : ℕ) :
    Follows (fun _ => True) (s.onReconnect conn pid token now) := by
  rcases onReconnect_cases s conn pid token now with ⟨-, heq⟩ | ⟨p, -, hp, -, hnone, heq⟩
  · rw [heq]
    exact h.reject conn
  · rw [heq]
    have hmove : Move (fun _ => True) s _ :=
      .rebind conn now hp hnone (.inr trivial) trivial
    have hid : p.playerId = pid := (hbase.tables.session hp).id
    refine Follows.enqueue ?_ _
    have hexcept : Follows (· ≠ pid) ((s.rebindSession conn pid p now).emit
        (.send conn (.loginResp 0 p.playerId p.token))) := by
      refine h.except pid rfl (fun q hq => ?_) fun _ _ => trivial
      simp [emit, rebindSession, hq]
    refine hexcept.postToRoom (hbase.move hmove) (hseating.move hbase hmove)
      (x := { p with conn := some conn, lastHeartbeatMs := now, expireTimerId := 0 })
      ?_ p rfl Iff.rfl (by simp) (by simp) (fun slot => ?_) fun q hq slot => ?_
    · simp [emit, rebindSession, hp]
    · rw [hid, RoomTask.setSlot, if_pos rfl]
    · rw [hid, RoomTask.setSlot, if_neg (Ne.symm hq)]

theorem Follows.onDisconnect {s : Lobby F} (h : Follows (fun _ => True) s) (hbase : Base s)
    (hseating : Seating s) (conn : Conn) : Follows (fun _ => True) (s.onDisconnect conn) := by
  rcases onDisconnect_cases hbase conn with heq | ⟨pid, p, hpid, hp, -, heq⟩
  · rw [heq]
    exact h
  · rw [heq]
    have hmove : Move (fun _ => True) s (s.unbindSession conn pid p) :=
      .unbind hpid hp (.inr trivial) trivial
    have hexcept : Follows (· ≠ pid) (s.unbindSession conn pid p) := by
      refine h.except pid ?_ (fun q hq => ?_) fun _ _ => trivial
      · unfold unbindSession
        split <;> rfl
      · rw [lookup_unbindSession]
        simp [hq]
    have hsession : (s.unbindSession conn pid p).sessions.lookup pid = some { p with
        conn := none, state := if p.state = .kMatching then .kLobby else p.state } := by
      rw [lookup_unbindSession, hp]
      simp
    have hin : p.state = .kInRoom ↔
        (if p.state = .kMatching then .kLobby else p.state) = SessionState.kInRoom := by
      split
      · next hmatching => simp [hmatching]
      · exact Iff.rfl
    have hstop : (RoomTask.dropConn pid : RoomTask F) ≠ .stop := by simp
    have htold : Follows (fun _ => True)
        ((s.unbindSession conn pid p).postToRoom p (.dropConn pid)) := by
      refine hexcept.postToRoom (hbase.move hmove) (hseating.move hbase hmove) hsession p rfl hin
        hstop (by simp) (fun slot => ?_) fun q hq slot => ?_
      · rw [RoomTask.setSlot, if_pos rfl]
      · rw [RoomTask.setSlot, if_neg (Ne.symm hq)]
    have hscheduled : Follows (fun _ => True)
        (((s.unbindSession conn pid p).postToRoom p (.dropConn pid)).scheduleExpiry pid) :=
      htold.frame rfl fun q r c _ hsit _ => sits_modify pid (fun x => { x with
        expireTimerId := (TimerWheel.add kSessionKeepMs (TimerCb.expireSession pid)
          ((s.unbindSession conn pid p).postToRoom p (.dropConn pid)).wheel).2 })
        rfl (fun _ => rfl) hsit
    exact hscheduled.enqueue _

/-! ### Whole runs -/

theorem Follows.step {s : Lobby F} (h : Follows (fun _ => True) s) (hbase : Base s)
    (hseating : Seating s) (e : LobbyEvent F) : Follows (fun _ => True) (s.step e) := by
  have hmoves : (∀ c, s.commits e (.requests c) = false) → (∀ c, s.commits e (.closes c) = false) →
      Follows (fun _ => True) (s.step e) := by
    intro hrequests hcloses
    refine (invariant_of_moves (I := fun s => Seating s ∧ Follows (fun _ => True) s)
      (fun s s' hbase hI hmove => ?_) hbase ⟨hseating, h⟩ (step_moves hbase e)).2
    exact ⟨hI.1.move hbase hmove, hI.2.move (by simp [hrequests]) (by simp [hcloses]) hbase hI.1
      hmove⟩
  rcases step_cases s e with hself | ⟨-, hstep⟩
  · rw [hself]
    exact h
  cases e with
  | login conn account token now ks =>
      rw [hstep]
      exact h.onLogin conn account token now ks
  | reconnect conn pid token now =>
      rw [hstep]
      exact h.onReconnect hbase hseating conn pid token now
  | disconnect conn =>
      rw [hstep]
      exact h.onDisconnect hbase hseating conn
  | matchReq | input | heartbeat | leaderboard | roomEnd | wheelTick | fireNext | roomTask
  | roomTick | storeTask => exact hmoves (fun _ => rfl) fun _ => rfl

/-- The room when all tasks that are posted to it now have been run. -/
def RoomCell.drained (cell : RoomCell F) : Room F :=
  cell.mailbox.foldl (fun r task => (r.exec task).1) cell.room

theorem slot_drained {cell : RoomCell F} {p : ℕ} (hseat : cell.HasSeat p) :
    cell.drained.conns.lookup p = some (cell.aim p) := by
  have hloop : ∀ (mailbox : List (RoomTask F)) (r : Room F), (r.conns.lookup p).isSome →
      (mailbox.foldl (fun r task => (r.exec task).1) r).conns.lookup p =
        some (mailbox.foldl (RoomTask.setSlot p) (r.conns.lookup p).join) := by
    intro mailbox
    induction mailbox with
    | nil =>
        intro r hr
        obtain ⟨slot, hslot⟩ := Option.isSome_iff_exists.mp hr
        simp [hslot]
    | cons task mailbox ih =>
        intro r hr
        have hr' : ((r.exec task).1.conns.lookup p).isSome :=
          (Room.apply_conns r (.task task) p).trans hr
        rw [List.foldl_cons, ih _ hr', Room.slot_exec hr, List.foldl_cons]
  exact hloop cell.mailbox cell.room hseat

/-- Every player in a room will be reached there under the connection of its
session, or not at all if it has none. -/
def SlotsFollowSessions (s : Lobby F) : Prop :=
  ∀ p x, s.sessions.lookup p = some x → x.state = .kInRoom →
    ∃ cell, s.cells.lookup x.roomId = some cell ∧ cell.drained.conns.lookup p = some x.conn

/-- The slots of the rooms follow the sessions in every run. -/
theorem room_slots_follow_sessions (gameThreads : ℕ) (writer : Bool)
    (es : List (LobbyEvent F)) : SlotsFollowSessions (Lobby.run gameThreads writer es) := by
  have hall : (Base (Lobby.run gameThreads writer es) ∧
      Seating (Lobby.run gameThreads writer es)) ∧
      Follows (fun _ => True) (Lobby.run gameThreads writer es) := by
    refine invariant_run_of_step
      (I := fun s => (Base s ∧ Seating s) ∧ Follows (fun _ => True) s) (fun s e h => ?_)
      ⟨⟨base_init gameThreads writer, seating_init gameThreads writer⟩, ?_⟩ es
    · refine ⟨⟨h.1.1.step e, ?_⟩, h.2.step h.1.1 h.1.2 e⟩
      exact invariant_of_moves (fun s s' hbase hI hmove => hI.move hbase hmove) h.1.1 h.1.2
        (step_moves h.1.1 e)
    · rintro p r conn cell - ⟨x, hx, -⟩
      cases hx
  obtain ⟨⟨hbase, hseating⟩, hfollows⟩ := hall
  intro p x hx hstate
  have hroom : x.roomId ≠ 0 := (hbase.tables.session hx).inRoom.mpr hstate
  obtain ⟨cell, hcell, hseat⟩ := hseating.seated p x.roomId ⟨x, hx, rfl⟩ hroom
  refine ⟨cell, hcell, ?_⟩
  rw [slot_drained hseat, hfollows p x.roomId x.conn cell trivial ⟨x, hx, rfl, rfl⟩ hroom hcell]

end GameServer.Game
