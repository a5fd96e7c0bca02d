import GameServer.Client.Agreement
import GameServer.Game.LobbyViews

/-!
What a client that waits for an opponent is owed.

Such a client has a `MatchReq` under way, or its player is in the queue, or a
room is going to send it `EnterRoom`: a room that has not been started yet,
or one that has to be told about its connection. In the same way a client
whose player is in a battle knows of it, or will. All this is kept by the
moves of the lobby, whatever their order; the exception is a request that
comes when it cannot be granted, and that is an event of the client.

A room exists before the task is posted that starts it. The rooms from `n` on
are those that the event at hand has made; for them it is enough that the
client's player is in them.
-/

namespace GameServer.Client

open GameServer.Lib GameServer.Proto GameServer.Timer GameServer.Game
open Lobby

variable {F : Type}

/-- The player is in the queue. -/
def Waits (p : ℕ) (s : Lobby F) : Prop :=
  ∃ x, s.sessions.lookup p = some x ∧ x.state = .kMatching

/-- `EnterRoom` is going to be sent to connection `c`. -/
def Coming (p : ℕ) (c : Conn) (s : Lobby F) : Prop :=
  ∃ r cell, s.cells.lookup r = some cell ∧
    (RoomTask.rebind p (some c) ∈ cell.mailbox ∧ cell.HasSeat p ∨
      RoomTask.start ∈ cell.mailbox ∧ cell.room.conns.lookup p = some (some c))

/-- The player is in a battle of a room from `n` on. -/
def Placed (n p : ℕ) (s : Lobby F) : Prop :=
  ∃ r cell, n ≤ r ∧ s.Carries p r ∧ r ≠ 0 ∧ s.cells.lookup r = some cell ∧
    cell.room.ended = false

def Owed (n p : ℕ) (c : Conn) (s : Lobby F) : Prop := Coming p c s ∨ Placed n p s

/-- What the client on connection `c` believes when it has received all there
is; `asked` says that it has a request under way. -/
structure Tuned (n : ℕ) (asked : Prop) (p : ℕ) (c : Conn) (client : GameSession) (s : Lobby F) :
    Prop where
  waits : client.state = .matching → asked ∨ Waits p s ∨ Owed n p c s
  fights : Present p s → Owed n p c s ∨ client.state = .inBattle

/-! ### Messages -/

theorem state_enterRoom {msgs : List (ServerMsg F)}
    (hall : ∀ msg ∈ msgs, msg.inert = true ∨ ∃ r ps, r ≠ 0 ∧ msg = .enterRoom r ps)
    {client : GameSession} (h : client.state = .inBattle ∨ ∃ msg ∈ msgs, msg.inert = false) :
    (client.handleAll msgs).state = .inBattle := by
  induction msgs generalizing client with
  | nil => exact h.resolve_right (by simp)
  | cons msg msgs ih =>
      have hrest := fun m hm => hall m (List.mem_cons_of_mem msg hm)
      show ((client.handleMessage msg).handleAll msgs).state = .inBattle
      rcases hall msg (List.mem_cons_self ..) with hinert | ⟨r, ps, hr, rfl⟩
      · refine ih hrest ?_
        rw [GameSession.handleMessage_inert hinert]
        refine h.imp_right fun ⟨m, hm, hnot⟩ => ⟨m, (List.mem_cons.mp hm).resolve_left ?_, hnot⟩
        rintro rfl
        rw [hinert] at hnot
        cases hnot
      · refine ih hrest (.inl ?_)
        simp [GameSession.handleMessage, GameSession.onEnterRoom, hr]

/-- The rule for messages that mean nothing to the client. -/
theorem Tuned.of_inert {n p : ℕ} {asked : Prop} {c : Conn} {client : GameSession}
    {s s' : Lobby F} (h : Tuned n asked p c client s)
    (hwaits : Waits p s → Waits p s' ∨ Owed n p c s') (howed : Owed n p c s → Owed n p c s')
    (hpresent : Present p s' → Present p s ∨ Owed n p c s') {msgs : List (ServerMsg F)}
    (hmsgs : ∀ msg ∈ msgs, msg.inert = true) : Tuned n asked p c (client.handleAll msgs) s' := by
  rw [GameSession.handleAll_inert hmsgs]
  constructor
  · intro hstate
    rcases h.waits hstate with hasked | hw | ho
    · exact .inl hasked
    · exact .inr (hwaits hw)
    · exact .inr (.inr (howed ho))
  · intro hp
    rcases hpresent hp with hp | ho
    · exact (h.fights hp).imp_left howed
    · exact .inl ho

theorem Tuned.of_inBattle {n p : ℕ} {asked : Prop} {c : Conn} {client : GameSession}
    {s : Lobby F} (h : client.state = .inBattle) : Tuned n asked p c client s :=
  ⟨fun hstate => (nomatch h.symm.trans hstate), fun _ => .inr h⟩

/-- A client that has been told to wait no more. -/
theorem Tuned.of_idle {n p : ℕ} {asked : Prop} {c : Conn} {client : GameSession} {s : Lobby F}
    (h : client.state ≠ .matching) (hpresent : Present p s → Owed n p c s) :
    Tuned n asked p c client s :=
  ⟨fun hstate => absurd hstate h, fun hp => .inl (hpresent hp)⟩

/-! ### Updates -/

theorem Coming.congr {p : ℕ} {c : Conn} {s s' : Lobby F} (h : Coming p c s)
    (hcells : s'.cells = s.cells) : Coming p c s' := by
  unfold Coming
  rw [hcells]
  exact h

theorem Placed.frame {n p : ℕ} {s s' : Lobby F} (h : Placed n p s) (hcells : s'.cells = s.cells)
    (hcarries : ∀ r, r ≠ 0 → (s'.Carries p r ↔ s.Carries p r)) : Placed n p s' := by
  obtain ⟨r, cell, hn, hr, hne, hcell, hrun⟩ := h
  exact ⟨r, cell, hn, (hcarries r hne).mpr hr, hne, hcells ▸ hcell, hrun⟩

theorem Owed.frame {n p : ℕ} {c : Conn} {s s' : Lobby F} (h : Owed n p c s)
    (hcells : s'.cells = s.cells) (hcarries : ∀ r, r ≠ 0 → (s'.Carries p r ↔ s.Carries p r)) :
    Owed n p c s' :=
  h.imp (·.congr hcells) (·.frame hcells hcarries)

/-- One room is replaced by another that goes on if and only if the old one
does. -/
theorem Placed.replace {n p : ℕ} {s s' : Lobby F} (h : Placed n p s) {r : ℕ}
    {cell cell' : RoomCell F} (hcell : s.cells.lookup r = some cell)
    (hcells : s.Replaced r cell' s'.cells)
    (hcarries : ∀ r, r ≠ 0 → (s'.Carries p r ↔ s.Carries p r))
    (hended : cell'.room.ended = cell.room.ended) : Placed n p s' := by
  obtain ⟨r', d, hn, hr', hne, hd, hrun⟩ := h
  by_cases hr : r' = r
  · subst hr
    obtain rfl := Option.some.inj (hcell.symm.trans hd)
    exact ⟨r', cell', hn, (hcarries r' hne).mpr hr', hne, by rw [hcells r', if_pos rfl],
      hended.trans hrun⟩
  · exact ⟨r', d, hn, (hcarries r' hne).mpr hr', hne, by rw [hcells r', if_neg hr]; exact hd, hrun⟩

theorem Present.of_replace {p : ℕ} {s s' : Lobby F} (h : Present p s') {r : ℕ}
    {cell cell' : RoomCell F} (hcell : s.cells.lookup r = some cell)
    (hcells : s.Replaced r cell' s'.cells)
    (hcarries : ∀ r, r ≠ 0 → (s'.Carries p r ↔ s.Carries p r))
    (hended : cell'.room.ended = cell.room.ended) : Present p s := by
  obtain ⟨r', d, hr', hne, hd, hrun⟩ := h
  rw [hcells r'] at hd
  split at hd
  · next hr =>
      subst hr
      obtain rfl := Option.some.inj hd
      exact ⟨r', cell, (hcarries r' hne).mp hr', hne, hcell, hended.symm.trans hrun⟩
  · exact ⟨r', d, (hcarries r' hne).mp hr', hne, hd, hrun⟩

theorem Coming.replace {p : ℕ} {c : Conn} {s s' : Lobby F} (h : Coming p c s) {r : ℕ}
    {cell cell' : RoomCell F} (hcell : s.cells.lookup r = some cell)
    (hcells : s.Replaced r cell' s'.cells) (hseat : cell.HasSeat p → cell'.HasSeat p)
    (hrebind : RoomTask.rebind p (some c) ∈ cell.mailbox → cell.HasSeat p →
      RoomTask.rebind p (some c) ∈ cell'.mailbox)
    (hstart : RoomTask.start ∈ cell.mailbox → cell.room.conns.lookup p = some (some c) →
      RoomTask.start ∈ cell'.mailbox ∧ cell'.room.conns.lookup p = some (some c)) :
    Coming p c s' := by
  obtain ⟨r', d, hd, hcoming⟩ := h
  by_cases hr : r' = r
  · subst hr
    obtain rfl := Option.some.inj (hcell.symm.trans hd)
    refine ⟨r', cell', by rw [hcells r', if_pos rfl], ?_⟩
    rcases hcoming with ⟨hmem, hs⟩ | ⟨hmem, hslot⟩
    · exact .inl ⟨hrebind hmem hs, hseat hs⟩
    · exact .inr (hstart hmem hslot)
  · exact ⟨r', d, by rw [hcells r', if_neg hr]; exact hd, hcoming⟩

theorem Waits.congr {p : ℕ} {s s' : Lobby F} (h : Waits p s)
    (hsessions : s'.sessions.lookup p = s.sessions.lookup p) : Waits p s' := by
  unfold Waits
  rw [hsessions]
  exact h

theorem Waits.modify {p : ℕ} {s s' : Lobby F} (h : Waits p s) (pid : ℕ) (f : Session → Session)
    (hsessions : s'.sessions = s.sessions.modify pid f)
    (hf : ∀ x, x.state = .kMatching → (f x).state = .kMatching) : Waits p s' := by
  obtain ⟨x, hx, hstate⟩ := h
  by_cases hp : p = pid
  · exact ⟨f x, by rw [hsessions, UnorderedMap.lookup_modify, if_pos hp, hx]; rfl, hf x hstate⟩
  · exact ⟨x, by rw [hsessions, UnorderedMap.lookup_modify, if_neg hp, hx], hstate⟩

/-- Those who wait are in no room. -/
theorem Waits.onRoomEnd {p : ℕ} {s : Lobby F} (h : Waits p s) (hbase : Base s) {r : ℕ}
    (hr : r ≠ 0) (w : ℕ) {s' : Lobby F} (hsessions : s'.sessions = s.sessions) :
    Waits p (s'.onRoomEnd r w) := by
  obtain ⟨x, hx, hstate⟩ := h
  refine ⟨x.leave r, by rw [lookup_onRoomEnd, hsessions, hx]; rfl, ?_⟩
  have hroom : x.roomId ≠ r := by
    rw [(hbase.tables.session hx).roomId_of_matching hstate]
    exact Ne.symm hr
  rw [Session.leave, if_neg hroom]
  exact hstate

theorem Waits.not_present {p : ℕ} {s : Lobby F} (h : Waits p s) (hbase : Base s) :
    ¬Present p s := by
  obtain ⟨x, hx, hstate⟩ := h
  rintro ⟨r, cell, ⟨y, hy, rfl⟩, hne, -⟩
  obtain rfl := Option.some.inj (hx.symm.trans hy)
  exact hne ((hbase.tables.session hx).roomId_of_matching hstate)

/-! ### Moves -/

/-- The server has come from `s` to `s'`. -/
structure Steers (n p : ℕ) (c : Conn) (s s' : Lobby F) : Prop where
  bound : Bound p c s'
  sent : ∃ es, s'.log = s.log ++ es ∧ ∀ asked client, Tuned n asked p c client s →
    Tuned n asked p c (client.handleAll (sentTo c es)) s'

theorem Steers.of_inert {n p : ℕ} {c : Conn} {s s' : Lobby F} (hbound : Bound p c s')
    (hwaits : Waits p s → Waits p s' ∨ Owed n p c s') (howed : Owed n p c s → Owed n p c s')
    (hpresent : Present p s' → Present p s ∨ Owed n p c s') {es : List (Entry F)}
    (hlog : s'.log = s.log ++ es) (hes : ∀ msg ∈ sentTo c es, msg.inert = true) :
    Steers n p c s s' :=
  ⟨hbound, es, hlog, fun _ _ h => h.of_inert hwaits howed hpresent hes⟩

theorem Steers.trans {n p : ℕ} {c : Conn} {s t u : Lobby F} (h : Steers n p c s t)
    (h' : Steers n p c t u) : Steers n p c s u := by
  obtain ⟨-, es, hlog, htuned⟩ := h
  obtain ⟨hbound, es', hlog', htuned'⟩ := h'
  refine ⟨hbound, es ++ es', by rw [hlog', hlog, List.append_assoc], fun asked client h => ?_⟩
  rw [sentTo_append, GameSession.handleAll_append]
  exact htuned' asked _ (htuned asked client h)

/-- The rule for moves that leave the rooms alone, and who is in them. -/
theorem Steers.frame {n p : ℕ} {c : Conn} {s s' : Lobby F} (h : Bound p c s) (hbase : Base s)
    (htable : s'.connToPlayer.lookup c = some p) (hheld : Held c (· = p) s')
    (hcells : s'.cells = s.cells) (hcarries : ∀ r, r ≠ 0 → (s'.Carries p r ↔ s.Carries p r))
    (hwaits : Waits p s → Waits p s') {es : List (Entry F)} (hlog : s'.log = s.log ++ es)
    (hes : ∀ msg ∈ sentTo c es, msg.inert = true) : Steers n p c s s' := by
  refine .of_inert (h.frame hbase htable hheld hcells hcarries) (fun hw => .inl (hwaits hw))
    (fun ho => ho.frame hcells hcarries) (fun hp => .inl ?_) hlog hes
  obtain ⟨r, cell, hr, hne, hcell, hrun⟩ := hp
  exact ⟨r, cell, (hcarries r hne).mp hr, hne, hcells ▸ hcell, hrun⟩

theorem Steers.mail {n p : ℕ} {c : Conn} {s s' : Lobby F} (h : Bound p c s) (hbase : Base s)
    (htable : s'.connToPlayer.lookup c = some p) (hheld : Held c (· = p) s') {r : ℕ}
    {cell : RoomCell F} (hcell : s.cells.lookup r = some cell) {task : RoomTask F}
    (hpost : s.Postable r task) (hcells : s'.cells = (s.mail r task).cells)
    (hcarries : ∀ r, r ≠ 0 → (s'.Carries p r ↔ s.Carries p r))
    (hwaits : Waits p s → Waits p s') (hlog : s'.log = s.log) : Steers n p c s s' := by
  have hreplaced : s.Replaced r { cell with mailbox := cell.mailbox ++ [task] } s'.cells :=
    hcells ▸ replaced_mail hcell task
  have htracks := Tracks.mail h hbase htable hheld hcell hpost hcells hcarries hlog
  refine .of_inert htracks.bound (fun hw => .inl (hwaits hw)) (fun ho => ?_)
    (fun hp => .inl (hp.of_replace hcell hreplaced hcarries rfl))
    (hlog.trans (List.append_nil _).symm) (by simp)
  refine ho.imp (fun hcoming => ?_) fun hplaced => hplaced.replace hcell hreplaced hcarries rfl
  exact hcoming.replace hcell hreplaced id (fun hmem _ => List.mem_append_left _ hmem)
    fun hmem hslot => ⟨List.mem_append_left _ hmem, hslot⟩

/-! ### Rooms -/

variable [Scalar F]

/-- The two tasks that send `EnterRoom`. -/
theorem enterRoom_of_rebind {room : Room F} {p : ℕ} {c : Conn}
    (hseat : (room.conns.lookup p).isSome) :
    ∃ msg ∈ (room.apply (.task (.rebind p (some c)))).2.flatMap (RoomAct.toConn c),
      msg.inert = false := by
  obtain ⟨slot, hslot⟩ := Option.isSome_iff_exists.mp hseat
  refine ⟨room.enterRoom, ?_, rfl⟩
  simp [Room.apply, Room.exec, Room.rebind, hslot, Room.sendTo, RoomAct.toConn, Room.enterRoom]

theorem enterRoom_of_start {room : Room F} {p : ℕ} {c : Conn}
    (hslot : room.conns.lookup p = some (some c)) :
    ∃ msg ∈ (room.apply (.task .start)).2.flatMap (RoomAct.toConn c), msg.inert = false := by
  refine ⟨room.enterRoom, ?_, rfl⟩
  refine List.mem_flatMap.mpr ⟨room.broadcast room.enterRoom, List.mem_cons_self .., ?_⟩
  exact RoomAct.mem_toConn_broadcast.mpr ⟨rfl, p, Room.mem_bound hslot⟩

/-- An operation that does not end the battle sends snapshots and `EnterRoom`. -/
theorem enterRoom_of_quiet {room : Room F} {op : RoomOp F} {c : Conn} (hid : room.id ≠ 0)
    (hquiet : ∀ act ∈ (room.apply op).2, act.quiet = true) :
    ∀ msg ∈ (room.apply op).2.flatMap (RoomAct.toConn c),
      msg.inert = true ∨ ∃ r ps, r ≠ 0 ∧ msg = .enterRoom r ps := by
  intro msg hmsg
  obtain ⟨act, hact, hmem⟩ := List.mem_flatMap.mp hmsg
  obtain ⟨-, hinert | ⟨w, hw⟩ | ⟨rfl, -⟩⟩ := Room.mem_toConn hact hmem
  · exact .inl hinert
  · have := hquiet act hact
    rw [hw] at this
    cases this
  · exact .inr ⟨_, _, hid, rfl⟩

/-- A room does something that does not end its battle. What is coming stays
so until it is sent. -/
theorem Steers.quiet {n p : ℕ} {c : Conn} {s s' : Lobby F} (h : Bound p c s) (hbase : Base s)
    (horder : Orderly s) (hseating : Seating s) (htable : s'.connToPlayer.lookup c = some p)
    (hheld : Held c (· = p) s') {r : ℕ} {cell : RoomCell F} {op : RoomOp F}
    {mailbox : List (RoomTask F)} (hcell : s.cells.lookup r = some cell)
    (hsource : s.Source r cell op mailbox)
    (hended : (cell.room.apply op).1.ended = cell.room.ended)
    (hquiet : ∀ act ∈ (cell.room.apply op).2, act.quiet = true)
    (hcells : s.Replaced r ⟨(cell.room.apply op).1, mailbox⟩ s'.cells)
    (hsessions : s'.sessions = s.sessions)
    (hlog : s'.log = s.log ++ (cell.room.apply op).2.map (Entry.room r)) : Steers n p c s s' := by
  have hok := hbase.cell hcell
  have hcarries : ∀ r, r ≠ 0 → (s'.Carries p r ↔ s.Carries p r) := by
    intro r _
    unfold Lobby.Carries
    rw [hsessions]
  have hbound := h.quiet hbase hseating htable hheld hcell hsource hended hcells hcarries
  have hmsgs := enterRoom_of_quiet (c := c) (by rw [hok.id]; exact hok.pos) hquiet
  by_cases hinert : ∀ msg ∈ (cell.room.apply op).2.flatMap (RoomAct.toConn c), msg.inert = true
  · refine .of_inert hbound (fun hw => .inl (hw.congr (by rw [hsessions]))) (fun ho => ?_)
      (fun hp => .inl (hp.of_replace hcell hcells hcarries hended)) hlog
      (by rw [sentTo_room]; exact hinert)
    have hno : ¬∃ msg ∈ (cell.room.apply op).2.flatMap (RoomAct.toConn c), msg.inert = false := by
      rintro ⟨msg, hmsg, hfalse⟩
      rw [hinert msg hmsg] at hfalse
      cases hfalse
    refine ho.imp (fun hcoming => ?_) fun hplaced => hplaced.replace hcell hcells hcarries hended
    refine hcoming.replace hcell hcells (fun hseat => ?_) (fun hmem hseat => ?_)
      fun hmem hslot => ?_
    · exact (Room.apply_conns cell.room op p).trans hseat
    · cases hsource with
      | tick | posted => exact hmem
      | @head task _ hmail =>
          rw [hmail] at hmem
          rcases List.mem_cons.mp hmem with rfl | hmem
          · exact absurd (enterRoom_of_rebind hseat) hno
          · exact hmem
    · -- nothing comes before the start, so it is what has been done
      have hnot := horder.source hbase hcell hsource
      cases hsource with
      | tick | posted => exact absurd hmem hnot
      | @head task _ hmail =>
          rw [hmail] at hmem
          rcases List.mem_cons.mp hmem with rfl | hmem
          · exact absurd (enterRoom_of_start hslot) hno
          · exact absurd hmem hnot
  · refine ⟨hbound, _, hlog, fun asked client _ => .of_inBattle ?_⟩
    rw [sentTo_room]
    refine state_enterRoom hmsgs (.inr ?_)
    simp only [not_forall] at hinert
    obtain ⟨msg, hmsg, hnot⟩ := hinert
    exact ⟨msg, hmsg, by simpa using hnot⟩

/-- A battle ends. The client is told so if the room has its connection, and
if not, the connection is on its way to the room. -/
theorem Steers.closing {n p : ℕ} {c : Conn} {s s' : Lobby F} (h : Bound p c s) (hbase : Base s)
    (hseating : Seating s) (htable : s'.connToPlayer.lookup c = some p)
    (hheld : Held c (· = p) s') {r : ℕ} {cell : RoomCell F} {op : RoomOp F}
    {mailbox : List (RoomTask F)} {winner : ℕ} {pre : List (RoomAct F)} {es : List (Entry F)}
    (hcell : s.cells.lookup r = some cell) (hsource : s.Source r cell op mailbox)
    (hrun : cell.room.ended = false) (hended : (cell.room.apply op).1.ended = true)
    (hacts : (cell.room.apply op).2 = pre ++ (cell.room.apply op).1.closing winner)
    (hcells : s.Replaced r ⟨(cell.room.apply op).1, mailbox ++ [.resetTicker]⟩ s'.cells)
    (hcarries : ∀ r', r' ≠ 0 → s'.Carries p r' → s.Carries p r')
    (hother : ∀ r', r' ≠ 0 → r' ≠ r → s.Carries p r' → s'.Carries p r')
    (hwaits : Waits p s → Waits p s')
    (hlog : s'.log = s.log ++ ((cell.room.apply op).2.map (Entry.room r) ++ es))
    (hes : sentTo c es = []) : Steers n p c s s' := by
  have hbound := (Tracks.closing h hbase hseating htable hheld hcell hsource hrun hended hacts
    hcells hcarries hother hlog hes).bound
  obtain ⟨hconns, hrebind⟩ := conns_ending hrun hended
  have hsent : sentTo c ((cell.room.apply op).2.map (Entry.room r) ++ es) =
      (cell.room.apply op).2.flatMap (RoomAct.toConn c) := by
    rw [sentTo_append, hes, List.append_nil, sentTo_room]
  -- a battle that goes on is one of the others
  have hstays : ∀ r' d, s'.cells.lookup r' = some d → d.room.ended = false →
      r' ≠ r ∧ s.cells.lookup r' = some d := by
    intro r' d hd hgo
    rw [hcells r'] at hd
    split at hd
    · obtain rfl := Option.some.inj hd
      rw [show (cell.room.apply op).1.ended = false from hgo] at hended
      cases hended
    · next hne => exact ⟨hne, hd⟩
  by_cases hslot : cell.room.conns.lookup p = some (some c)
  · refine ⟨hbound, _, hlog, fun asked client _ => .of_idle ?_ ?_⟩
    · rw [hsent, hacts, List.flatMap_append, GameSession.handleAll_append,
        state_battleEnd ⟨p, by rw [hconns]; exact hslot⟩]
      simp
    · rintro ⟨r', d, hr', hne, hd, hgo⟩
      have hr := h.seated r cell hcell hrun (.inl hslot)
      exact absurd ((hcarries r' hne hr').unique hr) (hstays r' d hd hgo).1
  · have hrest : RoomTask.rebind p (some c) ∈ cell.mailbox →
        RoomTask.rebind p (some c) ∈ mailbox ++ [.resetTicker] := by
      intro hmem
      cases hsource with
      | tick | posted => exact List.mem_append_left _ hmem
      | @head task _ hmail =>
          rw [hmail] at hmem
          rcases List.mem_cons.mp hmem with rfl | hmem
          · exact absurd rfl (hrebind p (some c))
          · exact List.mem_append_left _ hmem
    have hnil : (cell.room.apply op).2.flatMap (RoomAct.toConn c) = [] := by
      refine List.flatMap_eq_nil_iff.mpr fun act hact => List.eq_nil_iff_forall_not_mem.mpr ?_
      intro msg hmem
      obtain ⟨q, hq⟩ := (Room.mem_toConn hact hmem).1
      rw [hconns] at hq
      obtain rfl := h.held.slots r cell q hcell hq
      exact hslot hq
    refine .of_inert hbound (fun hw => .inl (hwaits hw)) (fun ho => ?_) (fun hp => .inl ?_) hlog
      (by rw [hsent, hnil]; simp)
    · rcases ho with hcoming | ⟨r', d, hn, hr', hne, hd, hgo⟩
      · refine .inl (hcoming.replace hcell hcells (fun hseat => ?_) (fun hmem _ => hrest hmem)
          fun _ hc => absurd hc hslot)
        exact (Room.apply_conns cell.room op p).trans hseat
      · by_cases heq : r' = r
        · subst heq
          obtain rfl := Option.some.inj (hcell.symm.trans hd)
          have hmem := (RoomCell.aim_eq_some (h.aims r' cell hr' hne hcell)).resolve_left hslot
          obtain ⟨d, hd, hseat⟩ := hseating.seated p r' hr' hne
          obtain rfl := Option.some.inj (hcell.symm.trans hd)
          have hseat' : RoomCell.HasSeat ⟨(cell.room.apply op).1, mailbox ++ [.resetTicker]⟩ p :=
            (Room.apply_conns cell.room op p).trans hseat
          exact .inl ⟨r', _, by rw [hcells r', if_pos rfl], .inl ⟨hrest hmem, hseat'⟩⟩
        · exact .inr ⟨r', d, hn, hother r' hne heq hr', hne,
            by rw [hcells r', if_neg heq]; exact hd, hgo⟩
    · obtain ⟨r', d, hr', hne, hd, hgo⟩ := hp
      exact ⟨r', d, hcarries r' hne hr', hne, (hstays r' d hd hgo).2, hgo⟩

/-- Two players get a room, which is one of the new ones. -/
theorem Steers.pair {n p : ℕ} {c : Conn} {s : Lobby F} (h : Bound p c s) (hbase : Base s)
    (hn : n ≤ s.nextRoomId) {pid a b : ℕ} {x pa pb : Session} {q : MatchQueue} (ks : List ℕ)
    (hx : s.sessions.lookup pid = some x) (hconn : x.conn.isSome) (hstate : x.state = .kLobby)
    (hwaiting : insert pid s.matchQueue.waiting = {a, b})
    (hpa : (s.joinQueue pid).sessions.lookup a = some pa)
    (hpb : (s.joinQueue pid).sessions.lookup b = some pb)
    (htable : ((s.joinQueue pid).pairUp ks a b pa pb q).connToPlayer.lookup c = some p)
    (hheld : Held c (· = p) ((s.joinQueue pid).pairUp ks a b pa pb q)) :
    Steers n p c s ((s.joinQueue pid).pairUp ks a b pa pb q) := by
  have hbound := (Tracks.pair h hbase ks hx hconn hstate hwaiting hpa hpb htable hheld).bound
  have hcells := cells_joined ks pid a b pa pb q s
  have hcarries := carries_joined ks hpa hpb q p
  obtain ⟨wheel, timers, heq⟩ := pairUp_eq ks a b pa pb q (s.joinQueue pid)
  have hlog : ((s.joinQueue pid).pairUp ks a b pa pb q).log = s.log ++
      [.queued pid s.wheel.nowTick, .created s.nextRoomId a b pa.account pb.account] := by
    rw [heq]
    exact List.append_assoc ..
  have hold : ∀ r cell, s.cells.lookup r = some cell →
      ((s.joinQueue pid).pairUp ks a b pa pb q).cells.lookup r = some cell := by
    intro r cell hcell
    rw [hcells, if_neg (Nat.ne_of_lt (hbase.cell hcell).lt)]
    exact hcell
  by_cases hp : p = a ∨ p = b
  · have hplaced : Placed n p ((s.joinQueue pid).pairUp ks a b pa pb q) :=
      ⟨s.nextRoomId, _, hn, (hcarries _).mpr (.inl ⟨hp, rfl⟩), hbase.tables.room_pos,
        (hcells _).trans (if_pos rfl), rfl⟩
    exact .of_inert hbound (fun _ => .inr (.inr hplaced)) (fun _ => .inr hplaced)
      (fun _ => .inr (.inr hplaced)) hlog (by simp [sentTo, Entry.toConn])
  · have hsame : ∀ r, ((s.joinQueue pid).pairUp ks a b pa pb q).Carries p r ↔ s.Carries p r := by
      intro r
      rw [hcarries]
      simp [hp]
    refine .of_inert hbound (fun hwait => .inl ?_) (fun ho => ?_) (fun hpresent => .inl ?_)
      hlog (by simp [sentTo, Entry.toConn])
    · obtain ⟨y, hy, hm⟩ := hwait
      have hpid : p ≠ pid := by
        rintro rfl
        have hmem := Finset.mem_insert_self p s.matchQueue.waiting
        rw [hwaiting] at hmem
        exact hp (by simpa using hmem)
      refine ⟨y, ?_, hm⟩
      rw [lookup_pairUp, joinQueue, UnorderedMap.lookup_modify, if_neg hpid, hy]
      simp [hp]
    · rcases ho with ⟨r, cell, hcell, hcoming⟩ | ⟨r, cell, hle, hr, hne, hcell, hrun⟩
      · exact .inl ⟨r, cell, hold r cell hcell, hcoming⟩
      · exact .inr ⟨r, cell, hle, (hsame r).mpr hr, hne, hold r cell hcell, hrun⟩
    · obtain ⟨r, cell, hr, hne, hcell, hrun⟩ := hpresent
      have hr := (hsame r).mp hr
      obtain ⟨y, hy, rfl⟩ := hr
      have hlt : y.roomId < s.nextRoomId :=
        hbase.tables.rooms_lt ((hbase.tables.session hy).room hne)
      rw [hcells, if_neg (Nat.ne_of_lt hlt)] at hcell
      exact ⟨y.roomId, cell, ⟨y, hy, rfl⟩, hne, hcell, hrun⟩

omit [Scalar F] in
theorem Steers.roomEnd {n p : ℕ} {c : Conn} {s : Lobby F} (h : Bound p c s) (hbase : Base s)
    (horder : Orderly s) {r winner : ℕ} {rest : List (ℕ × ℕ)}
    (hends : s.roomEnds = (r, winner) :: rest)
    (htable : (Lobby.onRoomEnd r winner { s with roomEnds := rest }).connToPlayer.lookup c = some p)
    (hheld : Held c (· = p) (Lobby.onRoomEnd r winner { s with roomEnds := rest })) :
    Steers n p c s (Lobby.onRoomEnd r winner { s with roomEnds := rest }) := by
  have hbound := (Tracks.roomEnd h hbase horder hends htable hheld).bound
  have hcells := (cells_onRoomEnd r winner ({ s with roomEnds := rest } : Lobby F)).1
  have hcarries : ∀ {r'}, r' ≠ 0 →
      ((Lobby.onRoomEnd r winner { s with roomEnds := rest }).Carries p r' ↔
        s.Carries p r' ∧ r' ≠ r) := fun hne => carries_onRoomEnd winner hne
  have hr : r ≠ 0 := hbase.ends (r, winner) (by rw [hends]; exact List.mem_cons_self ..)
  obtain ⟨d, hd, hdone⟩ := horder.ends (r, winner) (by rw [hends]; exact List.mem_cons_self ..)
  obtain ⟨es, hes, hsent⟩ :=
    sentTo_onRoomEnd c r winner ({ s with roomEnds := rest } : Lobby F)
  refine .of_inert hbound (fun hw => .inl (hw.onRoomEnd hbase hr winner rfl)) (fun ho => ?_)
    (fun hp => .inl ?_) hes (by simp [hsent])
  · rcases ho with hcoming | ⟨r', cell, hn, hr', hne, hcell, hrun⟩
    · exact .inl (hcoming.congr hcells)
    · refine .inr ⟨r', cell, hn, (hcarries hne).mpr ⟨hr', ?_⟩, hne, by rw [hcells]; exact hcell,
        hrun⟩
      rintro rfl
      obtain rfl := Option.some.inj (hcell.symm.trans hd)
      rw [hrun] at hdone
      cases hdone
  · obtain ⟨r', cell, hr', hne, hcell, hrun⟩ := hp
    rw [hcells] at hcell
    exact ⟨r', cell, ((hcarries hne).mp hr').1, hne, hcell, hrun⟩

omit [Scalar F] in
/-- The time of somebody in the queue is up. If it is the client's player, the
client is told. -/
theorem Steers.matchTimeout {n p : ℕ} {c : Conn} {s : Lobby F} (h : Bound p c s) (hbase : Base s)
    {rest : List NodePtr} {w : TimerWheel TimerCb} {pid : ℕ}
    (htable : (Lobby.matchTimeout pid { s with firing := rest, wheel := w }).connToPlayer.lookup c =
      some p)
    (hheld : Held c (· = p) (Lobby.matchTimeout pid { s with firing := rest, wheel := w })) :
    Steers n p c s (Lobby.matchTimeout pid { s with firing := rest, wheel := w }) := by
  obtain ⟨hcells, hcarries, -⟩ := matchTimeout_rest pid
    ({ s with firing := rest, wheel := w } : Lobby F)
  by_cases hmem : pid ∈ s.matchQueue.waiting
  · have hcontains : s.matchQueue.contains pid = true := by simpa [MatchQueue.contains] using hmem
    obtain ⟨y, hy⟩ := Option.isSome_iff_exists.mp (hbase.tables.waiting hmem)
    have hy : s.sessions.lookup pid = some y := hy
    have hmatching := (hbase.tables.session hy).queue.mpr hmem
    obtain ⟨c', hc'⟩ := Option.isSome_iff_exists.mp ((hbase.tables.session hy).conn hmatching)
    have heq : Lobby.matchTimeout pid { s with firing := rest, wheel := w } =
        (Lobby.leaveQueue pid { s with
          firing := rest, wheel := w, matchTimer := s.matchTimer.erase pid }).emit
          (.send c' (.enterRoom 0 [])) := by
      simp [Lobby.matchTimeout, hcontains, hy, hc']
    have hlog : (Lobby.matchTimeout pid { s with firing := rest, wheel := w }).log =
        s.log ++ [.send c' (.enterRoom 0 [])] := by
      rw [heq]
      rfl
    by_cases hp : c' = c
    · obtain rfl : pid = p := h.held.sessions pid y hy (by rw [hc', hp])
      refine ⟨h.frame hbase htable hheld hcells fun r _ => hcarries pid r, _, hlog,
        fun asked client _ => .of_idle ?_ fun hpresent => ?_⟩
      · simp [sentTo, Entry.toConn, hp, GameSession.handleAll, GameSession.handleMessage,
          GameSession.onEnterRoom]
      · obtain ⟨r, cell, hr, hne, hcell, hrun⟩ := hpresent
        have hwaits : Waits pid s := ⟨y, hy, hmatching⟩
        rw [hcells] at hcell
        exact absurd ⟨r, cell, (hcarries pid r).mp hr, hne, hcell, hrun⟩ (hwaits.not_present hbase)
    · have hne : p ≠ pid := by
        rintro rfl
        obtain ⟨x, hx, hxc⟩ := hbase.tables.bound h.table
        obtain rfl := Option.some.inj (hy.symm.trans hx)
        exact hp (Option.some.inj (hc'.symm.trans hxc))
      refine .frame h hbase htable hheld hcells (fun r _ => hcarries p r) (fun hw => hw.congr ?_) hlog
        (by simp [sentTo, Entry.toConn, hp])
      rw [heq]
      simp [emit, leaveQueue, hne]
  · have heq : Lobby.matchTimeout pid { s with firing := rest, wheel := w } =
        { s with firing := rest, wheel := w, matchTimer := s.matchTimer.erase pid } := by
      simp [Lobby.matchTimeout, MatchQueue.contains, hmem]
    have hlog : (Lobby.matchTimeout pid { s with firing := rest, wheel := w }).log = s.log ++ [] := by
      rw [heq, List.append_nil]
    refine .frame h hbase htable hheld hcells (fun r _ => hcarries p r) (fun hw => hw.congr ?_) hlog
      (by simp)
    rw [heq]

/-! ### All moves -/

/-- What a client on connection `c` can rely on in every move that is not a
request on its connection, nor its end. -/
theorem Bound.steers {φ : Deed → Prop} {n p : ℕ} {c : Conn} (hrequest : ¬φ (.requests c))
    (hclose : ¬φ (.closes c)) {s s' : Lobby F} (hbase : Base s) (horder : Orderly s)
    (hseating : Seating s) (hn : n ≤ s.nextRoomId) (h : Bound p c s) (hmove : Move φ s s') :
    Steers n p c s s' := by
  have htable := (hmove.connToPlayer_lookup hrequest hclose).trans h.table
  have hheld := h.held.move hrequest hbase hmove
  obtain ⟨x, hx, hxc⟩ := hbase.tables.bound h.table
  have hx : s.sessions.lookup p = some x := hx
  have hmodify : ∀ es (pid : ℕ) (f : Session → Session), s'.sessions = s.sessions.modify pid f →
      (∀ x, (f x).roomId = x.roomId) →
      (∀ x, x.state = .kMatching → (f x).state = .kMatching) → s'.cells = s.cells →
      s'.log = s.log ++ es → (∀ msg ∈ sentTo c es, msg.inert = true) → Steers n p c s s' :=
    fun es pid f hsessions hroom hstate hcells => .frame h hbase htable hheld hcells
      (fun r _ => carries_modify pid f hsessions hroom p r) fun hw => hw.modify pid f hsessions hstate
  have hself : ∀ es, s'.sessions.lookup p = s.sessions.lookup p → s'.cells = s.cells →
      s'.log = s.log ++ es → (∀ msg ∈ sentTo c es, msg.inert = true) → Steers n p c s s' := by
    intro es hsession hcells
    refine .frame h hbase htable hheld hcells (fun r _ => ?_) fun hw => hw.congr hsession
    unfold Lobby.Carries
    rw [hsession]
  -- a session without a connection is another player's
  have hother : ∀ {pid y}, s.sessions.lookup pid = some y → y.conn ≠ some c → p ≠ pid := by
    rintro pid y hy hne rfl
    obtain rfl := Option.some.inj (hx.symm.trans hy)
    exact hne hxc
  have herase : ∀ {pid y}, s.sessions.lookup pid = some y → y.conn = none →
      (s.eraseSession pid).sessions.lookup p = s.sessions.lookup p := by
    intro pid y hy hnone
    have hne : p ≠ pid := hother hy (by rw [hnone]; simp)
    simp only [eraseSession, UnorderedMap.lookup_erase_eq, if_neg hne]
  cases hmove with
  | plain es store hplain hanswer =>
      refine hself es rfl rfl rfl fun msg hmsg => ?_
      obtain ⟨e, he, hmem⟩ := mem_sentTo.mp hmsg
      exact Entry.inert_of_plain (hplain e he) (fun hc => hrequest (hanswer e he c hc)) msg hmem
  | heartbeat pid now =>
      exact hmodify [] pid (fun p => { p with lastHeartbeatMs := now }) rfl (fun _ => rfl)
        (fun _ h => h) rfl (List.append_nil _).symm (by simp)
  | @login conn account token now ks _ hreq =>
      refine hself [.send conn (.loginResp 0 s.nextPlayerId token)] ?_ rfl rfl ?_
      · have hne : p ≠ s.nextPlayerId := Nat.ne_of_lt (hbase.tables.session hx).lt
        simp only [emit, addSession, UnorderedMap.lookup_reorder, UnorderedMap.lookup_insert_eq,
          if_neg hne]
      · have hne : conn ≠ c := by
          rintro rfl
          exact hrequest hreq
        simp [sentTo, Entry.toConn, hne]
  | @rebind conn pid y now _ _ _ hreq =>
      refine hmodify [.send conn (.loginResp 0 y.playerId y.token)] pid (fun p =>
        { p with conn := some conn, lastHeartbeatMs := now, expireTimerId := 0 }) rfl (fun _ => rfl)
        (fun _ h => h) rfl rfl ?_
      have hne : conn ≠ c := by
        rintro rfl
        exact hrequest hreq
      simp [sentTo, Entry.toConn, hne]
  | @unbind conn pid y hconn hy _ hcloses =>
      have hrest : (s.unbindSession conn pid y).cells = s.cells ∧
          (s.unbindSession conn pid y).log = s.log := by
        unfold unbindSession
        split <;> exact ⟨rfl, rfl⟩
      have hne : p ≠ pid := by
        obtain ⟨z, hz, hzc⟩ := hbase.tables.bound hconn
        refine hother hz ?_
        rw [hzc]
        rintro ⟨⟩
        exact hclose hcloses
      refine hself [] ?_ hrest.1 (hrest.2.trans (List.append_nil _).symm) (by simp)
      rw [lookup_unbindSession]
      simp [hne]
  | scheduleExpiry pid =>
      exact hmodify [] pid (fun p => { p with
        expireTimerId := (s.wheel.add kSessionKeepMs (TimerCb.expireSession pid)).2 }) rfl
        (fun _ => rfl) (fun _ h => h) rfl (List.append_nil _).symm (by simp)
  | erase hy hnone => exact hself [] (herase hy hnone) rfl (List.append_nil _).symm (by simp)
  | @forfeit pid y hthreads hy hnone hroom =>
      have hmem : y.roomId ∈ s.rooms := (hbase.tables.session hy).room hroom
      obtain ⟨cell, hcell⟩ := Option.isSome_iff_exists.mp (hbase.live hmem)
      have hpost : s.Postable y.roomId (.forceEnd (s.opponent pid y.roomId)) :=
        ⟨pid, y, hy, rfl, hnone, rfl⟩
      have hsession : ((s.mail y.roomId (.forceEnd (s.opponent pid y.roomId))).eraseSession
          pid).sessions.lookup p = s.sessions.lookup p := herase hy hnone
      refine .mail h hbase htable hheld hcell hpost rfl (fun r _ => ?_) (·.congr hsession) rfl
      unfold Lobby.Carries
      rw [hsession]
  | @wait pid =>
      exact hmodify [.queued pid s.wheel.nowTick] pid (fun p => { p with state := .kMatching }) rfl
        (fun _ => rfl) (fun _ _ => rfl) rfl rfl (by simp [sentTo, Entry.toConn])
  | pair ks hp hconn hstate _ hwaiting hpa hpb =>
      exact .pair h hbase hn ks hp hconn hstate hwaiting hpa hpb htable hheld
  | @matchTimeout k rest node w pid =>
      exact .matchTimeout h hbase htable hheld
  | take | skip | wheelTick | scheduleSweep =>
      exact hself [] rfl rfl (List.append_nil _).symm (by simp)
  | mail hthreads hcell hpost =>
      exact .mail h hbase htable hheld hcell hpost rfl (fun _ _ => Iff.rfl) id rfl
  | quiet hcell hsource hended hquiet _ hcells =>
      exact .quiet h hbase horder hseating htable hheld hcell hsource hended hquiet hcells rfl rfl
  | @closing r cell op mailbox cells winner pre hcell hsource hrunning hended _ _ hacts hcells =>
      obtain ⟨hcells', hcarries, es, hlog, hes⟩ := closeRoom_rest c p r winner ({ s with
        cells := cells
        log := s.log ++ (cell.room.apply op).2.map (Entry.room r) } : Lobby F)
      refine .closing h hbase hseating htable hheld hcell hsource hrunning hended hacts
        (hcells' ▸ hcells) (fun r' hne => (hcarries r' hne).1) (fun r' hne => (hcarries r' hne).2)
        (fun hw => ?_) (hlog.trans (List.append_assoc ..)) hes
      unfold closeRoom
      split
      · exact hw.onRoomEnd hbase (hbase.cell hcell).pos winner rfl
      · exact hw
  | roomEnd hends => exact .roomEnd h hbase horder hends htable hheld

/-! ### Events -/

omit [Scalar F] in
theorem Owed.coming {p : ℕ} {c : Conn} {s : Lobby F} (hbase : Base s)
    (h : Owed s.nextRoomId p c s) : Coming p c s := by
  rcases h with hcoming | ⟨r, cell, hle, -, -, hcell, -⟩
  · exact hcoming
  · exact absurd (hbase.cell hcell).lt (Nat.not_lt.mpr hle)

theorem nextRoomId_move {φ : Deed → Prop} {s s' : Lobby F} (hmove : Move φ s s') :
    s.nextRoomId ≤ s'.nextRoomId := by
  have hend : ∀ (r w : ℕ) (t : Lobby F), (t.onRoomEnd r w).nextRoomId = t.nextRoomId :=
    fun r w t => congrArg Core.nextRoomId (core_onRoomEnd r w t)
  cases hmove with
  | @pair pid a b p pa pb q ks =>
      obtain ⟨wheel, timers, heq⟩ := pairUp_eq ks a b pa pb q (s.joinQueue pid)
      rw [heq]
      exact Nat.le_succ _
  | unbind =>
      unfold unbindSession
      split <;> exact Nat.le_refl _
  | matchTimeout =>
      unfold Lobby.matchTimeout
      dsimp only
      split
      · split <;> exact Nat.le_refl _
      · exact Nat.le_refl _
  | closing =>
      unfold closeRoom
      split
      · rw [hend]
      · exact Nat.le_refl _
  | roomEnd => rw [hend]
  | _ => exact Nat.le_refl _

theorem steers_step {s : Lobby F} (hsound : Sound s) {p : ℕ} {c : Conn} (h : Bound p c s)
    (e : LobbyEvent F) (hconn : ∀ deed, s.commits e deed = true →
      deed ≠ .requests c ∧ deed ≠ .closes c) : Steers s.nextRoomId p c s (s.step e) := by
  have hrefl : Steers s.nextRoomId p c s s :=
    .of_inert h .inl id .inl (List.append_nil _).symm (by simp)
  have hall := invariant_of_moves (φ := fun deed => s.commits e deed)
    (I := fun t => (Orderly t ∧ Seating t) ∧ s.nextRoomId ≤ t.nextRoomId ∧
      Steers s.nextRoomId p c s t)
    (fun t t' ht hI hmove => ⟨⟨hI.1.1.move ht hmove, hI.1.2.move ht hmove⟩,
      hI.2.1.trans (nextRoomId_move hmove),
      hI.2.2.trans (hI.2.2.bound.steers (fun hd => (hconn _ hd).1 rfl) (fun hd => (hconn _ hd).2 rfl)
        ht hI.1.1 hI.1.2 hI.2.1 hmove)⟩) hsound.base
    ⟨⟨hsound.orderly, hsound.seating⟩, Nat.le_refl _, hrefl⟩ (step_moves hsound.base e)
  exact hall.2.2

omit [Scalar F] in
theorem seesRooms_nextRoomId : SeesRooms (Lobby.nextRoomId : Lobby F → ℕ) where
  congr _ _ hnext _ _ := hnext
  reset _ _ := rfl

theorem nextRoomId_postToRoom (p : Session) (task : RoomTask F) (s : Lobby F) :
    (s.postToRoom p task).nextRoomId = s.nextRoomId :=
  seesRooms_nextRoomId.overlooks.postToRoom p (fun _ => rfl) (fun _ => rfl) s

omit [Scalar F] in
theorem nextRoomId_matchTimeout (pid : ℕ) (s : Lobby F) :
    (s.matchTimeout pid).nextRoomId = s.nextRoomId := by
  unfold Lobby.matchTimeout
  dsimp only
  split
  · split <;> rfl
  · rfl

/-- Rooms are made when players are paired, and at no other time. -/
theorem nextRoomId_step {s : Lobby F} {e : LobbyEvent F} (h : ∀ conn ks, e ≠ .matchReq conn ks) :
    (s.step e).nextRoomId = s.nextRoomId := by
  rcases step_cases s e with hself | ⟨-, hstep⟩
  · rw [hself]
  rw [hstep]
  cases e with
  | matchReq conn ks => exact absurd rfl (h conn ks)
  | login conn account token now ks =>
      exact seesRooms_nextRoomId.onLogin conn account token now ks s
  | reconnect conn pid token now =>
      exact seesRooms_nextRoomId.onReconnect conn pid token now
        (fun p => nextRoomId_postToRoom p _) s
  | input conn input => exact view_onInput conn (fun p => nextRoomId_postToRoom p _) s
  | heartbeat conn clientMs now => exact seesRooms_nextRoomId.onHeartbeat conn clientMs now s
  | disconnect conn =>
      exact seesRooms_nextRoomId.onDisconnect conn (fun _ _ => rfl)
        (fun p _ => nextRoomId_postToRoom p _) s
  | leaderboard conn topN => exact seesRooms_nextRoomId.onLeaderboard conn topN s
  | roomEnd => exact seesRooms_nextRoomId.overlooks.handleRoomEnd s
  | wheelTick => rfl
  | fireNext now =>
      rcases fireNext_cases s now with heq | ⟨_, _, -, -, heq⟩ | ⟨_, _, node, _, -, -, -, heq⟩
      · rw [Lobby.handle, heq]
      · rw [Lobby.handle, heq]
      · rw [Lobby.handle, heq]
        cases node.cb with
        | matchTimeout pid => exact nextRoomId_matchTimeout pid _
        | expireSession pid =>
            exact seesRooms_nextRoomId.expireSession pid (fun p _ => nextRoomId_postToRoom p _) _
        | sweep => rfl
  | roomTask r => exact seesRooms_nextRoomId.overlooks.roomTask (fun _ _ _ => rfl) r s
  | roomTick r ks => exact seesRooms_nextRoomId.overlooks.roomTick r (fun _ => rfl) s
  | storeTask top => exact seesRooms_nextRoomId.storeTask top s

/-- A room that gets one of the two tasks sends `EnterRoom`, at once or when
it comes to the task. -/
theorem coming_of_post {s : Lobby F} (hbase : Base s) {p : ℕ} {c : Conn} {r : ℕ}
    {cell : RoomCell F} (hcell : s.cells.lookup r = some cell) {task : RoomTask F}
    (htask : task = .rebind p (some c) ∧ cell.HasSeat p ∨
      task = .start ∧ cell.room.conns.lookup p = some (some c)) :
    Coming p c (s.post r task) ∨ ∃ es, (s.post r task).log = s.log ++ es ∧
      ∀ client : GameSession, (client.handleAll (sentTo c es)).state = .inBattle := by
  have hok := hbase.cell hcell
  obtain ⟨a, b, hseats⟩ := hok.seats
  have hquiet : ∀ act ∈ (cell.room.exec task).2, act.quiet = true := by
    rcases htask with ⟨rfl, -⟩ | ⟨rfl, -⟩ <;> exact Room.exec_quiet hseats (by simp) (by simp)
  have hsent : ∃ msg ∈ (cell.room.apply (.task task)).2.flatMap (RoomAct.toConn c),
      msg.inert = false := by
    rcases htask with ⟨rfl, hseat⟩ | ⟨rfl, hslot⟩
    · exact enterRoom_of_rebind hseat
    · exact enterRoom_of_start hslot
  have hmsgs : ∀ msg ∈ (cell.room.apply (.task task)).2.flatMap (RoomAct.toConn c),
      msg.inert = true ∨ ∃ r ps, r ≠ 0 ∧ msg = .enterRoom r ps :=
    enterRoom_of_quiet (by rw [hok.id]; exact hok.pos) hquiet
  rw [post_quiet hcell hquiet]
  by_cases hthreads : s.gameThreads = 0
  · right
    refine ⟨_, rfl, fun client => ?_⟩
    rw [sentTo_room, postedActs, if_pos hthreads]
    exact state_enterRoom hmsgs (.inr hsent)
  · left
    refine ⟨r, { cell with mailbox := cell.mailbox ++ [task] }, ?_, ?_⟩
    · simp [hcell, deliver, hthreads]
    · rcases htask with ⟨rfl, hseat⟩ | ⟨rfl, hslot⟩
      · exact .inl ⟨by simp, hseat⟩
      · exact .inr ⟨by simp, hslot⟩

/-- A player that an event has put into a new room is told so, or will be. -/
theorem placed_step {s : Lobby F} (hbase : Base s) {p : ℕ} {c : Conn} (h : Bound p c s)
    {e : LobbyEvent F} (hplaced : Placed s.nextRoomId p (s.step e)) :
    Coming p c (s.step e) ∨ ∀ es, (s.step e).log = s.log ++ es →
      ∀ client : GameSession, (client.handleAll (sentTo c es)).state = .inBattle := by
  have hsame : (s.step e).nextRoomId ≠ s.nextRoomId := by
    intro heq
    obtain ⟨r, cell, hle, -, -, hcell, -⟩ := hplaced
    exact absurd ((hbase.step e).cell hcell).lt (by omega)
  have hmatch : ∃ conn ks, e = .matchReq conn ks := by
    by_contra hno
    exact hsame (nextRoomId_step fun conn ks he => hno ⟨conn, ks, he⟩)
  obtain ⟨conn, ks, rfl⟩ := hmatch
  rcases step_cases s (.matchReq conn ks) with hself | ⟨-, hstep⟩
  · exact absurd (by rw [hself]) hsame
  have hstep : s.step (.matchReq conn ks) = s.onMatch ks conn := hstep
  rw [hstep] at hplaced hsame ⊢
  have hstay : ∀ x, s.sessionOf conn = some x → x.state = .kLobby := by
    intro x hx
    by_contra hstate
    exact hsame (by simp [onMatch, hx, hstate])
  cases hx : s.sessionOf conn with
  | none => exact absurd (by simp [onMatch, hx]) hsame
  | some x =>
      obtain ⟨-, hsess, hxc⟩ := sessionOf_some hbase.tables hx
      have hxc : x.conn.isSome := by simp [hxc]
      rcases onMatch_eq hbase ks hx (hstay x hx) with
        ⟨-, heq⟩ | ⟨a, b, pa, pb, q, hab, hwaiting, hpa, hpb, hq, heq⟩
      · exact absurd (by rw [heq]; rfl) hsame
      · rw [heq] at hplaced ⊢
        have hmove : Move (fun _ => False) s ((s.joinQueue x.playerId).pairUp ks a b pa pb q) :=
          .pair ks hsess hxc (hstay x hx) hab hwaiting hpa hpb hq
        have hbound := (Tracks.pair h hbase ks hsess hxc (hstay x hx) hwaiting hpa hpb
          ((hmove.connToPlayer_lookup id id).trans h.table) (h.held.move id hbase hmove)).bound
        obtain ⟨wheel, timers, hpair⟩ := pairUp_eq ks a b pa pb q (s.joinQueue x.playerId)
        have hnew : ((s.joinQueue x.playerId).pairUp ks a b pa pb q).cells.lookup s.nextRoomId =
            some _ := new_cell_pairUp ks a b pa pb q (s.joinQueue x.playerId)
        have hr : ((s.joinQueue x.playerId).pairUp ks a b pa pb q).Carries p s.nextRoomId := by
          have hcore : (((s.joinQueue x.playerId).pairUp ks a b pa pb q).post s.nextRoomId
              .start).core = ((s.joinQueue x.playerId).pairUp ks a b pa pb q).core :=
            (hbase.move hmove).core_post (Option.isSome_iff_exists.mpr ⟨_, hnew⟩) (by simp) (by simp)
          obtain ⟨r, cell, hle, ⟨y, hy, rfl⟩, hne, -⟩ := hplaced
          have hy := (congrArg (·.lookup p) (congrArg Core.sessions hcore)).symm.trans hy
          have hlt := (hbase.move hmove).tables.rooms_lt
            (((hbase.move hmove).tables.session hy).room hne)
          have hnext : ((s.joinQueue x.playerId).pairUp ks a b pa pb q).core.nextRoomId =
              s.nextRoomId + 1 := by
            rw [hpair]
            rfl
          exact ⟨y, hy, by omega⟩
        have hslot := (RoomCell.aim_eq_some (hbound.aims _ _ hr hbase.tables.room_pos hnew))
        rcases coming_of_post (hbase.move hmove) hnew (.inr ⟨rfl, hslot.resolve_right (by simp)⟩) with
          hcoming | ⟨es, hlog, hes⟩
        · exact .inl hcoming
        · refine .inr fun es' hlog' client => ?_
          have hfirst : ((s.joinQueue x.playerId).pairUp ks a b pa pb q).log = s.log ++
              [.queued x.playerId s.wheel.nowTick,
                .created s.nextRoomId a b pa.account pb.account] := by
            rw [hpair]
            exact List.append_assoc ..
          rw [hlog, hfirst, List.append_assoc] at hlog'
          obtain rfl := List.append_cancel_left hlog'
          rw [sentTo_append]
          simpa [sentTo, Entry.toConn] using hes client

theorem tuned_step {s : Lobby F} (hsound : Sound s) {p : ℕ} {c : Conn} (h : Bound p c s)
    (e : LobbyEvent F) (hconn : ∀ deed, s.commits e deed = true →
      deed ≠ .requests c ∧ deed ≠ .closes c) :
    Bound p c (s.step e) ∧ ∃ es, (s.step e).log = s.log ++ es ∧
      ∀ asked client, Tuned s.nextRoomId asked p c client s →
        Tuned (s.step e).nextRoomId asked p c (client.handleAll (sentTo c es)) (s.step e) := by
  obtain ⟨hbound, es, hlog, htuned⟩ := steers_step hsound h e hconn
  refine ⟨hbound, es, hlog, fun asked client hclient => ?_⟩
  have hafter := htuned asked client hclient
  have howed : Owed s.nextRoomId p c (s.step e) →
      Coming p c (s.step e) ∨ (client.handleAll (sentTo c es)).state = .inBattle := by
    rintro (hcoming | hplaced)
    · exact .inl hcoming
    · exact (placed_step hsound.base h hplaced).imp_right fun hall => hall es hlog client
  constructor
  · intro hstate
    rcases hafter.waits hstate with hasked | hw | ho
    · exact .inl hasked
    · exact .inr (.inl hw)
    · rcases howed ho with hcoming | hin
      · exact .inr (.inr (.inl hcoming))
      · cases hstate.symm.trans hin
  · intro hp
    rcases hafter.fights hp with ho | hin
    · exact (howed ho).imp_left .inl
    · exact .inr hin

end GameServer.Client
