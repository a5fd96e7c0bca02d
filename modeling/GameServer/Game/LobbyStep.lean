import GameServer.Game.LobbyBase

/-!
Every event of the lobby is a sequence of moves (`step_moves`), so an
invariant of the moves is an invariant of every run (`invariant_moves`). The
consistency of the tables follows at once.
-/

namespace GameServer.Game

open GameServer.Lib GameServer.Proto GameServer.Timer
open Lobby

variable {F : Type}

theorem sessionOf_some {s : Lobby F} (h : Tables s.core) {conn : Conn} {p : Session}
    (hp : s.sessionOf conn = some p) :
    s.connToPlayer.lookup conn = some p.playerId ∧ s.sessions.lookup p.playerId = some p ∧
      p.conn = some conn := by
  obtain ⟨pid, hpid, hsess⟩ := Option.bind_eq_some_iff.mp hp
  obtain ⟨x, hx, hconn⟩ := h.bound hpid
  obtain rfl : x = p := Option.some.inj (hx.symm.trans hsess)
  have hid := (h.session hx).id
  subst hid
  exact ⟨hpid, hsess, hconn⟩

theorem replaced_self {s : Lobby F} {r : ℕ} {cell : RoomCell F}
    (hcell : s.cells.lookup r = some cell) : s.Replaced r cell s.cells := by
  intro r'
  split
  · next hr => exact hr ▸ hcell
  · rfl

/-- `popPair` finds the two who wait, and both have a session: the branch of
`tryMatch` for a missing session is never taken. -/
theorem popPair_joinQueue {s : Lobby F} (h : Base s) {pid : ℕ} {p : Session}
    (hp : s.sessions.lookup pid = some p) (hconn : p.conn.isSome) (hstate : p.state = .kLobby) :
    (s.matchQueue.waiting = ∅ ∧
      (s.joinQueue pid).matchQueue.popPair = some (none, (s.matchQueue.push pid).1.compact)) ∨
    ∃ a b pa pb q, (s.joinQueue pid).matchQueue.popPair = some (some (a, b), q) ∧ a ≠ b ∧
      insert pid s.matchQueue.waiting = {a, b} ∧
      (s.joinQueue pid).sessions.lookup a = some pa ∧
      (s.joinQueue pid).sessions.lookup b = some pb ∧ q.waiting = ∅ := by
  obtain ⟨hnot, hw, ht⟩ := h.joinQueue hp hconn hstate
  have hcard : (s.joinQueue pid).matchQueue.waiting.card = s.matchQueue.waiting.card + 1 := by
    show (s.matchQueue.push pid).1.waiting.card = _
    rw [hw, Finset.card_insert_of_notMem hnot]
  by_cases hempty : s.matchQueue.waiting = ∅
  · left
    refine ⟨hempty, MatchQueue.popPair_of_few ?_⟩
    rw [hcard, hempty]
    decide
  · right
    have hone : s.matchQueue.waiting.card = 1 :=
      Nat.le_antisymm h.few (Finset.card_pos.mpr (Finset.nonempty_iff_ne_empty.mpr hempty))
    obtain ⟨a, b, q, hpop, hne, ha, hb, hwq, -⟩ :=
      MatchQueue.popPair_of_two (q := (s.joinQueue pid).matchQueue) ht.order (by omega)
    obtain ⟨pa, hpa⟩ := Option.isSome_iff_exists.mp (ht.waiting ha)
    obtain ⟨pb, hpb⟩ := Option.isSome_iff_exists.mp (ht.waiting hb)
    have hpair : ({a, b} : Finset ℕ) = (s.joinQueue pid).matchQueue.waiting := by
      refine Finset.eq_of_subset_of_card_le ?_ ?_
      · exact Finset.insert_subset ha (Finset.singleton_subset_iff.mpr hb)
      · rw [hcard, hone, Finset.card_pair hne]
    refine ⟨a, b, pa, pb, q, hpop, hne, ?_, hpa, hpb, ?_⟩
    · rw [hpair]
      exact hw.symm
    · rw [hwq]
      show ((s.joinQueue pid).matchQueue.waiting.erase a).erase b = ∅
      rw [← hpair]
      ext x
      simp
      tauto

variable [Scalar F]

/-- A sequence of moves. -/
abbrev Moves (φ : Deed → Prop) : Lobby F → Lobby F → Prop := Relation.ReflTransGen (Move φ)

theorem Base.moves {φ : Deed → Prop} {s s' : Lobby F} (h : Base s) (hmoves : Moves φ s s') :
    Base s' := by
  induction hmoves with
  | refl => exact h
  | tail _ hmove ih => exact ih.move hmove

/-! ### Rooms -/

theorem Room.forceEnd_ended (r : Room F) (w : ℕ) :
    (r.apply (.task (.forceEnd w))).1.ended = true := by
  simp only [Room.apply, Room.exec, Room.forceEnd]
  split
  · assumption
  · rfl

/-- An operation on a room is one move, wherever it comes from. -/
theorem move_runRoom {φ : Deed → Prop} {s : Lobby F} (h : Base s) {r : ℕ} {cell : RoomCell F}
    {op : RoomOp F} {mailbox : List (RoomTask F)} {cells : UnorderedMap ℕ (RoomCell F)}
    (hcell : s.cells.lookup r = some cell) (hsource : s.Source r cell op mailbox)
    (hmail : s.Replaced r ⟨cell.room, mailbox⟩ cells)
    (hlate : ∀ p c, op = .task (.rebind p (some c)) → cell.room.ended = true →
      φ (.lateRebind c)) :
    Move φ s (({ s with cells := cells } : Lobby F).runRoom r (·.apply op)) := by
  have hok := h.cell hcell
  obtain ⟨a, b, hseats⟩ := hok.seats
  have hstop : op ≠ .task .stop := by
    rintro rfl
    cases hsource with
    | head hmail => exact hok.no_stop (by rw [hmail]; exact List.mem_cons_self ..)
    | posted _ hpost => exact hpost
  have hcell' : ({ s with cells := cells } : Lobby F).cells.lookup r =
      some ⟨cell.room, mailbox⟩ := by
    rw [hmail r, if_pos rfl]
  have hreplaced : ∀ f : RoomCell F → RoomCell F, s.Replaced r (f ⟨cell.room, mailbox⟩)
      (cells.modify r f) := by
    intro f r'
    rw [UnorderedMap.lookup_modify, hmail r']
    split <;> rfl
  rcases Room.apply_cases hseats hstop with ⟨hended, hquiet⟩ | ⟨w, pre, hrun, hended, hop, hpre, hacts⟩
  · rw [runRoom_quiet hcell' hquiet]
    have hforce : ∀ w, op = .task (.forceEnd w) → cell.room.ended = true := by
      intro w hop
      rw [← hended, hop]
      exact Room.forceEnd_ended _ w
    have hmove : Move φ s _ := .quiet hcell hsource hended hquiet hforce
      (hreplaced fun cell => { cell with room := (cell.room.apply op).1 }) hlate
    exact hmove
  · rw [runRoom_closing hcell' hpre hacts, Room.apply_id, hok.id]
    have hwinner : op = .task (.forceEnd w) ∨ (cell.room.conns.lookup w).isSome :=
      hop.imp id fun hw => (hseats.conns w).mpr hw.2
    have hmove : Move φ s _ := .closing hcell hsource hrun hended hwinner hpre hacts
      (hreplaced fun cell =>
        { room := (cell.room.apply op).1, mailbox := cell.mailbox ++ [.resetTicker] })
    exact hmove

theorem moves_post {φ : Deed → Prop} {s : Lobby F} (h : Base s) {r : ℕ} {task : RoomTask F}
    (hcell : (s.cells.lookup r).isSome) (hpost : s.Postable r task)
    (hforce : ∀ w, task ≠ .forceEnd w) (hlive : ∀ p conn, task = .rebind p conn → r ∈ s.rooms) :
    Moves φ s (s.post r task) := by
  obtain ⟨cell, hcell⟩ := Option.isSome_iff_exists.mp hcell
  unfold post
  split
  · next hg =>
      refine .single (move_runRoom h hcell (.posted hg hpost) (replaced_self hcell)
        fun p c hop hended => ?_)
      -- a room in the table of a lobby without other threads has not ended
      rw [(h.cell hcell).running hg (hlive p _ (RoomOp.task.inj hop))] at hended
      cases hended
  · next hg => exact .single (.mail hg hcell hpost hforce)

/-- The session of `pid` is as `p` was when the handler found it, as far as
its room is concerned. -/
theorem moves_postToRoom {φ : Deed → Prop} {s : Lobby F} (h : Base s) {p : Session}
    {task : RoomTask F} (hpost : p.roomId ∈ s.rooms → s.Postable p.roomId task)
    (hforce : ∀ w, task ≠ .forceEnd w) : Moves φ s (s.postToRoom p task) := by
  unfold postToRoom
  split
  · next hin =>
      have hroom : p.roomId ∈ s.rooms := by
        simp only [Bool.and_eq_true, decide_eq_true_eq] at hin
        exact hin.2
      exact moves_post h (h.live hroom) (hpost hroom) hforce fun _ _ _ => hroom
  · exact .refl

/-! ### Sessions -/

/-- A reconnect is refused, or the session that is without a connection gets
this one. -/
theorem onReconnect_cases (s : Lobby F) (conn : Conn) (pid : ℕ) (token : String) (now : ℕ) :
    (s.accepts pid token = false ∧ s.onReconnect conn pid token now = s.reject conn) ∨
    ∃ p, s.accepts pid token = true ∧ s.sessions.lookup pid = some p ∧ p.token = token ∧
      p.conn = none ∧ s.onReconnect conn pid token now =
        (((s.rebindSession conn pid p now).emit (.send conn (.loginResp 0 p.playerId p.token)))
          |>.postToRoom p (.rebind p.playerId (some conn))).enqueue (.setOnline p.account) := by
  cases hp : s.sessions.lookup pid with
  | none => exact .inl ⟨by simp [accepts, hp], by simp [onReconnect, hp]⟩
  | some p =>
      by_cases hacc : p.token = token ∧ p.conn = none
      · refine .inr ⟨p, ?_, rfl, hacc.1, hacc.2, ?_⟩
        · simp [accepts, hp, hacc]
        · simp [onReconnect, hp, hacc]
      · have hrefused : p.token ≠ token ∨ p.conn.isSome := by
          rw [Option.isSome_iff_ne_none]
          exact not_and_or.mp hacc
        refine .inl ⟨?_, ?_⟩
        · simpa [accepts, hp, Option.isSome_iff_ne_none] using hacc
        · simp only [onReconnect, hp, Bool.or_eq_true, decide_eq_true_eq, if_pos hrefused]

/-- The session of a connection that ends is there: the branch of
`onDisconnect` for a missing session is never taken. -/
theorem onDisconnect_cases {s : Lobby F} (h : Base s) (conn : Conn) :
    s.onDisconnect conn = s ∨
    ∃ pid p, s.connToPlayer.lookup conn = some pid ∧ s.sessions.lookup pid = some p ∧
      p.conn = some conn ∧ s.onDisconnect conn =
        (((s.unbindSession conn pid p).postToRoom p (.dropConn pid)).scheduleExpiry pid).enqueue
          (.delOnline p.account) := by
  cases hpid : s.connToPlayer.lookup conn with
  | none => exact .inl (by simp [onDisconnect, hpid])
  | some pid =>
      obtain ⟨p, hp, hconn⟩ := h.tables.bound hpid
      have hp : s.sessions.lookup pid = some p := hp
      exact .inr ⟨pid, p, rfl, hp, hconn, by simp [onDisconnect, hpid, hp]⟩

theorem move_emit {φ : Deed → Prop} (s : Lobby F) {e : Entry F} (he : e.plain = true)
    (hanswer : ∀ c, e.answers = some c → φ (.requests c)) : Move φ s (s.emit e) :=
  .plain [e] s.store (by simpa using he) (by simpa using hanswer)

theorem moves_enqueue {φ : Deed → Prop} (s : Lobby F) {task : StoreTask}
    (htask : (Entry.enqueue task : Entry F).plain = true) : Moves φ s (s.enqueue task) := by
  unfold enqueue
  split
  · exact .single (.plain [.enqueue task] _ (by simpa using htask) (by simp [Entry.answers]))
  · exact .refl

theorem moves_reject {φ : Deed → Prop} (s : Lobby F) {conn : Conn} (h : φ (.requests conn)) :
    Moves φ s (s.reject conn) := by
  have hsend : Move φ s (s.emit (.send conn (.loginResp 1 0 ""))) := by
    refine move_emit s rfl fun c hc => ?_
    obtain rfl := Option.some.inj hc
    exact h
  exact .tail (.single hsend) (move_emit _ rfl (by simp [Entry.answers]))

theorem moves_onLogin {φ : Deed → Prop} (s : Lobby F) {conn : Conn} (account token : String)
    (now : ℕ) (ks : List ℕ) (hfresh : s.connToPlayer.lookup conn = none ∨ φ .bindsTwice)
    (hrequest : φ (.requests conn)) : Moves φ s (s.onLogin conn account token now ks) :=
  .trans (.single (.login conn account token now ks hfresh hrequest)) (moves_enqueue _ rfl)

theorem moves_onReconnect {φ : Deed → Prop} {s : Lobby F} (h : Base s) {conn : Conn} {pid : ℕ}
    {token : String} (now : ℕ)
    (hfresh : s.accepts pid token → s.connToPlayer.lookup conn = none ∨ φ .bindsTwice)
    (hrequest : φ (.requests conn)) : Moves φ s (s.onReconnect conn pid token now) := by
  rcases onReconnect_cases s conn pid token now with
    ⟨-, heq⟩ | ⟨p, hacc, hp, -, hnone, heq⟩
  · rw [heq]
    exact moves_reject s hrequest
  · rw [heq]
    have hrebind : Move φ s _ := .rebind conn now hp hnone (hfresh hacc) hrequest
    have hid : p.playerId = pid := (h.tables.session hp).id
    refine .trans (.single hrebind) (.trans (moves_postToRoom (h.move hrebind) ?_ (by simp))
      (moves_enqueue _ rfl))
    intro _
    rw [hid]
    refine ⟨{ p with conn := some conn, lastHeartbeatMs := now, expireTimerId := 0 }, conn, ?_,
      rfl, rfl, rfl⟩
    simp [emit, rebindSession, hp]

theorem moves_onDisconnect {φ : Deed → Prop} {s : Lobby F} (h : Base s) {conn : Conn}
    (hstate : ∀ p, s.sessionOf conn = some p → p.state ≠ .kMatching ∨ φ .dropsMatching)
    (hclose : φ (.closes conn)) : Moves φ s (s.onDisconnect conn) := by
  rcases onDisconnect_cases h conn with heq | ⟨pid, p, hpid, hp, -, heq⟩
  · rw [heq]
  · rw [heq]
    have hunbind : Move φ s _ :=
      .unbind hpid hp (hstate p (by simp [sessionOf, hpid, hp])) hclose
    refine .trans (.single hunbind) (.trans (moves_postToRoom (h.move hunbind) ?_ (by simp))
      (.head (.scheduleExpiry pid) (moves_enqueue _ rfl)))
    intro _
    exact ⟨_, by rw [lookup_unbindSession, hp]; rfl, by simp, by simp⟩

/-! ### The queue -/

/-- `tryMatch` starts the room it has made, or finds nobody to pair. -/
theorem onMatch_eq {s : Lobby F} (h : Base s) (ks : List ℕ) {conn : Conn} {p : Session}
    (hp : s.sessionOf conn = some p) (hstate : p.state = .kLobby) :
    (s.matchQueue.waiting = ∅ ∧ s.onMatch ks conn =
      { s.joinQueue p.playerId with matchQueue := (s.matchQueue.push p.playerId).1.compact }) ∨
    ∃ a b pa pb q, a ≠ b ∧ insert p.playerId s.matchQueue.waiting = {a, b} ∧
      (s.joinQueue p.playerId).sessions.lookup a = some pa ∧
      (s.joinQueue p.playerId).sessions.lookup b = some pb ∧ q.waiting = ∅ ∧
      s.onMatch ks conn =
        ((s.joinQueue p.playerId).pairUp ks a b pa pb q).post s.nextRoomId .start := by
  obtain ⟨-, hsess, hconn⟩ := sessionOf_some h.tables hp
  have hconn : p.conn.isSome := by simp [hconn]
  have hpush : (s.matchQueue.push p.playerId).2 = true :=
    (MatchQueue.push_of_notMem (h.joinQueue hsess hconn hstate).1).1
  have hmatch : s.onMatch ks conn = (s.joinQueue p.playerId).tryMatch ks := by
    simp [onMatch, hp, hstate, hpush]
  rw [hmatch]
  rcases popPair_joinQueue h hsess hconn hstate with
    ⟨hempty, hpop⟩ | ⟨a, b, pa, pb, q, hpop, hne, hwait, hpa, hpb, hq⟩
  · left
    exact ⟨hempty, by simp only [tryMatch, hpop]⟩
  · right
    refine ⟨a, b, pa, pb, q, hne, hwait, hpa, hpb, hq, ?_⟩
    simp only [tryMatch, hpop, hpa, hpb]
    rfl

theorem moves_onMatch {φ : Deed → Prop} {s : Lobby F} (h : Base s) (ks : List ℕ) (conn : Conn) :
    Moves φ s (s.onMatch ks conn) := by
  cases hp : s.sessionOf conn with
  | none => simpa only [onMatch, hp] using .refl
  | some p =>
      by_cases hstate : p.state = .kLobby
      · obtain ⟨-, hsess, hconn⟩ := sessionOf_some h.tables hp
        have hconn : p.conn.isSome := by simp [hconn]
        rcases onMatch_eq h ks hp hstate with
          ⟨hempty, heq⟩ | ⟨a, b, pa, pb, q, hne, hwait, hpa, hpb, hq, heq⟩
        · rw [heq]
          exact .single (.wait hsess hconn hstate hempty)
        · rw [heq]
          have hpair : Move φ s _ := .pair ks hsess hconn hstate hne hwait hpa hpb hq
          obtain ⟨wheel, timers, heq⟩ := pairUp_eq ks a b pa pb q (s.joinQueue p.playerId)
          have hnew := new_cell_pairUp ks a b pa pb q (s.joinQueue p.playerId)
          refine .trans (.single hpair) (moves_post (h.move hpair) ?_ ?_ (by simp) (by simp))
          · exact Option.isSome_iff_exists.mpr ⟨_, hnew⟩
          · exact ⟨by rw [heq]; rfl, _, hnew, rfl, rfl, rfl⟩
      · have hself : s.onMatch ks conn = s := by simp [onMatch, hp, hstate]
        rw [hself]

/-! ### Timer callbacks -/

/-- On the lobby's own loop a forfeit ends the room at once, and with it the
player's stay in the room. -/
theorem moves_forfeit_inline {φ : Deed → Prop} {s : Lobby F} (h : Base s) {pid : ℕ} {p : Session}
    (hp : s.sessions.lookup pid = some p) (hnone : p.conn = none) (hroom : p.roomId ≠ 0)
    (hinline : s.gameThreads = 0) :
    Moves φ s ((s.post p.roomId (.forceEnd (s.opponent pid p.roomId))).eraseSession pid) := by
  have hmem : p.roomId ∈ s.rooms := (h.tables.session hp).room hroom
  obtain ⟨cell, hcell⟩ := Option.isSome_iff_exists.mp (h.live hmem)
  have hok := h.cell hcell
  obtain ⟨a, b, hseats⟩ := hok.seats
  have hrun := hok.running hinline hmem
  have hpost : s.Postable p.roomId (.forceEnd (s.opponent pid p.roomId)) :=
    ⟨pid, p, hp, rfl, hnone, rfl⟩
  have hsame : s.Replaced p.roomId ⟨cell.room, cell.mailbox⟩ s.cells := replaced_self hcell
  have hclose : Move φ s _ := move_runRoom h hcell (.posted hinline hpost) hsame (by simp)
  rw [post, if_pos hinline]
  refine .trans (.single hclose) (.single ?_)
  have hgone : ∃ x, (s.runRoom p.roomId
      (·.exec (.forceEnd (s.opponent pid p.roomId)))).sessions.lookup pid = some x ∧
      x.conn = none ∧ x.roomId = 0 := by
    have hacts : (cell.room.exec (.forceEnd (s.opponent pid p.roomId))).2 = [] ++
        (cell.room.exec (.forceEnd (s.opponent pid p.roomId))).1.closing
          (s.opponent pid p.roomId) := by
      simp [Room.exec, Room.forceEnd, hrun, Room.endBattle, Room.closing]
    rw [runRoom_closing (f := (·.exec (.forceEnd (s.opponent pid p.roomId)))) hcell (by simp) hacts,
      closeRoom, if_pos hinline, lookup_onRoomEnd]
    have hid : (cell.room.exec (.forceEnd (s.opponent pid p.roomId))).1.id = p.roomId :=
      (Room.apply_id cell.room (.task (.forceEnd (s.opponent pid p.roomId)))).trans hok.id
    exact ⟨p.leave p.roomId, by simp [hp, hid], by simp [hnone], Session.leave_roomId rfl⟩
  obtain ⟨x, hx, hxc, hxr⟩ := hgone
  exact .erase hx hxc hxr

theorem moves_expireSession {φ : Deed → Prop} {s : Lobby F} (h : Base s) {pid : ℕ}
    (hdeed : ∀ p, s.sessions.lookup pid = some p → p.conn = none → p.state = .kInRoom →
      s.gameThreads ≠ 0 → φ .forfeits) :
    Moves φ s (s.expireSession pid) := by
  unfold expireSession
  split
  · exact .refl
  · next p hp =>
      split
      · exact .refl
      · next hconn =>
          have hnone : p.conn = none := by simpa using hconn
          have hok := h.tables.session hp
          by_cases hstate : p.state = .kInRoom
          · have hroom : p.roomId ≠ 0 := hok.inRoom.mpr hstate
            have hmem : p.roomId ∈ s.rooms := hok.room hroom
            rw [postToRoom, if_pos (by simp [hstate, hmem])]
            by_cases hg : s.gameThreads = 0
            · exact moves_forfeit_inline h hp hnone hroom hg
            · rw [post_mail hg]
              exact .single (.forfeit hg hp hnone hroom (hdeed p hp hnone hstate hg))
          · have hroom : p.roomId = 0 := by
              by_contra hne
              exact hstate (hok.inRoom.mp hne)
            rw [postToRoom, if_neg (by simp [hstate])]
            exact .single (.erase hp hnone hroom)

theorem fireNext_cases (s : Lobby F) (now : ℕ) :
    s.fireNext now = s ∨
    (∃ n rest, s.firing = n :: rest ∧ s.wheel.take n = none ∧
      s.fireNext now = { s with firing := rest }) ∨
    ∃ n rest node w, s.firing = n :: rest ∧ s.wheel.take n = some (node, w) ∧
      s.nextCallback = some node.cb ∧
      s.fireNext now = ({ s with firing := rest, wheel := w } : Lobby F).call now node.cb := by
  cases hfiring : s.firing with
  | nil => exact .inl (by simp [fireNext, hfiring])
  | cons n rest =>
      cases htake : s.wheel.take n with
      | none => exact .inr (.inl ⟨n, rest, rfl, htake, by simp [fireNext, hfiring, htake]⟩)
      | some taken =>
          obtain ⟨node, w⟩ := taken
          refine .inr (.inr ⟨n, rest, node, w, rfl, htake, ?_, ?_⟩)
          · simp [nextCallback, hfiring, htake]
          · simp [fireNext, hfiring, htake]

omit [Scalar F] in
/-- The sweep shuts connections down and does nothing else. -/
theorem exists_shutdown_of_mem {now : ℕ} {entries : List ((_ : ℕ) × Session)} {e : Entry F}
    (he : e ∈ entries.filterMap fun e =>
      match e.2.conn with
      | none => none
      | some c => if silent now e.2 then some (.shutdown c) else none) :
    ∃ c, e = .shutdown c := by
  obtain ⟨x, -, hx⟩ := List.mem_filterMap.mp he
  split at hx
  · cases hx
  · split at hx
    · exact ⟨_, (Option.some.inj hx).symm⟩
    · cases hx

theorem moves_fireNext {φ : Deed → Prop} {s : Lobby F} (h : Base s) (now : ℕ)
    (hdeed : ∀ pid p, s.nextCallback = some (.expireSession pid) →
      s.sessions.lookup pid = some p → p.conn = none → p.state = .kInRoom →
      s.gameThreads ≠ 0 → φ .forfeits) :
    Moves φ s (s.fireNext now) := by
  rcases fireNext_cases s now with heq | ⟨n, rest, hfiring, htake, heq⟩ |
    ⟨n, rest, node, w, hfiring, htake, hnext, heq⟩
  · rw [heq]
  · rw [heq]
    exact .single (.skip hfiring htake)
  · rw [heq]
    cases hcb : node.cb with
    | matchTimeout pid => exact .single (.matchTimeout hfiring htake hcb)
    | expireSession pid =>
        have hmove : Move φ s _ := .take hfiring htake (by simp [hcb])
        exact .head hmove (moves_expireSession (h.move hmove)
          (hdeed pid · (hnext.trans (congrArg some hcb))))
    | sweep =>
        have hmove : Move φ s _ := .take hfiring htake (by simp [hcb])
        refine .head hmove (.head (.plain _ _ ?_ ?_) (.single .scheduleSweep))
        · intro e he
          obtain ⟨c, rfl⟩ := exists_shutdown_of_mem he
          rfl
        · intro e he c' hc'
          obtain ⟨c, rfl⟩ := exists_shutdown_of_mem he
          cases hc'

/-! ### Events -/

/-- The event is handled on the lobby thread, so not in the middle of a wheel
tick. -/
def LobbyEvent.waits : LobbyEvent F → Bool
  | .login _ _ _ _ _ | .reconnect _ _ _ _ | .matchReq _ _ | .input _ _ | .heartbeat _ _ _
  | .disconnect _ | .roomEnd | .wheelTick => true
  | .leaderboard _ _ | .fireNext _ | .roomTask _ | .roomTick _ _ | .storeTask _ => false

/-- What an event does when its time has come. -/
def Lobby.handle (s : Lobby F) : LobbyEvent F → Lobby F
  | .login conn account token now ks => s.onLogin conn account token now ks
  | .reconnect conn pid token now => s.onReconnect conn pid token now
  | .matchReq conn ks => s.onMatch ks conn
  | .input conn input => s.onInput conn input
  | .heartbeat conn clientMs now => s.onHeartbeat conn clientMs now
  | .disconnect conn => s.onDisconnect conn
  | .leaderboard conn topN => s.onLeaderboard conn topN
  | .roomEnd => s.handleRoomEnd
  | .wheelTick => s.wheelTick
  | .fireNext now => s.fireNext now
  | .roomTask roomId => s.roomTask roomId
  | .roomTick roomId ks => s.roomTick roomId ks
  | .storeTask top => s.storeTask top

theorem step_cases (s : Lobby F) (e : LobbyEvent F) :
    s.step e = s ∨ (e.waits = true → s.firing = []) ∧ s.step e = s.handle e := by
  cases e with
  | login | reconnect | matchReq | input | heartbeat | disconnect | roomEnd | wheelTick =>
      simp only [step]
      split
      · next hfiring => exact .inr ⟨fun _ => hfiring, rfl⟩
      · exact .inl rfl
  | roomTask | roomTick =>
      simp only [step]
      split
      · exact .inl rfl
      · exact .inr ⟨by simp [LobbyEvent.waits], rfl⟩
  | leaderboard | fireNext | storeTask => exact .inr ⟨by simp [LobbyEvent.waits], rfl⟩

theorem step_of_waits {s : Lobby F} {e : LobbyEvent F} (he : e.waits = true)
    (hfiring : s.firing = []) : s.step e = s.handle e := by
  cases e with
  | login | reconnect | matchReq | input | heartbeat | disconnect | roomEnd | wheelTick =>
      exact if_pos hfiring
  | leaderboard | fireNext | roomTask | roomTick | storeTask => cases he

theorem moves_roomTask {φ : Deed → Prop} {s : Lobby F} (h : Base s) (r : ℕ)
    (hlate : ∀ cell task c, s.cells.lookup r = some cell → cell.mailbox.head? = some task →
      task.rebinds = some c → cell.room.ended = true → φ (.lateRebind c)) :
    Moves φ s (s.roomTask r) := by
  unfold roomTask
  split
  · exact .refl
  · next cell hcell =>
      split
      · exact .refl
      · next task rest hmail =>
          refine .single (move_runRoom h hcell (.head hmail) (fun r' => ?_)
            fun p c hop hended => ?_)
          · rw [UnorderedMap.lookup_modify]
            split
            · next hr =>
                subst hr
                simp [hcell]
            · rfl
          · refine hlate cell task c hcell (by simp [hmail]) ?_ hended
            rw [RoomOp.task.inj hop]
            rfl

theorem moves_roomTick {φ : Deed → Prop} {s : Lobby F} (h : Base s) (r : ℕ) (ks : List ℕ) :
    Moves φ s (s.roomTick r ks) := by
  unfold roomTick
  split
  · exact .refl
  · next cell hcell =>
      split
      · next hticker =>
          exact .single (move_runRoom h hcell (.tick ks hticker) (replaced_self hcell) (by simp))
      · exact .refl

theorem moves_storeTask {φ : Deed → Prop} (s : Lobby F) (top : List (String × F)) :
    Moves φ s (s.storeTask top) := by
  unfold storeTask
  split
  · exact .refl
  · next task rest _ =>
      have hmove : Move φ s (({ s with store := rest } : Lobby F).emit (.executed task)) :=
        .plain [.executed task] rest (by simp [Entry.plain]) (by simp [Entry.answers])
      cases task with
      | leaderboard conn n => exact .tail (.single hmove) (move_emit _ rfl (by simp [Entry.answers]))
      | setOnline | delOnline | settle => exact .single hmove

theorem moves_onLeaderboard {φ : Deed → Prop} (s : Lobby F) (conn : Conn) (topN : ℕ) :
    Moves φ s (s.onLeaderboard conn topN) := by
  unfold onLeaderboard
  dsimp only
  split
  · exact moves_enqueue s rfl
  · exact .single (move_emit s rfl (by simp [Entry.answers]))

theorem moves_onHeartbeat {φ : Deed → Prop} (s : Lobby F) (conn : Conn) (clientMs : ℤ) (now : ℕ) :
    Moves φ s (s.onHeartbeat conn clientMs now) := by
  unfold onHeartbeat
  dsimp only
  split
  · exact .single (move_emit s rfl (by simp [Entry.answers]))
  · exact .tail (.single (.heartbeat _ now)) (move_emit _ rfl (by simp [Entry.answers]))

theorem moves_onInput {φ : Deed → Prop} {s : Lobby F} (h : Base s) (conn : Conn)
    (input : PlayerInput F) : Moves φ s (s.onInput conn input) := by
  unfold onInput
  split
  · exact .refl
  · next p hp =>
      obtain ⟨-, hsess, -⟩ := sessionOf_some h.tables hp
      exact moves_postToRoom h (fun _ => ⟨p, hsess, rfl⟩) (by simp)

/-- Every event is a sequence of moves, and the moves that a deed opens are
made by events that commit the deed. -/
theorem step_moves {s : Lobby F} (h : Base s) (e : LobbyEvent F) :
    Moves (fun deed => s.commits e deed) s (s.step e) := by
  rcases step_cases s e with hself | ⟨hfiring, hstep⟩
  · rw [hself]
  rw [hstep]
  cases e with
  | login conn account token now ks =>
      refine moves_onLogin s account token now ks ?_ (by simp [commits])
      cases hconn : s.connToPlayer.lookup conn with
      | none => exact .inl rfl
      | some pid => exact .inr (by simp [commits, hfiring rfl, hconn])
  | reconnect conn pid token now =>
      refine moves_onReconnect h now (fun hacc => ?_) (by simp [commits])
      cases hconn : s.connToPlayer.lookup conn with
      | none => exact .inl rfl
      | some pid => exact .inr (by simp [commits, hfiring rfl, hconn, hacc])
  | matchReq conn ks => exact moves_onMatch h ks conn
  | input conn input => exact moves_onInput h conn input
  | heartbeat conn clientMs now => exact moves_onHeartbeat s conn clientMs now
  | disconnect conn =>
      refine moves_onDisconnect h (fun p hp => ?_) (by simp [commits])
      by_cases hstate : p.state = .kMatching
      · exact .inr (by simp [commits, hfiring rfl, hp, hstate])
      · exact .inl hstate
  | leaderboard conn topN => exact moves_onLeaderboard s conn topN
  | roomEnd =>
      simp only [handle, handleRoomEnd]
      split
      · exact .refl
      · next hends => exact .single (.roomEnd hends)
  | wheelTick => exact .single (.wheelTick (hfiring rfl))
  | fireNext now =>
      refine moves_fireNext h now fun pid p hcb hp hnone hstate hg => ?_
      simp [commits, hcb, hp, hnone, hstate, hg]
  | roomTask r =>
      refine moves_roomTask h r fun cell task c hcell hhead hc hended => ?_
      simp [commits, hcell, hhead, hc, hended]
  | roomTick r ks => exact moves_roomTick h r ks
  | storeTask top => exact moves_storeTask s top

theorem Base.step {s : Lobby F} (h : Base s) (e : LobbyEvent F) : Base (s.step e) :=
  h.moves (step_moves h e)

/-- The state that a sequence of events leads to. -/
def Lobby.run (gameThreads : ℕ) (writer : Bool) (es : List (LobbyEvent F)) : Lobby F :=
  es.foldl Lobby.step (Lobby.init gameThreads writer)

theorem run_concat (gameThreads : ℕ) (writer : Bool) (es : List (LobbyEvent F))
    (e : LobbyEvent F) :
    Lobby.run gameThreads writer (es ++ [e]) = (Lobby.run gameThreads writer es).step e := by
  simp [Lobby.run]

theorem base_run (gameThreads : ℕ) (writer : Bool) (es : List (LobbyEvent F)) :
    Base (Lobby.run gameThreads writer es) :=
  invariant_run_of_step (I := Base) (fun _ e h => h.step e) (base_init gameThreads writer) es

theorem invariant_of_moves {I : Lobby F → Prop} {φ : Deed → Prop}
    (hmove : ∀ s s', Base s → I s → Move φ s s' → I s') {s s' : Lobby F} (hbase : Base s)
    (hI : I s) (hmoves : Moves φ s s') : I s' := by
  induction hmoves with
  | refl => exact hI
  | tail hprev hlast ih => exact hmove _ _ (hbase.moves hprev) ih hlast

/-- The rule for invariants of the lobby. A deed that breaks a move's rule
has to be absent from the run. -/
theorem invariant_moves {I : Lobby F → Prop} {φ : Deed → Prop} {gameThreads : ℕ} {writer : Bool}
    {es : List (LobbyEvent F)} (hinit : I (Lobby.init gameThreads writer))
    (hmove : ∀ s s', Base s → I s → Move φ s s' → I s')
    (hok : Along Lobby.step (fun s e => ∀ deed, s.commits e deed = true → φ deed)
      (Lobby.init gameThreads writer) es) :
    I (Lobby.run gameThreads writer es) := by
  have hstep : ∀ s e, (Base s ∧ I s) → (∀ deed, s.commits e deed = true → φ deed) →
      (Base (s.step e) ∧ I (s.step e)) := by
    intro s e ⟨hbase, hI⟩ hdeed
    refine ⟨hbase.step e, ?_⟩
    exact invariant_of_moves hmove hbase hI
      (Relation.ReflTransGen.mono (fun _ _ h => h.mono hdeed) _ _ (step_moves hbase e))
  exact (invariant_run hstep ⟨base_init gameThreads writer, hinit⟩ hok).2

end GameServer.Game
