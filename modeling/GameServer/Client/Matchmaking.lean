import GameServer.Client.Expectation
import GameServer.Game.MatchTimers

/-!
Clients that wait for an opponent, and what the server knows of them.

`endBattle` sends `BattleEnd` and only then lets the lobby know that the room
is over. In between the session is still in the room, so a client that asks
for the next match at once is ignored: `onMatch` drops its request, and nothing
will ever take the client out of its `Matching` state. In runs without such a
request every client that waits is known to the server.
-/

namespace GameServer.Client

open GameServer.Lib GameServer.Proto GameServer.Timer GameServer.Game
open Lobby

variable {F : Type}

def isMatchReq : ClientMsg F → Bool
  | .matchReq _ => true
  | _ => false

/-- There is a `MatchReq` among the messages. -/
def Asked (up : List (ClientMsg F)) : Prop := ∃ msg ∈ up, isMatchReq msg = true

namespace Sys

/-- A client that waits is in the queue, and has a timer. -/
def Knows (s : Sys F) : Prop :=
  ∀ l, s.Settled l → s.client.state = .matching → ∃ p x,
    s.lobby.connToPlayer.lookup l.conn = some p ∧ s.lobby.sessions.lookup p = some x ∧
    x.state = .kMatching ∧ p ∈ s.lobby.matchQueue.waiting ∧ ∃ id, s.lobby.MatchTimerOf p id

/-- A `MatchReq` of the client is handled while its player is in a room whose
battle is over. -/
def ignores (s : Sys F) : SysEvent F → Bool
  | .deliver _ _ _ => s.link.any fun l =>
      !l.closed && s.lobby.firing = [] && l.up.head?.any isMatchReq &&
        (s.lobby.sessionOf l.conn).any fun x =>
          x.state = .kInRoom && (s.lobby.cells.lookup x.roomId).any (·.room.ended)
  | _ => false

end Sys

/-! ### Answers of the server -/

theorem state_ne_matching {client : GameSession} (h : client.state ≠ .matching)
    (msgs : List (ServerMsg F)) : (client.handleAll msgs).state ≠ .matching := by
  intro hstate
  exact h ((GameSession.state_of_handleAll (.inl hstate)).symm.trans hstate)

/-- What the user does changes nothing but the state, and that only when the
client is neither waiting nor in a battle. -/
theorem Tuned.act {n p : ℕ} {asked asked' : Prop} {c : Conn} {client client' : GameSession}
    {s : Lobby F} (h : Tuned n asked p c client s) (hasked : asked → asked')
    (hstate : client'.state = client.state ∨
      client.state ≠ .inBattle ∧ (client'.state = .matching → asked')) :
    Tuned n asked' p c client' s := by
  rcases hstate with hsame | ⟨hidle, hnew⟩
  · refine ⟨fun hm => ?_, fun hp => ?_⟩
    · exact (h.waits (hsame ▸ hm)).imp_left hasked
    · rw [hsame]
      exact h.fights hp
  · exact ⟨fun hm => .inl (hnew hm), fun hp => .inl ((h.fights hp).resolve_right hidle)⟩

theorem not_present_onLogin (c : Conn) (account token : String) (now : ℕ) (ks : List ℕ)
    (s : Lobby F) : ¬Present s.nextPlayerId (s.onLogin c account token now ks) := by
  rintro ⟨r, cell, ⟨x, hx, rfl⟩, hne, -⟩
  have hsessions : (s.onLogin c account token now ks).sessions =
      (s.addSession c { playerId := s.nextPlayerId, token := token, account := account
                        conn := some c, lastHeartbeatMs := now } ks).sessions := by
    unfold onLogin enqueue
    split <;> rfl
  rw [hsessions] at hx
  simp only [addSession, UnorderedMap.lookup_reorder, UnorderedMap.lookup_insert_eq, if_true] at hx
  obtain rfl := Option.some.inj hx
  exact hne rfl

variable [Scalar F]

/-- A client that is let in again learns of the battle its player is in. -/
theorem tuned_onReconnect {s : Lobby F} (hsound : Sound s) {c : Conn} {pid : ℕ} {x : Session}
    (hx : s.sessions.lookup pid = some x) (hnone : x.conn = none) (now : ℕ)
    {es : List (Entry F)} (hlog : (s.onReconnect c pid x.token now).log = s.log ++ es) (n : ℕ)
    (asked : Prop) {client : GameSession} (hclient : client.state ≠ .matching) :
    Tuned n asked pid c (client.handleAll (sentTo c es)) (s.onReconnect c pid x.token now) := by
  have hok := hsound.base.tables.session hx
  have hid : x.playerId = pid := hok.id
  have hmove : Move (fun _ => True) s ((s.rebindSession c pid x now).emit
      (.send c (.loginResp 0 x.playerId x.token))) :=
    .rebind c now hx hnone (.inr trivial) trivial
  have hsound' := hsound.moves (.single hmove)
  have heq : s.onReconnect c pid x.token now = (((s.rebindSession c pid x now).emit
      (.send c (.loginResp 0 x.playerId x.token))).postToRoom x
      (.rebind x.playerId (some c))).enqueue (.setOnline x.account) := by
    simp [onReconnect, hx, hnone]
  rw [hid] at heq hsound'
  have hnew : ((s.rebindSession c pid x now).emit (.send c (.loginResp 0 pid x.token))).sessions.lookup
      pid = some { x with conn := some c, lastHeartbeatMs := now, expireTimerId := 0 } := by
    simp [emit, rebindSession, hx]
  by_cases hroom : x.state = .kInRoom
  · have hne : x.roomId ≠ 0 := hok.inRoom.mpr hroom
    have hmem : x.roomId ∈ s.rooms := hok.room hne
    have hpost : ((s.rebindSession c pid x now).emit
        (.send c (.loginResp 0 pid x.token))).postToRoom x (.rebind pid (some c)) =
        ((s.rebindSession c pid x now).emit (.send c (.loginResp 0 pid x.token))).post x.roomId
          (.rebind pid (some c)) := by
      rw [postToRoom, if_pos]
      simp only [hroom, decide_true, Bool.true_and, decide_eq_true_eq]
      exact hmem
    rw [hpost] at heq
    obtain ⟨cell, hcell, hseat⟩ := hsound'.seating.seated pid x.roomId ⟨_, hnew, rfl⟩ hne
    obtain ⟨-, -, hcells, es', hlog', hes'⟩ := enqueue_rest c (.setOnline x.account)
      (((s.rebindSession c pid x now).emit (.send c (.loginResp 0 pid x.token))).post x.roomId
        (.rebind pid (some c)))
    rw [heq] at hlog ⊢
    rcases coming_of_post hsound'.base hcell (.inl ⟨rfl, hseat⟩) with hcoming | ⟨es₀, hlog₀, hin⟩
    · exact .of_idle (state_ne_matching hclient _) fun _ => .inl (hcoming.congr hcells)
    · refine .of_inBattle ?_
      have hall : s.log ++ (.send c (.loginResp 0 pid x.token) :: (es₀ ++ es')) = s.log ++ es := by
        rw [← hlog, hlog', hlog₀]
        simp [emit, rebindSession]
      obtain rfl := List.append_cancel_left hall
      rw [sentTo_send, sentTo_append, hes', List.append_nil]
      exact hin (client.handleMessage (.loginResp 0 pid x.token))
  · have hpost : ∀ task, ((s.rebindSession c pid x now).emit
        (.send c (.loginResp 0 pid x.token))).postToRoom x task =
        (s.rebindSession c pid x now).emit (.send c (.loginResp 0 pid x.token)) := by
      intro task
      rw [postToRoom, if_neg]
      simp [hroom]
    rw [hpost] at heq
    obtain ⟨-, hsessions, -⟩ := enqueue_rest c (.setOnline x.account)
      ((s.rebindSession c pid x now).emit (.send c (.loginResp 0 pid x.token)))
    refine .of_idle (state_ne_matching hclient _) fun hp => ?_
    obtain ⟨r, cell, ⟨y, hy, rfl⟩, hne, -⟩ := hp
    rw [heq, hsessions, hnew] at hy
    obtain rfl := Option.some.inj hy
    exact absurd (hok.inRoom.mp hne) hroom

theorem present_start {s : Lobby F} (hbase : Base s) {p r : ℕ} {cell : RoomCell F}
    (hcell : s.cells.lookup r = some cell) (hr : s.Carries p r) (hrun : cell.room.ended = false) :
    Present p (s.post r .start) := by
  obtain ⟨a, b, hseats⟩ := (hbase.cell hcell).seats
  rw [post_quiet hcell (Room.exec_quiet hseats (by simp) (by simp))]
  refine ⟨r, deliver s.gameThreads .start cell, hr, (hbase.cell hcell).pos, by simp [hcell], ?_⟩
  unfold deliver
  split <;> exact hrun

/-- A request that is handled in time puts the player into the queue or into
a battle. -/
theorem heard {s : Lobby F} (hbase : Base s) {p : ℕ} {c : Conn} (h : Bound p c s)
    (hfiring : s.firing = []) (ks : List ℕ)
    (hrun : ∀ x cell, s.sessionOf c = some x → x.state = .kInRoom →
      s.cells.lookup x.roomId = some cell → cell.room.ended = false) :
    Waits p (s.step (.matchReq c ks)) ∨ Present p (s.step (.matchReq c ks)) := by
  have hstep : s.step (.matchReq c ks) = s.onMatch ks c := by simp [Lobby.step, hfiring]
  rw [hstep]
  obtain ⟨x, hx, hxc⟩ := hbase.tables.bound h.table
  have hx : s.sessions.lookup p = some x := hx
  have hid : x.playerId = p := (hbase.tables.session hx).id
  have hof : s.sessionOf c = some x := by simp [Lobby.sessionOf, h.table, hx]
  cases hstate : x.state with
  | kMatching =>
      have hself : s.onMatch ks c = s := by simp [onMatch, hof, hstate]
      rw [hself]
      exact .inl ⟨x, hx, hstate⟩
  | kInRoom =>
      have hself : s.onMatch ks c = s := by simp [onMatch, hof, hstate]
      have hne := (hbase.tables.session hx).inRoom.mpr hstate
      obtain ⟨cell, hcell⟩ :=
        Option.isSome_iff_exists.mp (hbase.live ((hbase.tables.session hx).room hne))
      rw [hself]
      exact .inr ⟨x.roomId, cell, ⟨x, hx, rfl⟩, hne, hcell, hrun x cell hof hstate hcell⟩
  | kLobby =>
      have hconn : x.conn.isSome := by simp [hxc]
      rcases onMatch_eq hbase ks hof hstate with
        ⟨-, heq⟩ | ⟨a, b, pa, pb, q, hab, hwaiting, hpa, hpb, hq, heq⟩
      · left
        refine ⟨{ x with state := .kMatching }, ?_, rfl⟩
        rw [heq]
        simp [joinQueue, hid, hx]
      · right
        rw [hid] at hwaiting hpa hpb heq
        have hmove : Move (fun _ => False) s ((s.joinQueue p).pairUp ks a b pa pb q) :=
          .pair ks hx hconn hstate hab hwaiting hpa hpb hq
        have hnew : ((s.joinQueue p).pairUp ks a b pa pb q).cells.lookup s.nextRoomId =
            some _ := new_cell_pairUp ks a b pa pb q (s.joinQueue p)
        have hp : p = a ∨ p = b := by
          have hmem := Finset.mem_insert_self p s.matchQueue.waiting
          rw [hwaiting] at hmem
          simpa using hmem
        have hr := (carries_joined ks hpa hpb q p s.nextRoomId).mpr (.inl ⟨hp, rfl⟩)
        rw [heq]
        exact present_start (hbase.move hmove) hnew hr rfl

/-! ### The whole system -/

/-- How things stand on an open link, as far as the queue is concerned. -/
inductive LinkTuned (client : GameSession) (l : Link F) (s : Lobby F) : Prop where
  | waiting {msg : ClientMsg F} {up : List (ClientMsg F)} (hup : l.up = msg :: up)
      (hmsg : isRequest msg = true) (hrest : ∀ m ∈ up, isRequest m = false)
      (hfresh : Fresh l.conn s) (hdown : ∀ m ∈ l.down, m.inert = true)
      (hstate : client.state = .loggingIn)
  | refused (hup : ∀ m ∈ l.up, isRequest m = false) (hfresh : Fresh l.conn s)
      (hstate : (client.handleAll l.down).state = .loggingIn)
  | granted {p : ℕ} (hup : ∀ m ∈ l.up, isRequest m = false) (hbound : Bound p l.conn s)
      (htuned : Tuned s.nextRoomId (Asked l.up) p l.conn (client.handleAll l.down) s)

structure SysTuned (s : Sys F) : Prop where
  sound : Sound s.lobby
  armed : Armed s.lobby
  fresh : ∀ c, c ∉ s.used → Fresh c s.lobby
  used : ∀ l, s.link = some l → l.conn ∈ s.used
  link : ∀ l, s.link = some l → l.closed = false → LinkTuned s.client l s.lobby

omit [Scalar F] in
theorem sysTuned_init (gameThreads : ℕ) (writer : Bool) :
    SysTuned (Sys.init gameThreads writer : Sys F) := by
  refine ⟨⟨base_init gameThreads writer, orderly_init gameThreads writer,
    seating_init gameThreads writer⟩, armed_init gameThreads writer,
    fun c _ => fresh_init c gameThreads writer, ?_, ?_⟩
  · simp [Sys.init]
  · simp [Sys.init]

theorem armed_step {s : Lobby F} (hbase : Base s) (h : Armed s) (e : LobbyEvent F) :
    Armed (s.step e) :=
  invariant_of_moves (fun _ _ ht hI hmove => hI.move ht hmove) hbase h (step_moves hbase e)

omit [Scalar F] in
theorem asked_append {up msgs : List (ClientMsg F)} (h : Asked up) : Asked (up ++ msgs) :=
  h.imp fun _ hmsg => ⟨List.mem_append_left _ hmsg.1, hmsg.2⟩

omit [Scalar F] in
/-- The user does something, and perhaps sends something. -/
theorem SysTuned.act {s : Sys F} (h : SysTuned s) {r : GameSession × List (ClientMsg F)}
    (hwas : r.1.wasInBattle = s.client.wasInBattle)
    (hstate : r.1.state = s.client.state ∨
      (s.client.state = .lobby ∨ s.client.state = .battleEnded) ∧
        (r.1.state = .matching → Asked r.2))
    (hmsgs : ∀ m ∈ r.2, isRequest m = false) : SysTuned (s.act r) := by
  refine ⟨h.sound, h.armed, h.fresh, fun l' hl' => ?_, fun l' hl' hopen => ?_⟩
  all_goals
    obtain ⟨l, hl, rfl⟩ := Option.map_eq_some_iff.mp hl'
  · exact h.used l hl
  · have hup : ∀ {up : List (ClientMsg F)}, (∀ m ∈ up, isRequest m = false) →
        ∀ m ∈ up ++ r.2, isRequest m = false := fun hup m hm =>
      (List.mem_append.mp hm).elim (hup m) (hmsgs m)
    have hlogin : s.client.state = .loggingIn → r.1.state = .loggingIn := by
      intro hl
      rcases hstate with hsame | ⟨hidle | hidle, -⟩
      · exact hsame.trans hl
      · cases hl.symm.trans hidle
      · cases hl.symm.trans hidle
    have hafter := GameSession.state_handleAll l.down hwas
    cases h.link l hl hopen with
    | @waiting msg up hl' hmsg hrest hfresh hdown hclient =>
        have hl₂ : l.up ++ r.2 = msg :: (up ++ r.2) := by rw [hl', List.cons_append]
        exact .waiting hl₂ hmsg (hup hrest) hfresh hdown (hlogin hclient)
    | refused hl' hfresh hclient =>
        refine .refused (hup hl') hfresh ?_
        rcases hafter with hsame | ⟨hkept, -⟩
        · exact hsame.trans hclient
        · have hold := (GameSession.state_of_handleAll (.inr hclient)).symm.trans hclient
          exact hkept.trans (hlogin hold)
    | granted hl' hbound htuned =>
        refine .granted (hup hl') hbound (htuned.act asked_append ?_)
        rcases hafter with hsame | ⟨hkept, hold⟩
        · exact .inl hsame
        · rcases hstate with hsame | ⟨hidle, hnew⟩
          · exact .inl (hkept.trans (hsame.trans hold.symm))
          · refine .inr ⟨?_, fun hm => ?_⟩
            · rw [hold]
              rcases hidle with hidle | hidle <;> simp [hidle]
            · obtain ⟨msg, hmem, hmsg⟩ := hnew (hkept.symm.trans hm)
              exact ⟨msg, List.mem_append_right _ hmem, hmsg⟩

/-- What has to be shown of an event that comes from the client's link. -/
theorem SysTuned.answered {s : Sys F} (h : SysTuned s) {l : Link F} (hl : s.link = some l)
    (hopen : l.closed = false) {up : List (ClientMsg F)} {e : LobbyEvent F}
    (hconn : eventConn e = some l.conn) {es : List (Entry F)}
    (hlog : (s.lobby.step e).log = s.lobby.log ++ es)
    (hok : LinkTuned s.client { l with up := up, down := l.down ++ sentTo l.conn es }
      (s.lobby.step e)) :
    SysTuned (Sys.serve e { s with link := some { l with up := up } }) := by
  have hused := h.used l hl
  have hlink : (Sys.serve e { s with link := some { l with up := up } }).link =
      some { l with up := up, down := l.down ++ sentTo l.conn es } := by
    simp only [Sys.serve, Option.map_some, hopen, Bool.false_eq_true, if_false, hlog,
      List.drop_left]
  refine ⟨h.sound.step _, armed_step h.sound.base h.armed _, fun c hc => ?_, fun l' hl' => ?_,
    fun l' hl' _ => ?_⟩
  · refine fresh_of_unused h.sound.base (h.fresh c hc) ?_
    rw [hconn]
    rintro ⟨⟩
    exact hc hused
  all_goals
    obtain rfl := Option.some.inj (hlink.symm.trans hl')
  · exact hused
  · exact hok

/-- An event of the server that is not the client's request, nor the end of
its connection. -/
theorem SysTuned.serve {s : Sys F} (h : SysTuned s) (e : LobbyEvent F)
    (hused : ∀ c, eventConn e = some c → c ∈ s.used)
    (hlink : ∀ l, s.link = some l → l.closed = false → ∀ deed, s.lobby.commits e deed = true →
      deed ≠ .requests l.conn ∧ deed ≠ .closes l.conn) : SysTuned (s.serve e) := by
  have hfresh : ∀ c, c ∉ s.used → Fresh c (s.lobby.step e) := fun c hc =>
    fresh_of_unused h.sound.base (h.fresh c hc) fun he => hc (hused c he)
  refine ⟨h.sound.step e, armed_step h.sound.base h.armed e, hfresh, fun l' hl' => ?_,
    fun l' hl' hclosed' => ?_⟩
  all_goals
    obtain ⟨l, hl, rfl⟩ := Option.map_eq_some_iff.mp hl'
  · split <;> exact h.used l hl
  · split at hclosed'
    · next hclosed =>
        rw [hclosed] at hclosed'
        cases hclosed'
    · next hclosed =>
        have hopen : l.closed = false := by simpa using hclosed
        rw [if_neg hclosed]
        have hdeeds := hlink l hl hopen
        cases h.link l hl hopen with
        | waiting hup hmsg hrest hf hdown hstate =>
            obtain ⟨hf', es, hlog, hes⟩ := fresh_step h.sound.base hf e hdeeds
            rw [hlog, List.drop_left]
            exact .waiting hup hmsg hrest hf'
              (fun m hm => (List.mem_append.mp hm).elim (hdown m) (hes m)) hstate
        | refused hup hf hstate =>
            obtain ⟨hf', es, hlog, hes⟩ := fresh_step h.sound.base hf e hdeeds
            rw [hlog, List.drop_left]
            refine .refused hup hf' ?_
            rw [GameSession.handleAll_append, GameSession.handleAll_inert hes]
            exact hstate
        | granted hup hbound htuned =>
            obtain ⟨hbound', es, hlog, hstep⟩ := tuned_step h.sound hbound e hdeeds
            rw [hlog, List.drop_left]
            refine .granted hup hbound' ?_
            rw [GameSession.handleAll_append]
            exact hstep _ _ htuned

/-! ### Messages of the client -/

theorem SysTuned.login {s : Sys F} (h : SysTuned s) {l : Link F} (hl : s.link = some l)
    (hopen : l.closed = false) (hfresh : Fresh l.conn s.lobby)
    (hstate : s.client.state = .loggingIn) {up : List (ClientMsg F)}
    (hrest : ∀ m ∈ up, isRequest m = false) (hfiring : s.lobby.firing = [])
    (account token : String) (now : ℕ) (ks : List ℕ) :
    SysTuned (Sys.serve (.login l.conn account token now ks)
      { s with link := some { l with up := up } }) := by
  obtain ⟨hbound, es, hlog, hes⟩ := bound_onLogin hfresh account token now ks
  have hstep : s.lobby.step (.login l.conn account token now ks) =
      s.lobby.onLogin l.conn account token now ks := by
    simp only [Lobby.step, hfiring, if_true]
  refine h.answered hl hopen rfl (by rw [hstep]; exact hlog) ?_
  rw [hstep]
  refine .granted hrest hbound (.of_idle (state_ne_matching (by simp [hstate]) _) fun hp => ?_)
  exact absurd hp (not_present_onLogin l.conn account token now ks s.lobby)

theorem SysTuned.reconnect {s : Sys F} (h : SysTuned s) {l : Link F} (hl : s.link = some l)
    (hopen : l.closed = false) (hfresh : Fresh l.conn s.lobby)
    (hdown : ∀ m ∈ l.down, m.inert = true) (hstate : s.client.state = .loggingIn)
    {up : List (ClientMsg F)} (hrest : ∀ m ∈ up, isRequest m = false)
    (hfiring : s.lobby.firing = []) (pid : ℕ) (token : String) (now : ℕ) :
    SysTuned (Sys.serve (.reconnect l.conn pid token now)
      { s with link := some { l with up := up } }) := by
  have hstep : s.lobby.step (.reconnect l.conn pid token now) =
      s.lobby.onReconnect l.conn pid token now := by
    simp only [Lobby.step, hfiring, if_true]
  rcases onReconnect_cases s.lobby l.conn pid token now with
    ⟨-, heq⟩ | ⟨x, -, hx, rfl, hnone, -⟩
  · have hsent : sentTo l.conn [Entry.send l.conn (.loginResp 1 0 ""), .shutdown l.conn] =
        [(.loginResp 1 0 "" : ServerMsg F)] := by
      rw [sentTo_send]
      rfl
    have hlog : (s.lobby.step (.reconnect l.conn pid token now)).log =
        s.lobby.log ++ [.send l.conn (.loginResp 1 0 ""), .shutdown l.conn] := by
      rw [hstep, heq]
      simp [reject, emit]
    refine h.answered hl hopen rfl hlog (.refused hrest ?_ ?_)
    · rw [hstep, heq]
      exact ⟨hfresh.table, hfresh.held.sessions, hfresh.held.slots, hfresh.held.tasks⟩
    · rw [GameSession.handleAll_append, GameSession.handleAll_inert hdown, hsent]
      exact hstate
  · obtain ⟨hbound, -, es, -, hlog, -⟩ := bound_onReconnect h.sound hfresh hx hnone now
    refine h.answered hl hopen rfl (by rw [hstep]; exact hlog) ?_
    rw [hstep]
    refine .granted hrest hbound ?_
    rw [GameSession.handleAll_append]
    exact tuned_onReconnect h.sound hx hnone now hlog _ _ (state_ne_matching (by simp [hstate]) _)

omit [Scalar F] in
theorem asked_cons {msg : ClientMsg F} {up : List (ClientMsg F)} (h : Asked (msg :: up))
    (hmsg : isMatchReq msg = false) : Asked up := by
  obtain ⟨m, hm, hyes⟩ := h
  refine ⟨m, (List.mem_cons.mp hm).resolve_left ?_, hyes⟩
  rintro rfl
  rw [hmsg] at hyes
  cases hyes

/-- What the client asks for is done, unless the server ignores it. -/
theorem tuned_matchReq {s : Lobby F} (hsound : Sound s) {p : ℕ} {c : Conn} (h : Bound p c s)
    (hfiring : s.firing = []) (ks : List ℕ)
    (hrun : ∀ x cell, s.sessionOf c = some x → x.state = .kInRoom →
      s.cells.lookup x.roomId = some cell → cell.room.ended = false)
    {asked asked' : Prop} {client : GameSession} {es : List (Entry F)}
    (hlog : (s.step (.matchReq c ks)).log = s.log ++ es)
    (htuned : Tuned s.nextRoomId asked p c client s) :
    Tuned (s.step (.matchReq c ks)).nextRoomId asked' p c (client.handleAll (sentTo c es))
      (s.step (.matchReq c ks)) := by
  obtain ⟨-, es', hlog', hstep⟩ := tuned_step hsound h (.matchReq c ks)
    fun deed hd => by cases deed <;> cases hd
  obtain rfl := List.append_cancel_left (hlog'.symm.trans hlog)
  have hafter := hstep True client ⟨fun _ => .inl trivial, htuned.fights⟩
  refine ⟨fun hstate => .inr ?_, hafter.fights⟩
  rcases heard hsound.base h hfiring ks hrun with hw | hp
  · exact .inl hw
  · refine .inr ((hafter.fights hp).resolve_right fun hin => ?_)
    cases hstate.symm.trans hin

theorem SysTuned.deliver {s : Sys F} (h : SysTuned s) (now : ℕ) (rng : ℕ × ℕ) (ks : List ℕ)
    (hok : s.ignores (.deliver now rng ks) = false) : SysTuned (s.deliver now rng ks) := by
  unfold Sys.deliver
  split
  · exact h
  next l hl =>
  split
  · exact h
  next hopen =>
  have hopen : l.closed = false := by simpa using hopen
  split
  · exact h
  next msg up hup =>
  split
  case isFalse => exact h
  next hfree =>
  have hconn : eventConn (handler l.conn now rng ks msg) = some l.conn := by cases msg <;> rfl
  have hdeeds : isRequest msg = false → ∀ deed,
      s.lobby.commits (handler l.conn now rng ks msg) deed = true →
      deed ≠ .requests l.conn ∧ deed ≠ .closes l.conn := by
    intro hmsg deed hd
    cases msg with
    | loginReq | reconnectReq => cases hmsg
    | matchReq | playerInput | heartbeat | leaderboardReq => cases deed <;> cases hd
  have hothers : (∀ m ∈ l.up, isRequest m = false) →
      isRequest msg = false ∧ ∀ m ∈ up, isRequest m = false := by
    rw [hup]
    exact fun hall => ⟨hall msg (List.mem_cons_self ..), fun m hm =>
      hall m (List.mem_cons_of_mem _ hm)⟩
  cases h.link l hl hopen with
  | @waiting msg' up' hup' hmsg hrest hfresh hdown hstate =>
      obtain ⟨rfl, rfl⟩ := List.cons.inj (hup.symm.trans hup')
      have hfiring : s.lobby.firing = [] := by
        cases msg with
        | loginReq | reconnectReq => simpa [isLeaderboardReq] using hfree
        | _ => cases hmsg
      cases msg with
      | loginReq account =>
          exact h.login hl hopen hfresh hstate hrest hfiring account (genToken rng) now ks
      | reconnectReq pid token =>
          exact h.reconnect hl hopen hfresh hdown hstate hrest hfiring pid token now
      | matchReq | playerInput | heartbeat | leaderboardReq => cases hmsg
  | refused hall hfresh hstate =>
      obtain ⟨hmsg, hrest⟩ := hothers hall
      obtain ⟨hfresh', es, hlog, hes⟩ := fresh_step h.sound.base hfresh _ (hdeeds hmsg)
      refine h.answered hl hopen hconn hlog (.refused hrest hfresh' ?_)
      rw [GameSession.handleAll_append, GameSession.handleAll_inert hes]
      exact hstate
  | @granted p hall hbound htuned =>
      obtain ⟨hmsg, hrest⟩ := hothers hall
      obtain ⟨hbound', es, hlog, hstep⟩ := tuned_step h.sound hbound _ (hdeeds hmsg)
      refine h.answered hl hopen hconn hlog (.granted hrest hbound' ?_)
      rw [GameSession.handleAll_append]
      cases hmatch : isMatchReq msg with
      | false =>
          rw [hup] at htuned
          exact hstep _ _ (htuned.act (fun hasked => asked_cons hasked hmatch) (.inl rfl))
      | true =>
          cases msg with
          | matchReq playerId =>
              have hfiring : s.lobby.firing = [] := by simpa [isLeaderboardReq] using hfree
              refine tuned_matchReq h.sound hbound hfiring ks (fun x cell hx hstate hcell => ?_) hlog
                htuned
              by_contra hdone
              simp [Sys.ignores, hl, hopen, hfiring, hup, isMatchReq, hx, hstate, hcell,
                hdone] at hok
          | loginReq | reconnectReq | playerInput | heartbeat | leaderboardReq => cases hmatch

/-! ### The other steps -/

omit [Scalar F] in
theorem SysTuned.connected {s : Sys F} (h : SysTuned s) (conn : Conn) (account : String) :
    SysTuned (s.connected conn account) := by
  unfold Sys.connected
  split
  · next hcond =>
      simp only [Bool.and_eq_true, decide_eq_true_eq] at hcond
      obtain ⟨-, hnew⟩ := hcond
      have hrequest : isRequest (s.client.request account : ClientMsg F) = true := by
        unfold GameSession.request
        split <;> rfl
      refine ⟨h.sound, h.armed, fun c hc => h.fresh c fun hmem => hc (List.mem_cons_of_mem _ hmem),
        fun l hl => ?_, fun l hl _ => ?_⟩
      all_goals
        obtain rfl := Option.some.inj hl
      · exact List.mem_cons_self ..
      · exact .waiting rfl hrequest (by simp) (h.fresh conn hnew) (by simp) rfl
  · exact h

omit [Scalar F] in
theorem SysTuned.receive {s : Sys F} (h : SysTuned s) : SysTuned s.receive := by
  unfold Sys.receive
  split
  · exact h
  next l hl =>
  split
  · exact h
  next msg down hdown =>
  refine ⟨h.sound, h.armed, h.fresh, fun l' hl' => ?_, fun l' hl' hopen => ?_⟩
  all_goals
    obtain rfl := Option.some.inj hl'
  · exact h.used l hl
  · cases h.link l hl hopen with
    | waiting hup hmsg hrest hfresh hinert hstate =>
        rw [hdown] at hinert
        rw [GameSession.handleMessage_inert (hinert msg (List.mem_cons_self ..))]
        exact .waiting hup hmsg hrest hfresh
          (fun m hm => hinert m (List.mem_cons_of_mem _ hm)) hstate
    | refused hup hfresh hstate =>
        rw [hdown] at hstate
        exact .refused hup hfresh hstate
    | granted hup hbound htuned =>
        rw [hdown] at htuned
        exact .granted hup hbound htuned

theorem SysTuned.close {s : Sys F} (h : SysTuned s) : SysTuned s.close := by
  unfold Sys.close
  split
  · exact h
  next l hl =>
  split
  · exact h
  have hclosed : SysTuned { s with link := some { l with closed := true } } := by
    refine ⟨h.sound, h.armed, h.fresh, fun l' hl' => ?_, fun l' hl' hopen => ?_⟩
    all_goals
      obtain rfl := Option.some.inj hl'
    · exact h.used l hl
    · cases hopen
  refine hclosed.serve _ (fun c hc => ?_) fun l' hl' hopen => ?_
  · obtain rfl := Option.some.inj hc
    exact h.used l hl
  · obtain rfl := Option.some.inj hl'
    cases hopen

theorem SysTuned.server {s : Sys F} (h : SysTuned s) (e : LobbyEvent F) :
    SysTuned (s.step (.server e)) := by
  simp only [Sys.step]
  split
  · next hnone =>
      refine h.serve e (fun c hc => ?_) fun l _ _ => not_commits_of_ne (by rw [hnone]; simp)
      rw [hnone] at hc
      cases hc
  next conn hsome =>
  split
  · exact h
  next hother =>
  have hused : SysTuned { s with used := conn :: s.used } :=
    ⟨h.sound, h.armed, fun c hc => h.fresh c fun hmem => hc (List.mem_cons_of_mem _ hmem),
      fun l hl => List.mem_cons_of_mem _ (h.used l hl), h.link⟩
  refine hused.serve e (fun c hc => ?_) fun l hl _ => not_commits_of_ne fun heq => ?_
  · obtain rfl := Option.some.inj (hsome.symm.trans hc)
    exact List.mem_cons_self ..
  · obtain rfl := Option.some.inj (hsome.symm.trans heq)
    have hl : s.link = some l := hl
    simp [hl] at hother

theorem SysTuned.step {s : Sys F} (h : SysTuned s) (e : SysEvent F) (hok : s.ignores e = false) :
    SysTuned (s.step e) := by
  cases e with
  | connecting =>
      simp only [Sys.step]
      split
      · next hnone =>
          have hnone : s.link = none := by simpa using hnone
          exact ⟨h.sound, h.armed, h.fresh, by simp [hnone], by simp [hnone]⟩
      · exact h
  | connected conn account => exact h.connected conn account
  | disconnected => exact ⟨h.sound, h.armed, h.fresh, by simp [Sys.step], by simp [Sys.step]⟩
  | backToLobby =>
      refine h.act ?_ ?_ (by simp)
      · unfold GameSession.backToLobby
        split <;> rfl
      · unfold GameSession.backToLobby
        split
        · next hended => exact .inr ⟨.inr hended, by simp⟩
        · exact .inl rfl
  | requestMatch =>
      show SysTuned (s.act s.client.requestMatch)
      unfold GameSession.requestMatch
      split
      · exact h.act rfl (.inl rfl) (by simp)
      · next hfree =>
          have hidle : s.client.state = .lobby ∨ s.client.state = .battleEnded := by
            by_contra hne
            exact hfree (not_or.mp hne)
          exact h.act rfl (.inr ⟨hidle, fun _ => ⟨_, List.mem_cons_self .., rfl⟩⟩)
            (by simp [isRequest])
  | requestLeaderboard topN =>
      show SysTuned (s.act (s.client.requestLeaderboard topN))
      unfold GameSession.requestLeaderboard
      split
      · exact h.act rfl (.inl rfl) (by simp)
      · exact h.act rfl (.inl rfl) (by simp [isRequest])
  | sendInput moveX moveY attack =>
      show SysTuned (s.act (s.client.sendInput moveX moveY attack))
      unfold GameSession.sendInput
      split
      · exact h.act rfl (.inl rfl) (by simp)
      · exact h.act rfl (.inl rfl) (by simp [isRequest])
  | tick nowMs =>
      show SysTuned (s.act (s.client.tick nowMs))
      unfold GameSession.tick
      split
      · exact h.act rfl (.inl rfl) (by simp)
      · split
        · exact h.act rfl (.inl rfl) (by simp)
        · exact h.act rfl (.inl rfl) (by simp [isRequest])
  | receive => exact h.receive
  | deliver now rng ks => exact h.deliver now rng ks hok
  | close => exact h.close
  | server e => exact h.server e

omit [Scalar F] in
/-- With nothing in flight, what the client believes is what the server knows. -/
theorem SysTuned.knows {s : Sys F} (h : SysTuned s) : s.Knows := by
  intro l hsettled hmatching
  have hafter : s.client.handleAll l.down = s.client := by
    rw [hsettled.down]
    rfl
  cases h.link l hsettled.link hsettled.opened with
  | waiting hup =>
      rw [hsettled.up] at hup
      cases hup
  | refused _ _ hstate =>
      rw [hafter, hmatching] at hstate
      cases hstate
  | @granted p _ hbound htuned =>
      rw [hafter, hsettled.up] at htuned
      have hbase := h.sound.base
      rcases htuned.waits hmatching with ⟨msg, hmem, -⟩ | ⟨x, hx, hstate⟩ | howed
      · cases hmem
      · have hqueue := (hbase.tables.session hx).queue.mp hstate
        exact ⟨p, x, hbound.table, hx, hstate, hqueue, h.armed.queued p hqueue⟩
      · obtain ⟨r, cell, hcell, ⟨hmem, -⟩ | ⟨hmem, -⟩⟩ := howed.coming hbase
        all_goals
          rw [hsettled.mailboxes r cell hcell] at hmem
          cases hmem

/-- As long as no request comes in between the end of a battle and the moment
when the lobby is told of it, a client that waits is known to the server. -/
theorem waiting_clients_are_known (gameThreads : ℕ) (writer : Bool) (es : List (SysEvent F))
    (hok : Along Sys.step (fun s e => s.ignores e = false) (Sys.init gameThreads writer) es) :
    Visits Sys.step Sys.Knows (Sys.init gameThreads writer) es :=
  visits_of_along (I := SysTuned) (fun _ h => h.knows) (fun _ e h he => h.step e he)
    (sysTuned_init gameThreads writer) hok

/-- A client wins its battle and asks for the next one when the lobby has been
told of the end. -/
theorem waiting_clients_are_known_after_battle :
    let es : List (SysEvent (Ext ℚ)) :=
      [.connecting, .connected 1 "alice", .deliver 0 (1, 2) [], .receive, .requestMatch,
        .deliver 0 (0, 0) [], .server (.login 2 "bob" "u" 0 []), .server (.matchReq 2 []),
        .server (.roomTask 1), .server (.input 2 ⟨1, .fin 0, .fin 0, true⟩),
        .server (.roomTask 1)] ++
      List.replicate 43 (.server (.roomTick 1 [])) ++ List.replicate 46 .receive ++
      [.server .roomEnd, .requestMatch, .deliver 0 (0, 0) [], .server (.roomTask 1)]
    let s := Sys.run 2 false es
    (∃ l, s.Settled l) ∧ s.client.state = .matching ∧
      Visits Sys.step Sys.Knows (Sys.init 2 false) es := by
  intro es s
  have hrun : Along Sys.step (fun s e => s.ignores e = false) (Sys.init 2 false) es ∧
      s.isSettled = true ∧ s.client.state = .matching := by
    decide +kernel
  exact ⟨Sys.settled_of_isSettled hrun.2.1, hrun.2.2, waiting_clients_are_known 2 false es hrun.1⟩

/-- The same, but the request comes before `onRoomEnd`. -/
theorem request_after_battle_is_lost :
    let es : List (SysEvent (Ext ℚ)) :=
      [.connecting, .connected 1 "alice", .deliver 0 (1, 2) [], .receive, .requestMatch,
        .deliver 0 (0, 0) [], .server (.login 2 "bob" "u" 0 []), .server (.matchReq 2 []),
        .server (.roomTask 1), .server (.input 2 ⟨1, .fin 0, .fin 0, true⟩),
        .server (.roomTask 1)] ++
      List.replicate 43 (.server (.roomTick 1 [])) ++ List.replicate 46 .receive ++
      [.requestMatch, .deliver 0 (0, 0) [], .server .roomEnd, .server (.roomTask 1)]
    let s := Sys.run 2 false es
    (∃ l, s.Settled l) ∧ s.client.state = .matching ∧
      (∃ x, s.lobby.sessionOf 1 = some x ∧ x.state = .kLobby) ∧ ¬s.Knows := by
  intro es s
  have hrun : s.isSettled = true ∧ s.client.state = .matching ∧
      (s.lobby.sessionOf 1).map Session.state = some .kLobby ∧ s.link.map Link.conn = some 1 := by
    decide +kernel
  clear_value s
  obtain ⟨hsettled, hmatching, hsession, hlink⟩ := hrun
  obtain ⟨l, hl⟩ := Sys.settled_of_isSettled hsettled
  obtain ⟨x, hx, hstate⟩ := Option.map_eq_some_iff.mp hsession
  refine ⟨⟨l, hl⟩, hmatching, ⟨x, hx, hstate⟩, fun hknows => ?_⟩
  obtain ⟨p, y, hconn, hy, hwaits, -⟩ := hknows l hl hmatching
  rw [hl.link, Option.map_some, Option.some_inj] at hlink
  rw [hlink] at hconn
  have hsame : s.lobby.sessionOf 1 = some y := by simp [Lobby.sessionOf, hconn, hy]
  obtain rfl := Option.some.inj (hx.symm.trans hsame)
  rw [hstate] at hwaits
  cases hwaits

end GameServer.Client
