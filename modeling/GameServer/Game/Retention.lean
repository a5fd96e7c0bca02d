import GameServer.Game.LobbyStep
import GameServer.Timer.Pending

/-!
How long a session is kept.

`onDisconnect` takes the connection out of a session and starts the timer
that will erase it; `onReconnect` cancels that timer and binds the session
again. Everything else the lobby does, rooms and match timers included,
leaves both the sessions' connections and the expiry timers alone (`Calm`).
So an event makes one of five turns, as far as the stay of a player is
concerned, and the relation between sessions and timers is shown once for
each turn.

The match timers live in the same wheel. All that is needed of them is that
the ids the lobby remembers for them are not those of expiry timers.
-/

namespace GameServer.Game

open GameServer.Lib GameServer.Proto GameServer.Timer
open Lobby

variable {F : Type}

/-! ### What decides about a session -/

/-- The connection of a player's session and the id of its expiry timer. -/
def Lobby.tenure (s : Lobby F) (p : ℕ) : Option (Option Conn × ℕ) :=
  (s.sessions.lookup p).map fun x => (x.conn, x.expireTimerId)

/-- Timer `id` is pending and will expire the session of `p` at `tick`. -/
def Lobby.Expiry (s : Lobby F) (p id tick : ℕ) : Prop :=
  ∃ node, s.wheel.pending id = some node ∧ node.cb = .expireSession p ∧ node.expiryTick = tick

/-- The wheel is in order, and the ids kept for match timers are none of
expiry timers. -/
structure Wheeled (s : Lobby F) : Prop where
  ready : TimerWheel.Ready s.wheel s.firing
  next : s.wheel.nextId ≠ 0
  matching : ∀ p id, s.matchTimer.lookup p = some id →
    id < s.wheel.nextId ∧ ∀ q t, ¬s.Expiry q id t

theorem Lobby.Expiry.lt {s : Lobby F} (h : Wheeled s) {p id t : ℕ} (he : s.Expiry p id t) :
    id < s.wheel.nextId := by
  obtain ⟨node, hnode, -⟩ := he
  exact h.ready.rep.pending_lt hnode

/-- One id does not belong to two timers. -/
theorem Lobby.Expiry.inj {s : Lobby F} {p q id t t' : ℕ} (h : s.Expiry p id t)
    (h' : s.Expiry q id t') : p = q ∧ t = t' := by
  obtain ⟨node, hnode, hcb, rfl⟩ := h
  obtain ⟨node', hnode', hcb', rfl⟩ := h'
  obtain rfl := Option.some.inj (hnode.symm.trans hnode')
  exact ⟨TimerCb.expireSession.inj (hcb.symm.trans hcb'), rfl⟩

/-! ### Steps that no session notices -/

/-- From `s` to `s'` no session has gained or lost a connection or an expiry
timer, and no time has passed. -/
structure Calm (s s' : Lobby F) : Prop where
  wheeled : Wheeled s'
  now : s'.wheel.nowTick = s.wheel.nowTick
  tenure : ∀ p, s'.tenure p = s.tenure p
  expiry : ∀ p id t, s'.Expiry p id t ↔ s.Expiry p id t

theorem Calm.refl {s : Lobby F} (h : Wheeled s) : Calm s s :=
  ⟨h, rfl, fun _ => rfl, fun _ _ _ => Iff.rfl⟩

theorem Calm.trans {s s' s'' : Lobby F} (h : Calm s s') (h' : Calm s' s'') : Calm s s'' where
  wheeled := h'.wheeled
  now := h'.now.trans h.now
  tenure p := (h'.tenure p).trans (h.tenure p)
  expiry p id t := (h'.expiry p id t).trans (h.expiry p id t)

/-- The rule for steps that leave the wheel alone. -/
theorem calm_of_wheel {s s' : Lobby F} (h : Wheeled s) (hwheel : s'.wheel = s.wheel)
    (hfiring : s'.firing = s.firing)
    (hmatch : ∀ p id, s'.matchTimer.lookup p = some id → s.matchTimer.lookup p = some id)
    (htenure : ∀ p, s'.tenure p = s.tenure p) : Calm s s' := by
  have hexpiry : ∀ p id t, s'.Expiry p id t ↔ s.Expiry p id t := by
    intro p id t
    simp only [Lobby.Expiry, hwheel]
  refine ⟨⟨?_, ?_, fun p id hid => ?_⟩, by rw [hwheel], htenure, hexpiry⟩
  · rw [hwheel, hfiring]
    exact h.ready
  · rw [hwheel]
    exact h.next
  · obtain ⟨hlt, hnone⟩ := h.matching p id (hmatch p id hid)
    rw [hwheel]
    exact ⟨hlt, fun q t he => hnone q t ((hexpiry q id t).mp he)⟩

theorem tenure_modify {s s' : Lobby F} (p : ℕ) (f : Session → Session)
    (hsessions : s'.sessions = s.sessions.modify p f)
    (hf : ∀ x, ((f x).conn, (f x).expireTimerId) = (x.conn, x.expireTimerId)) (p' : ℕ) :
    s'.tenure p' = s.tenure p' := by
  rw [tenure, tenure, hsessions, UnorderedMap.lookup_modify]
  split
  · rw [Option.map_map]
    congr 1
    funext x
    exact hf x
  · rfl

theorem calm_emit {s : Lobby F} (h : Wheeled s) (e : Entry F) : Calm s (s.emit e) :=
  calm_of_wheel h rfl rfl (fun _ _ hid => hid) fun _ => rfl

theorem calm_enqueue {s : Lobby F} (h : Wheeled s) (task : StoreTask) :
    Calm s (s.enqueue task) := by
  unfold enqueue
  split
  · exact calm_of_wheel h rfl rfl (fun _ _ hid => hid) fun _ => rfl
  · exact .refl h

theorem calm_mail {s : Lobby F} (h : Wheeled s) (r : ℕ) (task : RoomTask F) :
    Calm s (s.mail r task) :=
  calm_of_wheel h rfl rfl (fun _ _ hid => hid) fun _ => rfl

theorem calm_onRoomEnd {s : Lobby F} (h : Wheeled s) (r w : ℕ) : Calm s (s.onRoomEnd r w) := by
  have hrest : (s.onRoomEnd r w).wheel = s.wheel ∧ (s.onRoomEnd r w).firing = s.firing ∧
      (s.onRoomEnd r w).matchTimer = s.matchTimer := by
    simp only [onRoomEnd]
    split
    · simp only [enqueue]
      split <;> exact ⟨rfl, rfl, rfl⟩
    · exact ⟨rfl, rfl, rfl⟩
  obtain ⟨hwheel, hfiring, htimer⟩ := hrest
  refine calm_of_wheel h hwheel hfiring (fun p id hid => htimer ▸ hid) fun p => ?_
  rw [tenure, tenure, lookup_onRoomEnd, Option.map_map]
  congr 1
  funext x
  unfold Function.comp Session.leave
  split <;> rfl

theorem calm_perform {s : Lobby F} (h : Wheeled s) (r : ℕ) (act : RoomAct F) :
    Calm s (perform r s act) := by
  have hemit := calm_emit h (.room r act)
  cases act with
  | broadcast | send => exact hemit
  | queueTickerReset => exact hemit.trans (calm_mail hemit.wheeled r .resetTicker)
  | onEnd rid winner =>
      simp only [perform]
      split
      · exact hemit.trans (calm_onRoomEnd hemit.wheeled rid winner)
      · exact hemit.trans (calm_of_wheel hemit.wheeled rfl rfl (fun _ _ hid => hid) fun _ => rfl)

/-- Whatever a room does, it does nothing to a session's stay. -/
theorem calm_runRoom {s : Lobby F} (h : Wheeled s) (r : ℕ)
    (f : Room F → Room F × List (RoomAct F)) : Calm s (s.runRoom r f) := by
  unfold runRoom
  split
  · exact .refl h
  · next cell _ =>
      have hroom : Calm s (s.modifyCell r fun cell => { cell with room := (f cell.room).1 }) :=
        calm_of_wheel h rfl rfl (fun _ _ hid => hid) fun _ => rfl
      exact invariant_run_of_step (I := Calm s)
        (fun s' act h' => h'.trans (calm_perform h'.wheeled r act)) hroom _

/-! ### Timers that come and go -/

theorem expiry_add {s s' : Lobby F} (h : Wheeled s) {delayMs : ℕ} {cb : TimerCb}
    (hwheel : s'.wheel = (s.wheel.add delayMs cb).1) (p id t : ℕ) :
    s'.Expiry p id t ↔ s.Expiry p id t ∨ (id = s.wheel.nextId ∧ cb = .expireSession p ∧
      t = TimerWheel.expiryOf s.wheel.nowTick delayMs) := by
  simp only [Lobby.Expiry, hwheel, h.ready.rep.pending_add]
  constructor
  · rintro ⟨node, hnode, hcb, rfl⟩
    split at hnode
    · next hid =>
        obtain rfl := Option.some.inj hnode
        exact .inr ⟨hid, hcb, rfl⟩
    · exact .inl ⟨node, hnode, hcb, rfl⟩
  · rintro (⟨node, hnode, hcb, ht⟩ | ⟨rfl, hcb, rfl⟩)
    · have hlt := h.ready.rep.pending_lt hnode
      rw [if_neg (Nat.ne_of_lt hlt)]
      exact ⟨node, hnode, hcb, ht⟩
    · rw [if_pos rfl]
      exact ⟨_, rfl, hcb, rfl⟩

theorem wheeled_add {s s' : Lobby F} (h : Wheeled s) {delayMs : ℕ} {cb : TimerCb}
    (hwheel : s'.wheel = (s.wheel.add delayMs cb).1) (hfiring : s'.firing = s.firing)
    (hmatch : ∀ p id, s'.matchTimer.lookup p = some id →
      s.matchTimer.lookup p = some id ∨ (id = s.wheel.nextId ∧ ∀ q, cb ≠ .expireSession q)) :
    Wheeled s' := by
  refine ⟨?_, ?_, fun p id hid => ?_⟩
  · rw [hwheel, hfiring]
    exact h.ready.add delayMs cb
  · rw [hwheel, TimerWheel.add_nextId]
    omega
  · rw [hwheel, TimerWheel.add_nextId]
    rcases hmatch p id hid with hold | ⟨rfl, hcb⟩
    · obtain ⟨hlt, hnone⟩ := h.matching p id hold
      refine ⟨by omega, fun q t he => ?_⟩
      rcases (expiry_add h hwheel q id t).mp he with he | ⟨rfl, -⟩
      · exact hnone q t he
      · omega
    · refine ⟨by omega, fun q t he => ?_⟩
      rcases (expiry_add h hwheel q _ t).mp he with he | ⟨-, hcb', -⟩
      · exact absurd (he.lt h) (Nat.lt_irrefl _)
      · exact hcb q hcb'

/-- A timer other than an expiry timer has been added. -/
theorem calm_add {s s' : Lobby F} (h : Wheeled s) {delayMs : ℕ} {cb : TimerCb}
    (hcb : ∀ p, cb ≠ .expireSession p) (hwheel : s'.wheel = (s.wheel.add delayMs cb).1)
    (hfiring : s'.firing = s.firing)
    (hmatch : ∀ p id, s'.matchTimer.lookup p = some id →
      s.matchTimer.lookup p = some id ∨ id = s.wheel.nextId)
    (htenure : ∀ p, s'.tenure p = s.tenure p) : Calm s s' := by
  refine ⟨wheeled_add h hwheel hfiring fun p id hid => ?_, by rw [hwheel, TimerWheel.add_nowTick],
    htenure, fun p id t => ?_⟩
  · exact (hmatch p id hid).imp_right fun heq => ⟨heq, hcb⟩
  · rw [expiry_add h hwheel]
    exact or_iff_left fun hnew => hcb p hnew.2.1

theorem expiry_discard {s s' : Lobby F} {gone : ℕ}
    (hpending : ∀ id, s'.wheel.pending id = if id = gone then none else s.wheel.pending id)
    (p id t : ℕ) : s'.Expiry p id t ↔ s.Expiry p id t ∧ id ≠ gone := by
  simp only [Lobby.Expiry, hpending]
  by_cases hid : id = gone
  · simp [hid]
  · simp [hid]

theorem wheeled_discard {s s' : Lobby F} (h : Wheeled s) {gone : ℕ}
    (hready : TimerWheel.Ready s'.wheel s'.firing) (hnext : s'.wheel.nextId = s.wheel.nextId)
    (hpending : ∀ id, s'.wheel.pending id = if id = gone then none else s.wheel.pending id)
    (hmatch : ∀ p id, s'.matchTimer.lookup p = some id → s.matchTimer.lookup p = some id) :
    Wheeled s' := by
  refine ⟨hready, hnext ▸ h.next, fun p id hid => ?_⟩
  obtain ⟨hlt, hnone⟩ := h.matching p id (hmatch p id hid)
  exact ⟨hnext ▸ hlt, fun q t he => hnone q t ((expiry_discard hpending q id t).mp he).1⟩

/-- A timer other than an expiry timer is gone. -/
theorem calm_discard {s s' : Lobby F} (h : Wheeled s) {gone : ℕ}
    (hgone : ∀ p t, ¬s.Expiry p gone t)
    (hready : TimerWheel.Ready s'.wheel s'.firing) (hnow : s'.wheel.nowTick = s.wheel.nowTick)
    (hnext : s'.wheel.nextId = s.wheel.nextId)
    (hpending : ∀ id, s'.wheel.pending id = if id = gone then none else s.wheel.pending id)
    (hmatch : ∀ p id, s'.matchTimer.lookup p = some id → s.matchTimer.lookup p = some id)
    (htenure : ∀ p, s'.tenure p = s.tenure p) : Calm s s' := by
  refine ⟨wheeled_discard h hready hnext hpending hmatch, hnow, htenure, fun p id t => ?_⟩
  rw [expiry_discard hpending]
  refine and_iff_left_of_imp fun he heq => ?_
  exact hgone p t (heq ▸ he)

theorem calm_cancelMatchTimer {s : Lobby F} (h : Wheeled s) (p : ℕ) :
    Calm s (s.cancelMatchTimer p) := by
  unfold cancelMatchTimer
  split
  · exact .refl h
  · next id hid =>
      refine calm_discard h (h.matching p id hid).2 (h.ready.cancel id)
        (TimerWheel.cancel_nowTick id _) (TimerWheel.cancel_nextId id _)
        (h.ready.rep.pending_cancel id) (fun p' id' hid' => ?_) fun _ => rfl
      rw [UnorderedMap.lookup_erase_eq] at hid'
      split at hid'
      · cases hid'
      · exact hid'

/-! ### Handlers and callbacks -/

theorem calm_joinQueue {s : Lobby F} (h : Wheeled s) (p : ℕ) : Calm s (s.joinQueue p) := by
  refine calm_add h (by simp) rfl rfl (fun p' id hid => ?_)
    (tenure_modify p (fun x => { x with state := .kMatching }) rfl fun _ => rfl)
  have hid := (UnorderedMap.lookup_insert_eq _ _ _ _).symm.trans hid
  split at hid
  · exact .inr (Option.some.inj hid).symm
  · exact .inl hid

theorem calm_onHeartbeat {s : Lobby F} (h : Wheeled s) (conn : Conn) (clientMs : ℤ) (now : ℕ) :
    Calm s (s.onHeartbeat conn clientMs now) := by
  unfold onHeartbeat
  dsimp only
  split
  · exact calm_emit h _
  · next p _ =>
      have hbeat : Calm s { s with sessions := s.sessions.modify p.playerId fun p =>
          { p with lastHeartbeatMs := now } } :=
        calm_of_wheel h rfl rfl (fun _ _ hid => hid)
          (tenure_modify p.playerId (fun p => { p with lastHeartbeatMs := now }) rfl fun _ => rfl)
      exact hbeat.trans (calm_emit hbeat.wheeled _)

theorem calm_reject {s : Lobby F} (h : Wheeled s) (conn : Conn) : Calm s (s.reject conn) := by
  have hsend := calm_emit h (.send conn (.loginResp 1 0 ""))
  exact hsend.trans (calm_emit hsend.wheeled _)

theorem calm_matchTimeout {s : Lobby F} (h : Wheeled s) (p : ℕ) : Calm s (s.matchTimeout p) := by
  have hforget : Calm s { s with matchTimer := s.matchTimer.erase p } := by
    refine calm_of_wheel h rfl rfl (fun p' id hid => ?_) fun _ => rfl
    dsimp only at hid
    rw [UnorderedMap.lookup_erase_eq] at hid
    split at hid
    · cases hid
    · exact hid
  have hleave : ∀ {s' : Lobby F}, Wheeled s' → Calm s' (s'.leaveQueue p) := fun h' =>
    calm_of_wheel h' rfl rfl (fun _ _ hid => hid)
      (tenure_modify p (fun x => { x with state := .kLobby }) rfl fun _ => rfl)
  unfold Lobby.matchTimeout
  dsimp only
  split
  · split
    · exact hforget.trans (hleave hforget.wheeled)
    · have hleft := hforget.trans (hleave hforget.wheeled)
      exact hleft.trans (calm_emit hleft.wheeled _)
  · exact hforget

theorem calm_sweep {s : Lobby F} (h : Wheeled s) (now : ℕ) :
    Calm s (s.sweepHeartbeats now).scheduleSweep := by
  have hsweep : Calm s (s.sweepHeartbeats now) :=
    calm_of_wheel h rfl rfl (fun _ _ hid => hid) fun _ => rfl
  exact hsweep.trans
    (calm_add hsweep.wheeled (by simp) rfl rfl (fun _ _ hid => .inl hid) fun _ => rfl)

theorem calm_storeTask {s : Lobby F} (h : Wheeled s) (top : List (String × F)) :
    Calm s (s.storeTask top) := by
  unfold storeTask
  split
  · exact .refl h
  · next task rest _ =>
      have hdone : Calm s (({ s with store := rest } : Lobby F).emit (.executed task)) :=
        calm_of_wheel h rfl rfl (fun _ _ hid => hid) fun _ => rfl
      cases task with
      | leaderboard conn n => exact hdone.trans (calm_emit hdone.wheeled _)
      | setOnline | delOnline | settle => exact hdone

/-! ### Turns -/

/-- Sessions and expiry timers belong together: a session has a timer while
it has no connection, and knows its id. -/
structure Keeps (s : Lobby F) : Prop where
  wheeled : Wheeled s
  bound : ∀ {p c id}, s.tenure p = some (some c, id) → id = 0
  away : ∀ {p id}, s.tenure p = some (none, id) → id ≠ 0 ∧ ∃ t, s.Expiry p id t
  only : ∀ {p id t}, s.Expiry p id t → s.tenure p = some (none, id)

/-- What an event can do to the stays of the players. -/
inductive Turn (s : Lobby F) : LobbyEvent F → Lobby F → Prop where
  | calm {e : LobbyEvent F} {s' : Lobby F} (h : Calm s s') : Turn s e s'
  | tick {s' : Lobby F} (hfiring : s.firing = []) (hwheeled : Wheeled s')
      (hnow : s'.wheel.nowTick = s.wheel.nowTick + 1) (htenure : ∀ q, s'.tenure q = s.tenure q)
      (hexpiry : ∀ q j t, s'.Expiry q j t ↔ s.Expiry q j t) : Turn s .wheelTick s'
  | login {e : LobbyEvent F} {s' : Lobby F} {p : ℕ} {c : Conn} (hwheeled : Wheeled s')
      (hnow : s'.wheel.nowTick = s.wheel.nowTick) (habsent : s.tenure p = none)
      (htenure : ∀ q, s'.tenure q = if q = p then some (some c, 0) else s.tenure q)
      (hexpiry : ∀ q j t, s'.Expiry q j t ↔ s.Expiry q j t) : Turn s e s'
  | rebind {e : LobbyEvent F} {s' : Lobby F} {p id : ℕ} {c : Conn} (hwheeled : Wheeled s')
      (hnow : s'.wheel.nowTick = s.wheel.nowTick) (haway : s.tenure p = some (none, id))
      (htenure : ∀ q, s'.tenure q = if q = p then some (some c, 0) else s.tenure q)
      (hexpiry : ∀ q j t, s'.Expiry q j t ↔ s.Expiry q j t ∧ j ≠ id) : Turn s e s'
  | drop {s' : Lobby F} {p id : ℕ} {c : Conn} (hfiring : s.firing = []) (hwheeled : Wheeled s')
      (hnow : s'.wheel.nowTick = s.wheel.nowTick) (hconn : s.connToPlayer.lookup c = some p)
      (hbound : s.tenure p = some (some c, 0)) (hid : id ≠ 0)
      (htenure : ∀ q, s'.tenure q = if q = p then some (none, id) else s.tenure q)
      (hexpiry : ∀ q j t, s'.Expiry q j t ↔ s.Expiry q j t ∨
        (j = id ∧ q = p ∧ t = s.wheel.nowTick + kSessionKeepMs / Timer.kTickMs)) :
      Turn s (.disconnect c) s'
  | expire {now : ℕ} {s' : Lobby F} {p n : ℕ} (hwheeled : Wheeled s')
      (hnow : s'.wheel.nowTick = s.wheel.nowTick)
      (hnext : s.nextCallback = some (.expireSession p))
      (hdue : s.Expiry p n s.wheel.nowTick) (haway : s.tenure p = some (none, n))
      (htenure : ∀ q, s'.tenure q = if q = p then none else s.tenure q)
      (hexpiry : ∀ q j t, s'.Expiry q j t ↔ s.Expiry q j t ∧ j ≠ n) : Turn s (.fireNext now) s'

/-- What follows in the same event without touching a session's stay. -/
theorem Turn.then {s s' s'' : Lobby F} {e : LobbyEvent F} (h : Turn s e s') (h' : Calm s' s'') :
    Turn s e s'' := by
  cases h with
  | calm h => exact .calm (h.trans h')
  | tick hfiring _ hnow htenure hexpiry =>
      exact .tick hfiring h'.wheeled (h'.now.trans hnow)
        (fun q => (h'.tenure q).trans (htenure q))
        fun q j t => (h'.expiry q j t).trans (hexpiry q j t)
  | login _ hnow habsent htenure hexpiry =>
      exact .login h'.wheeled (h'.now.trans hnow) habsent
        (fun q => (h'.tenure q).trans (htenure q))
        fun q j t => (h'.expiry q j t).trans (hexpiry q j t)
  | rebind _ hnow haway htenure hexpiry =>
      exact .rebind h'.wheeled (h'.now.trans hnow) haway
        (fun q => (h'.tenure q).trans (htenure q))
        fun q j t => (h'.expiry q j t).trans (hexpiry q j t)
  | drop hfiring _ hnow hconn hbound hid htenure hexpiry =>
      exact .drop hfiring h'.wheeled (h'.now.trans hnow) hconn hbound hid
        (fun q => (h'.tenure q).trans (htenure q))
        fun q j t => (h'.expiry q j t).trans (hexpiry q j t)
  | expire _ hnow hnext hdue haway htenure hexpiry =>
      exact .expire h'.wheeled (h'.now.trans hnow) hnext hdue haway
        (fun q => (h'.tenure q).trans (htenure q))
        fun q j t => (h'.expiry q j t).trans (hexpiry q j t)

theorem Turn.wheeled {s s' : Lobby F} {e : LobbyEvent F} (h : Turn s e s') : Wheeled s' := by
  cases h with
  | calm h => exact h.wheeled
  | _ => assumption

theorem tenure_eq {s : Lobby F} {p : ℕ} {x : Session} (h : s.sessions.lookup p = some x) :
    s.tenure p = some (x.conn, x.expireTimerId) := by
  rw [tenure, h]
  rfl

variable [Scalar F]

/-! ### Every event makes a turn -/

theorem calm_post {s : Lobby F} (h : Wheeled s) (r : ℕ) (task : RoomTask F) :
    Calm s (s.post r task) := by
  unfold post
  split
  · exact calm_runRoom h r _
  · exact calm_mail h r task

theorem calm_postToRoom {s : Lobby F} (h : Wheeled s) (p : Session) (task : RoomTask F) :
    Calm s (s.postToRoom p task) := by
  unfold postToRoom
  split
  · exact calm_post h _ task
  · exact .refl h

theorem calm_createRoom {s : Lobby F} (h : Wheeled s) (ks : List ℕ) (a b : ℕ) (pa pb : Session) :
    Calm s (s.createRoom ks a b pa pb) := by
  refine calm_of_wheel h rfl rfl (fun _ _ hid => hid) fun p => ?_
  let enter (p : Session) : Session := { p with state := .kInRoom, roomId := s.nextRoomId }
  exact (tenure_modify (s := { s with sessions := s.sessions.modify a enter }) b enter rfl
    (fun _ => rfl) p).trans (tenure_modify a enter rfl (fun _ => rfl) p)

theorem calm_tryMatch {s : Lobby F} (h : Wheeled s) (ks : List ℕ) : Calm s (s.tryMatch ks) := by
  unfold tryMatch
  split
  · exact .refl h
  · exact calm_of_wheel h rfl rfl (fun _ _ hid => hid) fun _ => rfl
  · next a b q _ =>
      have hpop : Calm s { s with matchQueue := q } :=
        calm_of_wheel h rfl rfl (fun _ _ hid => hid) fun _ => rfl
      dsimp only
      split
      · next pa pb _ _ =>
          have ha := hpop.trans (calm_cancelMatchTimer hpop.wheeled a)
          have hb := ha.trans (calm_cancelMatchTimer ha.wheeled b)
          have hroom := hb.trans (calm_createRoom hb.wheeled ks a b pa pb)
          exact hroom.trans (calm_post hroom.wheeled _ _)
      · exact hpop

theorem calm_onMatch {s : Lobby F} (h : Wheeled s) (ks : List ℕ) (conn : Conn) :
    Calm s (s.onMatch ks conn) := by
  unfold onMatch
  split
  · exact .refl h
  · next p _ =>
      split
      · exact .refl h
      · split
        · have hjoin := calm_joinQueue h p.playerId
          exact hjoin.trans (calm_tryMatch hjoin.wheeled ks)
        · exact .refl h

omit [Scalar F] in
theorem turn_onLogin {s : Lobby F} (hbase : Base s) (h : Keeps s) {e : LobbyEvent F} (conn : Conn)
    (account token : String) (now : ℕ) (ks : List ℕ) :
    Turn s e (s.onLogin conn account token now ks) := by
  have habsent : s.sessions.lookup s.nextPlayerId = none := by
    cases hx : s.sessions.lookup s.nextPlayerId with
    | none => rfl
    | some x => exact absurd (hbase.tables.session hx).lt (Nat.lt_irrefl _)
  have hlogin : ∀ session : Session, session.conn = some conn → session.expireTimerId = 0 →
      Turn s e (s.addSession conn session ks) := by
    intro session hconn hid
    refine .login (p := s.nextPlayerId) (c := conn) ?_ rfl (by rw [tenure, habsent]; rfl)
      (fun q => ?_) fun q j t => Iff.rfl
    · exact ⟨h.wheeled.ready, h.wheeled.next, h.wheeled.matching⟩
    · simp only [tenure, addSession, UnorderedMap.lookup_reorder, UnorderedMap.lookup_insert_eq]
      split
      · rw [Option.map_some, hconn, hid]
      · rfl
  have hturn := hlogin
    { playerId := s.nextPlayerId, token := token, account := account, conn := some conn
      lastHeartbeatMs := now } rfl rfl
  have hsend := calm_emit hturn.wheeled (.send conn (.loginResp 0 s.nextPlayerId token))
  exact (hturn.then hsend).then (calm_enqueue hsend.wheeled _)

/-- The timer that `onReconnect` cancels is the expiry timer of the session. -/
theorem turn_onReconnect {s : Lobby F} (h : Keeps s) {e : LobbyEvent F} (conn : Conn) (pid : ℕ)
    (token : String) (now : ℕ) : Turn s e (s.onReconnect conn pid token now) := by
  rcases onReconnect_cases s conn pid token now with ⟨-, heq⟩ | ⟨p, -, hp, -, hnone, heq⟩
  · rw [heq]
    exact .calm (calm_reject h.wheeled conn)
  · rw [heq]
    have haway : s.tenure pid = some (none, p.expireTimerId) := by
      rw [tenure_eq hp, hnone]
    obtain ⟨hne, -⟩ := h.away haway
    have hwheel : (s.rebindSession conn pid p now).wheel = s.wheel.cancel p.expireTimerId := by
      simp [rebindSession, hne]
    have hpending : ∀ id, (s.rebindSession conn pid p now).wheel.pending id =
        if id = p.expireTimerId then none else s.wheel.pending id := by
      rw [hwheel]
      exact h.wheeled.ready.rep.pending_cancel _
    have hturn : Turn s e (s.rebindSession conn pid p now) := by
      refine .rebind (p := pid) (c := conn) ?_ ?_ haway (fun q => ?_)
        (expiry_discard hpending)
      · refine wheeled_discard h.wheeled ?_ ?_ hpending fun _ _ hid => hid
        · rw [hwheel]
          exact h.wheeled.ready.cancel _
        · rw [hwheel, TimerWheel.cancel_nextId]
      · rw [hwheel, TimerWheel.cancel_nowTick]
      · simp only [tenure, rebindSession, UnorderedMap.lookup_modify]
        split
        · next hq =>
            subst hq
            simp [hp]
        · rfl
    have hsend := calm_emit hturn.wheeled (.send conn (.loginResp 0 p.playerId p.token))
    have hpost := calm_postToRoom hsend.wheeled p (.rebind p.playerId (some conn))
    exact ((hturn.then hsend).then hpost).then (calm_enqueue hpost.wheeled _)

omit [Scalar F] in
/-- `onDisconnect` starts the timer when it has taken the connection out. -/
theorem turn_unbind {s s₁ : Lobby F} (hfiring : s.firing = []) {conn : Conn}
    {pid : ℕ} {p : Session} (hconn : s.connToPlayer.lookup conn = some pid)
    (hbound : s.tenure pid = some (some conn, 0)) (hp : s.sessions.lookup pid = some p)
    (hleave : Calm (s.unbindSession conn pid p) s₁) :
    Turn s (.disconnect conn) (s₁.scheduleExpiry pid) := by
  obtain ⟨hwheel, hnow⟩ : (s.unbindSession conn pid p).wheel = s.wheel ∧
      s₁.wheel.nowTick = s.wheel.nowTick := by
    have hsame : (s.unbindSession conn pid p).wheel = s.wheel := by
      unfold unbindSession
      split <;> rfl
    exact ⟨hsame, by rw [hleave.now, hsame]⟩
  have hexpiry : ∀ q j t, s₁.Expiry q j t ↔ s.Expiry q j t := by
    intro q j t
    rw [hleave.expiry]
    simp only [Lobby.Expiry, hwheel]
  have htenure : ∀ q, s₁.tenure q = if q = pid then some (none, 0) else s.tenure q := by
    intro q
    rw [hleave.tenure, tenure, lookup_unbindSession]
    split
    · next hq =>
        subst hq
        rw [tenure_eq hp] at hbound
        simp only [hp, Option.map_some, Option.some.injEq, Prod.mk.injEq] at hbound ⊢
        exact ⟨trivial, hbound.2⟩
    · simp [tenure]
  refine .drop hfiring ?_ ?_ hconn hbound hleave.wheeled.next (fun q => ?_) fun q j t => ?_
  · exact wheeled_add hleave.wheeled rfl rfl fun _ _ hid => .inl hid
  · exact (TimerWheel.add_nowTick ..).trans hnow
  · simp only [tenure, scheduleExpiry, UnorderedMap.lookup_modify] at htenure ⊢
    split
    · next hq =>
        have hq' := htenure q
        rw [if_pos hq] at hq'
        obtain ⟨x, hx, hxc⟩ := Option.map_eq_some_iff.mp hq'
        simp only [hx, Option.map_some, TimerWheel.add_snd, Option.some.injEq, Prod.mk.injEq]
        exact ⟨(Prod.mk.inj hxc).1, trivial⟩
    · next hq =>
        rw [htenure, if_neg hq]
  · have hadded : (s₁.scheduleExpiry pid).wheel =
        (s₁.wheel.add kSessionKeepMs (.expireSession pid)).1 := rfl
    rw [expiry_add hleave.wheeled hadded, hexpiry, hnow, TimerWheel.expiryOf_eq (by decide),
      TimerCb.expireSession.injEq]
    simp only [eq_comm (a := pid)]
    rfl

theorem turn_onDisconnect {s : Lobby F} (hbase : Base s) (h : Keeps s) (hfiring : s.firing = [])
    (conn : Conn) : Turn s (.disconnect conn) (s.onDisconnect conn) := by
  rcases onDisconnect_cases hbase conn with heq | ⟨pid, p, hpid, hp, hconn, heq⟩
  · rw [heq]
    exact .calm (.refl h.wheeled)
  · rw [heq]
    -- the session of a known connection is bound to it, so it has no timer yet
    have hbound : s.tenure pid = some (some conn, 0) := by
      have htenure := tenure_eq hp
      rw [hconn] at htenure
      rw [htenure, h.bound htenure]
    have hleave : Calm (s.unbindSession conn pid p)
        ((s.unbindSession conn pid p).postToRoom p (.dropConn pid)) := by
      refine calm_postToRoom ?_ p _
      unfold unbindSession
      split <;> exact ⟨h.wheeled.ready, h.wheeled.next, h.wheeled.matching⟩
    have hturn := turn_unbind hfiring hpid hbound hp hleave
    exact hturn.then (calm_enqueue hturn.wheeled _)

/-- An expiry timer that fires finds the session without a connection. -/
theorem turn_fireNext {s : Lobby F} (h : Keeps s) (now : ℕ) :
    Turn s (.fireNext now) (s.fireNext now) := by
  rcases fireNext_cases s now with heq | ⟨n, rest, hfiring, htake, heq⟩ |
    ⟨n, rest, node, w, hfiring, htake, hcallback, heq⟩
  · rw [heq]
    exact .calm (.refl h.wheeled)
  · rw [heq]
    have hready := h.wheeled.ready
    rw [hfiring] at hready
    rcases hready.take with ⟨-, -, hready'⟩ | ⟨node, -, -, htake', -⟩
    · exact .calm ⟨⟨hready', h.wheeled.next, h.wheeled.matching⟩, rfl, fun _ => rfl,
        fun _ _ _ => Iff.rfl⟩
    · rw [htake] at htake'
      cases htake'
  · rw [heq]
    obtain ⟨hnode, hdue, hready, hnow, hnext, hpending⟩ :=
      (hfiring ▸ h.wheeled.ready).take_some htake
    have hwheeled : Wheeled { s with firing := rest, wheel := w } :=
      wheeled_discard h.wheeled hready hnext hpending fun _ _ hid => hid
    have hother : (∀ q, node.cb ≠ .expireSession q) →
        Calm s { s with firing := rest, wheel := w } := by
      intro hcb
      refine calm_discard h.wheeled (fun q t => ?_) hready hnow hnext hpending
        (fun _ _ hid => hid) fun _ => rfl
      rintro ⟨node', hnode', hcb', -⟩
      obtain rfl := Option.some.inj (hnode.symm.trans hnode')
      exact hcb q hcb'
    cases hcb : node.cb with
    | matchTimeout pid =>
        have htaken := hother (by simp [hcb])
        exact .calm (htaken.trans (calm_matchTimeout htaken.wheeled pid))
    | sweep =>
        have htaken := hother (by simp [hcb])
        exact .calm (htaken.trans (calm_sweep htaken.wheeled now))
    | expireSession pid =>
        have haway : s.tenure pid = some (none, n) :=
          h.only ⟨node, hnode, hcb, rfl⟩
        obtain ⟨p, hp, hpn⟩ := Option.map_eq_some_iff.mp haway
        have hnone : p.conn = none := (Prod.mk.inj hpn).1
        simp only [call, expireSession, hp, hnone, Option.isSome_none, Bool.false_eq_true,
          if_false]
        have hpost := calm_postToRoom hwheeled p
          (.forceEnd (opponent pid p.roomId { s with firing := rest, wheel := w }))
        refine .expire ⟨hpost.wheeled.ready, hpost.wheeled.next, hpost.wheeled.matching⟩
          (hpost.now.trans hnow) ?_ ⟨node, hnode, hcb, hdue⟩ haway (fun q => ?_)
          fun q j t => ?_
        · simp [nextCallback, hfiring, htake, hcb]
        · have hq := hpost.tenure q
          simp only [tenure, eraseSession, UnorderedMap.lookup_erase_eq] at hq ⊢
          split
          · rfl
          · exact hq
        · exact (hpost.expiry q j t).trans (expiry_discard hpending q j t)

theorem step_turn {s : Lobby F} (hbase : Base s) (h : Keeps s) (e : LobbyEvent F) :
    Turn s e (s.step e) := by
  have hself : Turn s e s := .calm (.refl h.wheeled)
  rcases step_cases s e with hstep | ⟨hfiring, hstep⟩
  · rw [hstep]
    exact hself
  rw [hstep]
  cases e with
  | login conn account token now ks => exact turn_onLogin hbase h conn account token now ks
  | reconnect conn pid token now => exact turn_onReconnect h conn pid token now
  | matchReq conn ks => exact .calm (calm_onMatch h.wheeled ks conn)
  | input conn input =>
      simp only [handle, onInput]
      split
      · exact hself
      · exact .calm (calm_postToRoom h.wheeled _ _)
  | heartbeat conn clientMs now => exact .calm (calm_onHeartbeat h.wheeled conn clientMs now)
  | disconnect conn => exact turn_onDisconnect hbase h (hfiring rfl) conn
  | leaderboard conn topN =>
      simp only [handle, onLeaderboard]
      split
      · exact .calm (calm_enqueue h.wheeled _)
      · exact .calm (calm_emit h.wheeled _)
  | roomEnd =>
      simp only [handle, handleRoomEnd]
      split
      · exact hself
      · next r w rest _ =>
          have htaken : Calm s { s with roomEnds := rest } :=
            calm_of_wheel h.wheeled rfl rfl (fun _ _ hid => hid) fun _ => rfl
          exact .calm (htaken.trans (calm_onRoomEnd htaken.wheeled r w))
  | wheelTick =>
      have hready := h.wheeled.ready
      rw [hfiring rfl] at hready
      obtain ⟨hready', hnow, hnext, hpending⟩ := hready.beginStep
      have hexpiry : ∀ q j t, s.wheelTick.Expiry q j t ↔ s.Expiry q j t := by
        intro q j t
        simp only [Lobby.Expiry, Lobby.wheelTick, hpending]
      refine .tick (hfiring rfl) ⟨hready', ?_, fun p id hid => ?_⟩ hnow (fun _ => rfl) hexpiry
      · exact hnext ▸ h.wheeled.next
      · obtain ⟨hlt, hnone⟩ := h.wheeled.matching p id hid
        exact ⟨hnext ▸ hlt, fun q t he => hnone q t ((hexpiry q id t).mp he)⟩
  | fireNext now => exact turn_fireNext h now
  | roomTask r =>
      simp only [handle, Lobby.roomTask]
      split
      · exact hself
      · split
        · exact hself
        · have hmail : ∀ f : RoomCell F → RoomCell F, Calm s (s.modifyCell r f) := fun _ =>
            calm_of_wheel h.wheeled rfl rfl (fun _ _ hid => hid) fun _ => rfl
          exact .calm ((hmail _).trans (calm_runRoom (hmail _).wheeled r _))
  | roomTick r ks =>
      simp only [handle, Lobby.roomTick]
      split
      · exact hself
      · split
        · exact .calm (calm_runRoom h.wheeled r _)
        · exact hself
  | storeTask top => exact .calm (calm_storeTask h.wheeled top)

/-! ### Sessions and their timers -/

omit [Scalar F] in
/-- The rule for a step that changes the stay of one player. -/
theorem Keeps.update {s s' : Lobby F} (h : Keeps s) (hwheeled : Wheeled s') {p₀ : ℕ}
    {tenure : Option (Option Conn × ℕ)}
    (htenure : ∀ q, s'.tenure q = if q = p₀ then tenure else s.tenure q)
    (hexpiry : ∀ q j t, q ≠ p₀ → (s'.Expiry q j t ↔ s.Expiry q j t))
    (hbound : ∀ {c id}, tenure = some (some c, id) → id = 0)
    (haway : ∀ {id}, tenure = some (none, id) → id ≠ 0 ∧ ∃ t, s'.Expiry p₀ id t)
    (honly : ∀ {id t}, s'.Expiry p₀ id t → tenure = some (none, id)) : Keeps s' := by
  refine ⟨hwheeled, fun {p c id} hp => ?_, fun {p id} hp => ?_, fun {p id t} he => ?_⟩
  · rw [htenure] at hp
    split at hp
    · exact hbound hp
    · exact h.bound hp
  · rw [htenure] at hp
    split at hp
    · next heq =>
        subst heq
        exact haway hp
    · next hne =>
        obtain ⟨hid, t, he⟩ := h.away hp
        exact ⟨hid, t, (hexpiry p id t hne).mpr he⟩
  · rw [htenure]
    split
    · next heq =>
        subst heq
        exact honly he
    · next hne => exact h.only ((hexpiry p id t hne).mp he)

omit [Scalar F] in
/-- The timer of `p₀` is gone, and with it every timer that would expire the
session; those of the others are not affected. -/
theorem Keeps.expiry_erase {s s' : Lobby F} (h : Keeps s) {p₀ id₀ : ℕ}
    (haway : s.tenure p₀ = some (none, id₀))
    (hexpiry : ∀ q j t, s'.Expiry q j t ↔ s.Expiry q j t ∧ j ≠ id₀) :
    (∀ q j t, q ≠ p₀ → (s'.Expiry q j t ↔ s.Expiry q j t)) ∧ ∀ j t, ¬s'.Expiry p₀ j t := by
  constructor
  · intro q j t hne
    rw [hexpiry]
    refine and_iff_left_of_imp fun he => ?_
    rintro rfl
    obtain ⟨-, t₀, he₀⟩ := h.away haway
    exact hne (he.inj he₀).1
  · intro j t he
    obtain ⟨he, hne⟩ := (hexpiry p₀ j t).mp he
    exact hne (Prod.mk.inj (Option.some.inj ((h.only he).symm.trans haway))).2

omit [Scalar F] in
theorem Keeps.turn {s s' : Lobby F} {e : LobbyEvent F} (h : Keeps s) (hturn : Turn s e s') :
    Keeps s' := by
  have hsame : Wheeled s' → (∀ q, s'.tenure q = s.tenure q) →
      (∀ q j t, s'.Expiry q j t ↔ s.Expiry q j t) → Keeps s' := by
    intro hwheeled htenure hexpiry
    refine ⟨hwheeled, fun hp => h.bound ((htenure _).symm.trans hp), fun {p id} hp => ?_,
      fun {p id t} he => ?_⟩
    · obtain ⟨hne, t, he⟩ := h.away ((htenure p).symm.trans hp)
      exact ⟨hne, t, (hexpiry p id t).mpr he⟩
    · exact (htenure p).trans (h.only ((hexpiry p id t).mp he))
  cases hturn with
  | calm hcalm => exact hsame hcalm.wheeled hcalm.tenure hcalm.expiry
  | tick _ hwheeled _ htenure hexpiry => exact hsame hwheeled htenure hexpiry
  | login hwheeled _ habsent htenure hexpiry =>
      refine h.update hwheeled htenure (fun q j t _ => hexpiry q j t) (fun hc => ?_)
        (fun hc => by cases hc) fun {id t} he => ?_
      · exact (Prod.mk.inj (Option.some.inj hc)).2.symm
      · have hold := h.only ((hexpiry _ id t).mp he)
        rw [habsent] at hold
        cases hold
  | rebind hwheeled _ haway htenure hexpiry =>
      obtain ⟨hothers, hnone⟩ := h.expiry_erase haway hexpiry
      refine h.update hwheeled htenure hothers (fun hc => ?_) (fun hc => by cases hc)
        fun {id t} he => absurd he (hnone id t)
      exact (Prod.mk.inj (Option.some.inj hc)).2.symm
  | @drop _ p₀ id₀ c _ hwheeled _ _ hbound hid₀ htenure hexpiry =>
      refine h.update hwheeled htenure (fun q j t hne => ?_) (fun hc => by cases hc)
        (fun {id} hc => ?_) fun {id t} he => ?_
      · rw [hexpiry]
        exact or_iff_left fun hnew => hne hnew.2.1
      · obtain rfl := (Prod.mk.inj (Option.some.inj hc)).2
        exact ⟨hid₀, _, (hexpiry p₀ _ _).mpr (.inr ⟨rfl, rfl, rfl⟩)⟩
      · rcases (hexpiry p₀ id t).mp he with hold | ⟨rfl, -⟩
        · have hold := h.only hold
          rw [hbound] at hold
          cases hold
        · rfl
  | expire hwheeled _ _ _ haway htenure hexpiry =>
      obtain ⟨hothers, hnone⟩ := h.expiry_erase haway hexpiry
      exact h.update hwheeled htenure hothers (fun hc => by cases hc) (fun hc => by cases hc)
        fun {id t} he => absurd he (hnone id t)

omit [Scalar F] in
theorem keeps_init (gameThreads : ℕ) (writer : Bool) :
    Keeps (Lobby.init gameThreads writer : Lobby F) := by
  have hempty : Wheeled ({ gameThreads := gameThreads, writer := writer } : Lobby F) :=
    ⟨TimerWheel.ready_init, Nat.one_ne_zero, by simp⟩
  have hwheel : (Lobby.init gameThreads writer : Lobby F).wheel =
      (({} : TimerWheel TimerCb).add kSweepIntervalMs .sweep).1 := rfl
  have hcalm : Calm _ (Lobby.init gameThreads writer : Lobby F) :=
    calm_add hempty (by simp) hwheel rfl (fun _ _ hid => .inl hid) fun _ => rfl
  refine ⟨hcalm.wheeled, (fun hp => by cases hp), (fun hp => by cases hp), fun {p id t} he => ?_⟩
  obtain ⟨node, hnode, -⟩ := (hcalm.expiry p id t).mp he
  simp [TimerWheel.pending] at hnode

theorem keeps_run (gameThreads : ℕ) (writer : Bool) (es : List (LobbyEvent F)) :
    Keeps (Lobby.run gameThreads writer es) := by
  have hboth : Base (Lobby.run gameThreads writer es) ∧ Keeps (Lobby.run gameThreads writer es) :=
    invariant_run_of_step (I := fun s => Base s ∧ Keeps s)
      (fun _ e h => ⟨h.1.step e, h.2.turn (step_turn h.1 h.2 e)⟩)
      ⟨base_init gameThreads writer, keeps_init gameThreads writer⟩ es
  exact hboth.2

/-! ### From the disconnect to the expiry -/

/-- Player `p` has a session without a connection. -/
def Lobby.Unbound (s : Lobby F) (p : ℕ) : Prop :=
  ∃ x, s.sessions.lookup p = some x ∧ x.conn = none

/-- The events `es` end with an absence of player `p`: after the events
`before` it lost its connection, and its session has been there without one
ever since. -/
def AwaySince (gameThreads : ℕ) (writer : Bool) (p : ℕ) (es before : List (LobbyEvent F)) :
    Prop :=
  ∃ c after, es = before ++ .disconnect c :: after ∧
    (Lobby.run gameThreads writer before).firing = [] ∧
    (Lobby.run gameThreads writer before).connToPlayer.lookup c = some p ∧
    Visits Lobby.step (Lobby.Unbound · p)
      ((Lobby.run gameThreads writer before).step (.disconnect c)) after

omit [Scalar F] in
theorem unbound_iff {s : Lobby F} {p : ℕ} :
    s.Unbound p ↔ ∃ id, s.tenure p = some (none, id) := by
  constructor
  · rintro ⟨x, hx, hnone⟩
    exact ⟨x.expireTimerId, by rw [tenure_eq hx, hnone]⟩
  · rintro ⟨id, hid⟩
    obtain ⟨x, hx, hxid⟩ := Option.map_eq_some_iff.mp hid
    exact ⟨x, hx, (Prod.mk.inj hxid).1⟩

omit [Scalar F] in
/-- A session that stays without a connection keeps its timer. -/
theorem Turn.expiry_of_unbound {s s' : Lobby F} {e : LobbyEvent F} (h : Keeps s)
    (hturn : Turn s e s') {p id t : ℕ} (he : s.Expiry p id t) (hunbound : s'.Unbound p) :
    s'.Expiry p id t := by
  obtain ⟨id', hid'⟩ := unbound_iff.mp hunbound
  have haway := h.only he
  -- neither bound again nor erased, so the turn was someone else's
  have hother : ∀ {p₀ id₀ : ℕ} {tenure : Option (Option Conn × ℕ)},
      (∀ q, s'.tenure q = if q = p₀ then tenure else s.tenure q) →
      tenure ≠ some (none, id') → s.tenure p₀ = some (none, id₀) →
      (∀ q j t, s'.Expiry q j t ↔ s.Expiry q j t ∧ j ≠ id₀) → s'.Expiry p id t := by
    intro p₀ id₀ tenure htenure hne haway₀ hexpiry
    have hp : p ≠ p₀ := by
      rintro rfl
      rw [htenure, if_pos rfl] at hid'
      exact hne hid'
    exact ((h.expiry_erase haway₀ hexpiry).1 p id t hp).mpr he
  cases hturn with
  | calm hcalm => exact (hcalm.expiry p id t).mpr he
  | tick _ _ _ _ hexpiry => exact (hexpiry p id t).mpr he
  | login _ _ _ _ hexpiry => exact (hexpiry p id t).mpr he
  | rebind _ _ haway₀ htenure hexpiry => exact hother htenure (by simp) haway₀ hexpiry
  | drop _ _ _ _ _ _ _ hexpiry => exact (hexpiry p id t).mpr (.inl he)
  | expire _ _ _ _ haway₀ htenure hexpiry => exact hother htenure (by simp) haway₀ hexpiry

/-- The same over a whole absence. -/
theorem expiry_of_visits {s : Lobby F} (hbase : Base s) (h : Keeps s) {p id t : ℕ}
    (he : s.Expiry p id t) {es : List (LobbyEvent F)}
    (hvisits : Visits Lobby.step (Lobby.Unbound · p) s es) :
    (es.foldl Lobby.step s).Expiry p id t := by
  induction es generalizing s with
  | nil => exact he
  | cons e es ih =>
      have hturn := step_turn hbase h e
      have hkept := hturn.expiry_of_unbound h he hvisits.2.first
      exact ih (hbase.step e) (h.turn hturn) hkept hvisits.2

omit [Scalar F] in
/-- Only the end of its connection makes a session lose it, and that starts
the timer. -/
theorem Turn.dropped {s s' : Lobby F} {e : LobbyEvent F} (hturn : Turn s e s') {p id : ℕ}
    {c : Conn} (hbound : s.tenure p = some (some c, id)) (hunbound : s'.Unbound p) :
    ∃ c', e = .disconnect c' ∧ s.firing = [] ∧ s.connToPlayer.lookup c' = some p ∧
      ∃ id', s'.Expiry p id' (s.wheel.nowTick + kSessionKeepMs / Timer.kTickMs) := by
  obtain ⟨id', hid'⟩ := unbound_iff.mp hunbound
  have hsame : s'.tenure p ≠ s.tenure p := by
    rw [hid', hbound]
    simp
  cases hturn with
  | calm hcalm => exact absurd (hcalm.tenure p) hsame
  | tick _ _ _ htenure _ => exact absurd (htenure p) hsame
  | login _ _ _ htenure _ | rebind _ _ _ htenure _ =>
      rw [htenure] at hid'
      split at hid'
      · cases hid'
      · rw [hbound] at hid'
        cases hid'
  | @drop _ p₀ id₀ c' hfiring _ _ hconn _ _ htenure hexpiry =>
      have hp : p = p₀ := by
        by_contra hne
        exact hsame ((htenure p).trans (if_neg hne))
      subst hp
      exact ⟨c', rfl, hfiring, hconn, id₀, (hexpiry p _ _).mpr (.inr ⟨rfl, rfl, rfl⟩)⟩
  | expire _ _ _ _ _ htenure _ =>
      rw [htenure] at hid'
      split at hid'
      · cases hid'
      · rw [hbound] at hid'
        cases hid'

omit [Scalar F] in
/-- A session does not begin without a connection. -/
theorem Turn.created {s s' : Lobby F} {e : LobbyEvent F} (hturn : Turn s e s') {p : ℕ}
    (habsent : s.tenure p = none) : ¬s'.Unbound p := by
  intro hunbound
  obtain ⟨id', hid'⟩ := unbound_iff.mp hunbound
  cases hturn with
  | calm hcalm =>
      rw [hcalm.tenure, habsent] at hid'
      cases hid'
  | tick _ _ _ htenure _ =>
      rw [htenure, habsent] at hid'
      cases hid'
  | login _ _ _ htenure _ | rebind _ _ _ htenure _ | expire _ _ _ _ _ htenure _ =>
      rw [htenure, habsent] at hid'
      split at hid' <;> cases hid'
  | drop _ _ _ _ hbound _ htenure _ =>
      rw [htenure] at hid'
      split at hid'
      · next hp =>
          rw [← hp, habsent] at hbound
          cases hbound
      · rw [habsent] at hid'
        cases hid'

omit [Scalar F] in
/-- A session disappears only through its own timer, which is due, and only
without a connection. -/
theorem Turn.erased {s s' : Lobby F} {e : LobbyEvent F} (hturn : Turn s e s') {p : ℕ}
    {tenure : Option Conn × ℕ} (hp : s.tenure p = some tenure) (hgone : s'.tenure p = none) :
    tenure.1 = none ∧ s.Expiry p tenure.2 s.wheel.nowTick ∧ (∃ now, e = .fireNext now) ∧
      s.nextCallback = some (.expireSession p) := by
  have hsame : s'.tenure p ≠ s.tenure p := by
    rw [hgone, hp]
    simp
  cases hturn with
  | calm hcalm => exact absurd (hcalm.tenure p) hsame
  | tick _ _ _ htenure _ => exact absurd (htenure p) hsame
  | login _ _ _ htenure _ | rebind _ _ _ htenure _ | drop _ _ _ _ _ _ htenure _ =>
      rw [htenure, hp] at hgone
      split at hgone <;> cases hgone
  | @expire now _ p₀ n _ _ hnext hdue haway htenure _ =>
      have heq : p = p₀ := by
        by_contra hne
        exact hsame ((htenure p).trans (if_neg hne))
      subst heq
      obtain rfl := Option.some.inj (hp.symm.trans haway)
      exact ⟨rfl, hdue, ⟨now, rfl⟩, hnext⟩

/-- The timer of an absence is set to 300 ticks after its beginning. -/
theorem AwaySince.expiry {gameThreads : ℕ} {writer : Bool} {p : ℕ}
    {es before : List (LobbyEvent F)} (h : AwaySince gameThreads writer p es before) :
    ∃ id, (Lobby.run gameThreads writer es).Expiry p id
      ((Lobby.run gameThreads writer before).wheel.nowTick + kSessionKeepMs / Timer.kTickMs) := by
  obtain ⟨c, after, rfl, hfiring, hconn, hvisits⟩ := h
  have hbase := base_run gameThreads writer before
  have hkeeps := keeps_run gameThreads writer before
  have hrun : Lobby.run gameThreads writer (before ++ .disconnect c :: after) =
      after.foldl Lobby.step ((Lobby.run gameThreads writer before).step (.disconnect c)) := by
    simp [Lobby.run]
  rw [hrun]
  have hturn := step_turn hbase hkeeps (.disconnect c)
  obtain ⟨x, hx, hxc⟩ := hbase.tables.bound hconn
  have hbound : (Lobby.run gameThreads writer before).tenure p =
      some (some c, x.expireTimerId) := by
    rw [tenure_eq hx, hxc]
  obtain ⟨-, -, -, -, id, he⟩ := hturn.dropped hbound hvisits.first
  exact ⟨id, expiry_of_visits (hbase.step _) (hkeeps.turn hturn) he hvisits⟩

/-- Every session without a connection has lost it at some time. -/
theorem exists_awaySince (gameThreads : ℕ) (writer : Bool) {p : ℕ} (es : List (LobbyEvent F))
    (h : (Lobby.run gameThreads writer es).Unbound p) :
    ∃ before, AwaySince gameThreads writer p es before := by
  induction es using List.reverseRecOn with
  | nil =>
      obtain ⟨x, hx, -⟩ := h
      cases hx
  | append_singleton es e ih =>
      have hturn := step_turn (base_run gameThreads writer es) (keeps_run gameThreads writer es) e
      have hstep := h
      rw [run_concat] at hstep
      cases htenure : (Lobby.run gameThreads writer es).tenure p with
      | none => exact absurd hstep (hturn.created htenure)
      | some tenure =>
          obtain ⟨conn, id⟩ := tenure
          cases conn with
          | none =>
              -- it was away already, and this event has not ended that
              obtain ⟨before, c, after, rfl, hfiring, hconn, hvisits⟩ :=
                ih (unbound_iff.mpr ⟨id, htenure⟩)
              refine ⟨before, c, after ++ [e], by simp, hfiring, hconn, hvisits.concat ?_⟩
              have hrun : Lobby.run gameThreads writer (before ++ .disconnect c :: after) =
                  after.foldl Lobby.step
                    ((Lobby.run gameThreads writer before).step (.disconnect c)) := by
                simp [Lobby.run]
              exact hrun ▸ hstep
          | some c =>
              obtain ⟨c', rfl, hfiring, hconn, -⟩ := hturn.dropped htenure hstep
              exact ⟨es, c', [], rfl, hfiring, hconn, hstep⟩

/-! ### Retention -/

/-- A session without a connection has one expiry timer, the one it names; a
session with a connection has none and names none. -/
structure TimersMatchSessions (s : Lobby F) : Prop where
  unbound : ∀ p x, s.sessions.lookup p = some x →
    (x.conn = none ↔ ∀ id, (∃ t, s.Expiry p id t) ↔ id = x.expireTimerId)
  bound : ∀ p x, s.sessions.lookup p = some x → x.conn ≠ none →
    (∀ id t, ¬s.Expiry p id t) ∧ x.expireTimerId = 0

omit [Scalar F] in
theorem Keeps.timersMatchSessions {s : Lobby F} (h : Keeps s) : TimersMatchSessions s := by
  have hbound : ∀ p x, s.sessions.lookup p = some x → x.conn ≠ none →
      (∀ id t, ¬s.Expiry p id t) ∧ x.expireTimerId = 0 := by
    intro p x hx hconn
    obtain ⟨c, hc⟩ := Option.ne_none_iff_exists'.mp hconn
    have htenure := tenure_eq hx
    rw [hc] at htenure
    refine ⟨fun id t he => ?_, h.bound htenure⟩
    have haway := h.only he
    rw [htenure] at haway
    cases haway
  refine ⟨fun p x hx => ⟨fun hnone id => ?_, fun htimer => ?_⟩, hbound⟩
  · have htenure := tenure_eq hx
    rw [hnone] at htenure
    constructor
    · rintro ⟨t, he⟩
      exact (Prod.mk.inj (Option.some.inj ((h.only he).symm.trans htenure))).2
    · rintro rfl
      exact (h.away htenure).2
  · by_contra hconn
    obtain ⟨t, he⟩ := (htimer x.expireTimerId).mpr rfl
    exact (hbound p x hx hconn).1 _ t he

/-- A session is kept for 300 ticks after its player was last disconnected,
and erased in the last of them by its own timer. -/
theorem session_retention_exact (gameThreads : ℕ) (writer : Bool) (es : List (LobbyEvent F)) :
    let s := Lobby.run gameThreads writer es
    TimersMatchSessions s ∧
    (∀ p, s.Unbound p → ∃ before, AwaySince gameThreads writer p es before) ∧
    (∀ p before, AwaySince gameThreads writer p es before →
      let t := (Lobby.run gameThreads writer before).wheel.nowTick
      s.wheel.nowTick < t + 300 ∨ s.wheel.nowTick = t + 300 ∧ s.firing ≠ []) ∧
    ∀ e p x, s.sessions.lookup p = some x → (s.step e).sessions.lookup p = none →
      x.conn = none ∧ (∃ now, e = .fireNext now) ∧ s.nextCallback = some (.expireSession p) ∧
      ∃ before, AwaySince gameThreads writer p es before ∧
        s.wheel.nowTick = (Lobby.run gameThreads writer before).wheel.nowTick + 300 := by
  intro s
  have hkeeps : Keeps s := keeps_run gameThreads writer es
  refine ⟨hkeeps.timersMatchSessions, fun p hp => exists_awaySince gameThreads writer es hp,
    fun p before haway => ?_, fun e p x hx hgone => ?_⟩
  · obtain ⟨id, node, hnode, -, hexp⟩ := haway.expiry
    rcases hkeeps.wheeled.ready.pending_expiry hnode with ⟨hmem, hdue⟩ | hlater
    · exact .inr ⟨hdue.symm.trans hexp, List.ne_nil_of_mem hmem⟩
    · exact .inl (Nat.lt_of_lt_of_eq hlater hexp)
  · have hturn := step_turn (base_run gameThreads writer es) hkeeps e
    have hgone' : (s.step e).tenure p = none := by
      rw [tenure, hgone]
      rfl
    obtain ⟨hnone, hdue, hfire, hnext⟩ := hturn.erased (tenure_eq hx) hgone'
    obtain ⟨before, haway⟩ := exists_awaySince gameThreads writer es ⟨x, hx, hnone⟩
    obtain ⟨id, he⟩ := haway.expiry
    -- the timer that fires is the one that was started by the last disconnect
    have haway' := (tenure_eq hx).symm.trans (hkeeps.only he)
    obtain rfl := (Prod.mk.inj (Option.some.inj haway')).2
    exact ⟨hnone, hfire, hnext, before, haway, (hdue.inj he).2⟩

end GameServer.Game
