import GameServer.Game.LobbyConsistency
import GameServer.Game.Retention

/-!
The heartbeat sweep.

The callback that `scheduleSweep` puts into the wheel calls `sweepHeartbeats`
and puts itself in again, among all the timers that players start and cancel.
`Steady` is a step that concerns neither that timer nor what the sweep looks
at, and `Beat` lists what else an event can do. Two things follow for every
run: the sweeps come at the ticks that are multiples of 50 and at no others,
and a sweep shuts down those connections that have been silent for more than
ten seconds.
-/

namespace GameServer.Game

open GameServer.Lib GameServer.Proto GameServer.Timer
open Lobby

variable {F : Type}

/-! ### What concerns the sweep -/

/-- Timer `id` is pending and will sweep at `tick`. -/
def Lobby.Sweep (s : Lobby F) (id tick : ℕ) : Prop :=
  ∃ node, s.wheel.pending id = some node ∧ node.cb = .sweep ∧ node.expiryTick = tick

def Entry.shut : Entry F → Option Conn
  | .shutdown conn => some conn
  | _ => none

/-- The connections that the lobby has shut down, in order. -/
def Lobby.shuts (s : Lobby F) : List Conn := s.log.filterMap Entry.shut

/-- What the sweep looks at in the session of a player. -/
def Lobby.pulse (s : Lobby F) (p : ℕ) : Option (Option Conn × ℕ) :=
  (s.sessions.lookup p).map fun x => (x.conn, x.lastHeartbeatMs)

theorem Lobby.pulse_eq {s : Lobby F} {p : ℕ} {x : Session} (h : s.sessions.lookup p = some x) :
    s.pulse p = some (x.conn, x.lastHeartbeatMs) := by
  rw [pulse, h]
  rfl

/-- The wheel is in order, and the ids kept for match timers are not those of
sweeps. -/
structure Clocked (s : Lobby F) : Prop where
  ready : TimerWheel.Ready s.wheel s.firing
  matching : ∀ p id, s.matchTimer.lookup p = some id →
    id < s.wheel.nextId ∧ ∀ t, ¬s.Sweep id t

/-- No sweep has come or gone, and no time has passed. -/
structure Timed (s s' : Lobby F) : Prop where
  clocked : Clocked s'
  now : s'.wheel.nowTick = s.wheel.nowTick
  sweep : ∀ id t, s'.Sweep id t ↔ s.Sweep id t

theorem Timed.refl {s : Lobby F} (h : Clocked s) : Timed s s := ⟨h, rfl, fun _ _ => Iff.rfl⟩

theorem Timed.trans {s s' s'' : Lobby F} (h : Timed s s') (h' : Timed s' s'') : Timed s s'' where
  clocked := h'.clocked
  now := h'.now.trans h.now
  sweep id t := (h'.sweep id t).trans (h.sweep id t)

theorem timed_of_wheel {s s' : Lobby F} (h : Clocked s) (hwheel : s'.wheel = s.wheel)
    (hfiring : s'.firing = s.firing)
    (hmatch : ∀ p id, s'.matchTimer.lookup p = some id → s.matchTimer.lookup p = some id) :
    Timed s s' := by
  have hsweep : ∀ id t, s'.Sweep id t ↔ s.Sweep id t := by
    intro id t
    simp only [Lobby.Sweep, hwheel]
  refine ⟨⟨by rw [hwheel, hfiring]; exact h.ready, fun p id hid => ?_⟩, by rw [hwheel], hsweep⟩
  obtain ⟨hlt, hnone⟩ := h.matching p id (hmatch p id hid)
  exact ⟨by rw [hwheel]; exact hlt, fun t ht => hnone t ((hsweep id t).mp ht)⟩

theorem sweep_add {s s' : Lobby F} (h : Clocked s) {delayMs : ℕ} {cb : TimerCb}
    (hwheel : s'.wheel = (s.wheel.add delayMs cb).1) (id t : ℕ) :
    s'.Sweep id t ↔ s.Sweep id t ∨ (id = s.wheel.nextId ∧ cb = .sweep ∧
      t = TimerWheel.expiryOf s.wheel.nowTick delayMs) := by
  simp only [Lobby.Sweep, hwheel, h.ready.rep.pending_add]
  constructor
  · rintro ⟨node, hnode, hcb, rfl⟩
    split at hnode
    · next hid =>
        obtain rfl := Option.some.inj hnode
        exact .inr ⟨hid, hcb, rfl⟩
    · exact .inl ⟨node, hnode, hcb, rfl⟩
  · rintro (⟨node, hnode, hcb, ht⟩ | ⟨rfl, hcb, rfl⟩)
    · have hlt := h.ready.rep.pending_lt hnode
      rw [if_neg (Nat.ne_of_lt hlt)]
      exact ⟨node, hnode, hcb, ht⟩
    · rw [if_pos rfl]
      exact ⟨_, rfl, hcb, rfl⟩

theorem Lobby.Sweep.lt {s : Lobby F} (h : Clocked s) {id t : ℕ} (hs : s.Sweep id t) :
    id < s.wheel.nextId := by
  obtain ⟨node, hnode, -⟩ := hs
  exact h.ready.rep.pending_lt hnode

theorem clocked_add {s s' : Lobby F} (h : Clocked s) {delayMs : ℕ} {cb : TimerCb}
    (hwheel : s'.wheel = (s.wheel.add delayMs cb).1) (hfiring : s'.firing = s.firing)
    (hmatch : ∀ p id, s'.matchTimer.lookup p = some id →
      s.matchTimer.lookup p = some id ∨ (id = s.wheel.nextId ∧ cb ≠ .sweep)) : Clocked s' := by
  refine ⟨by rw [hwheel, hfiring]; exact h.ready.add delayMs cb, fun p id hid => ?_⟩
  rw [hwheel, TimerWheel.add_nextId]
  rcases hmatch p id hid with hold | ⟨rfl, hcb⟩
  · obtain ⟨hlt, hnone⟩ := h.matching p id hold
    refine ⟨by omega, fun t ht => ?_⟩
    rcases (sweep_add h hwheel id t).mp ht with ht | ⟨rfl, -⟩
    · exact hnone t ht
    · omega
  · refine ⟨by omega, fun t ht => ?_⟩
    rcases (sweep_add h hwheel _ t).mp ht with ht | ⟨-, hcb', -⟩
    · exact absurd (ht.lt h) (Nat.lt_irrefl _)
    · exact hcb hcb'

/-- A timer other than the sweep has been added. -/
theorem timed_add {s s' : Lobby F} (h : Clocked s) {delayMs : ℕ} {c : TimerCb}
    (hcb : c ≠ .sweep) (hwheel : s'.wheel = (s.wheel.add delayMs c).1)
    (hfiring : s'.firing = s.firing)
    (hmatch : ∀ p id, s'.matchTimer.lookup p = some id →
      s.matchTimer.lookup p = some id ∨ id = s.wheel.nextId) : Timed s s' := by
  refine ⟨clocked_add h hwheel hfiring fun p id hid => ?_, by rw [hwheel, TimerWheel.add_nowTick],
    fun id t => ?_⟩
  · exact (hmatch p id hid).imp_right fun heq => ⟨heq, hcb⟩
  · rw [sweep_add h hwheel]
    exact or_iff_left fun hnew => hcb hnew.2.1

theorem sweep_discard {s s' : Lobby F} {gone : ℕ}
    (hpending : ∀ id, s'.wheel.pending id = if id = gone then none else s.wheel.pending id)
    (id t : ℕ) : s'.Sweep id t ↔ s.Sweep id t ∧ id ≠ gone := by
  simp only [Lobby.Sweep, hpending]
  by_cases hid : id = gone
  · simp [hid]
  · simp [hid]

theorem clocked_discard {s s' : Lobby F} (h : Clocked s) {gone : ℕ}
    (hready : TimerWheel.Ready s'.wheel s'.firing) (hnext : s'.wheel.nextId = s.wheel.nextId)
    (hpending : ∀ id, s'.wheel.pending id = if id = gone then none else s.wheel.pending id)
    (hmatch : ∀ p id, s'.matchTimer.lookup p = some id → s.matchTimer.lookup p = some id) :
    Clocked s' := by
  refine ⟨hready, fun p id hid => ?_⟩
  obtain ⟨hlt, hnone⟩ := h.matching p id (hmatch p id hid)
  exact ⟨hnext ▸ hlt, fun t ht => hnone t ((sweep_discard hpending id t).mp ht).1⟩

/-- A timer other than the sweep is gone. -/
theorem timed_discard {s s' : Lobby F} (h : Clocked s) {gone : ℕ} (hgone : ∀ t, ¬s.Sweep gone t)
    (hready : TimerWheel.Ready s'.wheel s'.firing) (hnow : s'.wheel.nowTick = s.wheel.nowTick)
    (hnext : s'.wheel.nextId = s.wheel.nextId)
    (hpending : ∀ id, s'.wheel.pending id = if id = gone then none else s.wheel.pending id)
    (hmatch : ∀ p id, s'.matchTimer.lookup p = some id → s.matchTimer.lookup p = some id) :
    Timed s s' := by
  refine ⟨clocked_discard h hready hnext hpending hmatch, hnow, fun id t => ?_⟩
  rw [sweep_discard hpending]
  refine and_iff_left_of_imp fun ht heq => ?_
  exact hgone t (heq ▸ ht)

/-! ### Steps that the sweep does not notice -/

structure Steady (s s' : Lobby F) : Prop extends Timed s s' where
  pulse : ∀ p, s'.pulse p = s.pulse p
  shuts : s'.shuts = s.shuts

theorem Steady.refl {s : Lobby F} (h : Clocked s) : Steady s s := ⟨.refl h, fun _ => rfl, rfl⟩

theorem Steady.trans {s s' s'' : Lobby F} (h : Steady s s') (h' : Steady s' s'') :
    Steady s s'' where
  toTimed := h.toTimed.trans h'.toTimed
  pulse p := (h'.pulse p).trans (h.pulse p)
  shuts := h'.shuts.trans h.shuts

/-- The rule for steps that leave the wheel alone. -/
theorem steady_of_wheel {s s' : Lobby F} (h : Clocked s) (hwheel : s'.wheel = s.wheel)
    (hfiring : s'.firing = s.firing)
    (hmatch : ∀ p id, s'.matchTimer.lookup p = some id → s.matchTimer.lookup p = some id)
    (hpulse : ∀ p, s'.pulse p = s.pulse p) (hshuts : s'.shuts = s.shuts) : Steady s s' :=
  ⟨timed_of_wheel h hwheel hfiring hmatch, hpulse, hshuts⟩

theorem pulse_modify {s s' : Lobby F} (p : ℕ) (f : Session → Session)
    (hsessions : s'.sessions = s.sessions.modify p f)
    (hf : ∀ x, ((f x).conn, (f x).lastHeartbeatMs) = (x.conn, x.lastHeartbeatMs)) (q : ℕ) :
    s'.pulse q = s.pulse q := by
  rw [pulse, pulse, hsessions, UnorderedMap.lookup_modify]
  split
  · rw [Option.map_map]
    congr 1
    funext x
    exact hf x
  · rfl

theorem shuts_emit (s : Lobby F) (e : Entry F) :
    (s.emit e).shuts = s.shuts ++ e.shut.toList := by
  rw [shuts, emit, List.filterMap_append]
  cases h : e.shut <;> simp [shuts, h]

theorem steady_emit {s : Lobby F} (h : Clocked s) {e : Entry F} (he : e.shut = none) :
    Steady s (s.emit e) :=
  steady_of_wheel h rfl rfl (fun _ _ hid => hid) (fun _ => rfl) (by simp [shuts_emit, he])

theorem steady_enqueue {s : Lobby F} (h : Clocked s) (task : StoreTask) :
    Steady s (s.enqueue task) := by
  unfold enqueue
  split
  · exact steady_of_wheel h rfl rfl (fun _ _ hid => hid) (fun _ => rfl)
      (by simp [shuts, Entry.shut])
  · exact .refl h

theorem steady_mail {s : Lobby F} (h : Clocked s) (r : ℕ) (task : RoomTask F) :
    Steady s (s.mail r task) :=
  steady_of_wheel h rfl rfl (fun _ _ hid => hid) (fun _ => rfl) rfl

theorem steady_onRoomEnd {s : Lobby F} (h : Clocked s) (r w : ℕ) : Steady s (s.onRoomEnd r w) := by
  have hrest : (s.onRoomEnd r w).wheel = s.wheel ∧ (s.onRoomEnd r w).firing = s.firing ∧
      (s.onRoomEnd r w).matchTimer = s.matchTimer ∧ (s.onRoomEnd r w).shuts = s.shuts := by
    simp only [onRoomEnd]
    split
    · simp only [enqueue]
      split <;> simp [shuts, emit, Entry.shut]
    · simp [shuts, emit, Entry.shut]
  obtain ⟨hwheel, hfiring, htimer, hshuts⟩ := hrest
  refine steady_of_wheel h hwheel hfiring (fun p id hid => htimer ▸ hid) (fun p => ?_) hshuts
  rw [pulse, pulse, lookup_onRoomEnd, Option.map_map]
  congr 1
  funext x
  unfold Function.comp Session.leave
  split <;> rfl

theorem steady_perform {s : Lobby F} (h : Clocked s) (r : ℕ) (act : RoomAct F) :
    Steady s (perform r s act) := by
  have hemit := steady_emit h (e := .room r act) rfl
  cases act with
  | broadcast | send => exact hemit
  | queueTickerReset => exact hemit.trans (steady_mail hemit.clocked r .resetTicker)
  | onEnd rid winner =>
      simp only [perform]
      split
      · exact hemit.trans (steady_onRoomEnd hemit.clocked rid winner)
      · exact hemit.trans (steady_of_wheel hemit.clocked rfl rfl (fun _ _ hid => hid)
          (fun _ => rfl) rfl)

/-- Whatever a room does, the sweep does not notice. -/
theorem steady_runRoom {s : Lobby F} (h : Clocked s) (r : ℕ)
    (f : Room F → Room F × List (RoomAct F)) : Steady s (s.runRoom r f) := by
  unfold runRoom
  split
  · exact .refl h
  · next cell _ =>
      have hroom : Steady s (s.modifyCell r fun cell => { cell with room := (f cell.room).1 }) :=
        steady_of_wheel h rfl rfl (fun _ _ hid => hid) (fun _ => rfl) rfl
      exact invariant_run_of_step (I := Steady s)
        (fun s' act h' => h'.trans (steady_perform h'.clocked r act)) hroom _

theorem steady_cancelMatchTimer {s : Lobby F} (h : Clocked s) (p : ℕ) :
    Steady s (s.cancelMatchTimer p) := by
  unfold cancelMatchTimer
  split
  · exact .refl h
  · next id hid =>
      refine ⟨timed_discard h (h.matching p id hid).2 (h.ready.cancel id)
        (TimerWheel.cancel_nowTick id _) (TimerWheel.cancel_nextId id _)
        (h.ready.rep.pending_cancel id) (fun p' id' hid' => ?_), fun _ => rfl, rfl⟩
      rw [UnorderedMap.lookup_erase_eq] at hid'
      split at hid'
      · cases hid'
      · exact hid'

theorem steady_joinQueue {s : Lobby F} (h : Clocked s) (p : ℕ) : Steady s (s.joinQueue p) := by
  refine ⟨timed_add h (c := .matchTimeout p) (by simp) rfl rfl fun p' id hid => ?_,
    pulse_modify p (fun x => { x with state := .kMatching }) rfl fun _ => rfl,
    by simp [shuts, joinQueue, Entry.shut]⟩
  have hid := (UnorderedMap.lookup_insert_eq _ _ _ _).symm.trans hid
  split at hid
  · exact .inr (Option.some.inj hid).symm
  · exact .inl hid

theorem steady_matchTimeout {s : Lobby F} (h : Clocked s) (p : ℕ) :
    Steady s (s.matchTimeout p) := by
  have hforget : Steady s { s with matchTimer := s.matchTimer.erase p } := by
    refine steady_of_wheel h rfl rfl (fun p' id hid => ?_) (fun _ => rfl) rfl
    dsimp only at hid
    rw [UnorderedMap.lookup_erase_eq] at hid
    split at hid
    · cases hid
    · exact hid
  have hleave : ∀ {s' : Lobby F}, Clocked s' → Steady s' (s'.leaveQueue p) := fun h' =>
    steady_of_wheel h' rfl rfl (fun _ _ hid => hid)
      (pulse_modify p (fun x => { x with state := .kLobby }) rfl fun _ => rfl) rfl
  unfold Lobby.matchTimeout
  dsimp only
  split
  · split
    · exact hforget.trans (hleave hforget.clocked)
    · have hleft := hforget.trans (hleave hforget.clocked)
      exact hleft.trans (steady_emit hleft.clocked rfl)
  · exact hforget

theorem steady_storeTask {s : Lobby F} (h : Clocked s) (top : List (String × F)) :
    Steady s (s.storeTask top) := by
  unfold storeTask
  split
  · exact .refl h
  · next task rest _ =>
      have hdone : Steady s (({ s with store := rest } : Lobby F).emit (.executed task)) :=
        steady_of_wheel h rfl rfl (fun _ _ hid => hid) (fun _ => rfl)
          (by simp [shuts, emit, Entry.shut])
      cases task with
      | leaderboard conn n => exact hdone.trans (steady_emit hdone.clocked rfl)
      | setOnline | delOnline | settle => exact hdone

variable [Scalar F]

theorem steady_post {s : Lobby F} (h : Clocked s) (r : ℕ) (task : RoomTask F) :
    Steady s (s.post r task) := by
  unfold post
  split
  · exact steady_runRoom h r _
  · exact steady_mail h r task

theorem steady_postToRoom {s : Lobby F} (h : Clocked s) (p : Session) (task : RoomTask F) :
    Steady s (s.postToRoom p task) := by
  unfold postToRoom
  split
  · exact steady_post h _ task
  · exact .refl h

theorem steady_createRoom {s : Lobby F} (h : Clocked s) (ks : List ℕ) (a b : ℕ)
    (pa pb : Session) : Steady s (s.createRoom ks a b pa pb) := by
  refine steady_of_wheel h rfl rfl (fun _ _ hid => hid) (fun p => ?_)
    (by simp [shuts, createRoom, Entry.shut])
  let enter (p : Session) : Session := { p with state := .kInRoom, roomId := s.nextRoomId }
  exact (pulse_modify (s := { s with sessions := s.sessions.modify a enter }) b enter rfl
    (fun _ => rfl) p).trans (pulse_modify a enter rfl (fun _ => rfl) p)

theorem steady_tryMatch {s : Lobby F} (h : Clocked s) (ks : List ℕ) :
    Steady s (s.tryMatch ks) := by
  unfold tryMatch
  split
  · exact .refl h
  · exact steady_of_wheel h rfl rfl (fun _ _ hid => hid) (fun _ => rfl) rfl
  · next a b q _ =>
      have hpop : Steady s { s with matchQueue := q } :=
        steady_of_wheel h rfl rfl (fun _ _ hid => hid) (fun _ => rfl) rfl
      dsimp only
      split
      · next pa pb _ _ =>
          have ha := hpop.trans (steady_cancelMatchTimer hpop.clocked a)
          have hb := ha.trans (steady_cancelMatchTimer ha.clocked b)
          have hroom := hb.trans (steady_createRoom hb.clocked ks a b pa pb)
          exact hroom.trans (steady_post hroom.clocked _ _)
      · exact hpop

theorem steady_onMatch {s : Lobby F} (h : Clocked s) (ks : List ℕ) (conn : Conn) :
    Steady s (s.onMatch ks conn) := by
  unfold onMatch
  split
  · exact .refl h
  · next p _ =>
      split
      · exact .refl h
      · split
        · have hjoin := steady_joinQueue h p.playerId
          exact hjoin.trans (steady_tryMatch hjoin.clocked ks)
        · exact .refl h

/-! ### What an event can do -/

namespace Lobby

/-- The connection whose session `lastHeartbeatMs` is set for, and the clock. -/
def hears (s : Lobby F) : LobbyEvent F → Option (Conn × ℕ)
  | .login conn _ _ now _ => if s.firing = [] then some (conn, now) else none
  | .reconnect conn pid token now =>
      if s.firing = [] && s.accepts pid token then some (conn, now) else none
  | .heartbeat conn _ now =>
      if s.firing = [] && (s.sessionOf conn).isSome then some (conn, now) else none
  | _ => none

/-- The connection of a reconnect request that is turned down. -/
def refuses (s : Lobby F) : LobbyEvent F → Option Conn
  | .reconnect conn pid token _ =>
      if s.firing = [] && !s.accepts pid token then some conn else none
  | _ => none

/-- The clock that `sweepHeartbeats` reads in this event. -/
def sweepsAt (s : Lobby F) : LobbyEvent F → Option ℕ
  | .fireNext now => if s.nextCallback = some .sweep then some now else none
  | _ => none

/-- What `sweepHeartbeats` shuts down. -/
def overdue (s : Lobby F) (now : ℕ) : List Conn :=
  s.sessions.entries.filterMap fun e => e.2.conn.filter fun _ => silent now e.2

/-- The event is none of the three. -/
def Mute (s : Lobby F) (e : LobbyEvent F) : Prop :=
  s.hears e = none ∧ s.refuses e = none ∧ s.sweepsAt e = none

end Lobby

inductive Beat (s : Lobby F) (e : LobbyEvent F) (s' : Lobby F) : Prop where
  | steady (h : Steady s s') (hmute : s.Mute e)
  | tick (hmute : s.Mute e) (hfiring : s.firing = []) (hclocked : Clocked s')
      (hnow : s'.wheel.nowTick = s.wheel.nowTick + 1)
      (hsweep : ∀ id t, s'.Sweep id t ↔ s.Sweep id t) (hpulse : ∀ q, s'.pulse q = s.pulse q)
      (hshuts : s'.shuts = s.shuts)
  | hears {p now : ℕ} {c : Conn} (h : Timed s s') (hhears : s.hears e = some (c, now))
      (hlink : s.commits e .bindsTwice = false →
        s.connToPlayer.lookup c = none ∨ s.connToPlayer.lookup c = some p)
      (hpulse : ∀ q, s'.pulse q = if q = p then some (some c, now) else s.pulse q)
      (hshuts : s'.shuts = s.shuts)
  | gone {p : ℕ} {pulse : Option (Option Conn × ℕ)} (h : Timed s s') (hmute : s.Mute e)
      (hpulse : ∀ q, s'.pulse q = if q = p then pulse else s.pulse q)
      (hnone : ∀ c t, pulse ≠ some (some c, t)) (hshuts : s'.shuts = s.shuts)
  | refuse {c : Conn} (h : Timed s s') (hrefuses : s.refuses e = some c)
      (hpulse : ∀ q, s'.pulse q = s.pulse q) (hshuts : s'.shuts = s.shuts ++ [c])
  | sweep {now n : ℕ} (hsweeps : s.sweepsAt e = some now) (hclocked : Clocked s')
      (hnow : s'.wheel.nowTick = s.wheel.nowTick) (hdue : s.Sweep n s.wheel.nowTick)
      (hsweep : ∀ id t, s'.Sweep id t ↔ (s.Sweep id t ∧ id ≠ n) ∨
        (id = s.wheel.nextId ∧ t = s.wheel.nowTick + kSweepIntervalMs / Timer.kTickMs))
      (hpulse : ∀ q, s'.pulse q = s.pulse q) (hshuts : s'.shuts = s.shuts ++ s.overdue now)

omit [Scalar F] in
/-- What follows in the same event without the sweep noticing. -/
theorem Beat.then {s s' s'' : Lobby F} {e : LobbyEvent F} (h : Beat s e s')
    (h' : Steady s' s'') : Beat s e s'' := by
  have hpulse' := h'.pulse
  cases h with
  | steady h hmute => exact .steady (h.trans h') hmute
  | tick hmute hfiring _ hnow hsweep hpulse hshuts =>
      exact .tick hmute hfiring h'.clocked (h'.now.trans hnow)
        (fun id t => (h'.sweep id t).trans (hsweep id t)) (fun q => (hpulse' q).trans (hpulse q))
        (h'.shuts.trans hshuts)
  | hears h hhears hlink hpulse hshuts =>
      exact .hears (h.trans h'.toTimed) hhears hlink (fun q => (hpulse' q).trans (hpulse q))
        (h'.shuts.trans hshuts)
  | gone h hmute hpulse hnone hshuts =>
      exact .gone (h.trans h'.toTimed) hmute (fun q => (hpulse' q).trans (hpulse q)) hnone
        (h'.shuts.trans hshuts)
  | refuse h hrefuses hpulse hshuts =>
      exact .refuse (h.trans h'.toTimed) hrefuses (fun q => (hpulse' q).trans (hpulse q))
        (h'.shuts.trans hshuts)
  | sweep hsweeps _ hnow hdue hsweep hpulse hshuts =>
      exact .sweep hsweeps h'.clocked (h'.now.trans hnow) hdue
        (fun id t => (h'.sweep id t).trans (hsweep id t)) (fun q => (hpulse' q).trans (hpulse q))
        (h'.shuts.trans hshuts)

omit [Scalar F] in
theorem beat_onLogin {s : Lobby F} (h : Clocked s) (hfiring : s.firing = []) (conn : Conn)
    (account token : String) (now : ℕ) (ks : List ℕ) :
    Beat s (.login conn account token now ks) (s.onLogin conn account token now ks) := by
  have htimed : Timed s (s.addSession conn
      { playerId := s.nextPlayerId, token := token, account := account, conn := some conn
        lastHeartbeatMs := now } ks) := timed_of_wheel h rfl rfl fun _ _ hid => hid
  have hhears : s.hears (.login conn account token now ks) = some (conn, now) := by
    simp [hears, hfiring]
  have hlogin : Beat s (.login conn account token now ks) (s.addSession conn
      { playerId := s.nextPlayerId, token := token, account := account, conn := some conn
        lastHeartbeatMs := now } ks) := by
    refine .hears (p := s.nextPlayerId) htimed hhears (fun hfresh => ?_) (fun q => ?_) rfl
    · simp only [commits, hfiring, decide_true, Bool.true_and, Option.isSome_eq_false_iff,
        Option.isNone_iff_eq_none] at hfresh
      exact .inl hfresh
    · simp only [pulse, addSession, UnorderedMap.lookup_reorder, UnorderedMap.lookup_insert_eq]
      split <;> rfl
  have hsend := steady_emit htimed.clocked
    (e := .send conn (.loginResp 0 s.nextPlayerId token)) rfl
  exact (hlogin.then hsend).then (steady_enqueue hsend.clocked _)

/-- The timer that `onReconnect` cancels is an expiry timer and not the sweep. -/
theorem beat_onReconnect {s : Lobby F} (hkeeps : Keeps s) (h : Clocked s) (hfiring : s.firing = [])
    (conn : Conn) (pid : ℕ) (token : String) (now : ℕ) :
    Beat s (.reconnect conn pid token now) (s.onReconnect conn pid token now) := by
  rcases onReconnect_cases s conn pid token now with ⟨hacc, heq⟩ | ⟨p, hacc, hp, -, hnone, heq⟩
  · rw [heq]
    have hsend := steady_emit h (e := .send conn (.loginResp 1 0 "")) rfl
    refine .refuse (hsend.toTimed.trans (timed_of_wheel hsend.clocked rfl rfl fun _ _ hid => hid))
      (c := conn) (by simp [refuses, hfiring, hacc]) (fun q => hsend.pulse q) ?_
    rw [reject, shuts_emit, hsend.shuts]
    rfl
  · rw [heq]
    obtain ⟨hne, t, node, hnode, hcb, -⟩ := hkeeps.away
      (show s.tenure pid = some (none, p.expireTimerId) by rw [tenure_eq hp, hnone])
    have hgone : ∀ t, ¬s.Sweep p.expireTimerId t := by
      rintro t ⟨node', hnode', hcb', -⟩
      obtain rfl := Option.some.inj (hnode.symm.trans hnode')
      cases hcb.symm.trans hcb'
    have hwheel : (s.rebindSession conn pid p now).wheel = s.wheel.cancel p.expireTimerId := by
      simp [rebindSession, hne]
    have htimed : Timed s (s.rebindSession conn pid p now) := by
      refine timed_discard h hgone ?_ ?_ ?_ ?_ fun _ _ hid => hid
      · rw [hwheel]
        exact h.ready.cancel _
      · rw [hwheel, TimerWheel.cancel_nowTick]
      · rw [hwheel, TimerWheel.cancel_nextId]
      · rw [hwheel]
        exact h.ready.rep.pending_cancel _
    have hbeat : Beat s (.reconnect conn pid token now) (s.rebindSession conn pid p now) := by
      have hhears : s.hears (.reconnect conn pid token now) = some (conn, now) := by
        simp [hears, hfiring, hacc]
      refine .hears (p := pid) htimed hhears (fun hfresh => ?_) (fun q => ?_) rfl
      · simp only [commits, hfiring, hacc, decide_true, Bool.true_and, Option.isSome_eq_false_iff,
          Option.isNone_iff_eq_none] at hfresh
        exact .inl hfresh
      · simp only [pulse, rebindSession, UnorderedMap.lookup_modify]
        split
        · next hq =>
            subst hq
            simp [hp]
        · rfl
    have hsend := steady_emit htimed.clocked (e := .send conn (.loginResp 0 p.playerId p.token)) rfl
    have hpost := steady_postToRoom hsend.clocked p (.rebind p.playerId (some conn))
    exact ((hbeat.then hsend).then hpost).then (steady_enqueue hpost.clocked _)

omit [Scalar F] in
theorem beat_onHeartbeat {s : Lobby F} (hbase : Base s) (h : Clocked s) (hfiring : s.firing = [])
    (conn : Conn) (clientMs : ℤ) (now : ℕ) :
    Beat s (.heartbeat conn clientMs now) (s.onHeartbeat conn clientMs now) := by
  unfold onHeartbeat
  cases hp : s.sessionOf conn with
  | none => exact .steady (steady_emit h rfl) ⟨by simp [hears, hp], rfl, rfl⟩
  | some p =>
      obtain ⟨hconn, hsess, hpc⟩ := sessionOf_some hbase.tables hp
      have htimed : Timed s { s with sessions := s.sessions.modify p.playerId fun p =>
          { p with lastHeartbeatMs := now } } := timed_of_wheel h rfl rfl fun _ _ hid => hid
      have hhears : s.hears (.heartbeat conn clientMs now) = some (conn, now) := by
        simp [hears, hfiring, hp]
      refine Beat.then (.hears htimed hhears (fun _ => .inr hconn) (fun q => ?_) rfl)
        (steady_emit htimed.clocked rfl)
      simp only [pulse, UnorderedMap.lookup_modify]
      split
      · next hq =>
          subst hq
          simp [hsess, hpc]
      · rfl

theorem beat_onDisconnect {s : Lobby F} (hbase : Base s) (h : Clocked s) (conn : Conn) :
    Beat s (.disconnect conn) (s.onDisconnect conn) := by
  have hmute : s.Mute (.disconnect conn) := ⟨rfl, rfl, rfl⟩
  rcases onDisconnect_cases hbase conn with heq | ⟨pid, p, -, hp, -, heq⟩
  · rw [heq]
    exact .steady (.refl h) hmute
  · rw [heq]
    have htimed : Timed s (s.unbindSession conn pid p) := by
      unfold unbindSession
      split <;> exact timed_of_wheel h rfl rfl fun _ _ hid => hid
    have hunbind : Beat s (.disconnect conn) (s.unbindSession conn pid p) := by
      have hnone : ∀ c t, (some (none, p.lastHeartbeatMs) : Option (Option Conn × ℕ)) ≠
          some (some c, t) := by simp
      refine .gone (p := pid) htimed hmute (fun q => ?_) hnone ?_
      · rw [pulse, lookup_unbindSession]
        split
        · next hq =>
            subst hq
            simp [hp]
        · simp [pulse]
      · unfold unbindSession
        split <;> rfl
    have hpost := steady_postToRoom htimed.clocked p (.dropConn pid)
    have hexpiry : Steady ((s.unbindSession conn pid p).postToRoom p (.dropConn pid))
        (((s.unbindSession conn pid p).postToRoom p (.dropConn pid)).scheduleExpiry pid) :=
      ⟨timed_add hpost.clocked (c := .expireSession pid) (by simp) rfl rfl
        fun _ _ hid => .inl hid, pulse_modify pid (fun x => { x with expireTimerId :=
          (((s.unbindSession conn pid p).postToRoom p (.dropConn pid)).wheel.add kSessionKeepMs
            (TimerCb.expireSession pid)).2 }) rfl fun _ => rfl, rfl⟩
    exact ((hunbind.then hpost).then hexpiry).then (steady_enqueue hexpiry.clocked _)

omit [Scalar F] in
theorem shuts_sweepHeartbeats (s : Lobby F) (now : ℕ) :
    (s.sweepHeartbeats now).shuts = s.shuts ++ s.overdue now := by
  simp only [shuts, sweepHeartbeats, List.filterMap_append, List.filterMap_filterMap, overdue]
  congr 2
  funext e
  cases e.2.conn with
  | none => rfl
  | some c =>
      simp only [Option.filter]
      split <;> rfl

/-- The sweep takes itself out of the wheel and puts itself in again. -/
theorem beat_sweep {s : Lobby F} (h : Clocked s) {n : ℕ} {rest : List NodePtr}
    {node : Node TimerCb} {w : TimerWheel TimerCb} (now : ℕ) (hfiring : s.firing = n :: rest)
    (htake : s.wheel.take n = some (node, w)) (hcb : node.cb = .sweep) :
    Beat s (.fireNext now)
      (({ s with firing := rest, wheel := w } : Lobby F).call now .sweep) := by
  obtain ⟨hnode, hdue, hready, hnow, hnext, hpending⟩ := (hfiring ▸ h.ready).take_some htake
  have htaken : Clocked { s with firing := rest, wheel := w } :=
    clocked_discard h hready hnext hpending fun _ _ hid => hid
  have hswept : Clocked (({ s with firing := rest, wheel := w } : Lobby F).sweepHeartbeats now) :=
    ⟨htaken.ready, htaken.matching⟩
  have hsweeps : s.sweepsAt (.fireNext now) = some now := by
    simp [sweepsAt, nextCallback, hfiring, htake, hcb]
  refine .sweep (n := n) hsweeps (clocked_add hswept rfl rfl fun _ _ hid => .inl hid) ?_
    ⟨node, hnode, hcb, hdue⟩ (fun id t => ?_) (fun _ => rfl)
    (shuts_sweepHeartbeats { s with firing := rest, wheel := w } now)
  · exact (TimerWheel.add_nowTick ..).trans hnow
  · refine (sweep_add hswept rfl id t).trans (or_congr (sweep_discard hpending id t) ?_)
    simp only [sweepHeartbeats, hnext, hnow, true_and,
      TimerWheel.expiryOf_eq (show kSweepIntervalMs ≤ 409500 by decide)]
    rfl

theorem beat_fireNext {s : Lobby F} (hkeeps : Keeps s) (h : Clocked s) (now : ℕ) :
    Beat s (.fireNext now) (s.fireNext now) := by
  cases hfiring : s.firing with
  | nil =>
      have hself : s.fireNext now = s := by simp [fireNext, hfiring]
      rw [hself]
      exact .steady (.refl h) ⟨rfl, rfl, by simp [sweepsAt, nextCallback, hfiring]⟩
  | cons n rest =>
      cases htake : s.wheel.take n with
      | none =>
          have heq : s.fireNext now = { s with firing := rest } := by
            simp [fireNext, hfiring, htake]
          rw [heq]
          rcases (hfiring ▸ h.ready).take with ⟨-, -, hready⟩ | ⟨node, -, -, htake', -⟩
          · exact .steady ⟨⟨⟨hready, h.matching⟩, rfl, fun _ _ => Iff.rfl⟩, fun _ => rfl, rfl⟩
              ⟨rfl, rfl, by simp [sweepsAt, nextCallback, hfiring, htake]⟩
          · rw [htake] at htake'
            cases htake'
      | some taken =>
          obtain ⟨node, w⟩ := taken
          have heq : s.fireNext now =
              ({ s with firing := rest, wheel := w } : Lobby F).call now node.cb := by
            simp [fireNext, hfiring, htake]
          rw [heq]
          by_cases hcb : node.cb = .sweep
          · rw [hcb]
            exact beat_sweep h now hfiring htake hcb
          obtain ⟨hnode, -, hready, hnow, hnext, hpending⟩ :=
            (hfiring ▸ h.ready).take_some htake
          have hmute : s.Mute (.fireNext now) :=
            ⟨rfl, rfl, by simp [sweepsAt, nextCallback, hfiring, htake, hcb]⟩
          have htaken : Steady s { s with firing := rest, wheel := w } := by
            refine ⟨timed_discard h (fun t => ?_) hready hnow hnext hpending fun _ _ hid => hid,
              fun _ => rfl, rfl⟩
            rintro ⟨node', hnode', hcb', -⟩
            obtain rfl := Option.some.inj (hnode.symm.trans hnode')
            exact hcb hcb'
          cases hcb' : node.cb with
          | sweep => exact absurd hcb' hcb
          | matchTimeout pid =>
              exact .steady (htaken.trans (steady_matchTimeout htaken.clocked pid)) hmute
          | expireSession pid =>
              obtain ⟨p, hp, hpn⟩ := Option.map_eq_some_iff.mp
                (hkeeps.only ⟨node, hnode, hcb', rfl⟩)
              have hnone : p.conn = none := (Prod.mk.inj hpn).1
              simp only [call, expireSession, hp, hnone, Option.isSome_none, Bool.false_eq_true,
                if_false]
              have hpost := htaken.trans (steady_postToRoom htaken.clocked p
                (.forceEnd (opponent pid p.roomId { s with firing := rest, wheel := w })))
              have hnever : ∀ c t, (none : Option (Option Conn × ℕ)) ≠ some (some c, t) := by simp
              refine .gone (p := pid) (hpost.toTimed.trans
                (timed_of_wheel hpost.clocked rfl rfl fun _ _ hid => hid)) hmute (fun q => ?_)
                hnever hpost.shuts
              have hq := hpost.pulse q
              simp only [pulse, eraseSession, UnorderedMap.lookup_erase_eq] at hq ⊢
              split
              · rfl
              · exact hq

theorem mute_of_busy {s : Lobby F} {e : LobbyEvent F} (he : e.waits = true)
    (hfiring : s.firing ≠ []) : s.Mute e ∧ s.step e = s := by
  cases e with
  | login | reconnect | matchReq | input | heartbeat | disconnect | roomEnd | wheelTick =>
      simp [Mute, hears, refuses, sweepsAt, Lobby.step, hfiring]
  | leaderboard | fireNext | roomTask | roomTick | storeTask => cases he

theorem step_beat {s : Lobby F} (hbase : Base s) (hkeeps : Keeps s) (h : Clocked s)
    (e : LobbyEvent F) : Beat s e (s.step e) := by
  by_cases hbusy : e.waits = true ∧ s.firing ≠ []
  · obtain ⟨hmute, hself⟩ := mute_of_busy hbusy.1 hbusy.2
    rw [hself]
    exact .steady (.refl h) hmute
  have hidle : e.waits = true → s.firing = [] := fun he => by
    by_contra hne
    exact hbusy ⟨he, hne⟩
  have hquiet : s.Mute e → Steady s (s.handle e) → Beat s e (s.step e) := by
    intro hmute hsteady
    rcases step_cases s e with hself | ⟨-, hstep⟩
    · rw [hself]
      exact .steady (.refl h) hmute
    · rw [hstep]
      exact .steady hsteady hmute
  cases e with
  | login conn account token now ks =>
      rw [step_of_waits rfl (hidle rfl)]
      exact beat_onLogin h (hidle rfl) conn account token now ks
  | reconnect conn pid token now =>
      rw [step_of_waits rfl (hidle rfl)]
      exact beat_onReconnect hkeeps h (hidle rfl) conn pid token now
  | heartbeat conn clientMs now =>
      rw [step_of_waits rfl (hidle rfl)]
      exact beat_onHeartbeat hbase h (hidle rfl) conn clientMs now
  | disconnect conn =>
      rw [step_of_waits rfl (hidle rfl)]
      exact beat_onDisconnect hbase h conn
  | fireNext now => exact beat_fireNext hkeeps h now
  | matchReq conn ks => exact hquiet ⟨rfl, rfl, rfl⟩ (steady_onMatch h ks conn)
  | input conn input =>
      refine hquiet ⟨rfl, rfl, rfl⟩ ?_
      simp only [handle, onInput]
      split
      · exact .refl h
      · exact steady_postToRoom h _ _
  | leaderboard conn topN =>
      refine hquiet ⟨rfl, rfl, rfl⟩ ?_
      simp only [handle, onLeaderboard]
      split
      · exact steady_enqueue h _
      · exact steady_emit h rfl
  | roomEnd =>
      refine hquiet ⟨rfl, rfl, rfl⟩ ?_
      simp only [handle, handleRoomEnd]
      split
      · exact .refl h
      · next r w rest _ =>
          have htaken : Steady s { s with roomEnds := rest } :=
            steady_of_wheel h rfl rfl (fun _ _ hid => hid) (fun _ => rfl) rfl
          exact htaken.trans (steady_onRoomEnd htaken.clocked r w)
  | wheelTick =>
      rw [step_of_waits rfl (hidle rfl)]
      have hready := h.ready
      rw [hidle rfl] at hready
      obtain ⟨hready', hnow, hnext, hpending⟩ := hready.beginStep
      have hsweep : ∀ id t, s.wheelTick.Sweep id t ↔ s.Sweep id t := by
        intro id t
        simp only [Lobby.Sweep, Lobby.wheelTick, hpending]
      refine .tick ⟨rfl, rfl, rfl⟩ (hidle rfl) ⟨hready', fun p id hid => ?_⟩ hnow hsweep
        (fun _ => rfl) rfl
      obtain ⟨hlt, hnone⟩ := h.matching p id hid
      exact ⟨hnext ▸ hlt, fun t ht => hnone t ((hsweep id t).mp ht)⟩
  | roomTask r =>
      refine hquiet ⟨rfl, rfl, rfl⟩ ?_
      simp only [handle, Lobby.roomTask]
      split
      · exact .refl h
      · split
        · exact .refl h
        · have hmail : ∀ f : RoomCell F → RoomCell F, Steady s (s.modifyCell r f) := fun _ =>
            steady_of_wheel h rfl rfl (fun _ _ hid => hid) (fun _ => rfl) rfl
          exact (hmail _).trans (steady_runRoom (hmail _).clocked r _)
  | roomTick r ks =>
      refine hquiet ⟨rfl, rfl, rfl⟩ ?_
      simp only [handle, Lobby.roomTick]
      split
      · exact .refl h
      · split
        · exact steady_runRoom h r _
        · exact .refl h
  | storeTask top => exact hquiet ⟨rfl, rfl, rfl⟩ (steady_storeTask h top)

omit [Scalar F] in
theorem Beat.clocked {s s' : Lobby F} {e : LobbyEvent F} (h : Beat s e s') : Clocked s' := by
  cases h with
  | steady h | hears h | gone h | refuse h => exact h.clocked
  | tick | sweep => assumption

/-! ### When the sweep comes -/

def sweepTicks : ℕ := kSweepIntervalMs / Timer.kTickMs

theorem sweepTicks_eq : sweepTicks = 50 := rfl

/-- The sweeps that a run makes. -/
def Lobby.sweepCount : Lobby F → List (LobbyEvent F) → ℕ
  | _, [] => 0
  | s, e :: es => (s.sweepsAt e).toList.length + sweepCount (s.step e) es

theorem sweepCount_concat (s : Lobby F) (es : List (LobbyEvent F)) (e : LobbyEvent F) :
    s.sweepCount (es ++ [e]) =
      s.sweepCount es + ((es.foldl Lobby.step s).sweepsAt e).toList.length := by
  induction es generalizing s with
  | nil => simp [sweepCount]
  | cons e' es ih => simp [sweepCount, ih, Nat.add_assoc]

/-- After `k` sweeps there is one timer that sweeps, and it is due at tick
`50 (k + 1)`. -/
structure OnBeat (k : ℕ) (s : Lobby F) : Prop where
  clocked : Clocked s
  due : ∃ id, ∀ j t, s.Sweep j t ↔ j = id ∧ t = sweepTicks * (k + 1)
  reached : sweepTicks * k ≤ s.wheel.nowTick

omit [Scalar F] in
theorem OnBeat.timed {s s' : Lobby F} {k : ℕ} (h : OnBeat k s) (htimed : Timed s s') :
    OnBeat k s' := by
  obtain ⟨id, hid⟩ := h.due
  exact ⟨htimed.clocked, ⟨id, fun j t => (htimed.sweep j t).trans (hid j t)⟩,
    htimed.now ▸ h.reached⟩

omit [Scalar F] in
theorem sweepsAt_of_refuses {s : Lobby F} {e : LobbyEvent F} {c : Conn}
    (h : s.refuses e = some c) : s.sweepsAt e = none := by
  cases e with
  | reconnect => rfl
  | _ => cases h

omit [Scalar F] in
theorem sweepsAt_of_hears {s : Lobby F} {e : LobbyEvent F} {w : Conn × ℕ}
    (h : s.hears e = some w) : s.sweepsAt e = none := by
  cases e with
  | login | reconnect | heartbeat => rfl
  | _ => cases h

omit [Scalar F] in
theorem OnBeat.beat {s s' : Lobby F} {e : LobbyEvent F} {k : ℕ} (h : OnBeat k s)
    (hbeat : Beat s e s') : OnBeat (k + (s.sweepsAt e).toList.length) s' := by
  obtain ⟨id, hid⟩ := h.due
  cases hbeat with
  | steady hsteady hmute =>
      rw [hmute.2.2]
      exact h.timed hsteady.toTimed
  | tick hmute _ hclocked hnow hsweep =>
      rw [hmute.2.2]
      have hreached := h.reached
      exact ⟨hclocked, ⟨id, fun j t => (hsweep j t).trans (hid j t)⟩, by
        simp only [Option.toList_none, List.length_nil, Nat.add_zero]
        omega⟩
  | hears htimed hhears =>
      rw [sweepsAt_of_hears hhears]
      exact h.timed htimed
  | gone htimed hmute =>
      rw [hmute.2.2]
      exact h.timed htimed
  | refuse htimed hrefuses =>
      rw [sweepsAt_of_refuses hrefuses]
      exact h.timed htimed
  | @sweep now n hsweeps hclocked hnow hdue hsweep =>
      obtain ⟨rfl, htick⟩ := (hid n _).mp hdue
      rw [hsweeps]
      refine ⟨hclocked, ⟨s.wheel.nextId, fun j t => ?_⟩, by rw [hnow, htick]; exact le_rfl⟩
      -- the only sweep there was is gone
      have hnone : ¬(s.Sweep j t ∧ j ≠ n) := fun ⟨hj, hne⟩ => hne ((hid j t).mp hj).1
      rw [hsweep, or_iff_right hnone, htick]
      simp [sweepTicks_eq, kSweepIntervalMs, Timer.kTickMs]
      omega

omit [Scalar F] in
theorem onBeat_init (gameThreads : ℕ) (writer : Bool) :
    OnBeat 0 (Lobby.init gameThreads writer : Lobby F) := by
  have hempty : Clocked ({ gameThreads := gameThreads, writer := writer } : Lobby F) :=
    ⟨TimerWheel.ready_init, by simp⟩
  have hwheel : (Lobby.init gameThreads writer : Lobby F).wheel =
      (({} : TimerWheel TimerCb).add kSweepIntervalMs .sweep).1 := rfl
  refine ⟨clocked_add hempty hwheel rfl fun _ _ hid => .inl hid,
    ⟨1, fun j t => (sweep_add hempty hwheel j t).trans ?_⟩, by simp [sweepTicks_eq]⟩
  have hnone : ¬({ gameThreads := gameThreads, writer := writer } : Lobby F).Sweep j t := by
    rintro ⟨node, hnode, -⟩
    simp [TimerWheel.pending] at hnode
  rw [or_iff_right hnone, TimerWheel.expiryOf_eq (by decide)]
  simp [sweepTicks_eq, kSweepIntervalMs]

theorem onBeat_run (gameThreads : ℕ) (writer : Bool) (es : List (LobbyEvent F)) :
    OnBeat ((Lobby.init gameThreads writer).sweepCount es) (Lobby.run gameThreads writer es) := by
  induction es using List.reverseRecOn with
  | nil => exact onBeat_init gameThreads writer
  | append_singleton es e ih =>
      rw [sweepCount_concat, run_concat]
      exact ih.beat (step_beat (base_run gameThreads writer es) (keeps_run gameThreads writer es)
        ih.clocked e)

/-- The `k`-th sweep runs in tick `50 k`, whatever else happens: none is lost,
none comes twice, and the sweeps do not drift. -/
theorem sweeps_keep_time (gameThreads : ℕ) (writer : Bool) (es : List (LobbyEvent F)) :
    ((Lobby.run gameThreads writer es).firing = [] →
      (Lobby.init gameThreads writer).sweepCount es =
        (Lobby.run gameThreads writer es).wheel.nowTick / sweepTicks) ∧
    ((Lobby.run gameThreads writer es).nextCallback = some .sweep →
      (Lobby.run gameThreads writer es).wheel.nowTick =
        sweepTicks * ((Lobby.init gameThreads writer).sweepCount es + 1)) := by
  have h := onBeat_run gameThreads writer es
  obtain ⟨id, hid⟩ := h.due
  constructor
  · intro hfiring
    obtain ⟨node, hnode, hcb, ht⟩ := (hid id _).mpr ⟨rfl, rfl⟩
    rcases h.clocked.ready.pending_expiry hnode with ⟨hmem, -⟩ | hlt
    · rw [hfiring] at hmem
      cases hmem
    · have hreached := h.reached
      rw [sweepTicks_eq] at *
      omega
  · intro hnext
    obtain ⟨⟨node, w⟩, htaken, hcb⟩ := Option.map_eq_some_iff.mp hnext
    obtain ⟨n, hn, htake⟩ := Option.bind_eq_some_iff.mp htaken
    obtain ⟨rest, hfiring⟩ := List.head?_eq_some_iff.mp hn
    have hready := h.clocked.ready
    rw [hfiring] at hready
    obtain ⟨hnode, hdue, -⟩ := hready.take_some htake
    exact ((hid n _).mp ⟨node, hnode, hcb, hdue⟩).2

/-! ### Whom the sweep finds silent -/

/-- The value of `nowMs()` when the event is handled. -/
def LobbyEvent.clock : LobbyEvent F → Option ℕ
  | .login _ _ _ now _ | .reconnect _ _ _ now | .heartbeat _ _ now | .fireNext now => some now
  | _ => none

/-- When connection `c` is heard from in this event. -/
def Lobby.word (s : Lobby F) (c : Conn) (e : LobbyEvent F) : Option ℕ :=
  (s.hears e).bind fun w => if w.1 = c then some w.2 else none

/-- When a run has last heard from connection `c`. -/
def Lobby.lastWord (c : Conn) : Lobby F → List (LobbyEvent F) → Option ℕ
  | _, [] => none
  | s, e :: es => (lastWord c (s.step e) es).or (s.word c e)

theorem lastWord_concat (c : Conn) (s : Lobby F) (es : List (LobbyEvent F)) (e : LobbyEvent F) :
    s.lastWord c (es ++ [e]) = ((es.foldl Lobby.step s).word c e).or (s.lastWord c es) := by
  induction es generalizing s with
  | nil => simp [lastWord]
  | cons e' es ih => simp [lastWord, ih, Option.or_assoc]

omit [Scalar F] in
theorem clock_of_word {s : Lobby F} {c : Conn} {e : LobbyEvent F} {t : ℕ}
    (h : s.word c e = some t) : e.clock = some t := by
  obtain ⟨w, hw, ht⟩ := Option.bind_eq_some_iff.mp h
  split at ht
  · obtain rfl := Option.some.inj ht
    cases e with
    | login | reconnect | heartbeat =>
        simp only [hears] at hw
        split at hw
        · rw [← Option.some.inj hw]
          rfl
        · cases hw
    | _ => cases hw
  · cases ht

theorem mem_clock_of_lastWord {c : Conn} {s : Lobby F} {es : List (LobbyEvent F)} {t : ℕ}
    (h : s.lastWord c es = some t) : t ∈ es.filterMap LobbyEvent.clock := by
  induction es generalizing s with
  | nil => cases h
  | cons e es ih =>
      rw [List.mem_filterMap]
      rcases Option.or_eq_some_iff.mp h with hlast | ⟨-, hword⟩
      · obtain ⟨e', he', ht⟩ := List.mem_filterMap.mp (ih hlast)
        exact ⟨e', List.mem_cons_of_mem _ he', ht⟩
      · exact ⟨e, List.mem_cons_self .., clock_of_word hword⟩

/-- The sessions know when their connections were last heard from. -/
def Heard (last : Conn → Option ℕ) (s : Lobby F) : Prop :=
  ∀ p c t, s.pulse p = some (some c, t) → last c = some t

omit [Scalar F] in
theorem hears_of_refuses {s : Lobby F} {e : LobbyEvent F} {c : Conn}
    (h : s.refuses e = some c) : s.hears e = none := by
  cases e with
  | reconnect conn pid token now =>
      simp only [refuses, hears] at h ⊢
      cases hacc : s.accepts pid token with
      | true => simp [hacc] at h
      | false => simp
  | _ => cases h

omit [Scalar F] in
theorem hears_of_sweepsAt {s : Lobby F} {e : LobbyEvent F} {now : ℕ}
    (h : s.sweepsAt e = some now) : s.hears e = none := by
  cases e with
  | fireNext => rfl
  | _ => cases h

omit [Scalar F] in
/-- A connection that is heard from is that of one session only, so the word
of another session's connection is not touched. -/
theorem Heard.beat {last : Conn → Option ℕ} {s s' : Lobby F} {e : LobbyEvent F}
    (h : Heard last s) (hlinks : Bindings s) (hbind : s.commits e .bindsTwice = false)
    (hbeat : Beat s e s') : Heard (fun c => (s.word c e).or (last c)) s' := by
  have hsame : s.hears e = none → (∀ p c t, s'.pulse p = some (some c, t) →
      s.pulse p = some (some c, t)) → Heard (fun c => (s.word c e).or (last c)) s' := by
    intro hnone hpulse p c t hp
    simp [word, hnone, h p c t (hpulse p c t hp)]
  cases hbeat with
  | steady hsteady hmute => exact hsame hmute.1 fun p c t hp => (hsteady.pulse p).symm.trans hp
  | tick hmute _ _ _ _ hpulse => exact hsame hmute.1 fun p c t hp => (hpulse p).symm.trans hp
  | gone _ hmute hpulse hnone =>
      refine hsame hmute.1 fun p c t hp => ?_
      rw [hpulse] at hp
      split at hp
      · exact absurd hp (hnone c t)
      · exact hp
  | refuse _ hrefuses hpulse =>
      exact hsame (hears_of_refuses hrefuses) fun p c t hp => (hpulse p).symm.trans hp
  | sweep hsweeps _ _ _ _ hpulse =>
      exact hsame (hears_of_sweepsAt hsweeps) fun p c t hp => (hpulse p).symm.trans hp
  | @hears p₀ now c₀ _ hhears hlink hpulse =>
      intro p c t hp
      rw [hpulse] at hp
      split at hp
      · obtain ⟨hc, rfl⟩ := Prod.mk.inj (Option.some.inj hp)
        obtain rfl := Option.some.inj hc
        simp [word, hhears]
      · next hne =>
          obtain ⟨x, hx, hxc⟩ := Option.map_eq_some_iff.mp hp
          have hbound := hlinks p x c hx (Prod.mk.inj hxc).1
          have hcc : c₀ ≠ c := by
            rintro rfl
            rcases hlink hbind with hfree | htaken
            · rw [hfree] at hbound
              cases hbound
            · exact hne (Option.some.inj (hbound.symm.trans htaken))
          simp [word, hhears, hcc, h p c t hp]

theorem bindings_run (gameThreads : ℕ) (writer : Bool) {es : List (LobbyEvent F)}
    (hok : Along Lobby.step (fun s e => s.commits e .bindsTwice = false)
      (Lobby.init gameThreads writer) es) : Bindings (Lobby.run gameThreads writer es) := by
  refine invariant_moves (φ := (· ≠ .bindsTwice)) (I := Bindings) ?_
    (fun s s' hbase h hmove => h.move (by simp) hbase hmove) (hok.mono fun s e hno deed hf => ?_)
  · intro p x c hx
    simp [Lobby.init, scheduleSweep] at hx
  · rintro rfl
    rw [hno] at hf
    cases hf

theorem heard_run (gameThreads : ℕ) (writer : Bool) {es : List (LobbyEvent F)}
    (hok : Along Lobby.step (fun s e => s.commits e .bindsTwice = false)
      (Lobby.init gameThreads writer) es) :
    Heard (fun c => (Lobby.init gameThreads writer).lastWord c es)
      (Lobby.run gameThreads writer es) := by
  induction es using List.reverseRecOn with
  | nil =>
      intro p c t hp
      simp [Lobby.run, Lobby.init, scheduleSweep, pulse] at hp
  | append_singleton es e ih =>
      obtain ⟨hprev, hlast, -⟩ := along_append.mp hok
      have hbeat := step_beat (base_run gameThreads writer es) (keeps_run gameThreads writer es)
        (onBeat_run gameThreads writer es).clocked e
      have hstep := (ih hprev).beat (bindings_run gameThreads writer hprev) hlast hbeat
      rw [run_concat]
      intro p c t hp
      dsimp only
      rw [lastWord_concat]
      exact hstep p c t hp

omit [Scalar F] in
/-- The subtraction of the source, for a clock that does not go backwards. -/
theorem silent_iff {now : ℕ} {p : Session} (hle : p.lastHeartbeatMs ≤ now) (hlt : now < 2 ^ 64) :
    silent now p = true ↔ p.lastHeartbeatMs + kHeartbeatTimeoutMs < now := by
  have hsub : (now + (2 ^ 64 - p.lastHeartbeatMs)) % 2 ^ 64 = now - p.lastHeartbeatMs := by
    omega
  rw [silent, hsub, decide_eq_true_iff]
  omega

omit [Scalar F] in
theorem mem_overdue {s : Lobby F} {now : ℕ} {c : Conn} :
    c ∈ s.overdue now ↔ ∃ p x, s.sessions.lookup p = some x ∧ x.conn = some c ∧
      silent now x = true := by
  simp only [overdue, List.mem_filterMap, Option.filter_eq_some_iff]
  constructor
  · rintro ⟨⟨p, x⟩, hmem, hc, hsilent⟩
    exact ⟨p, x, UnorderedMap.mem_entries_iff.mp hmem, hc, hsilent⟩
  · rintro ⟨p, x, hx, hc, hsilent⟩
    exact ⟨⟨p, x⟩, UnorderedMap.mem_entries_iff.mpr hx, hc, hsilent⟩

omit [Scalar F] in
theorem nodup_overdue {s : Lobby F} (h : Bindings s) (now : ℕ) : (s.overdue now).Nodup := by
  have hkeys := List.Pairwise.and_mem.mp (List.nodupKeys_iff_pairwise.mp s.sessions.nodupKeys)
  refine hkeys.filterMap _ fun x y hxy c hc c' hc' heq => ?_
  obtain ⟨hx, hy, hne⟩ := hxy
  subst heq
  exact hne (h.single (UnorderedMap.mem_entries_iff.mp hx) (UnorderedMap.mem_entries_iff.mp hy)
    (Option.filter_eq_some_iff.mp hc).1 (Option.filter_eq_some_iff.mp hc').1)

/-- Whom the lobby shuts down, in any run on a clock that does not go
backwards and in which no connection is bound that is bound already: whoever
is refused a reconnect, and in a sweep every connection of a session that was
last heard from more than ten seconds ago, once each. -/
theorem shuts_the_silent (gameThreads : ℕ) (writer : Bool) (es : List (LobbyEvent F))
    (e : LobbyEvent F) (hmono : ((es ++ [e]).filterMap LobbyEvent.clock).Pairwise (· ≤ ·))
    (hrange : ∀ t ∈ (es ++ [e]).filterMap LobbyEvent.clock, t < 2 ^ 64)
    (hok : Along Lobby.step (fun s e => s.commits e .bindsTwice = false)
      (Lobby.init gameThreads writer) es) :
    let s := Lobby.run gameThreads writer es
    ∃ more : List Conn, (s.step e).shuts = s.shuts ++ more ∧ more.Nodup ∧
      ∀ c, c ∈ more ↔ s.refuses e = some c ∨
        ∃ now t, s.sweepsAt e = some now ∧ (s.connToPlayer.lookup c).isSome ∧
          (Lobby.init gameThreads writer).lastWord c es = some t ∧
          t + kHeartbeatTimeoutMs < now := by
  intro s
  have hbase : Base s := base_run gameThreads writer es
  have hlinks : Bindings s := bindings_run gameThreads writer hok
  have hheard : Heard (fun c => (Lobby.init gameThreads writer).lastWord c es) s :=
    heard_run gameThreads writer hok
  have hquiet : (s.step e).shuts = s.shuts → s.refuses e = none → s.sweepsAt e = none →
      ∃ more : List Conn, (s.step e).shuts = s.shuts ++ more ∧ more.Nodup ∧
        ∀ c, c ∈ more ↔ s.refuses e = some c ∨ ∃ now t, s.sweepsAt e = some now ∧
          (s.connToPlayer.lookup c).isSome ∧
          (Lobby.init gameThreads writer).lastWord c es = some t ∧
          t + kHeartbeatTimeoutMs < now := by
    intro hshuts hrefuses hsweeps
    exact ⟨[], by simpa using hshuts, List.nodup_nil, by simp [hrefuses, hsweeps]⟩
  cases step_beat hbase (keeps_run gameThreads writer es)
    (onBeat_run gameThreads writer es).clocked e with
  | steady hsteady hmute => exact hquiet hsteady.shuts hmute.2.1 hmute.2.2
  | tick hmute _ _ _ _ _ hshuts => exact hquiet hshuts hmute.2.1 hmute.2.2
  | hears _ hhears _ _ hshuts =>
      have hrefuses : s.refuses e = none := by
        by_contra hne
        obtain ⟨c, hc⟩ := Option.ne_none_iff_exists'.mp hne
        rw [hears_of_refuses hc] at hhears
        cases hhears
      exact hquiet hshuts hrefuses (sweepsAt_of_hears hhears)
  | gone _ hmute _ _ hshuts => exact hquiet hshuts hmute.2.1 hmute.2.2
  | @refuse c₀ _ hrefuses _ hshuts =>
      refine ⟨[c₀], hshuts, List.nodup_singleton c₀, fun c => ?_⟩
      rw [hrefuses, sweepsAt_of_refuses hrefuses, List.mem_singleton, Option.some.injEq]
      simp only [reduceCtorEq, false_and, exists_false, or_false]
      exact eq_comm
  | @sweep now n hsweeps _ _ _ _ _ hshuts =>
      have hrefuses : s.refuses e = none := by
        by_contra hne
        obtain ⟨c, hc⟩ := Option.ne_none_iff_exists'.mp hne
        rw [sweepsAt_of_refuses hc] at hsweeps
        cases hsweeps
      have hclock : e.clock = some now := by
        cases e with
        | fireNext now' =>
            simp only [sweepsAt] at hsweeps
            split at hsweeps
            · exact hsweeps
            · cases hsweeps
        | _ => cases hsweeps
      have hnow : now < 2 ^ 64 := hrange now (by simp [hclock])
      have hlast : ∀ {p x c}, s.sessions.lookup p = some x → x.conn = some c →
          (Lobby.init gameThreads writer).lastWord c es = some x.lastHeartbeatMs ∧
            x.lastHeartbeatMs ≤ now := by
        intro p x c hx hc
        have hword := hheard p c x.lastHeartbeatMs (by rw [pulse_eq hx, hc])
        refine ⟨hword, ?_⟩
        rw [List.filterMap_append, List.pairwise_append] at hmono
        exact hmono.2.2 _ (mem_clock_of_lastWord hword) now (by simp [hclock])
      refine ⟨s.overdue now, hshuts, nodup_overdue hlinks now, fun c => ?_⟩
      rw [mem_overdue]
      simp only [hrefuses, hsweeps, reduceCtorEq, false_or, Option.some.injEq]
      constructor
      · rintro ⟨p, x, hx, hc, hsilent⟩
        obtain ⟨hword, hle⟩ := hlast hx hc
        exact ⟨now, x.lastHeartbeatMs, rfl, by simp [hlinks p x c hx hc], hword,
          (silent_iff hle hnow).mp hsilent⟩
      · rintro ⟨_, t, rfl, hbound, hword, hlate⟩
        obtain ⟨p, hp⟩ := Option.isSome_iff_exists.mp hbound
        obtain ⟨x, hx, hc⟩ := hbase.tables.bound hp
        have hx : s.sessions.lookup p = some x := hx
        obtain ⟨hword', hle⟩ := hlast hx hc
        obtain rfl := Option.some.inj (hword.symm.trans hword')
        exact ⟨p, x, hx, hc, (silent_iff hle hnow).mpr hlate⟩

/-- A player that logs in at 0 and is silent, and one that sends a heartbeat
at 4000, when the third sweep reads 15000; a reconnect has been refused before. -/
def oneSilent : List (LobbyEvent (Ext ℚ)) :=
  [.login 1 "alice" "t" 0 [], .login 2 "bob" "u" 0 [1], .reconnect 3 1 "x" 1000] ++
    List.replicate 50 .wheelTick ++ [.fireNext 5000, .heartbeat 2 0 6000] ++
    List.replicate 50 .wheelTick ++ [.fireNext 10000] ++ List.replicate 50 .wheelTick

theorem shuts_the_silent_oneSilent :
    ∃ more : List Conn, ((Lobby.run 2 true oneSilent).step (.fireNext 15000)).shuts =
      (Lobby.run 2 true oneSilent).shuts ++ more ∧ 1 ∈ more ∧ 2 ∉ more := by
  have hmono : ((oneSilent ++ [LobbyEvent.fireNext 15000]).filterMap
      LobbyEvent.clock).Pairwise (· ≤ ·) := by
    decide +kernel
  have hrange : ∀ t ∈ (oneSilent ++ [LobbyEvent.fireNext 15000]).filterMap LobbyEvent.clock,
      t < 2 ^ 64 := by
    decide +kernel
  have hok : Along Lobby.step (fun s e => s.commits e .bindsTwice = false) (Lobby.init 2 true)
      oneSilent := by
    decide +kernel
  obtain ⟨more, hshuts, -, hmem⟩ :=
    shuts_the_silent 2 true oneSilent (.fireNext 15000) hmono hrange hok
  refine ⟨more, hshuts, (hmem 1).mpr (.inr ⟨15000, 0, ?_⟩), fun hin => ?_⟩
  · decide +kernel
  · rcases (hmem 2).mp hin with hrefused | ⟨now, t, hnow, -, hword, hlate⟩
    · revert hrefused
      decide +kernel
    · have hnow' : now = 15000 := by
        have hat : (Lobby.run 2 true oneSilent).sweepsAt (.fireNext 15000) = some 15000 := by
          decide +kernel
        exact Option.some.inj (hnow.symm.trans hat)
      have hword' : (Lobby.init 2 true).lastWord 2 oneSilent = some 6000 := by decide +kernel
      obtain rfl := Option.some.inj (hword.symm.trans hword')
      simp [hnow', kHeartbeatTimeoutMs] at hlate

/-- Without the last condition it fails: the first session of a connection that
logs in twice is never heard from again, and the connection is shut down in
spite of its heartbeats. -/
example : (Lobby.run 2 true ([.login 1 "alice" "t" 0 [], .login 1 "alice" "u" 0 []] ++
    List.replicate 50 .wheelTick ++ [.fireNext 5000] ++ List.replicate 50 .wheelTick ++
    [.fireNext 10000, .heartbeat 1 0 14000] ++ List.replicate 50 .wheelTick ++
    [.fireNext 15000] : List (LobbyEvent (Ext ℚ)))).shuts = [1] := by
  decide +kernel

end GameServer.Game
