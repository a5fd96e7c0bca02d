import GameServer.Game.LobbyStep
import GameServer.Timer.Pending

/-!
Match timers and the match queue.

`onMatch` starts a timer when a player enters the queue. Pairing cancels it,
and when it fires the player leaves the queue. `onDisconnect` takes a player
out of the queue as well, but leaves the timer running. In runs in which that
does not happen the players in the queue are exactly those with a pending
match timer, and each has one, started when the player was last pushed.
Otherwise an old timer outlives its place in the queue, and ends the next one
early.
-/

namespace GameServer.Game

open GameServer.Lib GameServer.Proto GameServer.Timer
open Lobby

variable {F : Type}

/-! ### The last push -/

def Entry.queuedTick (p : ℕ) : Entry F → Option ℕ
  | .queued p' tick => if p' = p then some tick else none
  | _ => none

/-- The tick of the last successful push of a player. -/
def lastQueued (p : ℕ) (log : List (Entry F)) : Option ℕ :=
  (log.filterMap (Entry.queuedTick p)).getLast?

theorem lastQueued_append {log es : List (Entry F)} {p : ℕ}
    (h : ∀ e ∈ es, e.queuedTick p = none) : lastQueued p (log ++ es) = lastQueued p log := by
  unfold lastQueued
  rw [List.filterMap_append, List.filterMap_eq_nil_iff.mpr h, List.append_nil]

theorem lastQueued_queued (log : List (Entry F)) (p p' tick : ℕ) :
    lastQueued p (log ++ [.queued p' tick]) = if p' = p then some tick else lastQueued p log := by
  unfold lastQueued
  by_cases hp : p' = p <;> simp [Entry.queuedTick, hp]

theorem Entry.queuedTick_of_plain {e : Entry F} (h : e.plain = true) (p : ℕ) :
    e.queuedTick p = none := by
  cases e with
  | queued => cases h
  | _ => rfl

theorem lastQueued_room (log : List (Entry F)) (p r : ℕ) (acts : List (RoomAct F)) :
    lastQueued p (log ++ acts.map (Entry.room r)) = lastQueued p log := by
  refine lastQueued_append fun e he => ?_
  obtain ⟨act, -, rfl⟩ := List.mem_map.mp he
  rfl

theorem lastQueued_onRoomEnd (p r w : ℕ) (s : Lobby F) :
    lastQueued p (s.onRoomEnd r w).log = lastQueued p s.log := by
  simp only [onRoomEnd, enqueue, emit]
  split
  · split
    · rw [List.append_assoc]
      exact lastQueued_append (by simp [Entry.queuedTick])
    · exact lastQueued_append (by simp [Entry.queuedTick])
  · exact lastQueued_append (by simp [Entry.queuedTick])

/-! ### The timers -/

/-- The players in `W` have a match timer, and nobody else. -/
structure TimersOf (W : Finset ℕ) (s : Lobby F) : Prop where
  ready : TimerWheel.Ready s.wheel s.firing
  queued : ∀ p ∈ W, ∃ id node t, s.matchTimer.lookup p = some id ∧
    s.wheel.pending id = some node ∧ node.cb = .matchTimeout p ∧ lastQueued p s.log = some t ∧
    node.expiryTick = t + kMatchTimeoutMs / Timer.kTickMs
  only : ∀ id node p, s.wheel.pending id = some node → node.cb = .matchTimeout p →
    p ∈ W ∧ s.matchTimer.lookup p = some id
  known : ∀ p id, s.matchTimer.lookup p = some id → p ∈ W
  expiry : ∀ p x, s.sessions.lookup p = some x → x.expireTimerId ≠ 0 →
    x.expireTimerId < s.wheel.nextId ∧
    ∀ node, s.wheel.pending x.expireTimerId = some node → node.cb = .expireSession p

def Timers (s : Lobby F) : Prop := TimersOf s.matchQueue.waiting s

/-- The rule for moves that no match timer notices. -/
theorem TimersOf.update {W : Finset ℕ} {s s' : Lobby F} (h : TimersOf W s)
    (hready : TimerWheel.Ready s'.wheel s'.firing)
    (hmatch : ∀ id node p, node.cb = TimerCb.matchTimeout p →
      (s'.wheel.pending id = some node ↔ s.wheel.pending id = some node))
    (htimer : s'.matchTimer = s.matchTimer)
    (hlog : ∀ p, lastQueued p s'.log = lastQueued p s.log)
    (hexpiry : ∀ p x, s'.sessions.lookup p = some x → x.expireTimerId ≠ 0 →
      x.expireTimerId < s'.wheel.nextId ∧
      ∀ node, s'.wheel.pending x.expireTimerId = some node → node.cb = .expireSession p) :
    TimersOf W s' where
  ready := hready
  queued p hp := by
    obtain ⟨id, node, t, hid, hnode, hcb, hlast, hexp⟩ := h.queued p hp
    exact ⟨id, node, t, htimer ▸ hid, (hmatch id node p hcb).mpr hnode, hcb, (hlog p).trans hlast,
      hexp⟩
  only id node p hnode hcb := by
    rw [htimer]
    exact h.only id node p ((hmatch id node p hcb).mp hnode) hcb
  known := htimer ▸ h.known
  expiry := hexpiry

/-- The rule for moves that leave the wheel alone. -/
theorem TimersOf.frame {W : Finset ℕ} {s s' : Lobby F} (h : TimersOf W s)
    (hwheel : s'.wheel = s.wheel) (hfiring : s'.firing = s.firing)
    (htimer : s'.matchTimer = s.matchTimer)
    (hlog : ∀ p, lastQueued p s'.log = lastQueued p s.log)
    (hsessions : ∀ p x', s'.sessions.lookup p = some x' → x'.expireTimerId = 0 ∨
      ∃ x, s.sessions.lookup p = some x ∧ x'.expireTimerId = x.expireTimerId) :
    TimersOf W s' := by
  refine h.update (by rw [hwheel, hfiring]; exact h.ready) (fun id node p _ => by rw [hwheel])
    htimer hlog fun p x' hx' hne => ?_
  rcases hsessions p x' hx' with h0 | ⟨x, hx, heq⟩
  · exact absurd h0 hne
  · rw [heq, hwheel]
    exact h.expiry p x hx (heq ▸ hne)

theorem expire_modify {m m' : UnorderedMap ℕ Session} (p : ℕ) (f : Session → Session)
    (hm : m' = m.modify p f) (hf : ∀ x, (f x).expireTimerId = x.expireTimerId) {p' : ℕ}
    {x' : Session} (hx' : m'.lookup p' = some x') :
    ∃ x, m.lookup p' = some x ∧ x'.expireTimerId = x.expireTimerId := by
  rw [hm, UnorderedMap.lookup_modify] at hx'
  split at hx'
  · obtain ⟨x, hx, rfl⟩ := Option.map_eq_some_iff.mp hx'
    exact ⟨x, hx, hf x⟩
  · exact ⟨x', hx', rfl⟩

theorem expire_addSession {conn : Conn} {account token : String} {now : ℕ} {ks : List ℕ}
    {s : Lobby F} {p : ℕ} {x' : Session}
    (hx' : (s.addSession conn { playerId := s.nextPlayerId, token := token, account := account
                                conn := some conn, lastHeartbeatMs := now } ks).sessions.lookup p =
      some x') :
    x'.expireTimerId = 0 ∨ ∃ x, s.sessions.lookup p = some x ∧ x'.expireTimerId = x.expireTimerId := by
  simp only [addSession, UnorderedMap.lookup_reorder, UnorderedMap.lookup_insert_eq] at hx'
  split at hx'
  · obtain rfl := Option.some.inj hx'
    exact .inl rfl
  · exact .inr ⟨x', hx', rfl⟩

theorem expire_scheduleExpiry {pid : ℕ} {s : Lobby F} {p : ℕ} {x' : Session}
    (hx' : (s.scheduleExpiry pid).sessions.lookup p = some x') :
    (x'.expireTimerId = s.wheel.nextId ∧ TimerCb.expireSession pid = .expireSession p) ∨
      ∃ x, s.sessions.lookup p = some x ∧ x'.expireTimerId = x.expireTimerId := by
  simp only [Lobby.scheduleExpiry, UnorderedMap.lookup_modify] at hx'
  split at hx'
  · next hp =>
      obtain ⟨x, -, rfl⟩ := Option.map_eq_some_iff.mp hx'
      exact .inl ⟨rfl, by rw [hp]⟩
  · exact .inr ⟨x', hx', rfl⟩

theorem expire_eraseSession {pid : ℕ} {s : Lobby F} {p : ℕ} {x' : Session}
    (hx' : (s.eraseSession pid).sessions.lookup p = some x') :
    ∃ x, s.sessions.lookup p = some x ∧ x'.expireTimerId = x.expireTimerId := by
  simp only [eraseSession, UnorderedMap.lookup_erase_eq] at hx'
  split at hx'
  · cases hx'
  · exact ⟨x', hx', rfl⟩

/-- A timer of the lobby other than a match timer has been added. -/
theorem TimersOf.add {W : Finset ℕ} {s s' : Lobby F} (h : TimersOf W s) (delayMs : ℕ)
    (cb : TimerCb) (hcb : ∀ p, cb ≠ .matchTimeout p) (hwheel : s'.wheel = (s.wheel.add delayMs cb).1)
    (hfiring : s'.firing = s.firing) (htimer : s'.matchTimer = s.matchTimer)
    (hlog : s'.log = s.log)
    (hsessions : ∀ p x', s'.sessions.lookup p = some x' →
      (x'.expireTimerId = s.wheel.nextId ∧ cb = .expireSession p) ∨
      ∃ x, s.sessions.lookup p = some x ∧ x'.expireTimerId = x.expireTimerId) :
    TimersOf W s' := by
  have hpending := h.ready.rep.pending_add delayMs cb
  refine h.update (by rw [hwheel, hfiring]; exact h.ready.add delayMs cb) (fun id node p hnode => ?_)
    htimer (fun p => by rw [hlog]) fun p x' hx' hne => ?_
  · rw [hwheel, hpending]
    split
    · next hid =>
        constructor
        · intro heq
          obtain rfl := Option.some.inj heq
          exact absurd hnode (hcb p)
        · intro heq
          exact absurd (h.ready.rep.pending_lt heq) (by omega)
    · exact Iff.rfl
  · rw [hwheel, TimerWheel.add_nextId]
    rcases hsessions p x' hx' with ⟨hid, rfl⟩ | ⟨x, hx, heq⟩
    · refine ⟨by omega, fun node hnode => ?_⟩
      rw [hpending, if_pos hid] at hnode
      obtain rfl := Option.some.inj hnode
      rfl
    · obtain ⟨hlt, hold⟩ := h.expiry p x hx (heq ▸ hne)
      rw [heq]
      refine ⟨by omega, fun node hnode => ?_⟩
      rw [hpending, if_neg (by omega)] at hnode
      exact hold node hnode

/-- A timer of the wheel that is no match timer is gone. -/
theorem TimersOf.discard {W : Finset ℕ} {s s' : Lobby F} (h : TimersOf W s) (gone : ℕ)
    (hgone : ∀ node p, s.wheel.pending gone = some node → node.cb ≠ .matchTimeout p)
    (hready : TimerWheel.Ready s'.wheel s'.firing) (hnext : s'.wheel.nextId = s.wheel.nextId)
    (hpending : ∀ id, s'.wheel.pending id = if id = gone then none else s.wheel.pending id)
    (htimer : s'.matchTimer = s.matchTimer)
    (hlog : ∀ p, lastQueued p s'.log = lastQueued p s.log)
    (hsessions : ∀ p x', s'.sessions.lookup p = some x' → x'.expireTimerId = 0 ∨
      ∃ x, s.sessions.lookup p = some x ∧ x'.expireTimerId = x.expireTimerId) :
    TimersOf W s' := by
  refine h.update hready (fun id node p hcb => ?_) htimer hlog fun p x' hx' hne => ?_
  · rw [hpending]
    split
    · next hid =>
        subst hid
        simp only [reduceCtorEq, false_iff]
        exact fun hnode => hgone node p hnode hcb
    · exact Iff.rfl
  · rcases hsessions p x' hx' with h0 | ⟨x, hx, heq⟩
    · exact absurd h0 hne
    · obtain ⟨hlt, hold⟩ := h.expiry p x hx (heq ▸ hne)
      rw [heq, hnext]
      refine ⟨hlt, fun node hnode => ?_⟩
      rw [hpending] at hnode
      split at hnode
      · cases hnode
      · exact hold node hnode

/-- The match timer of a player is gone, and so is the player. -/
theorem TimersOf.retire {W : Finset ℕ} {s s' : Lobby F} (h : TimersOf W s) {p id : ℕ}
    (hid : s.matchTimer.lookup p = some id)
    (hready : TimerWheel.Ready s'.wheel s'.firing) (hnext : s'.wheel.nextId = s.wheel.nextId)
    (hpending : ∀ id', s'.wheel.pending id' = if id' = id then none else s.wheel.pending id')
    (htimer : s'.matchTimer = s.matchTimer.erase p)
    (hlog : ∀ p, lastQueued p s'.log = lastQueued p s.log)
    (hsessions : ∀ p x', s'.sessions.lookup p = some x' →
      ∃ x, s.sessions.lookup p = some x ∧ x'.expireTimerId = x.expireTimerId) :
    TimersOf (W.erase p) s' := by
  obtain ⟨id₀, node₀, t₀, hid₀, hnode₀, hcb₀, -⟩ := h.queued p (h.known p id hid)
  obtain rfl := Option.some.inj (hid.symm.trans hid₀)
  refine ⟨hready, fun p' hp' => ?_, fun id' node p' hnode hcb => ?_, fun p' id' hid' => ?_,
    fun p' x' hx' hne => ?_⟩
  · obtain ⟨hne, hmem⟩ := Finset.mem_erase.mp hp'
    obtain ⟨id', node, t, hid', hnode, hcb, hlast, hexp⟩ := h.queued p' hmem
    -- one id does not belong to two players
    have hids : id' ≠ id := by
      rintro rfl
      obtain rfl := Option.some.inj (hnode.symm.trans hnode₀)
      exact hne (TimerCb.matchTimeout.inj (hcb.symm.trans hcb₀))
    refine ⟨id', node, t, ?_, ?_, hcb, (hlog p').trans hlast, hexp⟩
    · rw [htimer, UnorderedMap.lookup_erase_eq, if_neg hne]
      exact hid'
    · rw [hpending, if_neg hids]
      exact hnode
  · rw [hpending] at hnode
    split at hnode
    · cases hnode
    · next hids =>
        obtain ⟨hmem, hid'⟩ := h.only id' node p' hnode hcb
        have hne : p' ≠ p := by
          rintro rfl
          exact hids (Option.some.inj (hid'.symm.trans hid))
        rw [htimer, UnorderedMap.lookup_erase_eq, if_neg hne]
        exact ⟨Finset.mem_erase.mpr ⟨hne, hmem⟩, hid'⟩
  · rw [htimer, UnorderedMap.lookup_erase_eq] at hid'
    split at hid'
    · cases hid'
    · next hne => exact Finset.mem_erase.mpr ⟨hne, h.known p' id' hid'⟩
  · obtain ⟨x, hx, heq⟩ := hsessions p' x' hx'
    obtain ⟨hlt, hold⟩ := h.expiry p' x hx (heq ▸ hne)
    rw [heq, hnext]
    refine ⟨hlt, fun node hnode => ?_⟩
    rw [hpending] at hnode
    split at hnode
    · cases hnode
    · exact hold node hnode

theorem TimersOf.cancelMatchTimer {W : Finset ℕ} {s : Lobby F} (h : TimersOf W s) (p : ℕ) :
    TimersOf (W.erase p) (s.cancelMatchTimer p) := by
  unfold Lobby.cancelMatchTimer
  split
  · next hnone =>
      have hp : p ∉ W := by
        intro hmem
        obtain ⟨id, -, -, hid, -⟩ := h.queued p hmem
        rw [hnone] at hid
        cases hid
      rw [Finset.erase_eq_of_notMem hp]
      exact h
  · next id hid =>
      exact h.retire hid (h.ready.cancel id) (TimerWheel.cancel_nextId id s.wheel)
        (h.ready.rep.pending_cancel id) rfl (fun _ => rfl) fun _ x' hx' => ⟨x', hx', rfl⟩

/-- A player enters the queue, and its timer starts. -/
theorem TimersOf.joinQueue {W : Finset ℕ} {s : Lobby F} (h : TimersOf W s) {pid : ℕ}
    (hpid : pid ∉ W) : TimersOf (insert pid W) (s.joinQueue pid) := by
  have hpending := h.ready.rep.pending_add kMatchTimeoutMs (TimerCb.matchTimeout pid)
  have hexpiry : TimerWheel.expiryOf s.wheel.nowTick kMatchTimeoutMs =
      s.wheel.nowTick + kMatchTimeoutMs / Timer.kTickMs :=
    TimerWheel.expiryOf_eq (by decide)
  refine ⟨h.ready.add _ _, fun p hp => ?_, fun id node p hnode hcb => ?_, fun p id hid => ?_,
    fun p x' hx' hne => ?_⟩
  · by_cases hne : p = pid
    · subst hne
      refine ⟨s.wheel.nextId, _, s.wheel.nowTick, ?_, (hpending _).trans (if_pos rfl), rfl, ?_,
        hexpiry⟩
      · exact (UnorderedMap.lookup_insert_eq _ _ _ _).trans (if_pos rfl)
      · exact (lastQueued_queued _ _ _ _).trans (if_pos rfl)
    · have hmem := (Finset.mem_insert.mp hp).resolve_left hne
      obtain ⟨id, node, t, hid, hnode, hcb, hlast, hexp⟩ := h.queued p hmem
      have hlt := h.ready.rep.pending_lt hnode
      refine ⟨id, node, t, ?_, ?_, hcb, ?_, hexp⟩
      · exact (UnorderedMap.lookup_insert_eq _ _ _ _).trans ((if_neg hne).trans hid)
      · exact (hpending id).trans ((if_neg (Nat.ne_of_lt hlt)).trans hnode)
      · exact (lastQueued_queued _ _ _ _).trans ((if_neg (Ne.symm hne)).trans hlast)
  · have hnode := (hpending id).symm.trans hnode
    split at hnode
    · next hid =>
        obtain rfl := Option.some.inj hnode
        obtain rfl := TimerCb.matchTimeout.inj hcb
        exact ⟨Finset.mem_insert_self .., hid ▸ (UnorderedMap.lookup_insert_eq _ _ _ _).trans
          (if_pos rfl)⟩
    · obtain ⟨hmem, hid⟩ := h.only id node p hnode hcb
      have hne : p ≠ pid := fun heq => hpid (heq ▸ hmem)
      exact ⟨Finset.mem_insert_of_mem hmem,
        (UnorderedMap.lookup_insert_eq _ _ _ _).trans ((if_neg hne).trans hid)⟩
  · have hid := (UnorderedMap.lookup_insert_eq _ _ _ _).symm.trans hid
    split at hid
    · next heq => exact heq ▸ Finset.mem_insert_self ..
    · exact Finset.mem_insert_of_mem (h.known p id hid)
  · obtain ⟨x, hx, heq⟩ :=
      expire_modify pid (fun p => { p with state := .kMatching }) rfl (fun _ => rfl) hx'
    obtain ⟨hlt, hold⟩ := h.expiry p x hx (heq ▸ hne)
    rw [heq]
    refine ⟨?_, fun node hnode => hold node ?_⟩
    · exact Nat.lt_of_lt_of_eq (Nat.lt_succ_of_lt hlt) (TimerWheel.add_nextId ..).symm
    · exact ((hpending _).trans (if_neg (Nat.ne_of_lt hlt))).symm.trans hnode

/-- The rule for moves that only change sessions, and no timer of theirs. -/
theorem TimersOf.modify {W : Finset ℕ} {s s' : Lobby F} (h : TimersOf W s) (p : ℕ)
    (f : Session → Session) (hsessions : s'.sessions = s.sessions.modify p f)
    (hf : ∀ x, (f x).expireTimerId = x.expireTimerId) (hwheel : s'.wheel = s.wheel)
    (hfiring : s'.firing = s.firing) (htimer : s'.matchTimer = s.matchTimer)
    (hlog : ∀ p, lastQueued p s'.log = lastQueued p s.log) : TimersOf W s' :=
  h.frame hwheel hfiring htimer hlog fun _ _ hx' => .inr (expire_modify p f hsessions hf hx')

theorem timers_onRoomEnd (r w : ℕ) (s : Lobby F) :
    (s.onRoomEnd r w).wheel = s.wheel ∧ (s.onRoomEnd r w).firing = s.firing ∧
      (s.onRoomEnd r w).matchTimer = s.matchTimer := by
  simp only [Lobby.onRoomEnd]
  split
  · simp only [enqueue]
    split <;> exact ⟨rfl, rfl, rfl⟩
  · exact ⟨rfl, rfl, rfl⟩

theorem expire_onRoomEnd {s : Lobby F} {r w p : ℕ} {x' : Session}
    (hx' : (s.onRoomEnd r w).sessions.lookup p = some x') :
    ∃ x, s.sessions.lookup p = some x ∧ x'.expireTimerId = x.expireTimerId := by
  rw [lookup_onRoomEnd] at hx'
  obtain ⟨x, hx, rfl⟩ := Option.map_eq_some_iff.mp hx'
  refine ⟨x, hx, ?_⟩
  unfold Session.leave
  split <;> rfl

theorem TimersOf.onRoomEnd {W : Finset ℕ} {s : Lobby F} (h : TimersOf W s) (r w : ℕ) :
    TimersOf W (s.onRoomEnd r w) := by
  obtain ⟨hwheel, hfiring, htimer⟩ := timers_onRoomEnd r w s
  exact h.frame hwheel hfiring htimer (fun p => lastQueued_onRoomEnd p r w s)
    fun _ _ hx' => .inr (expire_onRoomEnd hx')

theorem Timers.onRoomEnd {s : Lobby F} (h : Timers s) (r w : ℕ) : Timers (s.onRoomEnd r w) := by
  have hqueue : (s.onRoomEnd r w).matchQueue = s.matchQueue :=
    congrArg Core.matchQueue (core_onRoomEnd r w s)
  unfold Timers
  rw [hqueue]
  exact TimersOf.onRoomEnd h r w

theorem expire_rebindSession (conn : Conn) (pid : ℕ) (p : Session) (now : ℕ) (s : Lobby F) :
    ∀ p' x', (s.rebindSession conn pid p now).sessions.lookup p' = some x' →
      x'.expireTimerId = 0 ∨
        ∃ x, s.sessions.lookup p' = some x ∧ x'.expireTimerId = x.expireTimerId := by
  intro p' x' hx'
  simp only [rebindSession, UnorderedMap.lookup_modify] at hx'
  split at hx'
  · obtain ⟨x, -, rfl⟩ := Option.map_eq_some_iff.mp hx'
    exact .inl rfl
  · exact .inr ⟨x', hx', rfl⟩

/-- The timer that `expireTimerId` names is no match timer. -/
theorem TimersOf.rebind {W : Finset ℕ} {s : Lobby F} (h : TimersOf W s) {pid : ℕ} {p : Session}
    (hp : s.sessions.lookup pid = some p) (conn : Conn) (now : ℕ) :
    TimersOf W (s.rebindSession conn pid p now) := by
  have hsessions := expire_rebindSession conn pid p now s
  by_cases hne : p.expireTimerId = 0
  · refine h.frame ?_ rfl rfl (fun _ => rfl) hsessions
    simp [rebindSession, hne]
  · have hwheel : (s.rebindSession conn pid p now).wheel = s.wheel.cancel p.expireTimerId := by
      simp [rebindSession, hne]
    have hold := (h.expiry pid p hp hne).2
    refine h.discard p.expireTimerId (fun node p' hnode hcb => ?_) ?_ ?_ ?_ rfl
      (fun _ => rfl) hsessions
    · have := hold node hnode
      rw [hcb] at this
      cases this
    · rw [hwheel]
      exact h.ready.cancel _
    · rw [hwheel, TimerWheel.cancel_nextId]
    · rw [hwheel]
      exact h.ready.rep.pending_cancel _

/-- The callback of a match timer finds its player in the queue. -/
theorem Timers.matchTimeout {s : Lobby F} (h : Timers s) {n : NodePtr}
    {rest : List NodePtr} {node : Node TimerCb} {w : TimerWheel TimerCb} {pid : ℕ}
    (hfiring : s.firing = n :: rest) (htake : s.wheel.take n = some (node, w))
    (hcb : node.cb = .matchTimeout pid) :
    Timers ({ s with firing := rest, wheel := w }.matchTimeout pid) := by
  obtain ⟨hnode, -, hready, -, hnext, hpending⟩ := (hfiring ▸ h.ready).take_some htake
  obtain ⟨hmem, hid⟩ := h.only n node pid hnode hcb
  have hretire : ∀ s' : Lobby F, s'.wheel = w → s'.firing = rest →
      s'.matchTimer = s.matchTimer.erase pid →
      s'.sessions = s.sessions.modify pid (fun p => { p with state := .kLobby }) →
      (∀ p, lastQueued p s'.log = lastQueued p s.log) →
      TimersOf (s.matchQueue.waiting.erase pid) s' := by
    intro s' hw hf ht hsessions hlog
    subst hw hf
    exact h.retire hid hready hnext hpending ht hlog fun p x' hx' =>
      expire_modify pid (fun p => { p with state := .kLobby }) hsessions (fun _ => rfl) hx'
  unfold Lobby.matchTimeout
  dsimp only
  rw [if_pos (by simpa [MatchQueue.contains] using hmem)]
  split
  · exact hretire _ rfl rfl rfl rfl fun _ => rfl
  · exact hretire _ rfl rfl rfl rfl fun p => lastQueued_append (by simp [Entry.queuedTick])

variable [Scalar F]

theorem expire_createRoom {s : Lobby F} {ks : List ℕ} {a b p : ℕ} {pa pb x' : Session}
    (hx' : (s.createRoom ks a b pa pb).sessions.lookup p = some x') :
    ∃ x, s.sessions.lookup p = some x ∧ x'.expireTimerId = x.expireTimerId := by
  obtain ⟨y, hy, heq⟩ :=
    expire_modify b (fun p => { p with state := .kInRoom, roomId := _ }) rfl (fun _ => rfl) hx'
  obtain ⟨x, hx, heq'⟩ :=
    expire_modify a (fun p => { p with state := .kInRoom, roomId := _ }) rfl (fun _ => rfl) hy
  exact ⟨x, hx, heq.trans heq'⟩

/-- Two players are paired, one of whom has just entered the queue. -/
theorem Timers.pair {s : Lobby F} (h : Timers s) {pid a b : ℕ} (hpid : pid ∉ s.matchQueue.waiting)
    (hwaiting : insert pid s.matchQueue.waiting = {a, b}) (ks : List ℕ) (pa pb : Session)
    {q : MatchQueue} (hq : q.waiting = ∅) : Timers ((s.joinQueue pid).pairUp ks a b pa pb q) := by
  have hjoin : TimersOf {a, b} { s.joinQueue pid with matchQueue := q } := by
    rw [← hwaiting]
    exact (h.joinQueue hpid).frame rfl rfl rfl (fun _ => rfl) fun _ x' hx' => .inr ⟨x', hx', rfl⟩
  have hcancel := (hjoin.cancelMatchTimer a).cancelMatchTimer b
  have hempty : (({a, b} : Finset ℕ).erase a).erase b =
      ((s.joinQueue pid).pairUp ks a b pa pb q).matchQueue.waiting := by
    obtain ⟨wheel, timers, heq⟩ := pairUp_eq ks a b pa pb q (s.joinQueue pid)
    rw [heq]
    show _ = q.waiting
    rw [hq]
    ext x
    simp
    tauto
  rw [hempty] at hcancel
  exact hcancel.frame rfl rfl rfl (fun p => lastQueued_append (by simp [Entry.queuedTick]))
    fun _ _ hx' => .inr (expire_createRoom hx')

theorem Timers.move {φ : Deed → Prop} (hφ : ¬φ .dropsMatching) {s s' : Lobby F} (hbase : Base s)
    (h : Timers s) (hmove : Move φ s s') : Timers s' := by
  have hsame : ∀ {s' : Lobby F}, s'.matchQueue = s.matchQueue → s'.sessions = s.sessions →
      s'.wheel = s.wheel → s'.firing = s.firing → s'.matchTimer = s.matchTimer →
      (∀ p, lastQueued p s'.log = lastQueued p s.log) → Timers s' := by
    intro s' hqueue hsessions hwheel hfiring htimer hlog
    unfold Timers
    rw [hqueue]
    exact TimersOf.frame h hwheel hfiring htimer hlog fun p x' hx' =>
      .inr ⟨x', hsessions ▸ hx', rfl⟩
  cases hmove with
  | plain es store hplain =>
      exact hsame rfl rfl rfl rfl rfl fun p =>
        lastQueued_append fun e he => Entry.queuedTick_of_plain (hplain e he) p
  | heartbeat pid now =>
      exact TimersOf.modify h pid (fun p => { p with lastHeartbeatMs := now }) rfl (fun _ => rfl) rfl
        rfl rfl fun _ => rfl
  | login conn account token now ks =>
      exact TimersOf.frame h rfl rfl rfl (fun p => lastQueued_append (by simp [Entry.queuedTick]))
        fun _ _ hx' => expire_addSession hx'
  | rebind conn now hp =>
      exact TimersOf.frame (TimersOf.rebind h hp conn now) rfl rfl rfl
        (fun p => lastQueued_append (by simp [Entry.queuedTick])) fun _ x' hx' => .inr ⟨x', hx', rfl⟩
  | @unbind conn pid p hconn hp hstate =>
      unfold unbindSession
      rw [if_neg (hstate.resolve_right hφ)]
      exact TimersOf.modify h pid (fun p => { p with conn := none }) rfl (fun _ => rfl) rfl rfl rfl
        fun _ => rfl
  | scheduleExpiry pid =>
      exact TimersOf.add h kSessionKeepMs (.expireSession pid) (by simp) rfl rfl rfl rfl
        fun _ _ hx' => expire_scheduleExpiry hx'
  | erase | forfeit =>
      exact TimersOf.frame h rfl rfl rfl (fun _ => rfl) fun _ _ hx' =>
        .inr (expire_eraseSession hx')
  | wait hp hconn hstate =>
      obtain ⟨hpid, hwaiting, -⟩ := hbase.joinQueue hp hconn hstate
      have hjoin := TimersOf.joinQueue h hpid
      rw [← hwaiting] at hjoin
      exact hjoin.frame rfl rfl rfl (fun _ => rfl) fun _ x' hx' => .inr ⟨x', hx', rfl⟩
  | pair ks hp hconn hstate _ hwaiting _ _ hq =>
      exact h.pair (hbase.joinQueue hp hconn hstate).1 hwaiting ks _ _ hq
  | matchTimeout hfiring htake hcb => exact h.matchTimeout hfiring htake hcb
  | take hfiring htake hcb =>
      obtain ⟨hnode, -, hready, -, hnext, hpending⟩ := (hfiring ▸ h.ready).take_some htake
      refine TimersOf.discard h _ (fun node' p hnode' => ?_) hready hnext hpending rfl (fun _ => rfl)
        fun _ x' hx' => .inr ⟨x', hx', rfl⟩
      obtain rfl := Option.some.inj (hnode.symm.trans hnode')
      exact hcb p
  | @skip n rest hfiring htake =>
      have hready := TimersOf.ready h
      rw [hfiring] at hready
      rcases hready.take with ⟨-, -, hready'⟩ | ⟨node, -, -, htake', -⟩
      · exact TimersOf.update h hready' (fun _ _ _ _ => Iff.rfl) rfl (fun _ => rfl) h.expiry
      · rw [htake] at htake'
        cases htake'
  | wheelTick hfiring =>
      have hready := TimersOf.ready h
      rw [hfiring] at hready
      obtain ⟨hready', -, hnext, hpending⟩ := hready.beginStep
      refine TimersOf.update h hready' (fun id node p _ => ?_) rfl (fun _ => rfl)
        fun p x hx hne => ?_
      · simp only [Lobby.wheelTick, hpending]
      · simp only [Lobby.wheelTick, hpending, hnext]
        exact h.expiry p x hx hne
  | scheduleSweep =>
      exact TimersOf.add h kSweepIntervalMs .sweep (by simp) rfl rfl rfl rfl
        fun _ x' hx' => .inr ⟨x', hx', rfl⟩
  | mail => exact hsame rfl rfl rfl rfl rfl fun _ => rfl
  | quiet => exact hsame rfl rfl rfl rfl rfl fun p => lastQueued_room ..
  | @closing r cell op mailbox cells winner =>
      have hacts : Timers ({ s with
          cells := cells
          log := s.log ++ (cell.room.apply op).2.map (Entry.room r) } : Lobby F) :=
        hsame rfl rfl rfl rfl rfl fun p => lastQueued_room ..
      unfold closeRoom
      split
      · exact hacts.onRoomEnd r winner
      · exact hsame rfl rfl rfl rfl rfl fun p => lastQueued_room ..
  | @roomEnd r winner rest =>
      refine Timers.onRoomEnd ?_ r winner
      exact hsame rfl rfl rfl rfl rfl fun _ => rfl

omit [Scalar F] in
theorem timers_init (gameThreads : ℕ) (writer : Bool) :
    Timers (Lobby.init gameThreads writer : Lobby F) := by
  have hempty : TimersOf ∅ ({ gameThreads := gameThreads, writer := writer } : Lobby F) := by
    refine ⟨TimerWheel.ready_init, ?_, ?_, ?_, ?_⟩ <;> simp [TimerWheel.pending]
  exact TimersOf.add hempty kSweepIntervalMs .sweep (by simp) rfl rfl rfl rfl
    fun _ x' hx' => .inr ⟨x', hx', rfl⟩

/-! ### The queue and its timers -/

/-- Timer `id` is a match timer of player `p` that can still fire. -/
def Lobby.MatchTimerOf (s : Lobby F) (p id : ℕ) : Prop :=
  ∃ node, s.wheel.pending id = some node ∧ node.cb = .matchTimeout p

structure TimersMatchQueue (s : Lobby F) : Prop where
  /-- The callback finds a player in the queue only when its time is up,
  counted from the last push. -/
  onTime : ∀ p, s.nextCallback = some (.matchTimeout p) → p ∈ s.matchQueue.waiting →
    ∃ t, lastQueued p s.log = some t ∧ s.wheel.nowTick = t + kMatchTimeoutMs / Timer.kTickMs
  single : ∀ p i j, s.MatchTimerOf p i → s.MatchTimerOf p j → i = j
  known : ∀ p i, s.MatchTimerOf p i → s.matchTimer.lookup p = some i
  queued : ∀ p, (∃ i, s.MatchTimerOf p i) ↔ p ∈ s.matchQueue.waiting

omit [Scalar F] in
theorem Timers.matchQueue {s : Lobby F} (h : Timers s) : TimersMatchQueue s := by
  have hknown : ∀ p i, s.MatchTimerOf p i → s.matchTimer.lookup p = some i := by
    rintro p i ⟨node, hnode, hcb⟩
    exact (h.only i node p hnode hcb).2
  refine ⟨fun p hnext hmem => ?_, fun p i j hi hj => ?_, hknown, fun p => ⟨?_, fun hmem => ?_⟩⟩
  · obtain ⟨⟨node, w⟩, htake, hcb⟩ := Option.map_eq_some_iff.mp hnext
    obtain ⟨n, hhead, htake⟩ := Option.bind_eq_some_iff.mp htake
    obtain ⟨rest, hfiring⟩ := List.head?_eq_some_iff.mp hhead
    obtain ⟨hnode, hexp, -⟩ := (hfiring ▸ h.ready).take_some htake
    -- the timer that fires is the one that was started by the last push
    obtain ⟨id, node', t, hid, hnode', -, hlast, hexp'⟩ := h.queued p hmem
    obtain rfl := Option.some.inj (hid.symm.trans (h.only n node p hnode hcb).2)
    obtain rfl := Option.some.inj (hnode.symm.trans hnode')
    exact ⟨t, hlast, hexp.symm.trans hexp'⟩
  · exact Option.some.inj ((hknown p i hi).symm.trans (hknown p j hj))
  · rintro ⟨i, node, hnode, hcb⟩
    exact (h.only i node p hnode hcb).1
  · obtain ⟨id, node, -, -, hnode, hcb, -⟩ := h.queued p hmem
    exact ⟨id, node, hnode, hcb⟩

/-- In a run in which nobody disconnects while waiting for an opponent, every
match timeout belongs to the current place in the queue. -/
theorem match_timeout_is_current (gameThreads : ℕ) (writer : Bool) (es : List (LobbyEvent F))
    (hok : Along Lobby.step (fun s e => s.commits e .dropsMatching = false)
      (Lobby.init gameThreads writer) es) :
    TimersMatchQueue (Lobby.run gameThreads writer es) := by
  refine Timers.matchQueue ?_
  refine invariant_moves (φ := (· ≠ .dropsMatching)) (I := Timers)
    (timers_init gameThreads writer) (fun s s' hbase h hmove => h.move (by simp) hbase hmove)
    (hok.mono fun s e hno deed hf => ?_)
  rintro rfl
  rw [hno] at hf
  cases hf

/-- A player waits for 30 s, and nobody comes. -/
theorem match_timeout_is_current_alone :
    let es : List (LobbyEvent (Ext ℚ)) :=
      [.login 1 "alice" "t" 0 [], .matchReq 1 []] ++
      (List.range 6).flatMap fun k => .heartbeat 1 0 (5000 * k) ::
        List.replicate 50 .wheelTick ++ [.fireNext (5000 * (k + 1))]
    let s := Lobby.run 0 false es
    s.nextCallback = some (.matchTimeout 1) ∧ 1 ∈ s.matchQueue.waiting ∧ TimersMatchQueue s := by
  intro es s
  have hok : Along Lobby.step (fun s e => s.commits e .dropsMatching = false)
      (Lobby.init 0 false) es := by
    refine along_of_forall (fun e he s => ?_) _
    simp only [es, List.cons_append, List.nil_append, List.mem_cons, List.mem_flatMap,
      List.mem_append, List.mem_replicate, List.not_mem_nil, or_false] at he
    rcases he with rfl | rfl | ⟨k, -, rfl | ⟨-, rfl⟩ | rfl⟩ <;> rfl
  have hrun : s.nextCallback = some (.matchTimeout 1) ∧ 1 ∈ s.matchQueue.waiting := by
    decide +kernel
  have htimers : TimersMatchQueue s := match_timeout_is_current 0 false es hok
  clear_value s
  exact ⟨hrun.1, hrun.2, htimers⟩

/-- A player disconnects while it waits, comes back after 20 s and waits
again: its first timer is still there, and ends the second wait after 10 s. -/
theorem stale_match_timer_ends_next_wait :
    let es : List (LobbyEvent (Ext ℚ)) :=
      [.login 1 "alice" "t" 0 [], .matchReq 1 [], .disconnect 1] ++
      (List.range 4).flatMap (fun k =>
        List.replicate 50 .wheelTick ++ [.fireNext (5000 * (k + 1))]) ++
      [.reconnect 2 1 "t" 20000, .matchReq 2 []] ++
      (List.range 2).flatMap fun k =>
        List.replicate 50 .wheelTick ++ [.fireNext (20000 + 5000 * (k + 1))]
    let s := Lobby.run 0 false es
    s.nextCallback = some (.matchTimeout 1) ∧ 1 ∈ s.matchQueue.waiting ∧
      s.wheel.nowTick = 300 ∧ lastQueued 1 s.log = some 200 ∧ ¬TimersMatchQueue s := by
  intro es s
  have hrun : s.nextCallback = some (.matchTimeout 1) ∧ 1 ∈ s.matchQueue.waiting ∧
      s.wheel.nowTick = 300 ∧ lastQueued 1 s.log = some 200 := by
    decide +kernel
  clear_value s
  obtain ⟨hnext, hmem, hnow, hlast⟩ := hrun
  refine ⟨hnext, hmem, hnow, hlast, fun h => ?_⟩
  obtain ⟨t, hlast', hnow'⟩ := h.onTime 1 hnext hmem
  rw [hlast] at hlast'
  obtain rfl := Option.some.inj hlast'
  rw [hnow] at hnow'
  exact absurd hnow' (by decide)

/-! ### Every run

Some of this survives when players disconnect while they wait: a timer that
was left behind may end a place in the queue early, but no place is without
a timer. -/

/-- The players in `W` have a match timer; the ids that the lobby has noted
are not those of other players' match timers. -/
structure ArmedOf (W : Finset ℕ) (s : Lobby F) : Prop where
  ready : TimerWheel.Ready s.wheel s.firing
  queued : ∀ p ∈ W, ∃ id, s.MatchTimerOf p id
  owner : ∀ p id, s.matchTimer.lookup p = some id →
    id < s.wheel.nextId ∧ ∀ q, s.MatchTimerOf q id → q = p
  expiry : ∀ p x, s.sessions.lookup p = some x → x.expireTimerId ≠ 0 →
    x.expireTimerId < s.wheel.nextId ∧ ∀ q, ¬s.MatchTimerOf q x.expireTimerId

def Armed (s : Lobby F) : Prop := ArmedOf s.matchQueue.waiting s

omit [Scalar F] in
/-- The rule for moves that start no timer. -/
theorem ArmedOf.update {W W' : Finset ℕ} {s s' : Lobby F} (h : ArmedOf W s)
    (hready : TimerWheel.Ready s'.wheel s'.firing) (hnext : s'.wheel.nextId = s.wheel.nextId)
    (hkeep : ∀ p ∈ W', ∃ id, s'.MatchTimerOf p id)
    (hold : ∀ p id, s'.MatchTimerOf p id → s.MatchTimerOf p id)
    (htimer : ∀ p id, s'.matchTimer.lookup p = some id → s.matchTimer.lookup p = some id)
    (hsessions : ∀ p x', s'.sessions.lookup p = some x' → x'.expireTimerId = 0 ∨
      ∃ x, s.sessions.lookup p = some x ∧ x'.expireTimerId = x.expireTimerId) :
    ArmedOf W' s' := by
  refine ⟨hready, hkeep, fun p id hid => ?_, fun p x' hx' hne => ?_⟩
  · obtain ⟨hlt, hown⟩ := h.owner p id (htimer p id hid)
    exact ⟨hnext ▸ hlt, fun q hq => hown q (hold q id hq)⟩
  · rcases hsessions p x' hx' with h0 | ⟨x, hx, heq⟩
    · exact absurd h0 hne
    · rw [heq] at hne ⊢
      obtain ⟨hlt, hnot⟩ := h.expiry p x hx hne
      exact ⟨hnext ▸ hlt, fun q hq => hnot q (hold q _ hq)⟩

omit [Scalar F] in
theorem ArmedOf.frame {W W' : Finset ℕ} {s s' : Lobby F} (h : ArmedOf W s) (hW : W' ⊆ W)
    (hwheel : s'.wheel = s.wheel) (hfiring : s'.firing = s.firing)
    (htimer : ∀ p id, s'.matchTimer.lookup p = some id → s.matchTimer.lookup p = some id)
    (hsessions : ∀ p x', s'.sessions.lookup p = some x' → x'.expireTimerId = 0 ∨
      ∃ x, s.sessions.lookup p = some x ∧ x'.expireTimerId = x.expireTimerId) :
    ArmedOf W' s' := by
  have hsame : ∀ p id, s'.MatchTimerOf p id ↔ s.MatchTimerOf p id := by
    intro p id
    unfold Lobby.MatchTimerOf
    rw [hwheel]
  refine h.update (by rw [hwheel, hfiring]; exact h.ready) (by rw [hwheel]) (fun p hp => ?_)
    (fun p id => (hsame p id).mp) htimer hsessions
  obtain ⟨id, hid⟩ := h.queued p (hW hp)
  exact ⟨id, (hsame p id).mpr hid⟩

omit [Scalar F] in
/-- A timer is gone that none of those in `W'` has. -/
theorem ArmedOf.discard {W W' : Finset ℕ} {s s' : Lobby F} (h : ArmedOf W s) (hW : W' ⊆ W)
    {gone : ℕ} (hgone : ∀ p ∈ W', ¬s.MatchTimerOf p gone)
    (hready : TimerWheel.Ready s'.wheel s'.firing) (hnext : s'.wheel.nextId = s.wheel.nextId)
    (hpending : ∀ id, s'.wheel.pending id = if id = gone then none else s.wheel.pending id)
    (htimer : ∀ p id, s'.matchTimer.lookup p = some id → s.matchTimer.lookup p = some id)
    (hsessions : ∀ p x', s'.sessions.lookup p = some x' → x'.expireTimerId = 0 ∨
      ∃ x, s.sessions.lookup p = some x ∧ x'.expireTimerId = x.expireTimerId) :
    ArmedOf W' s' := by
  have hiff : ∀ p id, s'.MatchTimerOf p id ↔ s.MatchTimerOf p id ∧ id ≠ gone := by
    intro p id
    simp only [Lobby.MatchTimerOf, hpending]
    by_cases hid : id = gone
    · simp [hid]
    · simp [hid]
  refine h.update hready hnext (fun p hp => ?_) (fun p id hid => ((hiff p id).mp hid).1) htimer
    hsessions
  obtain ⟨id, hid⟩ := h.queued p (hW hp)
  exact ⟨id, (hiff p id).mpr ⟨hid, fun heq => hgone p hp (heq ▸ hid)⟩⟩

omit [Scalar F] in
theorem matchTimerOf_add {W : Finset ℕ} {s s' : Lobby F} (h : ArmedOf W s) {delayMs : ℕ}
    {cb : TimerCb} (hwheel : s'.wheel = (s.wheel.add delayMs cb).1) (p id : ℕ) :
    s'.MatchTimerOf p id ↔
      s.MatchTimerOf p id ∨ (id = s.wheel.nextId ∧ cb = .matchTimeout p) := by
  simp only [Lobby.MatchTimerOf, hwheel, h.ready.rep.pending_add]
  constructor
  · rintro ⟨node, hnode, hcb⟩
    split at hnode
    · next hid =>
        obtain rfl := Option.some.inj hnode
        exact .inr ⟨hid, hcb⟩
    · exact .inl ⟨node, hnode, hcb⟩
  · rintro (⟨node, hnode, hcb⟩ | ⟨rfl, hcb⟩)
    · have hlt := h.ready.rep.pending_lt hnode
      rw [if_neg (Nat.ne_of_lt hlt)]
      exact ⟨node, hnode, hcb⟩
    · rw [if_pos rfl]
      exact ⟨_, rfl, hcb⟩

omit [Scalar F] in
/-- A timer is started. Its id is new. -/
theorem ArmedOf.add {W W' : Finset ℕ} {s s' : Lobby F} (h : ArmedOf W s) (delayMs : ℕ)
    (cb : TimerCb) (hwheel : s'.wheel = (s.wheel.add delayMs cb).1)
    (hfiring : s'.firing = s.firing) (hW : ∀ p ∈ W', p ∈ W ∨ cb = .matchTimeout p)
    (htimer : ∀ p id, s'.matchTimer.lookup p = some id →
      s.matchTimer.lookup p = some id ∨ (id = s.wheel.nextId ∧ cb = .matchTimeout p))
    (hsessions : ∀ p x', s'.sessions.lookup p = some x' →
      (x'.expireTimerId = s.wheel.nextId ∧ cb = .expireSession p) ∨
      ∃ x, s.sessions.lookup p = some x ∧ x'.expireTimerId = x.expireTimerId) :
    ArmedOf W' s' := by
  have hiff := matchTimerOf_add h hwheel
  have hnext : s'.wheel.nextId = s.wheel.nextId + 1 := by rw [hwheel, TimerWheel.add_nextId]
  refine ⟨by rw [hwheel, hfiring]; exact h.ready.add delayMs cb, fun p hp => ?_,
    fun p id hid => ?_, fun p x' hx' hne => ?_⟩
  · rcases hW p hp with hp | hcb
    · obtain ⟨id, hid⟩ := h.queued p hp
      exact ⟨id, (hiff p id).mpr (.inl hid)⟩
    · exact ⟨_, (hiff p _).mpr (.inr ⟨rfl, hcb⟩)⟩
  · rcases htimer p id hid with hid | ⟨rfl, hcb⟩
    · obtain ⟨hlt, hown⟩ := h.owner p id hid
      refine ⟨by omega, fun q hq => ?_⟩
      rcases (hiff q id).mp hq with hq | ⟨heq, -⟩
      · exact hown q hq
      · omega
    · refine ⟨by omega, fun q hq => ?_⟩
      rcases (hiff q _).mp hq with ⟨node, hnode, -⟩ | ⟨-, hcb'⟩
      · exact absurd (h.ready.rep.pending_lt hnode) (Nat.lt_irrefl _)
      · exact TimerCb.matchTimeout.inj (hcb'.symm.trans hcb)
  · rcases hsessions p x' hx' with ⟨heq, hcb⟩ | ⟨x, hx, heq⟩
    · rw [heq]
      refine ⟨by omega, fun q hq => ?_⟩
      rcases (hiff q _).mp hq with ⟨node, hnode, -⟩ | ⟨-, hcb'⟩
      · exact absurd (h.ready.rep.pending_lt hnode) (Nat.lt_irrefl _)
      · cases hcb.symm.trans hcb'
    · rw [heq] at hne ⊢
      obtain ⟨hlt, hnot⟩ := h.expiry p x hx hne
      refine ⟨by omega, fun q hq => ?_⟩
      rcases (hiff q _).mp hq with hq | ⟨heq', -⟩
      · exact hnot q hq
      · omega

omit [Scalar F] in
theorem ArmedOf.modify {W : Finset ℕ} {s s' : Lobby F} (h : ArmedOf W s) (p : ℕ)
    (f : Session → Session) (hsessions : s'.sessions = s.sessions.modify p f)
    (hf : ∀ x, (f x).expireTimerId = x.expireTimerId) (hwheel : s'.wheel = s.wheel)
    (hfiring : s'.firing = s.firing) (htimer : s'.matchTimer = s.matchTimer) : ArmedOf W s' :=
  h.frame (fun _ hp => hp) hwheel hfiring (fun _ _ hid => htimer ▸ hid) fun _ _ hx' =>
    .inr (expire_modify p f hsessions hf hx')

omit [Scalar F] in
theorem ArmedOf.cancelMatchTimer {W : Finset ℕ} {s : Lobby F} (h : ArmedOf W s) (p : ℕ) :
    ArmedOf (W.erase p) (s.cancelMatchTimer p) := by
  unfold Lobby.cancelMatchTimer
  split
  · exact h.frame (Finset.erase_subset p W) rfl rfl (fun _ _ hid => hid) fun _ x' hx' =>
      .inr ⟨x', hx', rfl⟩
  · next id hid =>
      refine h.discard (Finset.erase_subset p W) (fun q hq htimer => ?_) (h.ready.cancel id)
        (TimerWheel.cancel_nextId id s.wheel) (h.ready.rep.pending_cancel id) (fun q id' hid' => ?_)
        fun _ x' hx' => .inr ⟨x', hx', rfl⟩
      · exact (Finset.mem_erase.mp hq).1 ((h.owner p id hid).2 q htimer)
      · rw [UnorderedMap.lookup_erase_eq] at hid'
        split at hid'
        · cases hid'
        · exact hid'

omit [Scalar F] in
theorem ArmedOf.joinQueue {W : Finset ℕ} {s : Lobby F} (h : ArmedOf W s) (pid : ℕ) :
    ArmedOf (insert pid W) (s.joinQueue pid) := by
  refine h.add kMatchTimeoutMs (.matchTimeout pid) rfl rfl (fun p hp => ?_) (fun p id hid => ?_)
    fun p x' hx' => .inr ?_
  · exact (Finset.mem_insert.mp hp).symm.imp_right fun heq => by rw [heq]
  · have hid := (UnorderedMap.lookup_insert_eq _ _ _ _).symm.trans hid
    split at hid
    · next heq => exact .inr ⟨(Option.some.inj hid).symm, by rw [heq]⟩
    · exact .inl hid
  · exact expire_modify pid (fun p => { p with state := .kMatching }) rfl (fun _ => rfl) hx'

omit [Scalar F] in
theorem Armed.onRoomEnd {s : Lobby F} (h : Armed s) (r w : ℕ) : Armed (s.onRoomEnd r w) := by
  have hqueue : (s.onRoomEnd r w).matchQueue = s.matchQueue :=
    congrArg Core.matchQueue (core_onRoomEnd r w s)
  obtain ⟨hwheel, hfiring, htimer⟩ := timers_onRoomEnd r w s
  unfold Armed
  rw [hqueue]
  exact ArmedOf.frame h (fun _ hp => hp) hwheel hfiring (fun _ _ hid => htimer ▸ hid)
    fun _ _ hx' => .inr (expire_onRoomEnd hx')

omit [Scalar F] in
theorem ArmedOf.rebind {W : Finset ℕ} {s : Lobby F} (h : ArmedOf W s) {pid : ℕ} {p : Session}
    (hp : s.sessions.lookup pid = some p) (conn : Conn) (now : ℕ) :
    ArmedOf W (s.rebindSession conn pid p now) := by
  have hsessions := expire_rebindSession conn pid p now s
  by_cases hne : p.expireTimerId = 0
  · refine h.frame (fun _ hq => hq) ?_ rfl (fun _ _ hid => hid) hsessions
    simp [rebindSession, hne]
  · have hwheel : (s.rebindSession conn pid p now).wheel = s.wheel.cancel p.expireTimerId := by
      simp [rebindSession, hne]
    refine h.discard (fun _ hq => hq) (fun q _ => (h.expiry pid p hp hne).2 q) ?_ ?_ ?_
      (fun _ _ hid => hid) hsessions
    · rw [hwheel]
      exact h.ready.cancel _
    · rw [hwheel, TimerWheel.cancel_nextId]
    · rw [hwheel]
      exact h.ready.rep.pending_cancel _

omit [Scalar F] in
/-- Whichever of its timers fires, the player is not in the queue afterwards. -/
theorem Armed.matchTimeout {s : Lobby F} (h : Armed s) {n : NodePtr} {rest : List NodePtr}
    {node : Node TimerCb} {w : TimerWheel TimerCb} {pid : ℕ} (hfiring : s.firing = n :: rest)
    (htake : s.wheel.take n = some (node, w)) (hcb : node.cb = .matchTimeout pid) :
    Armed ({ s with firing := rest, wheel := w }.matchTimeout pid) := by
  obtain ⟨hnode, -, hready, -, hnext, hpending⟩ := (hfiring ▸ h.ready).take_some htake
  have hother : ∀ p, p ≠ pid → ¬s.MatchTimerOf p n := by
    rintro p hne ⟨node', hnode', hcb'⟩
    obtain rfl := Option.some.inj (hnode.symm.trans hnode')
    exact hne (TimerCb.matchTimeout.inj (hcb'.symm.trans hcb))
  have hforget : ∀ p id, (s.matchTimer.erase pid).lookup p = some id →
      s.matchTimer.lookup p = some id := by
    intro p id hid
    rw [UnorderedMap.lookup_erase_eq] at hid
    split at hid
    · cases hid
    · exact hid
  have hleave : ∀ s' : Lobby F, s'.wheel = w → s'.firing = rest →
      s'.matchTimer = s.matchTimer.erase pid →
      s'.sessions = s.sessions.modify pid (fun p => { p with state := .kLobby }) →
      ArmedOf (s.matchQueue.waiting.erase pid) s' := by
    intro s' hw hf ht hsessions
    subst hw hf
    exact ArmedOf.discard h (Finset.erase_subset _ _)
      (fun p hp => hother p (Finset.mem_erase.mp hp).1) hready hnext hpending
      (fun p id hid => hforget p id (ht ▸ hid)) fun p x' hx' =>
      .inr (expire_modify pid (fun p => { p with state := .kLobby }) hsessions (fun _ => rfl) hx')
  unfold Lobby.matchTimeout
  dsimp only
  split
  · split
    · exact hleave _ rfl rfl rfl rfl
    · exact hleave _ rfl rfl rfl rfl
  · next hnot =>
      have hpid : pid ∉ s.matchQueue.waiting := by simpa [MatchQueue.contains] using hnot
      refine ArmedOf.discard h (fun _ hp => hp) (fun p hp => hother p ?_) hready hnext hpending
        hforget fun _ x' hx' => .inr ⟨x', hx', rfl⟩
      rintro rfl
      exact hpid hp

theorem Armed.pair {s : Lobby F} (h : Armed s) {pid a b : ℕ}
    (hwaiting : insert pid s.matchQueue.waiting = {a, b}) (ks : List ℕ) (pa pb : Session)
    {q : MatchQueue} (hq : q.waiting = ∅) : Armed ((s.joinQueue pid).pairUp ks a b pa pb q) := by
  have hjoin : ArmedOf {a, b} { s.joinQueue pid with matchQueue := q } := by
    rw [← hwaiting]
    exact (ArmedOf.joinQueue h pid).frame (fun _ hp => hp) rfl rfl (fun _ _ hid => hid)
      fun _ x' hx' => .inr ⟨x', hx', rfl⟩
  have hcancel := (hjoin.cancelMatchTimer a).cancelMatchTimer b
  have hempty : ((s.joinQueue pid).pairUp ks a b pa pb q).matchQueue.waiting = ∅ := by
    obtain ⟨wheel, timers, heq⟩ := pairUp_eq ks a b pa pb q (s.joinQueue pid)
    rw [heq]
    exact hq
  unfold Armed
  rw [hempty]
  exact hcancel.frame (Finset.empty_subset _) rfl rfl (fun _ _ hid => hid) fun _ _ hx' =>
    .inr (expire_createRoom hx')

theorem Armed.move {φ : Deed → Prop} {s s' : Lobby F} (hbase : Base s) (h : Armed s)
    (hmove : Move φ s s') : Armed s' := by
  have hsame : ∀ {s' : Lobby F}, s'.matchQueue = s.matchQueue → s'.sessions = s.sessions →
      s'.wheel = s.wheel → s'.firing = s.firing → s'.matchTimer = s.matchTimer → Armed s' := by
    intro s' hqueue hsessions hwheel hfiring htimer
    unfold Armed
    rw [hqueue]
    exact ArmedOf.frame h (fun _ hp => hp) hwheel hfiring (fun _ _ hid => htimer ▸ hid)
      fun p x' hx' => .inr ⟨x', hsessions ▸ hx', rfl⟩
  cases hmove with
  | plain | mail | quiet => exact hsame rfl rfl rfl rfl rfl
  | heartbeat pid now =>
      exact ArmedOf.modify h pid (fun p => { p with lastHeartbeatMs := now }) rfl (fun _ => rfl) rfl
        rfl rfl
  | login conn account token now ks =>
      exact ArmedOf.frame h (fun _ hp => hp) rfl rfl (fun _ _ hid => hid) fun _ _ hx' =>
        expire_addSession hx'
  | rebind conn now hp =>
      exact (ArmedOf.rebind h hp conn now).frame (fun _ hq => hq) rfl rfl (fun _ _ hid => hid)
        fun _ x' hx' => .inr ⟨x', hx', rfl⟩
  | @unbind conn pid p hconn hp =>
      unfold unbindSession
      split
      · refine ArmedOf.frame h (Finset.erase_subset pid _) rfl rfl (fun _ _ hid => hid) fun _ _ hx' =>
          .inr ?_
        exact expire_modify pid (fun p => { p with conn := none, state := .kLobby }) rfl
          (fun _ => rfl) hx'
      · exact ArmedOf.modify h pid (fun p => { p with conn := none }) rfl (fun _ => rfl) rfl rfl rfl
  | scheduleExpiry pid =>
      exact ArmedOf.add h kSessionKeepMs (.expireSession pid) rfl rfl (fun _ hp => .inl hp)
        (fun _ _ hid => .inl hid) fun _ _ hx' => expire_scheduleExpiry hx'
  | erase | forfeit =>
      exact ArmedOf.frame h (fun _ hp => hp) rfl rfl (fun _ _ hid => hid) fun _ _ hx' =>
        .inr (expire_eraseSession hx')
  | @wait pid p hp hconn hstate =>
      obtain ⟨-, hwaiting, -⟩ := hbase.joinQueue hp hconn hstate
      have hjoin := ArmedOf.joinQueue h pid
      rw [← hwaiting] at hjoin
      exact hjoin.frame (fun _ hq => hq) rfl rfl (fun _ _ hid => hid) fun _ x' hx' =>
        .inr ⟨x', hx', rfl⟩
  | pair ks _ _ _ _ hwaiting _ _ hq => exact h.pair hwaiting ks _ _ hq
  | matchTimeout hfiring htake hcb => exact h.matchTimeout hfiring htake hcb
  | take hfiring htake hcb =>
      obtain ⟨hnode, -, hready, -, hnext, hpending⟩ := (hfiring ▸ h.ready).take_some htake
      refine ArmedOf.discard h (fun _ hp => hp) (fun p _ htimer => ?_) hready hnext hpending
        (fun _ _ hid => hid) fun _ x' hx' => .inr ⟨x', hx', rfl⟩
      obtain ⟨node', hnode', hcb'⟩ := htimer
      obtain rfl := Option.some.inj (hnode.symm.trans hnode')
      exact hcb p hcb'
  | @skip n rest hfiring htake =>
      have hready := ArmedOf.ready h
      rw [hfiring] at hready
      rcases hready.take with ⟨-, -, hready'⟩ | ⟨node, -, -, htake', -⟩
      · exact ArmedOf.update h hready' rfl h.queued (fun _ _ hid => hid) (fun _ _ hid => hid)
          fun _ x' hx' => .inr ⟨x', hx', rfl⟩
      · rw [htake] at htake'
        cases htake'
  | wheelTick hfiring =>
      have hready := ArmedOf.ready h
      rw [hfiring] at hready
      obtain ⟨hready', -, hnext, hpending⟩ := hready.beginStep
      have htimers : ∀ p id, s.wheelTick.MatchTimerOf p id ↔ s.MatchTimerOf p id := by
        intro p id
        simp only [Lobby.MatchTimerOf, Lobby.wheelTick, hpending]
      refine ArmedOf.update h hready' hnext (fun p hp => ?_) (fun p id => (htimers p id).mp)
        (fun _ _ hid => hid) fun _ x' hx' => .inr ⟨x', hx', rfl⟩
      obtain ⟨id, hid⟩ := h.queued p hp
      exact ⟨id, (htimers p id).mpr hid⟩
  | scheduleSweep =>
      exact ArmedOf.add h kSweepIntervalMs .sweep rfl rfl (fun _ hp => .inl hp)
        (fun _ _ hid => .inl hid) fun _ x' hx' => .inr ⟨x', hx', rfl⟩
  | @closing r cell op mailbox cells winner =>
      have hacts : Armed ({ s with
          cells := cells
          log := s.log ++ (cell.room.apply op).2.map (Entry.room r) } : Lobby F) :=
        hsame rfl rfl rfl rfl rfl
      unfold closeRoom
      split
      · exact hacts.onRoomEnd r winner
      · exact hsame rfl rfl rfl rfl rfl
  | @roomEnd r winner rest =>
      refine Armed.onRoomEnd ?_ r winner
      exact hsame rfl rfl rfl rfl rfl

omit [Scalar F] in
theorem armed_init (gameThreads : ℕ) (writer : Bool) :
    Armed (Lobby.init gameThreads writer : Lobby F) := by
  have hempty : ArmedOf ∅ ({ gameThreads := gameThreads, writer := writer } : Lobby F) := by
    refine ⟨TimerWheel.ready_init, ?_, ?_, ?_⟩ <;> simp
  exact ArmedOf.add hempty kSweepIntervalMs .sweep rfl rfl (fun _ hp => .inl hp) (fun _ _ hid => .inl hid)
    fun _ x' hx' => .inr ⟨x', hx', rfl⟩

end GameServer.Game
