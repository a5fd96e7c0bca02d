import GameServer.Game.Outgoing
import GameServer.Game.LobbyViews

/-!
The online flags of the accounts.

A flag is a key of Redis, set by `onLogin` and `onReconnect` and deleted by
`onDisconnect`, each time by a task of the storage thread. `Online` puts the
keys beside the lobby, together with the connections that are gone. The name
of a connection is never used again, but its messages may be handled after
its end.

The flag is one bit for each account, but sessions are what comes and goes.
It is right as long as an account that loses a connection has no other one,
a connection that ends has served one account only, and nobody gets a
connection that is gone.
-/

namespace GameServer.Game

open GameServer.Lib GameServer.Proto GameServer.Timer
open Lobby

variable {F : Type}

/-! ### The keys -/

def onlineKey (account : String) : String := "online:" ++ account

/-- What a task of the storage thread does to the keys of Redis, which sees
them as far as `c_str()` shows them. -/
def StoreTask.redis (keys : Finset String) : StoreTask → Finset String
  | .setOnline account => insert (cStr (onlineKey account)) keys
  | .delOnline account => keys.erase (cStr (onlineKey account))
  | .settle _ _ | .leaderboard _ _ => keys

def StoreTask.isFlag : StoreTask → Bool
  | .setOnline _ | .delOnline _ => true
  | .settle _ _ | .leaderboard _ _ => false

/-- An account that `c_str()` shows in full. -/
def Printable (account : String) : Prop := Char.ofNat 0 ∉ account.toList

instance (account : String) : Decidable (Printable account) :=
  inferInstanceAs (Decidable (Char.ofNat 0 ∉ account.toList))

theorem cStr_onlineKey {account : String} (h : Printable account) :
    cStr (onlineKey account) = onlineKey account := by
  have hall : ∀ c ∈ (onlineKey account).toList, decide (c ≠ Char.ofNat 0) = true := by
    intro c hc
    simp only [onlineKey, String.toList_append, List.mem_append] at hc
    rcases hc with hc | hc
    · have hprefix : ∀ c ∈ "online:".toList, decide (c ≠ Char.ofNat 0) = true := by simp
      exact hprefix c hc
    · rw [decide_eq_true_eq]
      rintro rfl
      exact h hc
  rw [cStr, List.takeWhile_eq_self_iff.mpr hall, String.ofList_toList]

theorem onlineKey_inj {a b : String} : onlineKey a = onlineKey b ↔ a = b := by
  refine ⟨fun h => ?_, fun h => by rw [h]⟩
  have hlist := congrArg String.toList h
  simp only [onlineKey, String.toList_append, List.append_cancel_left_eq] at hlist
  exact String.toList_inj.mp hlist

/-- Only the tasks about flags matter for the keys. -/
theorem foldl_redis_filter (tasks : List StoreTask) (keys : Finset String) :
    (tasks.filter StoreTask.isFlag).foldl StoreTask.redis keys =
      tasks.foldl StoreTask.redis keys := by
  induction tasks generalizing keys with
  | nil => rfl
  | cons task tasks ih =>
      cases task with
      | setOnline | delOnline => exact ih _
      | settle | leaderboard => exact ih keys

/-! ### The lobby and Redis -/

/-- The lobby, the keys in Redis and the connections that have ended. -/
structure Online (F : Type) where
  lobby : Lobby F
  keys : Finset String := ∅
  gone : List Conn := []

namespace Online

/-- The lobby comes to the event: no timer callback is waiting. -/
def handles (s : Online F) (e : LobbyEvent F) : Bool :=
  !e.waits || s.lobby.firing.isEmpty

/-- The connections of the sessions of an account that have not ended. -/
def liveConns (s : Online F) (account : String) : List Conn :=
  (s.lobby.sessions.entries.filterMap fun e => if e.2.account = account then e.2.conn else none)
    |>.filter (· ∉ s.gone)

/-- The accounts of the sessions that name a connection. -/
def accountsOn (s : Online F) (conn : Conn) : List String :=
  s.lobby.sessions.entries.filterMap fun e =>
    if e.2.conn = some conn then some e.2.account else none

/-- Once the storage thread has nothing to do, an account has its key exactly
if it has a session on a live connection. -/
def Mirrors (s : Online F) : Prop :=
  s.lobby.store = [] → ∀ account, onlineKey account ∈ s.keys ↔ s.liveConns account ≠ []

variable [Scalar F]

def step (s : Online F) (e : LobbyEvent F) : Online F :=
  if s.handles e then
    { lobby := s.lobby.step e
      keys := match e with
        | .storeTask _ => (s.lobby.store.take 1).foldl StoreTask.redis s.keys
        | _ => s.keys
      gone := match e with
        | .disconnect conn => conn :: s.gone
        | _ => s.gone }
  else s

def init (gameThreads : ℕ) : Online F := { lobby := Lobby.init gameThreads true }

end Online

/-! ### The part of the lobby that the flags depend on -/

/-- Which player a connection stands for, which account and token a player
has, which connection as long as there is one, and the flags that wait to be
written. -/
@[ext] structure Roll where
  writer : Bool
  bound : UnorderedMap Conn ℕ
  identity : ℕ → Option (String × String)
  owner : ℕ → Option (Conn × String)
  pending : List StoreTask

/-- The event can change the roll. -/
def LobbyEvent.enrols : LobbyEvent F → Bool
  | .login _ _ _ _ _ | .reconnect _ _ _ _ | .disconnect _ | .fireNext _ | .storeTask _ => true
  | .matchReq _ _ | .input _ _ | .heartbeat _ _ _ | .leaderboard _ _ | .roomEnd | .wheelTick
  | .roomTask _ | .roomTick _ _ => false

/-- A flag is to be written, if there is storage. -/
def Roll.enqueue (task : StoreTask) (r : Roll) : Roll :=
  if r.writer then { r with pending := r.pending ++ [task] } else r

@[simp] theorem Roll.bound_enqueue (task : StoreTask) (r : Roll) :
    (r.enqueue task).bound = r.bound := by
  unfold enqueue
  split <;> rfl

@[simp] theorem Roll.identity_enqueue (task : StoreTask) (r : Roll) :
    (r.enqueue task).identity = r.identity := by
  unfold enqueue
  split <;> rfl

@[simp] theorem Roll.owner_enqueue (task : StoreTask) (r : Roll) :
    (r.enqueue task).owner = r.owner := by
  unfold enqueue
  split <;> rfl

namespace Lobby

def roll (s : Lobby F) : Roll :=
  { writer := s.writer
    bound := s.connToPlayer
    identity := fun p => (s.sessions.lookup p).map fun x => (x.account, x.token)
    owner := fun p => (s.sessions.lookup p).bind fun x => x.conn.map fun c => (c, x.account)
    pending := s.store.filter StoreTask.isFlag }

theorem owner_eq_some {s : Lobby F} {p : ℕ} {c : Conn} {a : String} :
    s.roll.owner p = some (c, a) ↔
      ∃ x, s.sessions.lookup p = some x ∧ x.conn = some c ∧ x.account = a := by
  simp only [roll, Option.bind_eq_some_iff, Option.map_eq_some_iff, Prod.mk.injEq]
  constructor
  · rintro ⟨x, hx, c', hc, rfl, rfl⟩
    exact ⟨x, hx, hc, rfl⟩
  · rintro ⟨x, hx, hc, rfl⟩
    exact ⟨x, hx, c, hc, rfl, rfl⟩

/-- A change of the sessions that leaves connections and accounts alone. -/
theorem roll_map {s s' : Lobby F} {g : ℕ → Session → Session} (hwriter : s'.writer = s.writer)
    (hbound : s'.connToPlayer = s.connToPlayer) (hstore : s'.store = s.store)
    (hlookup : ∀ p, s'.sessions.lookup p = (s.sessions.lookup p).map (g p))
    (hg : ∀ p x, (g p x).conn = x.conn ∧ (g p x).account = x.account ∧
      (g p x).token = x.token) : s'.roll = s.roll := by
  refine Roll.ext hwriter hbound (funext fun p => ?_) (funext fun p => ?_)
    (congrArg (List.filter StoreTask.isFlag) hstore)
  · simp only [roll, hlookup]
    cases s.sessions.lookup p with
    | none => rfl
    | some x => simp [hg p x]
  · simp only [roll, hlookup]
    cases s.sessions.lookup p with
    | none => rfl
    | some x => simp [hg p x]

theorem roll_modify {s s' : Lobby F} (p : ℕ) (f : Session → Session)
    (hwriter : s'.writer = s.writer) (hbound : s'.connToPlayer = s.connToPlayer)
    (hstore : s'.store = s.store) (hsessions : s'.sessions = s.sessions.modify p f)
    (hf : ∀ x, (f x).conn = x.conn ∧ (f x).account = x.account ∧ (f x).token = x.token) :
    s'.roll = s.roll := by
  refine roll_map (g := fun p' x => if p' = p then f x else x) hwriter hbound hstore
    (fun p' => ?_) fun p' x => ?_
  · rw [hsessions, UnorderedMap.lookup_modify]
    split <;> simp
  · split
    · exact hf x
    · exact ⟨rfl, rfl, rfl⟩

@[simp] theorem roll_emit (e : Entry F) (s : Lobby F) : (s.emit e).roll = s.roll := rfl

theorem roll_enqueue_of_not_flag {task : StoreTask} (h : task.isFlag = false) (s : Lobby F) :
    (s.enqueue task).roll = s.roll := by
  unfold enqueue
  split
  · simp [roll, h]
  · rfl

theorem roll_enqueue_of_flag {task : StoreTask} (h : task.isFlag = true) (s : Lobby F) :
    (s.enqueue task).roll = s.roll.enqueue task := by
  unfold Lobby.enqueue Roll.enqueue
  by_cases hwriter : s.writer = true
  · simp [roll, hwriter, h]
  · simp [roll, hwriter]

@[simp] theorem roll_onRoomEnd (r w : ℕ) (s : Lobby F) : (s.onRoomEnd r w).roll = s.roll := by
  have hleft : ({ s with
      rooms := s.rooms.erase r
      sessions := s.sessions.mapVal fun _ (p : Session) =>
        if p.roomId = r then { p with roomId := 0, state := .kLobby } else p } : Lobby F).roll =
      s.roll := by
    refine roll_map rfl rfl rfl (fun p => UnorderedMap.lookup_mapVal _ _ _) fun p x => ?_
    split <;> exact ⟨rfl, rfl, rfl⟩
  unfold onRoomEnd
  dsimp only
  split
  · rw [roll_emit, roll_enqueue_of_not_flag rfl, hleft]
  · rw [roll_emit, hleft]

theorem overlooks_roll : Overlooks (roll : Lobby F → Roll) where
  emit _ _ := rfl
  onRoomEnd := roll_onRoomEnd
  reset _ _ := rfl
  roomEnds _ _ := rfl

variable [Scalar F]

@[simp] theorem roll_post (r : ℕ) (task : RoomTask F) (s : Lobby F) :
    (s.post r task).roll = s.roll :=
  overlooks_roll.post (fun _ => rfl) (fun _ => rfl) s

@[simp] theorem roll_postToRoom (p : Session) (task : RoomTask F) (s : Lobby F) :
    (s.postToRoom p task).roll = s.roll :=
  overlooks_roll.postToRoom p (fun _ => rfl) (fun _ => rfl) s

/-! ### Handlers that do not touch it -/

@[simp] theorem roll_tryMatch (ks : List ℕ) (s : Lobby F) : (s.tryMatch ks).roll = s.roll := by
  unfold tryMatch
  split
  · rfl
  · rfl
  · next a b q _ =>
      dsimp only
      split
      · next pa pb _ _ =>
          obtain ⟨wheel, timers, heq⟩ := pairUp_eq ks a b pa pb q s
          have hpair : (s.pairUp ks a b pa pb q).roll = s.roll := by
            refine roll_map (by rw [heq]; rfl) (by rw [heq]; rfl) (by rw [heq]; rfl)
              (lookup_pairUp ks a b pa pb q s) fun p x => ?_
            split <;> exact ⟨rfl, rfl, rfl⟩
          rw [roll_post]
          exact hpair
      · rfl

theorem roll_onMatch (ks : List ℕ) (conn : Conn) (s : Lobby F) :
    (s.onMatch ks conn).roll = s.roll := by
  unfold onMatch
  split
  · rfl
  · next p _ =>
      have hjoin : (s.joinQueue p.playerId).roll = s.roll :=
        roll_modify p.playerId (fun p => { p with state := .kMatching }) rfl rfl rfl rfl
          fun _ => ⟨rfl, rfl, rfl⟩
      split
      · rfl
      · split
        · rw [roll_tryMatch, hjoin]
        · rfl

theorem roll_onInput (conn : Conn) (input : PlayerInput F) (s : Lobby F) :
    (s.onInput conn input).roll = s.roll :=
  view_onInput conn (fun p s => roll_postToRoom p _ s) s

omit [Scalar F] in
theorem roll_onHeartbeat (conn : Conn) (clientMs : ℤ) (now : ℕ) (s : Lobby F) :
    (s.onHeartbeat conn clientMs now).roll = s.roll := by
  unfold onHeartbeat
  dsimp only
  split
  · rfl
  · next p _ =>
      rw [roll_emit]
      exact roll_modify p.playerId (fun p => { p with lastHeartbeatMs := now }) rfl rfl rfl rfl
        fun _ => ⟨rfl, rfl, rfl⟩

omit [Scalar F] in
theorem roll_onLeaderboard (conn : Conn) (topN : ℕ) (s : Lobby F) :
    (s.onLeaderboard conn topN).roll = s.roll := by
  unfold onLeaderboard
  dsimp only
  split
  · exact roll_enqueue_of_not_flag rfl s
  · rfl

omit [Scalar F] in
theorem roll_reject (conn : Conn) (s : Lobby F) : (s.reject conn).roll = s.roll := rfl

/-- A session that ends has no connection. -/
theorem roll_expireSession (pid : ℕ) (s : Lobby F) :
    (s.expireSession pid).roll = s.roll ∨
      (s.expireSession pid).roll =
        { s.roll with identity := Function.update s.roll.identity pid none } := by
  unfold expireSession
  split
  · exact .inl rfl
  · next p hp =>
      split
      · exact .inl rfl
      · next hconn =>
          right
          have hnone : s.roll.owner pid = none := by
            simp [roll, hp, Option.not_isSome_iff_eq_none.mp hconn]
          have hposted := roll_postToRoom p (.forceEnd (s.opponent pid p.roomId)) s
          rw [← hposted] at hnone ⊢
          refine Roll.ext rfl rfl (funext fun p' => ?_) (funext fun p' => ?_) rfl
          · simp only [roll, eraseSession, UnorderedMap.lookup_erase_eq, Function.update_apply]
            split <;> rfl
          · by_cases hp' : p' = pid
            · subst hp'
              rw [hnone]
              simp [roll, eraseSession]
            · simp [roll, eraseSession, AList.lookup_erase_ne hp']

omit [Scalar F] in
theorem roll_matchTimeout (pid : ℕ) (s : Lobby F) : (s.matchTimeout pid).roll = s.roll := by
  have hleave : (({ s with matchTimer := s.matchTimer.erase pid } : Lobby F).leaveQueue pid).roll =
      s.roll :=
    roll_modify pid (fun p => { p with state := .kLobby }) rfl rfl rfl rfl fun _ => ⟨rfl, rfl, rfl⟩
  unfold matchTimeout
  dsimp only
  split
  · split
    · exact hleave
    · exact hleave
  · rfl

theorem roll_fireNext (now : ℕ) (s : Lobby F) :
    (s.fireNext now).roll = s.roll ∨ ∃ pid, (s.fireNext now).roll =
      { s.roll with identity := Function.update s.roll.identity pid none } := by
  rcases fireNext_cases s now with heq | ⟨n, rest, -, -, heq⟩ | ⟨n, rest, node, w, -, -, -, heq⟩
  · rw [heq]
    exact .inl rfl
  · rw [heq]
    exact .inl rfl
  · rw [heq]
    cases hcb : node.cb with
    | matchTimeout pid => exact .inl (roll_matchTimeout pid _)
    | expireSession pid =>
        exact (roll_expireSession pid { s with firing := rest, wheel := w }).imp_right
          fun h => ⟨pid, h⟩
    | sweep => exact .inl rfl

theorem roll_step_of_not_enrols {e : LobbyEvent F} (h : e.enrols = false)
    (s : Lobby F) : (s.step e).roll = s.roll := by
  rcases step_cases s e with hself | ⟨-, hstep⟩
  · rw [hself]
  rw [hstep]
  cases e with
  | matchReq conn ks => exact roll_onMatch ks conn s
  | input conn input => exact roll_onInput conn input s
  | heartbeat conn clientMs now => exact roll_onHeartbeat conn clientMs now s
  | leaderboard conn topN => exact roll_onLeaderboard conn topN s
  | roomEnd => exact overlooks_roll.handleRoomEnd s
  | wheelTick => rfl
  | roomTask r => exact overlooks_roll.roomTask (fun _ _ _ => rfl) r s
  | roomTick r ks => exact overlooks_roll.roomTick r (fun _ => rfl) s
  | login | reconnect | disconnect | fireNext | storeTask => cases h

/-! ### Handlers that do -/

omit [Scalar F] in
theorem roll_onLogin (conn : Conn) (account token : String) (now : ℕ) (ks : List ℕ)
    (s : Lobby F) :
    (s.onLogin conn account token now ks).roll = Roll.enqueue (.setOnline account)
      { s.roll with
        bound := s.roll.bound.insert conn s.nextPlayerId
        identity := Function.update s.roll.identity s.nextPlayerId (some (account, token))
        owner := Function.update s.roll.owner s.nextPlayerId (some (conn, account)) } := by
  unfold onLogin
  rw [roll_enqueue_of_flag rfl]
  congr 1
  refine Roll.ext rfl rfl (funext fun p => ?_) (funext fun p => ?_) rfl
  · simp only [roll, emit, addSession, UnorderedMap.lookup_reorder,
      UnorderedMap.lookup_insert_eq, Function.update_apply]
    split <;> rfl
  · simp only [roll, emit, addSession, UnorderedMap.lookup_reorder,
      UnorderedMap.lookup_insert_eq, Function.update_apply]
    split <;> rfl

/-- An accepted reconnect gives a connection to a player without one. -/
theorem roll_onReconnect {s : Lobby F} (hbase : Base s) (conn : Conn) (pid : ℕ) (token : String)
    (now : ℕ) :
    (s.accepts pid token = false ∧ (s.onReconnect conn pid token now).roll = s.roll) ∨
    ∃ account, s.accepts pid token = true ∧ s.roll.identity pid = some (account, token) ∧
      s.roll.owner pid = none ∧
      (s.onReconnect conn pid token now).roll = Roll.enqueue (.setOnline account)
        { s.roll with
          bound := s.roll.bound.insert conn pid
          owner := Function.update s.roll.owner pid (some (conn, account)) } := by
  rcases onReconnect_cases s conn pid token now with
    ⟨hacc, heq⟩ | ⟨p, hacc, hp, htoken, hnone, heq⟩
  · left
    exact ⟨hacc, by rw [heq, roll_reject]⟩
  · right
    refine ⟨p.account, hacc, by simp [roll, hp, htoken], by simp [roll, hp, hnone], ?_⟩
    have hrebind : (s.rebindSession conn pid p now).roll = { s.roll with
        bound := s.roll.bound.insert conn pid
        owner := Function.update s.roll.owner pid (some (conn, p.account)) } := by
      have hid : p.playerId = pid := (hbase.tables.session hp).id
      refine Roll.ext rfl ?_ (funext fun p' => ?_) (funext fun p' => ?_) rfl
      · show s.connToPlayer.insert conn p.playerId = s.connToPlayer.insert conn pid
        rw [hid]
      · simp only [roll, rebindSession, UnorderedMap.lookup_modify]
        split
        · rw [Option.map_map]
          rfl
        · rfl
      · simp only [roll, rebindSession, UnorderedMap.lookup_modify, Function.update_apply]
        split
        · next hp' =>
            rw [hp', hp]
            rfl
        · rfl
    rw [heq, roll_enqueue_of_flag rfl, roll_postToRoom, roll_emit, hrebind]

/-- The end of a connection takes it away from the player it stands for, and
from no other. -/
theorem roll_onDisconnect {s : Lobby F} (hbase : Base s) (conn : Conn) :
    (s.roll.bound.lookup conn = none ∧ (s.onDisconnect conn).roll = s.roll) ∨
    ∃ pid p, s.roll.bound.lookup conn = some pid ∧ s.sessionOf conn = some p ∧
      s.roll.owner pid = some (conn, p.account) ∧
      (s.onDisconnect conn).roll = Roll.enqueue (.delOnline p.account)
        { s.roll with
          bound := s.roll.bound.erase conn
          owner := Function.update s.roll.owner pid none } := by
  cases hpid : s.connToPlayer.lookup conn with
  | none => exact .inl ⟨hpid, by simp [onDisconnect, hpid]⟩
  | some pid =>
      right
      obtain ⟨p, hp, hconn⟩ := hbase.tables.bound hpid
      have hp : s.sessions.lookup pid = some p := hp
      refine ⟨pid, p, hpid, by simp [sessionOf, hpid, hp],
        owner_eq_some.mpr ⟨p, hp, hconn, rfl⟩, ?_⟩
      have hunbind : (s.unbindSession conn pid p).roll = { s.roll with
          bound := s.roll.bound.erase conn
          owner := Function.update s.roll.owner pid none } := by
        refine Roll.ext ?_ ?_ (funext fun p' => ?_) (funext fun p' => ?_) ?_
        · unfold unbindSession
          split <;> rfl
        · exact connToPlayer_unbindSession conn pid p s
        · simp only [roll, lookup_unbindSession]
          cases s.sessions.lookup p' with
          | none => rfl
          | some x =>
              simp only [Option.map_some]
              split <;> rfl
        · simp only [roll, lookup_unbindSession, Function.update_apply]
          cases s.sessions.lookup p' with
          | none => simp
          | some x => split <;> simp
        · unfold unbindSession
          split <;> rfl
      have hdropped := roll_postToRoom p (.dropConn pid) (s.unbindSession conn pid p)
      have hscheduled : (((s.unbindSession conn pid p).postToRoom p (.dropConn pid)).scheduleExpiry
          pid).roll = (s.unbindSession conn pid p).roll := by
        rw [← hdropped]
        exact roll_modify pid (fun p => { p with expireTimerId := _ }) rfl rfl rfl rfl
          fun _ => ⟨rfl, rfl, rfl⟩
      have heq : s.onDisconnect conn = (((s.unbindSession conn pid p).postToRoom p
          (.dropConn pid)).scheduleExpiry pid).enqueue (.delOnline p.account) := by
        simp [onDisconnect, hpid, hp]
      rw [heq, roll_enqueue_of_flag rfl, hscheduled, hunbind]

omit [Scalar F] in
theorem roll_storeTask (top : List (String × F)) (s : Lobby F) :
    (s.storeTask top).roll =
      { s.roll with pending := (s.store.drop 1).filter StoreTask.isFlag } := by
  unfold storeTask
  split
  · next h => simp [roll, h]
  · next task rest h =>
      rw [h]
      cases task <;> rfl

omit [Scalar F] in
/-- The storage thread executes its oldest task; the keys it will have
written in the end are the same as before. -/
theorem foldl_redis_storeTask (top : List (String × F)) (s : Lobby F) (keys : Finset String) :
    (s.storeTask top).roll.pending.foldl StoreTask.redis
        ((s.store.take 1).foldl StoreTask.redis keys) =
      s.roll.pending.foldl StoreTask.redis keys := by
  rw [roll_storeTask]
  simp only [roll, foldl_redis_filter]
  rw [← List.foldl_append, List.take_append_drop]

end Lobby

/-! ### The flags and the sessions -/

/-- The account has a session on a connection that has not ended. -/
def Roll.Live (r : Roll) (gone : List Conn) (account : String) : Prop :=
  ∃ p c, r.owner p = some (c, account) ∧ c ∉ gone

/-- The keys as they will be when the pending tasks have been executed agree
with the sessions. A session on a live connection may have lost its entry in
the connection table to a later login there, but some entry is left. -/
structure Flagged (r : Roll) (keys : Finset String) (gone : List Conn) : Prop where
  writer : r.writer = true
  bound : ∀ {p c a}, r.owner p = some (c, a) → c ∉ gone → (r.bound.lookup c).isSome
  printable : ∀ {p a t}, r.identity p = some (a, t) → Printable a
  flags : ∀ a, onlineKey a ∈ r.pending.foldl StoreTask.redis keys ↔ r.Live gone a

/-- A player without a connection gets one. When that one is gone already, the
flag needs another reason to be set. -/
theorem Flagged.attach {r : Roll} {keys : Finset String} {gone : List Conn}
    (h : Flagged r keys gone) {c : Conn} {p : ℕ} {a : String} (hnone : r.owner p = none)
    (hc : c ∈ gone → r.Live gone a) (ha : Printable a) {identity : ℕ → Option (String × String)}
    (hidentity : ∀ {q b t}, identity q = some (b, t) → Printable b) :
    Flagged (Roll.enqueue (.setOnline a) { r with
      bound := r.bound.insert c p
      identity := identity
      owner := Function.update r.owner p (some (c, a)) }) keys gone := by
  rw [Roll.enqueue, if_pos h.writer]
  refine ⟨h.writer, fun {q c' b} hq hc' => ?_, hidentity, fun b => ?_⟩
  · rw [UnorderedMap.lookup_insert_eq]
    split
    · rfl
    · next hne =>
        simp only [Function.update_apply] at hq
        split at hq
        · obtain ⟨rfl, -⟩ := Prod.mk.inj (Option.some.inj hq)
          exact absurd rfl hne
        · exact h.bound hq hc'
  · have hkey : onlineKey b ∈ (r.pending ++ [StoreTask.setOnline a]).foldl StoreTask.redis keys ↔
        b = a ∨ onlineKey b ∈ r.pending.foldl StoreTask.redis keys := by
      rw [List.foldl_append]
      simp only [List.foldl_cons, List.foldl_nil, StoreTask.redis, Finset.mem_insert,
        cStr_onlineKey ha, onlineKey_inj]
    rw [hkey, h.flags b]
    have hkept : r.Live gone b → ∃ q c',
        Function.update r.owner p (some (c, a)) q = some (c', b) ∧ c' ∉ gone := by
      rintro ⟨q, c', hq, hc'⟩
      have hne : q ≠ p := by
        rintro rfl
        rw [hnone] at hq
        cases hq
      exact ⟨q, c', (Function.update_of_ne hne ..).trans hq, hc'⟩
    constructor
    · rintro (rfl | hlive)
      · by_cases hgone : c ∈ gone
        · exact hkept (hc hgone)
        · exact ⟨p, c, Function.update_self .., hgone⟩
      · exact hkept hlive
    · rintro ⟨q, c', hq, hc'⟩
      simp only [Function.update_apply] at hq
      split at hq
      · exact .inl (Prod.mk.inj (Option.some.inj hq)).2.symm
      · exact .inr ⟨q, c', hq, hc'⟩

/-- A connection ends. The flag of its player's account is deleted, so there
must be no other session that needs it; sessions that named this connection
without being its player keep their flags, so they must need them. -/
theorem Flagged.detach {r : Roll} {keys : Finset String} {gone : List Conn}
    (h : Flagged r keys gone) {c : Conn} {p : ℕ} {a : String} (hp : r.owner p = some (c, a))
    (ha : Printable a) (hlast : ∀ q c', r.owner q = some (c', a) → c' ∉ gone → c' = c)
    (hothers : c ∉ gone → ∀ q b, r.owner q = some (c, b) → b ≠ a →
      ∃ q' c', r.owner q' = some (c', b) ∧ c' ∉ gone ∧ c' ≠ c) :
    Flagged (Roll.enqueue (.delOnline a) { r with
      bound := r.bound.erase c
      owner := Function.update r.owner p none }) keys (c :: gone) := by
  rw [Roll.enqueue, if_pos h.writer]
  have hold : ∀ {q c' b}, Function.update r.owner p none q = some (c', b) →
      r.owner q = some (c', b) := by
    intro q c' b hq
    rw [Function.update_apply] at hq
    split at hq
    · cases hq
    · exact hq
  refine ⟨h.writer, fun {q c' b} hq hc' => ?_, h.printable, fun b => ?_⟩
  · obtain ⟨hne, hgone⟩ := not_or.mp (mt List.mem_cons.mpr hc')
    rw [AList.lookup_erase_ne hne]
    exact h.bound (hold hq) hgone
  · have hkey : onlineKey b ∈ (r.pending ++ [StoreTask.delOnline a]).foldl StoreTask.redis keys ↔
        b ≠ a ∧ onlineKey b ∈ r.pending.foldl StoreTask.redis keys := by
      rw [List.foldl_append]
      simp only [List.foldl_cons, List.foldl_nil, StoreTask.redis, Finset.mem_erase,
        cStr_onlineKey ha, ne_eq, onlineKey_inj]
    have hkeep : ∀ {q c'}, r.owner q = some (c', b) → b ≠ a → c' ∉ gone → c' ≠ c →
        ∃ q c', Function.update r.owner p none q = some (c', b) ∧ c' ∉ c :: gone := by
      intro q c' hq hb hgone hne
      refine ⟨q, c', ?_, fun hmem => (List.mem_cons.mp hmem).elim hne hgone⟩
      have hqp : q ≠ p := by
        rintro rfl
        obtain ⟨-, rfl⟩ := Prod.mk.inj (Option.some.inj (hq.symm.trans hp))
        exact hb rfl
      rw [Function.update_of_ne hqp]
      exact hq
    rw [hkey, h.flags b]
    constructor
    · rintro ⟨hb, q, c', hq, hgone⟩
      by_cases hc' : c' = c
      · subst hc'
        obtain ⟨q', c'', hq', hgone', hne⟩ := hothers hgone q b hq hb
        exact hkeep hq' hb hgone' hne
      · exact hkeep hq hb hgone hc'
    · rintro ⟨q, c', hq, hc'⟩
      obtain ⟨hne, hgone⟩ := not_or.mp (mt List.mem_cons.mpr hc')
      refine ⟨?_, q, c', hold hq, hgone⟩
      rintro rfl
      exact hne (hlast q c' (hold hq) hgone)

/-- No session names a connection that is not in the table. -/
theorem Flagged.close {r : Roll} {keys : Finset String} {gone : List Conn}
    (h : Flagged r keys gone) {c : Conn} (hc : r.bound.lookup c = none) :
    Flagged r keys (c :: gone) := by
  have hne : ∀ {p c' a}, r.owner p = some (c', a) → c' ∉ gone → c' ≠ c := by
    rintro p c' a hp hgone rfl
    have hsome := h.bound hp hgone
    rw [hc] at hsome
    cases hsome
  refine ⟨h.writer, fun hp hc' => h.bound hp fun hmem => hc' (List.mem_cons_of_mem _ hmem),
    h.printable, fun a => (h.flags a).trans ?_⟩
  constructor
  · rintro ⟨p, c', hp, hgone⟩
    exact ⟨p, c', hp, fun hmem => (List.mem_cons.mp hmem).elim (hne hp hgone) hgone⟩
  · rintro ⟨p, c', hp, hgone⟩
    exact ⟨p, c', hp, fun hmem => hgone (List.mem_cons_of_mem _ hmem)⟩

/-! ### Runs -/

namespace Online

theorem mem_liveConns {s : Online F} {a : String} {c : Conn} :
    c ∈ s.liveConns a ↔ (∃ p, s.lobby.roll.owner p = some (c, a)) ∧ c ∉ s.gone := by
  simp only [liveConns, List.mem_filter, List.mem_filterMap, decide_eq_true_eq, owner_eq_some]
  refine and_congr_left fun _ => ⟨?_, ?_⟩
  · rintro ⟨⟨p, x⟩, he, hx⟩
    split at hx
    · next ha => exact ⟨p, x, UnorderedMap.mem_entries_iff.mp he, hx, ha⟩
    · cases hx
  · rintro ⟨p, x, hx, hc, ha⟩
    exact ⟨⟨p, x⟩, UnorderedMap.mem_entries_iff.mpr hx, by rw [if_pos ha, hc]⟩

theorem mem_accountsOn {s : Online F} {a : String} {c : Conn} :
    a ∈ s.accountsOn c ↔ ∃ p, s.lobby.roll.owner p = some (c, a) := by
  simp only [accountsOn, List.mem_filterMap, owner_eq_some]
  constructor
  · rintro ⟨⟨p, x⟩, he, hx⟩
    split at hx
    · next hc => exact ⟨p, x, UnorderedMap.mem_entries_iff.mp he, hc, Option.some.inj hx⟩
    · cases hx
  · rintro ⟨p, x, hx, hc, ha⟩
    exact ⟨⟨p, x⟩, UnorderedMap.mem_entries_iff.mpr hx, by rw [if_pos hc, ha]⟩

theorem liveConns_ne_nil {s : Online F} {a : String} :
    s.liveConns a ≠ [] ↔ s.lobby.roll.Live s.gone a := by
  constructor
  · intro hne
    obtain ⟨c, hc⟩ := List.exists_mem_of_ne_nil _ hne
    obtain ⟨⟨p, hp⟩, hgone⟩ := mem_liveConns.mp hc
    exact ⟨p, c, hp, hgone⟩
  · rintro ⟨p, c, hp, hc⟩
    exact List.ne_nil_of_mem (mem_liveConns.mpr ⟨⟨p, hp⟩, hc⟩)

/-- A login names an account that `c_str()` shows in full. Whoever gets a
connection that is gone has another one, or another session of the account
has. When a connection ends, the account it is bound to has no other live
connection, and every other account with a session there has one, unless the
connection was gone before. -/
def Exclusive (s : Online F) : LobbyEvent F → Prop
  | .login conn account _ _ _ =>
      Printable account ∧ (conn ∈ s.gone → s.liveConns account ≠ [])
  | .reconnect conn pid token _ =>
      s.lobby.accepts pid token = true → conn ∈ s.gone →
        ∀ x ∈ s.lobby.sessions.lookup pid, s.liveConns x.account ≠ []
  | .disconnect conn => ∀ x ∈ s.lobby.sessionOf conn,
      (∀ c ∈ s.liveConns x.account, c = conn) ∧
        (conn ∉ s.gone → ∀ a ∈ s.accountsOn conn, a ≠ x.account →
          ∃ c ∈ s.liveConns a, c ≠ conn)
  | _ => True

instance (s : Online F) : (e : LobbyEvent F) → Decidable (s.Exclusive e)
  | .login conn account _ _ _ =>
      inferInstanceAs (Decidable (Printable account ∧ (conn ∈ s.gone → s.liveConns account ≠ [])))
  | .reconnect conn pid token _ =>
      inferInstanceAs (Decidable (s.lobby.accepts pid token = true → conn ∈ s.gone →
        ∀ x ∈ s.lobby.sessions.lookup pid, s.liveConns x.account ≠ []))
  | .disconnect conn => inferInstanceAs (Decidable (∀ x ∈ s.lobby.sessionOf conn, _))
  | .matchReq .. | .input .. | .heartbeat .. | .leaderboard .. | .roomEnd
  | .wheelTick | .fireNext _ | .roomTask _ | .roomTick .. | .storeTask _ => .isTrue trivial

/-- The invariant of a run. -/
structure Ok (s : Online F) : Prop where
  base : Base s.lobby
  flagged : Flagged s.lobby.roll s.keys s.gone

theorem Ok.mirrors {s : Online F} (h : s.Ok) : s.Mirrors := by
  intro hstore a
  have hflags := h.flagged.flags a
  rw [liveConns_ne_nil, ← hflags]
  simp [roll, hstore]

theorem ok_init (gameThreads : ℕ) : (init gameThreads : Online F).Ok := by
  refine ⟨base_init gameThreads true, rfl, fun {p c a} hp => ?_, fun {p a t} hp => ?_,
    fun a => ?_⟩
  · cases hp
  · cases hp
  · refine ⟨fun hkey => ?_, fun ⟨p, c, hp, _⟩ => ?_⟩
    · exact absurd hkey (Finset.notMem_empty _)
    · cases hp

theorem Ok.login {s : Online F} (h : s.Ok) {conn : Conn} {account token : String} {now : ℕ}
    {ks : List ℕ} (hexclusive : s.Exclusive (.login conn account token now ks)) :
    Flagged (s.lobby.onLogin conn account token now ks).roll s.keys s.gone := by
  have hnone : s.lobby.roll.owner s.lobby.nextPlayerId = none := by
    rw [Option.eq_none_iff_forall_ne_some]
    rintro ⟨c, a⟩ hp
    obtain ⟨x, hx, -⟩ := owner_eq_some.mp hp
    exact absurd (h.base.tables.session hx).lt (Nat.lt_irrefl _)
  obtain ⟨haccount, hlive⟩ := hexclusive
  rw [roll_onLogin]
  refine h.flagged.attach hnone (fun hgone => liveConns_ne_nil.mp (hlive hgone)) haccount
    fun {q b t} hq => ?_
  rw [Function.update_apply] at hq
  split at hq
  · obtain ⟨rfl, -⟩ := Prod.mk.inj (Option.some.inj hq)
    exact haccount
  · exact h.flagged.printable hq

variable [Scalar F]

theorem Ok.reconnect {s : Online F} (h : s.Ok) {conn : Conn} {pid : ℕ} {token : String} {now : ℕ}
    (hexclusive : s.Exclusive (.reconnect conn pid token now)) :
    Flagged (s.lobby.onReconnect conn pid token now).roll s.keys s.gone := by
  rcases roll_onReconnect h.base conn pid token now with
    ⟨-, heq⟩ | ⟨account, hacc, hidentity, hnone, heq⟩
  · rw [heq]
    exact h.flagged
  · obtain ⟨x, hx, heqx⟩ := Option.map_eq_some_iff.mp hidentity
    obtain ⟨rfl, -⟩ := Prod.mk.inj heqx
    rw [heq]
    exact h.flagged.attach hnone (fun hgone => liveConns_ne_nil.mp (hexclusive hacc hgone x hx))
      (h.flagged.printable hidentity) h.flagged.printable

theorem Ok.disconnect {s : Online F} (h : s.Ok) {conn : Conn}
    (hexclusive : s.Exclusive (.disconnect conn)) :
    Flagged (s.lobby.onDisconnect conn).roll s.keys (conn :: s.gone) := by
  rcases roll_onDisconnect h.base conn with ⟨hnone, heq⟩ | ⟨pid, p, -, hp, howner, heq⟩
  · rw [heq]
    exact h.flagged.close hnone
  · rw [heq]
    obtain ⟨hlast, hothers⟩ := hexclusive p hp
    obtain ⟨x, hx, -, haccount⟩ := owner_eq_some.mp howner
    have hprintable : Printable p.account :=
      h.flagged.printable (p := pid) (t := x.token) (by simp [roll, hx, haccount])
    refine h.flagged.detach howner hprintable (fun q c' hq hc' => ?_) fun hconn q b hq hb => ?_
    · exact hlast c' (mem_liveConns.mpr ⟨⟨q, hq⟩, hc'⟩)
    · obtain ⟨c', hc', hne⟩ := hothers hconn b (mem_accountsOn.mpr ⟨q, hq⟩) hb
      obtain ⟨⟨q', hq'⟩, hgone⟩ := mem_liveConns.mp hc'
      exact ⟨q', c', hq', hgone, hne⟩

theorem Ok.fireNext {s : Online F} (h : s.Ok) (now : ℕ) :
    Flagged (s.lobby.fireNext now).roll s.keys s.gone := by
  rcases roll_fireNext now s.lobby with heq | ⟨pid, heq⟩
  · rw [heq]
    exact h.flagged
  · rw [heq]
    refine ⟨h.flagged.writer, h.flagged.bound, fun {q b t} hq => ?_, h.flagged.flags⟩
    simp only [Function.update_apply] at hq
    split at hq
    · cases hq
    · exact h.flagged.printable hq

omit [Scalar F] in
theorem Ok.storeTask {s : Online F} (h : s.Ok) (top : List (String × F)) :
    Flagged (s.lobby.storeTask top).roll ((s.lobby.store.take 1).foldl StoreTask.redis s.keys)
      s.gone := by
  refine ⟨?_, ?_, ?_, fun a => ?_⟩
  · rw [roll_storeTask]
    exact h.flagged.writer
  · rw [roll_storeTask]
    exact h.flagged.bound
  · rw [roll_storeTask]
    exact h.flagged.printable
  · rw [foldl_redis_storeTask, h.flagged.flags a, roll_storeTask]
    rfl

theorem Ok.step {s : Online F} (h : s.Ok) (e : LobbyEvent F)
    (hexclusive : s.handles e = true → s.Exclusive e) : (s.step e).Ok := by
  unfold Online.step
  split
  · next hhandles =>
      refine ⟨h.base.step e, ?_⟩
      have hkeep : Flagged (s.lobby.handle e).roll s.keys s.gone →
          Flagged (s.lobby.step e).roll s.keys s.gone := by
        intro hhandle
        rcases step_cases s.lobby e with hself | ⟨-, hstep⟩
        · rw [hself]
          exact h.flagged
        · rw [hstep]
          exact hhandle
      have hsame : e.enrols = false → Flagged (s.lobby.step e).roll s.keys s.gone := by
        intro he
        rw [roll_step_of_not_enrols he]
        exact h.flagged
      cases e with
      | login conn account token now ks =>
          exact hkeep (h.login (hexclusive hhandles))
      | reconnect conn pid token now =>
          exact hkeep (h.reconnect (hexclusive hhandles))
      | disconnect conn =>
          rw [step_of_waits rfl (List.isEmpty_iff.mp hhandles)]
          exact h.disconnect (hexclusive hhandles)
      | storeTask top => exact h.storeTask top
      | fireNext now => exact hkeep (h.fireNext now)
      | matchReq | input | heartbeat | leaderboard | roomEnd | wheelTick | roomTask | roomTick =>
          exact hsame rfl
  · exact h

/-- As long as no connection ends that shares its account, or has served two
of them, nobody logs in on a connection that is gone, and no account is cut
by `c_str()`, an idle storage thread has written the truth. -/
theorem online_flags_mirror (gameThreads : ℕ) (es : List (LobbyEvent F))
    (h : Along step (fun s e => s.handles e = true → s.Exclusive e)
      (init gameThreads : Online F) es) :
    Visits step Mirrors (init gameThreads : Online F) es :=
  visits_of_along (I := Ok) (fun _ hok => hok.mirrors) (fun _ e hok => hok.step e)
    (ok_init gameThreads) h

/-- A player goes and comes back while another stays. -/
theorem online_flags_mirror_return :
    let es : List (LobbyEvent (Ext ℚ)) :=
      [.login 1 "alice" "t" 0 [], .login 2 "bob" "u" 0 [], .disconnect 1, .storeTask [],
        .storeTask [], .storeTask [], .reconnect 3 1 "t" 0, .storeTask []]
    let s := es.foldl step (init 2)
    Visits step Mirrors (init 2) es ∧ s.lobby.store = [] ∧ s.liveConns "alice" = [3] ∧
      onlineKey "alice" ∈ s.keys := by
  intro es s
  have hok : Along step (fun s e => s.handles e = true → s.Exclusive e) (init 2) es := by
    decide +kernel
  exact ⟨online_flags_mirror 2 es hok, by decide +kernel⟩

/-- An account is logged in twice, and one of the two connections ends. -/
theorem second_connection_is_forgotten :
    let es : List (LobbyEvent (Ext ℚ)) :=
      [.login 1 "alice" "t" 0 [], .login 2 "alice" "u" 0 [], .disconnect 1, .storeTask [],
        .storeTask [], .storeTask []]
    let s := es.foldl step (init 2)
    s.lobby.store = [] ∧ s.liveConns "alice" = [2] ∧ onlineKey "alice" ∉ s.keys ∧
      ¬Visits step Mirrors (init 2) es := by
  intro es s
  have hrun : s.lobby.store = [] ∧ s.liveConns "alice" = [2] ∧ onlineKey "alice" ∉ s.keys := by
    decide +kernel
  obtain ⟨hstore, hlive, hkey⟩ := hrun
  refine ⟨hstore, hlive, hkey, fun hvisits => ?_⟩
  have hmirrors : s.Mirrors := hvisits.last
  exact hkey ((hmirrors hstore "alice").mpr (by rw [hlive]; simp))

/-- A login that is handled after the end of its connection leaves a flag
behind that nobody takes away. -/
example :
    let es : List (LobbyEvent (Ext ℚ)) := [.disconnect 1, .login 1 "alice" "t" 0 [], .storeTask []]
    let s := es.foldl step (init 2)
    s.lobby.store = [] ∧ s.liveConns "alice" = [] ∧ onlineKey "alice" ∈ s.keys := by
  decide +kernel

end Online

end GameServer.Game
