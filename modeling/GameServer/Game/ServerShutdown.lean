import GameServer.Game.LobbyViews

/-!
The end of a server: `~GameServer` and what goes on beside it.

The destructor posts one task to the lobby. It takes the rooms out of
`rooms_`, has each of them stopped on its own loop, and the last one to stop
sends the lobby back a task that resets `gamePool_`; without rooms the pool
is reset at once. Until the TCP server is destroyed, which is later, the
lobby goes on handling requests.

Nothing tells `tryMatch` about any of this. As long as it finds nobody to
pair the shutdown does what it should; the first pair makes a room that
nobody stops, or reaches for a pool that is gone.
-/

namespace GameServer.Game

open GameServer.Lib GameServer.Proto GameServer.Timer
open Lobby

variable {F : Type}

def RoomTask.isStop : RoomTask F → Bool
  | .stop => true
  | _ => false

/-- The room that an `onRoomEnd` has removed. -/
def Entry.settledRoom : Entry F → Option ℕ
  | .settled r _ _ => some r
  | _ => none

/-- The server. The lobby's `log` and the last five fields only record what
has happened. -/
structure Server (F : Type) where
  lobby : Lobby F
  /-- `gamePool_` is not null. -/
  pool : Bool := true
  /-- The task of the destructor has run, so `wheelDriver_` is gone. -/
  closing : Bool := false
  /-- `*remain`. -/
  remain : ℕ := 0
  /-- Tasks on their way to the lobby that will reset the pool. -/
  resetting : ℕ := 0
  resets : ℕ := 0
  /-- The rooms that the destructor's task has taken out of `rooms_`. -/
  taken : List ℕ := []
  /-- `nextRoomId_` at that moment. -/
  opened : ℕ := 0
  /-- The rooms that had been removed by `onRoomEnd` before. -/
  finished : List ℕ := []
  /-- The rooms whose `stop` has run. -/
  stopped : List ℕ := []
  /-- `tryMatch` has called `getNextLoop` on a null pointer. -/
  crashed : Bool := false

inductive ServerEvent (F : Type) where
  | lobby (e : LobbyEvent F)
  /-- The task of the destructor; `ks` orders the rooms. -/
  | shutdown (ks : List ℕ)
  /-- The task that resets the pool. -/
  | reset

/-- `tryMatch` finds two players and opens a room. -/
def Lobby.finds (s : Lobby F) : Bool :=
  match s.matchQueue.popPair with
  | some (some (a, b), _) => (s.sessions.lookup a).isSome && (s.sessions.lookup b).isSome
  | _ => false

/-- A match request makes `tryMatch` open a room. -/
def Lobby.pairs (s : Lobby F) (conn : Conn) : Bool :=
  match s.sessionOf conn with
  | none => false
  | some p =>
      p.state = .kLobby && (s.matchQueue.push p.playerId).2 && (s.joinQueue p.playerId).finds

namespace Server

def resetPool (s : Server F) : Server F := { s with pool := false, resets := s.resets + 1 }

/-- `lobby_->runInLoop` is a call on the lobby's own loop and a task for it
elsewhere. -/
def finishOne (s : Server F) : Server F :=
  if s.remain = 1 then
    if s.lobby.gameThreads = 0 then { s with remain := 0 }.resetPool
    else { s with remain := 0, resetting := s.resetting + 1 }
  else { s with remain := s.remain - 1 }

variable [Scalar F]

/-- A taken room is told to stop. -/
def postStop (s : Server F) (r : ℕ) : Server F :=
  if s.lobby.gameThreads = 0 then
    { s with lobby := s.lobby.runRoom r (·.exec .stop), stopped := r :: s.stopped }.finishOne
  else { s with lobby := s.lobby.mail r .stop }

def shutdown (ks : List ℕ) (s : Server F) : Server F :=
  let rooms := arrange ks s.lobby.rooms
  let s := { s with
    closing := true
    remain := rooms.length
    taken := rooms
    opened := s.lobby.nextRoomId
    finished := s.lobby.log.filterMap Entry.settledRoom
    lobby := { s.lobby with rooms := [] } }
  if rooms.isEmpty then s.resetPool else rooms.foldl postStop s

/-- The event cannot happen: the wheel is not driven any more, or the loop of
the room has ended with the pool. -/
def disabled (s : Server F) : LobbyEvent F → Bool
  | .wheelTick => s.closing
  | .roomTask _ | .roomTick _ _ => !s.pool && s.lobby.gameThreads ≠ 0
  | _ => false

/-- The event makes `tryMatch` call `getNextLoop`. -/
def needsPool (s : Server F) : LobbyEvent F → Bool
  | .matchReq conn _ => s.lobby.firing = [] && s.lobby.pairs conn
  | _ => false

/-- The room whose turn it is to stop. -/
def stops (s : Server F) : LobbyEvent F → Option ℕ
  | .roomTask r =>
      (s.lobby.cells.lookup r).bind fun cell =>
        if cell.mailbox.head?.any RoomTask.isStop then some r else none
  | _ => none

def handle (s : Server F) (e : LobbyEvent F) : Server F :=
  if s.disabled e then s
  else if s.needsPool e && !s.pool then { s with crashed := true }
  else
    match s.stops e with
    | none => { s with lobby := s.lobby.step e }
    | some r => { s with lobby := s.lobby.step e, stopped := r :: s.stopped }.finishOne

/-- What happens after the crash is nobody's business. -/
def step (s : Server F) (e : ServerEvent F) : Server F :=
  if s.crashed then s
  else
    match e with
    | .lobby e => s.handle e
    | .shutdown ks => if s.closing || !s.lobby.firing.isEmpty then s else s.shutdown ks
    | .reset =>
        if s.resetting = 0 || !s.lobby.firing.isEmpty then s
        else { s with resetting := s.resetting - 1 }.resetPool

def init (gameThreads : ℕ) (writer : Bool) : Server F := { lobby := Lobby.init gameThreads writer }

end Server

/-! ### The rooms and their mailboxes -/

/-- The rooms opened so far, the timers that are about to fire, and how often
a room is going to be told to stop. -/
@[ext] structure Shelf where
  gameThreads : ℕ
  nextRoomId : ℕ
  firing : List NodePtr
  stops : ℕ → Option ℕ

namespace Lobby

def shelf (s : Lobby F) : Shelf :=
  { gameThreads := s.gameThreads
    nextRoomId := s.nextRoomId
    firing := s.firing
    stops := fun r => (s.cells.lookup r).map fun cell => cell.mailbox.countP RoomTask.isStop }

theorem shelf_modifyCell {s : Lobby F} {r : ℕ} {f : RoomCell F → RoomCell F}
    (h : ∀ cell, s.cells.lookup r = some cell →
      (f cell).mailbox.countP RoomTask.isStop = cell.mailbox.countP RoomTask.isStop) :
    (s.modifyCell r f).shelf = s.shelf := by
  refine Shelf.ext rfl rfl rfl (funext fun r' => ?_)
  simp only [shelf, modifyCell, UnorderedMap.lookup_modify]
  split
  · next hr =>
      subst hr
      cases hcell : s.cells.lookup r' with
      | none => rfl
      | some cell => exact congrArg some (h cell hcell)
  · rfl

theorem shelf_mail {task : RoomTask F} (h : task.isStop = false) (r : ℕ) (s : Lobby F) :
    (s.mail r task).shelf = s.shelf :=
  shelf_modifyCell (f := fun cell => { cell with mailbox := cell.mailbox ++ [task] })
    fun cell _ => by simp [h]

theorem seesRooms_shelf : SeesRooms (shelf : Lobby F → Shelf) where
  congr hthreads hcells hnext _ hfiring := by
    unfold shelf
    rw [hthreads, hcells, hnext, hfiring]
  reset r s := shelf_mail rfl r s

theorem shelf_runRoom (r : ℕ) (f : Room F → Room F × List (RoomAct F)) (s : Lobby F) :
    (s.runRoom r f).shelf = s.shelf :=
  seesRooms_shelf.overlooks.runRoom (fun _ => shelf_modifyCell fun _ _ => rfl) s

variable [Scalar F]

theorem shelf_post {task : RoomTask F} (h : task.isStop = false) (r : ℕ) (s : Lobby F) :
    (s.post r task).shelf = s.shelf :=
  seesRooms_shelf.overlooks.post (fun _ => shelf_modifyCell fun _ _ => rfl) (shelf_mail h r) s

theorem shelf_postToRoom {task : RoomTask F} (h : task.isStop = false) (p : Session)
    (s : Lobby F) : (s.postToRoom p task).shelf = s.shelf :=
  seesRooms_shelf.overlooks.postToRoom p (fun _ => shelf_modifyCell fun _ _ => rfl) (shelf_mail h p.roomId) s

/-- A room takes a task out of its mailbox. -/
theorem shelf_roomTask (r : ℕ) (s : Lobby F) :
    (s.roomTask r).shelf = s.shelf ∧
        (∀ cell, s.cells.lookup r = some cell →
          cell.mailbox.head?.any RoomTask.isStop = false) ∨
      (∃ cell, s.cells.lookup r = some cell ∧ cell.mailbox.head?.any RoomTask.isStop = true) ∧
        ∃ n, s.shelf.stops r = some (n + 1) ∧ (s.roomTask r).shelf =
          { s.shelf with stops := Function.update s.shelf.stops r (some n) } := by
  cases hcell : s.cells.lookup r with
  | none => exact .inl ⟨by simp [roomTask, hcell], by simp⟩
  | some cell =>
      cases hmail : cell.mailbox with
      | nil => exact .inl ⟨by simp [roomTask, hcell, hmail], by simp [hmail]⟩
      | cons task rest =>
          have heq : s.roomTask r = (s.modifyCell r fun cell => { cell with mailbox := rest }).runRoom
              r (·.exec task) := by
            simp [roomTask, hcell, hmail]
          cases hstop : task.isStop with
          | false =>
              left
              refine ⟨?_, by simp [hmail, hstop]⟩
              rw [heq, shelf_runRoom]
              refine shelf_modifyCell fun cell' hcell' => ?_
              obtain rfl := Option.some.inj (hcell.symm.trans hcell')
              simp [hmail, hstop]
          | true =>
              right
              have hcount : s.shelf.stops r = some (rest.countP RoomTask.isStop + 1) := by
                simp [shelf, hcell, hmail, hstop]
              refine ⟨⟨cell, rfl, by simp [hmail, hstop]⟩, _, hcount, ?_⟩
              rw [heq, shelf_runRoom]
              refine Shelf.ext rfl rfl rfl (funext fun r' => ?_)
              by_cases hr : r' = r
              · subst hr
                simp [shelf, modifyCell, hcell]
              · simp only [Function.update_of_ne hr]
                simp [shelf, modifyCell, hr]

theorem shelf_tryMatch (ks : List ℕ) (s : Lobby F) :
    (s.finds = false ∧ (s.tryMatch ks).shelf = s.shelf) ∨
      (s.finds = true ∧ (s.tryMatch ks).nextRoomId = s.nextRoomId + 1) := by
  rcases hpop : s.matchQueue.popPair with _ | ⟨_ | ⟨a, b⟩, q⟩
  · exact .inl ⟨by simp only [finds, hpop], by simp only [tryMatch, hpop]⟩
  · exact .inl ⟨by simp only [finds, hpop], by simp only [tryMatch, hpop]; rfl⟩
  · simp only [finds, tryMatch, hpop]
    cases ha : s.sessions.lookup a with
    | none => exact .inl ⟨rfl, rfl⟩
    | some pa =>
        cases hb : s.sessions.lookup b with
        | none => exact .inl ⟨rfl, rfl⟩
        | some pb =>
            right
            refine ⟨rfl, ?_⟩
            obtain ⟨wheel, timers, hpair⟩ := pairUp_eq ks a b pa pb q s
            have hstart : ((s.pairUp ks a b pa pb q).post s.nextRoomId .start).shelf =
                (s.pairUp ks a b pa pb q).shelf := shelf_post rfl _ _
            have hnext : (s.pairUp ks a b pa pb q).nextRoomId = s.nextRoomId + 1 := by
              rw [hpair]
              rfl
            exact (congrArg Shelf.nextRoomId hstart).trans hnext

/-- The rooms are opened by those requests that find a pair. -/
theorem shelf_onMatch (ks : List ℕ) (conn : Conn) (s : Lobby F) :
    (s.pairs conn = false ∧ (s.onMatch ks conn).shelf = s.shelf) ∨
      (s.pairs conn = true ∧ (s.onMatch ks conn).nextRoomId = s.nextRoomId + 1) := by
  cases hp : s.sessionOf conn with
  | none => exact .inl ⟨by simp [pairs, hp], by simp [onMatch, hp]⟩
  | some p =>
      by_cases hstate : p.state = .kLobby
      · cases hpush : (s.matchQueue.push p.playerId).2 with
        | false => exact .inl ⟨by simp [pairs, hp, hpush], by simp [onMatch, hp, hstate, hpush]⟩
        | true =>
            have heq : s.onMatch ks conn = (s.joinQueue p.playerId).tryMatch ks := by
              simp [onMatch, hp, hstate, hpush]
            have hpairs : s.pairs conn = (s.joinQueue p.playerId).finds := by
              simp [pairs, hp, hstate, hpush]
            rw [heq, hpairs]
            exact shelf_tryMatch ks (s.joinQueue p.playerId)
      · exact .inl ⟨by simp [pairs, hp, hstate], by simp [onMatch, hp, hstate]⟩

/-- The other events leave the rooms and what they are told alone, once the
wheel has come to rest. -/
theorem shelf_step {s : Lobby F} {e : LobbyEvent F} (hfiring : s.firing = [])
    (hwheel : e ≠ .wheelTick) (htask : ∀ r, e ≠ .roomTask r)
    (hmatch : ∀ conn ks, e ≠ .matchReq conn ks) : (s.step e).shelf = s.shelf := by
  rcases step_cases s e with hself | ⟨-, hstep⟩
  · rw [hself]
  rw [hstep]
  cases e with
  | wheelTick => exact absurd rfl hwheel
  | roomTask r => exact absurd rfl (htask r)
  | matchReq conn ks => exact absurd rfl (hmatch conn ks)
  | login conn account token now ks => exact seesRooms_shelf.onLogin conn account token now ks s
  | reconnect conn pid token now =>
      exact seesRooms_shelf.onReconnect conn pid token now (fun p => shelf_postToRoom rfl p) s
  | input conn input => exact view_onInput conn (fun p => shelf_postToRoom rfl p) s
  | heartbeat conn clientMs now => exact seesRooms_shelf.onHeartbeat conn clientMs now s
  | disconnect conn =>
      exact seesRooms_shelf.onDisconnect conn (fun _ _ => rfl) (fun p _ => shelf_postToRoom rfl p) s
  | leaderboard conn topN => exact seesRooms_shelf.onLeaderboard conn topN s
  | roomEnd => exact seesRooms_shelf.overlooks.handleRoomEnd s
  | fireNext now =>
      unfold handle fireNext
      rw [hfiring]
  | roomTick r ks =>
      exact seesRooms_shelf.overlooks.roomTick r (fun _ => shelf_modifyCell fun _ _ => rfl) s
  | storeTask top => exact seesRooms_shelf.storeTask top s

end Lobby

/-! ### Before the shutdown -/

def settledRooms (log : List (Entry F)) : List ℕ := log.filterMap Entry.settledRoom

/-- A room leaves the table by `onRoomEnd` only. -/
def Listed (s : Lobby F) : Prop :=
  ∀ r, 0 < r → r < s.nextRoomId → r ∈ s.rooms ∨ r ∈ settledRooms s.log

theorem Listed.update {s s' : Lobby F} (h : Listed s) {es : List (Entry F)}
    (hlog : s'.log = s.log ++ es) (hrooms : s'.rooms = s.rooms)
    (hnext : s'.nextRoomId = s.nextRoomId) : Listed s' := by
  intro r hr hlt
  rw [hrooms, hlog, settledRooms, List.filterMap_append]
  rw [hnext] at hlt
  exact (h r hr hlt).imp_right (List.mem_append_left _)

theorem Listed.congr {s s' : Lobby F} (h : Listed s) (hlog : s'.log = s.log)
    (hrooms : s'.rooms = s.rooms) (hnext : s'.nextRoomId = s.nextRoomId) : Listed s' :=
  h.update (hlog.trans (List.append_nil _).symm) hrooms hnext

theorem Listed.onRoomEnd {s : Lobby F} (h : Listed s) (r w : ℕ) : Listed (s.onRoomEnd r w) := by
  have hlog : r ∈ settledRooms (s.onRoomEnd r w).log ∧
      ∃ es, (s.onRoomEnd r w).log = s.log ++ es := by
    simp only [Lobby.onRoomEnd, enqueue, emit]
    split
    · split
      · exact ⟨by simp [settledRooms, Entry.settledRoom], _, List.append_assoc ..⟩
      · exact ⟨by simp [settledRooms, Entry.settledRoom], _, rfl⟩
    · exact ⟨by simp [settledRooms, Entry.settledRoom], _, rfl⟩
  obtain ⟨hmem, es, hes⟩ := hlog
  have hcore := core_onRoomEnd r w s
  have hrooms : (s.onRoomEnd r w).rooms = s.rooms.erase r := congrArg Core.rooms hcore
  have hnext : (s.onRoomEnd r w).nextRoomId = s.nextRoomId := congrArg Core.nextRoomId hcore
  intro r' hr' hlt
  by_cases hrr : r' = r
  · exact .inr (hrr ▸ hmem)
  · rw [hnext] at hlt
    rw [hrooms, hes, settledRooms, List.filterMap_append]
    exact (h r' hr' hlt).imp (List.mem_erase_of_ne hrr).mpr (List.mem_append_left _)

variable [Scalar F]

theorem Listed.move {φ : Deed → Prop} {s s' : Lobby F} (h : Listed s) (hmove : Move φ s s') :
    Listed s' := by
  cases hmove with
  | plain es store => exact h.update rfl rfl rfl
  | login | rebind => exact h.update rfl rfl rfl
  | wait => exact h.update rfl rfl rfl
  | @pair pid a b p pa pb q ks =>
      obtain ⟨wheel, timers, heq⟩ := pairUp_eq ks a b pa pb q (s.joinQueue pid)
      rw [heq]
      intro r hr hlt
      have hlt : r < s.nextRoomId + 1 := hlt
      rcases Nat.lt_succ_iff_lt_or_eq.mp hlt with hlt | rfl
      · refine (h r hr hlt).imp (List.mem_cons_of_mem _) fun hmem => ?_
        simp only [createRoom, joinQueue, settledRooms, List.filterMap_append]
        exact List.mem_append_left _ (List.mem_append_left _ hmem)
      · exact .inl (List.mem_cons_self ..)
  | unbind =>
      refine h.congr ?_ ?_ ?_
      all_goals
        unfold unbindSession
        split <;> rfl
  | matchTimeout =>
      unfold Lobby.matchTimeout
      dsimp only
      split
      · split
        · exact h.congr rfl rfl rfl
        · exact h.update rfl rfl rfl
      · exact h.congr rfl rfl rfl
  | quiet => exact h.update rfl rfl rfl
  | @closing r cell op mailbox cells winner pre =>
      have hlogged : Listed { s with
          cells := cells, log := s.log ++ (cell.room.apply op).2.map (Entry.room r) } :=
        h.update rfl rfl rfl
      unfold closeRoom
      split
      · exact hlogged.onRoomEnd r winner
      · exact hlogged
  | @roomEnd r winner rest =>
      have hpopped : Listed { s with roomEnds := rest } := h.congr rfl rfl rfl
      exact hpopped.onRoomEnd r winner
  | heartbeat | scheduleExpiry | erase | forfeit | take | skip | wheelTick | scheduleSweep | mail =>
      exact h.congr rfl rfl rfl

theorem Listed.step {s : Lobby F} (hbase : Base s) (h : Listed s) (e : LobbyEvent F) :
    Listed (s.step e) :=
  invariant_of_moves (fun _ _ _ hlisted hmove => hlisted.move hmove) hbase h (step_moves hbase e)

/-! ### The invariant -/

namespace Server

/-- Nobody has asked for the shutdown yet. -/
structure Open (s : Server F) : Prop where
  alive : s.crashed = false
  pool : s.pool = true
  closing : s.closing = false
  resetting : s.resetting = 0
  resets : s.resets = 0
  stopped : s.stopped = []
  base : Base s.lobby
  listed : Listed s.lobby

/-- The rooms have been taken, and those in `rest` have not been told yet.
Each of the others waits for one `stop` until it has run; the pool is reset
when nobody is left. -/
structure Closing (rest : List ℕ) (s : Server F) : Prop where
  alive : s.crashed = false
  closing : s.closing = true
  firing : s.lobby.shelf.firing = []
  opened : s.lobby.shelf.nextRoomId = s.opened
  listed : ∀ r, 0 < r → r < s.opened → r ∈ s.taken ∨ r ∈ s.finished
  nodup : s.taken.Nodup
  untold : ∀ r ∈ rest, r ∈ s.taken ∧ r ∉ s.stopped
  untold_nodup : rest.Nodup
  stops : ∀ r ∈ s.taken, s.lobby.shelf.stops r = some (if r ∈ s.stopped ∨ r ∈ rest then 0 else 1)
  others : ∀ r ∉ s.taken, ∀ n, s.lobby.shelf.stops r = some n → n = 0
  remain : s.remain = (s.taken.filter (· ∉ s.stopped)).length
  phase : s.remain ≠ 0 ∧ s.pool = true ∧ s.resetting = 0 ∧ s.resets = 0 ∨
    s.remain = 0 ∧ s.pool = true ∧ s.resetting = 1 ∧ s.resets = 0 ∨
    s.remain = 0 ∧ s.pool = false ∧ s.resetting = 0 ∧ s.resets = 1

omit [Scalar F] in
theorem Closing.congr {rest : List ℕ} {s : Server F} (h : s.Closing rest) {lobby : Lobby F}
    (hshelf : lobby.shelf = s.lobby.shelf) : Closing rest { s with lobby := lobby } :=
  ⟨h.alive, h.closing, hshelf ▸ h.firing, hshelf ▸ h.opened, h.listed, h.nodup, h.untold,
    h.untold_nodup, hshelf ▸ h.stops, hshelf ▸ h.others, h.remain, h.phase⟩

/-- One of those who are left stops. -/
theorem length_filter_stopped {taken stopped : List ℕ} {r : ℕ} (hnodup : taken.Nodup)
    (hr : r ∈ taken) (hnot : r ∉ stopped) :
    (taken.filter (· ∉ stopped)).length = (taken.filter (· ∉ r :: stopped)).length + 1 := by
  have hmem : r ∈ taken.filter (· ∉ stopped) := by simp [hr, hnot]
  have herase : taken.filter (· ∉ r :: stopped) = (taken.filter (· ∉ stopped)).erase r := by
    rw [(hnodup.filter _).erase_eq_filter, List.filter_filter]
    refine List.filter_congr fun q _ => ?_
    by_cases hq : q = r <;> simp [hq]
  rw [herase, List.length_erase_of_mem hmem]
  have := List.length_pos_of_mem hmem
  omega

omit [Scalar F] in
/-- A room runs its `stop` and `finishOne`. -/
theorem Closing.stop {rest rest' : List ℕ} {s : Server F} (h : s.Closing rest) {r : ℕ}
    (hr : r ∈ s.taken) (hnot : r ∉ s.stopped) {lobby : Lobby F}
    (hfiring : lobby.shelf.firing = []) (hopened : lobby.shelf.nextRoomId = s.opened)
    (hrest : ∀ q ∈ rest', q ∈ rest ∧ q ≠ r) (hnodup : rest'.Nodup)
    (hstops : ∀ q ∈ s.taken, lobby.shelf.stops q =
      some (if q ∈ r :: s.stopped ∨ q ∈ rest' then 0 else 1))
    (hothers : ∀ q ∉ s.taken, ∀ n, lobby.shelf.stops q = some n → n = 0) :
    Closing rest' { s with lobby := lobby, stopped := r :: s.stopped }.finishOne := by
  have hlength := length_filter_stopped h.nodup hr hnot
  have hremain := h.remain
  have hphase : s.remain ≠ 0 ∧ s.pool = true ∧ s.resetting = 0 ∧ s.resets = 0 := by
    rcases h.phase with hphase | ⟨hzero, -⟩ | ⟨hzero, -⟩
    · exact hphase
    · omega
    · omega
  have hleft : ∀ q ∈ rest', q ∈ s.taken ∧ q ∉ r :: s.stopped := by
    intro q hq
    obtain ⟨hmem, hne⟩ := hrest q hq
    obtain ⟨htaken, hstopped⟩ := h.untold q hmem
    exact ⟨htaken, fun hmem => (List.mem_cons.mp hmem).elim hne hstopped⟩
  unfold finishOne
  split
  · next hone =>
      have hone : s.remain = 1 := hone
      have hzero : 0 = (s.taken.filter (· ∉ r :: s.stopped)).length := by omega
      split
      · exact ⟨h.alive, h.closing, hfiring, hopened, h.listed, h.nodup, hleft, hnodup, hstops,
          hothers, hzero, .inr (.inr ⟨rfl, rfl, hphase.2.2.1, by simp [resetPool, hphase]⟩)⟩
      · exact ⟨h.alive, h.closing, hfiring, hopened, h.listed, h.nodup, hleft, hnodup, hstops,
          hothers, hzero, .inr (.inl ⟨rfl, hphase.2.1, by simp [hphase], hphase.2.2.2⟩)⟩
  · next hmore =>
      have hmore : s.remain ≠ 1 := hmore
      refine ⟨h.alive, h.closing, hfiring, hopened, h.listed, h.nodup, hleft, hnodup, hstops,
        hothers, ?_, .inl ⟨?_, hphase.2⟩⟩
      · show s.remain - 1 = (s.taken.filter (· ∉ r :: s.stopped)).length
        omega
      · show s.remain - 1 ≠ 0
        omega

/-! ### The task of the destructor -/

/-- One more room is told. On the lobby's own loop it stops at once. -/
theorem Closing.postStop {r : ℕ} {rest : List ℕ} {s : Server F} (h : s.Closing (r :: rest)) :
    Closing rest (s.postStop r) := by
  obtain ⟨hr, hnot⟩ := h.untold r (List.mem_cons_self ..)
  obtain ⟨hfresh, hnodup⟩ := List.nodup_cons.mp h.untold_nodup
  unfold Server.postStop
  split
  · have hshelf := shelf_runRoom r (·.exec .stop) s.lobby
    refine h.stop hr hnot (by rw [hshelf]; exact h.firing) (by rw [hshelf]; exact h.opened)
      (fun q hq => ⟨List.mem_cons_of_mem _ hq, fun hqr => hfresh (hqr ▸ hq)⟩) hnodup
      (fun q hq => ?_) (by rw [hshelf]; exact h.others)
    rw [hshelf, h.stops q hq]
    simp only [List.mem_cons, or_left_comm, or_assoc]
  · have hstops : ∀ q, (s.lobby.mail r .stop).shelf.stops q =
        if q = r then (s.lobby.shelf.stops q).map (· + 1) else s.lobby.shelf.stops q := by
      intro q
      simp only [shelf, mail, modifyCell, UnorderedMap.lookup_modify]
      split
      · cases s.lobby.cells.lookup q <;> simp [RoomTask.isStop]
      · rfl
    refine ⟨h.alive, h.closing, h.firing, h.opened, h.listed, h.nodup,
      fun q hq => h.untold q (List.mem_cons_of_mem _ hq), hnodup, fun q hq => ?_,
      fun q hq n hn => ?_, h.remain, h.phase⟩
    · show (s.lobby.mail r .stop).shelf.stops q = _
      rw [hstops, h.stops q hq]
      by_cases hqr : q = r
      · subst hqr
        simp [hnot, hfresh]
      · simp [hqr]
    · have hqr : q ≠ r := fun hqr => hq (hqr ▸ hr)
      have hn : (s.lobby.mail r .stop).shelf.stops q = some n := hn
      rw [hstops, if_neg hqr] at hn
      exact h.others q hq n hn

theorem Closing.foldl_postStop {rest : List ℕ} {s : Server F} (h : s.Closing rest) :
    Closing [] (rest.foldl Server.postStop s) := by
  induction rest generalizing s with
  | nil => exact h
  | cons r rest ih => exact ih h.postStop

omit [Scalar F] in
/-- The rooms are taken. -/
theorem Open.take {s : Server F} (h : s.Open) (hfiring : s.lobby.firing = []) {rooms : List ℕ}
    (hperm : rooms.Perm s.lobby.rooms) (pool : Bool) (resets : ℕ)
    (hphase : rooms.length ≠ 0 ∧ pool = true ∧ resets = 0 ∨
      rooms.length = 0 ∧ pool = false ∧ resets = 1) :
    Closing rooms { s with
      closing := true
      remain := rooms.length
      taken := rooms
      opened := s.lobby.nextRoomId
      finished := s.lobby.log.filterMap Entry.settledRoom
      lobby := { s.lobby with rooms := [] }
      pool := pool
      resets := resets } := by
  have hnodup : rooms.Nodup := hperm.nodup_iff.mpr h.base.tables.rooms_nodup
  have hnone : ∀ r n, s.lobby.shelf.stops r = some n → n = 0 := by
    intro r n hn
    obtain ⟨cell, hcell, rfl⟩ := Option.map_eq_some_iff.mp hn
    refine List.countP_eq_zero.mpr fun task htask hstop => ?_
    cases task with
    | stop => exact (h.base.cell hcell).no_stop htask
    | _ => cases hstop
  refine ⟨h.alive, rfl, hfiring, rfl, fun r hr hlt => ?_, hnodup, fun r hr => ⟨hr, ?_⟩, hnodup,
    fun r hr => ?_, fun r _ n hn => hnone r n hn, ?_, ?_⟩
  · exact (h.listed r hr hlt).imp_left hperm.mem_iff.mpr
  · show r ∉ s.stopped
    simp [h.stopped]
  · obtain ⟨cell, hcell⟩ := Option.isSome_iff_exists.mp (h.base.live (hperm.mem_iff.mp hr))
    have hstops : s.lobby.shelf.stops r = some (cell.mailbox.countP RoomTask.isStop) := by
      simp [shelf, hcell]
    rw [if_pos (.inr hr), ← hnone r _ hstops]
    exact hstops
  · simp [h.stopped]
  · rcases hphase with ⟨hmore, hpool, hresets⟩ | ⟨hzero, hpool, hresets⟩
    · exact .inl ⟨hmore, hpool, h.resetting, hresets⟩
    · exact .inr (.inr ⟨hzero, hpool, h.resetting, hresets⟩)

theorem Open.shutdown {s : Server F} (h : s.Open) (hfiring : s.lobby.firing = []) (ks : List ℕ) :
    Closing [] (s.shutdown ks) := by
  have hperm := arrange_perm ks s.lobby.rooms
  unfold Server.shutdown
  dsimp only
  split
  · next hempty =>
      have hrooms : arrange ks s.lobby.rooms = [] := List.isEmpty_iff.mp hempty
      have hclosing := h.take hfiring hperm false (s.resets + 1)
        (.inr ⟨by rw [hrooms]; rfl, rfl, by rw [h.resets]⟩)
      exact hrooms ▸ hclosing
  · next hsome =>
      have hclosing := h.take hfiring hperm s.pool s.resets
        (.inl ⟨by simpa using hsome, h.pool, h.resets⟩)
      exact hclosing.foldl_postStop

/-! ### The other events -/

/-- An event that finds no pair and stops no room leaves the shelf alone. -/
theorem shelf_lobby {s : Server F} {e : LobbyEvent F} (hfiring : s.lobby.firing = [])
    (hwheel : e ≠ .wheelTick) (hpairs : s.needsPool e = false) (hstops : s.stops e = none) :
    (s.lobby.step e).shelf = s.lobby.shelf := by
  cases e with
  | roomTask r =>
      have hstep : s.lobby.step (.roomTask r) = s.lobby.roomTask r := by
        simp [Lobby.step, hfiring]
      rw [hstep]
      rcases shelf_roomTask r s.lobby with ⟨hshelf, -⟩ | ⟨⟨cell, hcell, hhead⟩, -⟩
      · exact hshelf
      · simp [stops, hcell, hhead] at hstops
  | matchReq conn ks =>
      rw [step_of_waits rfl hfiring]
      have hfalse : s.lobby.pairs conn = false := by simpa [needsPool, hfiring] using hpairs
      rcases shelf_onMatch ks conn s.lobby with ⟨-, hshelf⟩ | ⟨htrue, -⟩
      · exact hshelf
      · rw [hfalse] at htrue
        cases htrue
  | _ => exact shelf_step hfiring hwheel (by simp) (by simp)

theorem Closing.handle {s : Server F} (h : s.Closing []) {e : LobbyEvent F}
    (hpairs : s.needsPool e = false) : Closing [] (s.handle e) := by
  have hfiring : s.lobby.firing = [] := h.firing
  unfold Server.handle
  split
  · exact h
  next henabled =>
  rw [hpairs, Bool.false_and, if_neg (by simp)]
  have hwheel : e ≠ .wheelTick := by
    rintro rfl
    exact henabled h.closing
  split
  · next hstops => exact h.congr (shelf_lobby hfiring hwheel hpairs hstops)
  next r hstops =>
  cases e with
  | roomTask r' =>
      have hstep : s.lobby.step (.roomTask r') = s.lobby.roomTask r' := by
        simp [Lobby.step, hfiring]
      rw [hstep]
      rcases shelf_roomTask r' s.lobby with ⟨-, hnone⟩ | ⟨⟨cell, hcell, hhead⟩, n, hn, hshelf⟩
      · cases hcell : s.lobby.cells.lookup r' with
        | none => simp [Server.stops, hcell] at hstops
        | some cell => simp [Server.stops, hcell, hnone cell hcell] at hstops
      · obtain rfl : r' = r := by simpa [Server.stops, hcell, hhead] using hstops
        have hr : r' ∈ s.taken := by
          by_contra hnot
          exact absurd (h.others r' hnot _ hn) (Nat.succ_ne_zero n)
        have hone := hn.symm.trans (h.stops r' hr)
        have hnot : r' ∉ s.stopped := fun hmem => by simp [hmem] at hone
        have hzero : n = 0 := by simpa [hnot] using hone
        subst hzero
        refine h.stop hr hnot (by rw [hshelf]; exact hfiring) (by rw [hshelf]; exact h.opened)
          (by simp) List.nodup_nil (fun q hq => ?_) (fun q hq m hm => ?_)
        · rw [hshelf]
          simp only [Function.update_apply]
          split
          · next hq => simp [hq]
          · next hne => rw [h.stops q hq]; simp [hne]
        · have hne : q ≠ r' := fun hqr => hq (hqr ▸ hr)
          rw [hshelf] at hm
          simp only [Function.update_of_ne hne] at hm
          exact h.others q hq m hm
  | _ => cases hstops

omit [Scalar F] in
theorem Closing.reset {s : Server F} (h : s.Closing []) (hsome : s.resetting ≠ 0) :
    Closing [] { s with resetting := s.resetting - 1 }.resetPool := by
  have hphase : s.remain = 0 ∧ s.resetting = 1 ∧ s.resets = 0 := by
    rcases h.phase with ⟨-, -, hnone, -⟩ | ⟨hremain, -, hone, hresets⟩ | ⟨-, -, hnone, -⟩
    · exact absurd hnone hsome
    · exact ⟨hremain, hone, hresets⟩
    · exact absurd hnone hsome
  obtain ⟨hremain, hone, hresets⟩ := hphase
  exact ⟨h.alive, h.closing, h.firing, h.opened, h.listed, h.nodup, h.untold, h.untold_nodup,
    h.stops, h.others, h.remain,
    .inr (.inr ⟨hremain, rfl, by simp [resetPool, hone], by simp [resetPool, hresets]⟩)⟩

theorem Open.handle {s : Server F} (h : s.Open) (e : LobbyEvent F) : Open (s.handle e) := by
  have hstops : s.stops e = none := by
    cases e with
    | roomTask r =>
        cases hcell : s.lobby.cells.lookup r with
        | none => simp [stops, hcell]
        | some cell =>
            have hno := (h.base.cell hcell).no_stop
            cases hmail : cell.mailbox with
            | nil => simp [stops, hcell, hmail]
            | cons task rest =>
                rw [hmail] at hno
                cases task with
                | stop => exact absurd (List.mem_cons_self ..) hno
                | _ => simp [stops, hcell, hmail, RoomTask.isStop]
    | _ => rfl
  unfold Server.handle
  split
  · exact h
  rw [if_neg (by simp [h.pool]), hstops]
  exact ⟨h.alive, h.pool, h.closing, h.resetting, h.resets, h.stopped, h.base.step e,
    h.listed.step h.base e⟩

/-! ### Whole runs -/

/-- What the destructor is for. -/
structure Safe (s : Server F) : Prop where
  /-- `gamePool_` is not used after its reset. -/
  alive : s.crashed = false
  /-- No room is opened once the rooms have been taken. -/
  unopened : s.closing = true → s.lobby.nextRoomId = s.opened
  /-- Every room has been stopped when the pool goes, unless its battle was
  over and `onRoomEnd` had removed it. -/
  stopped : s.pool = false →
    ∀ r, 0 < r → r < s.lobby.nextRoomId → r ∈ s.stopped ∨ r ∈ s.finished
  resets : s.resets = if s.pool then 0 else 1
  /-- The pool is reset in the end. -/
  done : s.closing = true → s.resetting = 0 →
    (∀ r cell, s.lobby.cells.lookup r = some cell → RoomTask.stop ∉ cell.mailbox) →
    s.pool = false

/-- A request makes `tryMatch` open a room although the rooms have been taken. -/
def late (s : Server F) : ServerEvent F → Bool
  | .lobby e => s.closing && s.needsPool e
  | .shutdown _ | .reset => false

omit [Scalar F] in
theorem Open.safe {s : Server F} (h : s.Open) : s.Safe where
  alive := h.alive
  unopened hclosing := by simp [h.closing] at hclosing
  stopped hpool := by simp [h.pool] at hpool
  resets := by rw [h.resets, h.pool]; rfl
  done hclosing := by simp [h.closing] at hclosing

omit [Scalar F] in
/-- The rooms that have not stopped are counted. -/
theorem Closing.mem_stopped {s : Server F} (h : s.Closing []) (hremain : s.remain = 0) {r : ℕ}
    (hr : r ∈ s.taken) : r ∈ s.stopped := by
  by_contra hnot
  have hmem : r ∈ s.taken.filter (· ∉ s.stopped) := by simp [hr, hnot]
  have hpos := List.length_pos_of_mem hmem
  have hlength := h.remain
  omega

omit [Scalar F] in
theorem Closing.safe {s : Server F} (h : s.Closing []) : s.Safe where
  alive := h.alive
  unopened _ := h.opened
  stopped hpool r hr hlt := by
    have hremain : s.remain = 0 := by
      rcases h.phase with ⟨-, htrue, -⟩ | ⟨hremain, -⟩ | ⟨hremain, -⟩
      · simp [htrue] at hpool
      · exact hremain
      · exact hremain
    have hopened : s.lobby.nextRoomId = s.opened := h.opened
    exact (h.listed r hr (hopened ▸ hlt)).imp_left (h.mem_stopped hremain)
  resets := by
    rcases h.phase with ⟨-, hpool, -, hresets⟩ | ⟨-, hpool, -, hresets⟩ | ⟨-, hpool, -, hresets⟩
    all_goals simp [hpool, hresets]
  done _ hresetting hnone := by
    rcases h.phase with ⟨hmore, -⟩ | ⟨-, -, hone, -⟩ | ⟨-, hpool, -⟩
    · -- somebody is left, and its `stop` is still in the mailbox
      have hpos : 0 < (s.taken.filter (· ∉ s.stopped)).length := by
        have hlength := h.remain
        omega
      obtain ⟨r, hmem⟩ := List.exists_mem_of_length_pos hpos
      obtain ⟨hr, hnot⟩ := List.mem_filter.mp hmem
      have hnot : r ∉ s.stopped := of_decide_eq_true hnot
      have hone : s.lobby.shelf.stops r = some 1 := by simpa [hnot] using h.stops r hr
      obtain ⟨cell, hcell, hcount⟩ := Option.map_eq_some_iff.mp hone
      have hpos : 0 < cell.mailbox.countP RoomTask.isStop := by omega
      obtain ⟨task, htask, hstop⟩ := List.countP_pos_iff.mp hpos
      cases task with
      | stop => exact absurd htask (hnone r cell hcell)
      | _ => cases hstop
    · omega
    · exact hpool

/-- A request that is not late keeps the phase the server is in. -/
theorem phase_step {s : Server F} (h : s.Open ∨ s.Closing []) {e : ServerEvent F}
    (hlate : s.late e = false) : (s.step e).Open ∨ (s.step e).Closing [] := by
  unfold Server.step
  split
  · exact h
  cases e with
  | lobby e =>
      rcases h with h | h
      · exact .inl (h.handle e)
      · exact .inr (h.handle (by simpa [late, h.closing] using hlate))
  | shutdown ks =>
      dsimp only
      split
      · exact h
      · next hidle =>
          have hidle : s.closing = false ∧ s.lobby.firing = [] := by simpa using hidle
          rcases h with h | h
          · exact .inr (h.shutdown hidle.2 ks)
          · simp [h.closing] at hidle
  | reset =>
      dsimp only
      split
      · exact h
      · next hsome =>
          have hsome : s.resetting ≠ 0 := fun hzero => hsome (by simp [hzero])
          rcases h with h | h
          · exact absurd h.resetting hsome
          · exact .inr (h.reset hsome)

/-- The first request that is late opens a room, or finds no pool. -/
theorem not_safe_of_late {s : Server F} (h : s.Open ∨ s.Closing []) {e : ServerEvent F}
    (hlate : s.late e = true) : ¬(s.step e).Safe := by
  cases e with
  | lobby e =>
      obtain ⟨hclosing, hneeds⟩ := Bool.and_eq_true_iff.mp hlate
      have hinv : s.Closing [] := by
        rcases h with h | h
        · simp [h.closing] at hclosing
        · exact h
      cases e with
      | matchReq conn ks =>
          obtain ⟨hfiring, hpairs⟩ : s.lobby.firing = [] ∧ s.lobby.pairs conn = true := by
            simpa [needsPool] using hneeds
          have hnext : (s.lobby.step (.matchReq conn ks)).nextRoomId = s.lobby.nextRoomId + 1 := by
            rw [step_of_waits rfl hfiring]
            rcases shelf_onMatch ks conn s.lobby with ⟨hfalse, -⟩ | ⟨-, hnext⟩
            · rw [hpairs] at hfalse
              cases hfalse
            · exact hnext
          intro hsafe
          cases hpool : s.pool with
          | false =>
              have hcrash : s.step (.lobby (.matchReq conn ks)) = { s with crashed := true } := by
                simp [Server.step, hinv.alive, Server.handle, disabled, hneeds, hpool]
              have halive := hsafe.alive
              rw [hcrash] at halive
              cases halive
          | true =>
              have hopen : s.step (.lobby (.matchReq conn ks)) =
                  { s with lobby := s.lobby.step (.matchReq conn ks) } := by
                simp [Server.step, hinv.alive, Server.handle, disabled, hpool, Server.stops]
              rw [hopen] at hsafe
              have hunopened : (s.lobby.step (.matchReq conn ks)).nextRoomId = s.opened :=
                hsafe.unopened hclosing
              have hopened : s.lobby.nextRoomId = s.opened := hinv.opened
              omega
      | _ => cases hneeds
  | shutdown | reset => cases hlate

omit [Scalar F] in
theorem open_init (gameThreads : ℕ) (writer : Bool) :
    (init gameThreads writer : Server F).Open where
  alive := rfl
  pool := rfl
  closing := rfl
  resetting := rfl
  resets := rfl
  stopped := rfl
  base := base_init gameThreads writer
  listed r hr hlt := by
    have hlt : r < 1 := hlt
    omega

/-- The shutdown does what it should in those runs where no match request
finds an opponent after the rooms have been taken, and in no others. -/
theorem shutdown_is_safe (gameThreads : ℕ) (writer : Bool) (es : List (ServerEvent F)) :
    Visits step Safe (init gameThreads writer : Server F) es ↔
      Along step (fun s e => s.late e = false) (init gameThreads writer : Server F) es :=
  visits_iff_along (I := fun s => s.Open ∨ s.Closing [])
    (fun _ h => h.elim Open.safe Closing.safe) (fun _ _ h hlate => phase_step h hlate)
    (fun _ _ h hlate => not_safe_of_late h (by simpa using hlate))
    (.inl (open_init gameThreads writer)) es

example :
    let es : List (ServerEvent (Ext ℚ)) :=
      [.lobby (.login 1 "alice" "t" 0 []), .lobby (.login 2 "bob" "u" 0 []),
        .lobby (.matchReq 1 []), .lobby (.matchReq 2 []), .shutdown [], .lobby (.roomTask 1),
        .lobby (.roomTask 1), .reset]
    let s := es.foldl Server.step (init 2 false)
    s.taken = [1] ∧ s.stopped = [1] ∧ s.pool = false ∧ s.resets = 1 := by
  decide +kernel

/-- A player waits while the server goes down, and another one asks for a
match. -/
theorem match_request_finds_no_pool :
    let es : List (ServerEvent (Ext ℚ)) :=
      [.lobby (.login 1 "alice" "t" 0 []), .lobby (.login 2 "bob" "u" 0 []),
        .lobby (.matchReq 1 []), .shutdown [], .lobby (.matchReq 2 [])]
    (es.foldl step (init 2 false)).crashed = true ∧ ¬Visits step Safe (init 2 false) es := by
  intro es
  have hcrash : (es.foldl step (init 2 false)).crashed = true := by decide +kernel
  refine ⟨hcrash, fun hvisits => ?_⟩
  have halive := hvisits.last.alive
  rw [hcrash] at halive
  cases halive

end Server

end GameServer.Game
