import GameServer.Game.LobbyStep

/-!
Views of the lobby.

A view is a function of the lobby that forgets most of it. The handlers leave
most views alone, each for the same reason: what they change is not seen.
`Overlooks` is about what rooms do to the lobby, `SeesRooms` about the
handlers themselves; with either of them a view needs a proof for the few
updates it does see.
-/

namespace GameServer.Game

open GameServer.Lib GameServer.Proto GameServer.Timer

variable {F : Type}

namespace Lobby

/-! ### What rooms do -/

/-- A view that a room leaves unchanged whatever it does, apart from what it
does to itself. -/
structure Overlooks {α : Type} (v : Lobby F → α) : Prop where
  emit : ∀ e s, v (s.emit e) = v s
  onRoomEnd : ∀ r w s, v (s.onRoomEnd r w) = v s
  reset : ∀ r s, v (s.mail r .resetTicker) = v s
  roomEnds : ∀ ends (s : Lobby F), v { s with roomEnds := ends } = v s

section Overlooks

variable {α : Type} {v : Lobby F → α} (h : Overlooks v)

include h in
theorem Overlooks.perform (r : ℕ) (act : RoomAct F) (s : Lobby F) : v (s.perform r act) = v s := by
  unfold Lobby.perform
  cases act with
  | queueTickerReset => exact (h.reset r _).trans (h.emit _ s)
  | onEnd rid winner =>
      dsimp only
      split
      · exact (h.onRoomEnd rid winner _).trans (h.emit _ s)
      · exact (h.roomEnds _ _).trans (h.emit _ s)
  | broadcast | send => exact h.emit _ s

include h in
theorem Overlooks.runRoom {r : ℕ} {f : Room F → Room F × List (RoomAct F)}
    (hroom : ∀ s, v (s.modifyCell r fun cell => { cell with room := (f cell.room).1 }) = v s)
    (s : Lobby F) : v (s.runRoom r f) = v s := by
  have hloop : ∀ (acts : List (RoomAct F)) (s : Lobby F),
      v (acts.foldl (Lobby.perform r) s) = v s :=
    fun acts s => invariant_run_of_step (I := fun s' => v s' = v s)
      (fun s' act heq => (h.perform r act s').trans heq) rfl acts
  unfold Lobby.runRoom
  split
  · rfl
  · rw [hloop, hroom]

include h in
theorem Overlooks.handleRoomEnd (s : Lobby F) : v s.handleRoomEnd = v s := by
  unfold Lobby.handleRoomEnd
  split
  · rfl
  · exact (h.onRoomEnd _ _ _).trans (h.roomEnds _ s)

variable [Scalar F]

include h in
theorem Overlooks.post {r : ℕ} {task : RoomTask F}
    (hroom : ∀ s, v (s.modifyCell r fun cell =>
      { cell with room := (cell.room.exec task).1 }) = v s)
    (hmail : ∀ s, v (s.mail r task) = v s) (s : Lobby F) : v (s.post r task) = v s := by
  unfold Lobby.post
  split
  · exact h.runRoom hroom s
  · exact hmail s

include h in
theorem Overlooks.postToRoom (p : Session) {task : RoomTask F}
    (hroom : ∀ s, v (s.modifyCell p.roomId fun cell =>
      { cell with room := (cell.room.exec task).1 }) = v s)
    (hmail : ∀ s, v (s.mail p.roomId task) = v s) (s : Lobby F) :
    v (s.postToRoom p task) = v s := by
  unfold Lobby.postToRoom
  split
  · exact h.post hroom hmail s
  · rfl

include h in
theorem Overlooks.roomTick (r : ℕ) {ks : List ℕ}
    (hroom : ∀ s, v (s.modifyCell r fun cell =>
      { cell with room := (cell.room.onTick ks).1 }) = v s) (s : Lobby F) :
    v (s.roomTick r ks) = v s := by
  unfold Lobby.roomTick
  split
  · rfl
  · split
    · exact h.runRoom hroom s
    · rfl

include h in
/-- For views that see nothing of the rooms. -/
theorem Overlooks.roomTask (hcells : ∀ r f s, v (s.modifyCell r f) = v s) (r : ℕ) (s : Lobby F) :
    v (s.roomTask r) = v s := by
  unfold Lobby.roomTask
  split
  · rfl
  · split
    · rfl
    · exact (h.runRoom (hcells r _) _).trans (hcells r _ s)

omit h in
theorem view_onInput {v : Lobby F → α} (conn : Conn) {input : PlayerInput F}
    (hpost : ∀ p s, v (s.postToRoom p (.onInput p.playerId input)) = v s) (s : Lobby F) :
    v (s.onInput conn input) = v s := by
  unfold Lobby.onInput
  split
  · rfl
  · exact hpost _ s

end Overlooks

/-! ### What handlers do -/

/-- A view of the rooms, the queue and the callbacks of the current tick, which
does not see the ticker resets in the mailboxes. -/
structure SeesRooms {α : Type} (v : Lobby F → α) : Prop where
  congr : ∀ {s s' : Lobby F}, s'.gameThreads = s.gameThreads → s'.cells = s.cells →
    s'.nextRoomId = s.nextRoomId → s'.matchQueue = s.matchQueue → s'.firing = s.firing →
    v s' = v s
  reset : ∀ r s, v (s.mail r .resetTicker) = v s

section SeesRooms

variable {α : Type} {v : Lobby F → α} (h : SeesRooms v)

include h in
theorem SeesRooms.enqueue (task : StoreTask) (s : Lobby F) : v (s.enqueue task) = v s := by
  unfold Lobby.enqueue
  split
  · exact h.congr rfl rfl rfl rfl rfl
  · rfl

include h in
theorem SeesRooms.emit (e : Entry F) (s : Lobby F) : v (s.emit e) = v s :=
  h.congr rfl rfl rfl rfl rfl

include h in
theorem SeesRooms.overlooks : Overlooks v where
  emit := h.emit
  onRoomEnd r w s := by
    unfold Lobby.onRoomEnd
    dsimp only
    split
    · rw [h.emit, h.enqueue]
      exact h.congr rfl rfl rfl rfl rfl
    · rw [h.emit]
      exact h.congr rfl rfl rfl rfl rfl
  reset := h.reset
  roomEnds _ _ := h.congr rfl rfl rfl rfl rfl

include h in
theorem SeesRooms.onLogin (conn : Conn) (account token : String) (now : ℕ) (ks : List ℕ)
    (s : Lobby F) : v (s.onLogin conn account token now ks) = v s :=
  (h.enqueue _ _).trans (h.congr rfl rfl rfl rfl rfl)

include h in
theorem SeesRooms.onHeartbeat (conn : Conn) (clientMs : ℤ) (now : ℕ) (s : Lobby F) :
    v (s.onHeartbeat conn clientMs now) = v s := by
  unfold Lobby.onHeartbeat
  dsimp only
  split <;> exact h.congr rfl rfl rfl rfl rfl

include h in
theorem SeesRooms.onLeaderboard (conn : Conn) (topN : ℕ) (s : Lobby F) :
    v (s.onLeaderboard conn topN) = v s := by
  unfold Lobby.onLeaderboard
  dsimp only
  split
  · exact h.enqueue _ s
  · exact h.congr rfl rfl rfl rfl rfl

include h in
theorem SeesRooms.storeTask (top : List (String × F)) (s : Lobby F) :
    v (s.storeTask top) = v s := by
  unfold Lobby.storeTask
  split
  · rfl
  · next task _ _ => cases task <;> exact h.congr rfl rfl rfl rfl rfl

variable [Scalar F]

include h in
theorem SeesRooms.onReconnect (conn : Conn) (pid : ℕ) (token : String) (now : ℕ)
    (hpost : ∀ p s, v (s.postToRoom p (.rebind p.playerId (some conn))) = v s) (s : Lobby F) :
    v (s.onReconnect conn pid token now) = v s := by
  rcases onReconnect_cases s conn pid token now with ⟨-, heq⟩ | ⟨p, -, -, -, -, heq⟩
  · rw [heq]
    exact h.congr rfl rfl rfl rfl rfl
  · rw [heq, h.enqueue, hpost]
    exact h.congr rfl rfl rfl rfl rfl

include h in
/-- A player who loses its connection leaves the queue; this rule is for views
that do not see it. -/
theorem SeesRooms.onDisconnect (conn : Conn)
    (hqueue : ∀ q (s : Lobby F), v { s with matchQueue := q } = v s)
    (hpost : ∀ p pid s, v (s.postToRoom p (.dropConn pid)) = v s) (s : Lobby F) :
    v (s.onDisconnect conn) = v s := by
  have hunbind : ∀ pid p, v (s.unbindSession conn pid p) = v s := by
    intro pid p
    unfold Lobby.unbindSession
    split
    · rw [← hqueue (s.matchQueue.remove pid) s]
      exact h.congr rfl rfl rfl rfl rfl
    · exact h.congr rfl rfl rfl rfl rfl
  unfold Lobby.onDisconnect
  split
  · rfl
  · next pid _ =>
      split
      · exact h.congr rfl rfl rfl rfl rfl
      · next p _ =>
          have hschedule : ∀ t : Lobby F, v (t.scheduleExpiry pid) = v t :=
            fun t => h.congr rfl rfl rfl rfl rfl
          rw [h.enqueue, hschedule, hpost, hunbind]

include h in
theorem SeesRooms.expireSession (pid : ℕ)
    (hpost : ∀ p w s, v (s.postToRoom p (.forceEnd w)) = v s) (s : Lobby F) :
    v (s.expireSession pid) = v s := by
  have herase : ∀ t : Lobby F, v (t.eraseSession pid) = v t := fun t => h.congr rfl rfl rfl rfl rfl
  unfold Lobby.expireSession
  split
  · rfl
  · split
    · rfl
    · rw [herase, hpost]

end SeesRooms

end Lobby

end GameServer.Game
