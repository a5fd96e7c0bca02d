import GameServer.Game.FrameSize

/-!
Everything the lobby and its rooms send along a run.

The length of a `LoginResp` hangs on the token, that of a snapshot on the
room, that of a `LeaderboardResp` on the accounts in the storage, and these
are accounts somebody logged in with. `InBounds` follows both strings through
the sessions and the tasks of the storage thread, together with the bound on
what has been sent. A step keeps it if it is `roomy`: the room that is to
send a snapshot is light, and the accounts of a leaderboard that is to be
sent fit into a frame.
-/

namespace GameServer.Game

open GameServer.Lib GameServer.Proto GameServer.Timer
open Lobby

variable {F : Type}

/-! ### Tokens -/

/-- What `c_str()` leaves of an account. -/
def cStr (account : String) : String :=
  String.ofList (account.toList.takeWhile (· ≠ Char.ofNat 0))

/-- `ZINCRBY` by one, on the members with their scores. -/
def zincrby (member : String) : List (String × ℕ) → List (String × ℕ)
  | [] => [(member, 1)]
  | (m, score) :: board =>
      if m = member then (m, score + 1) :: board else (m, score) :: zincrby member board

/-- The member that a task of the storage thread counts a win for. -/
def Entry.counted : Entry F → Option String
  | .executed (.settle winner _) => some (cStr winner)
  | _ => none

/-- The sorted set behind the leaderboard, when Redis has been there all the
time. -/
def leaderboard (log : List (Entry F)) : List (String × ℕ) :=
  (log.filterMap Entry.counted).foldl (fun board member => zincrby member board) []

/-- The accounts that a task carries to the leaderboard. -/
def StoreTask.Over (A : String → Prop) : StoreTask → Prop
  | .settle winner loser => A winner ∧ A loser
  | _ => True

/-! ### The invariant -/

/-- An entry that sends only what fits, and whose accounts are among `A`. -/
structure Entry.InBounds (fmt : FloatFormat F) (A : String → Prop) (e : Entry F) : Prop where
  fits : ∀ c, ∀ msg ∈ e.toConn c, Room.Fits fmt msg
  accounts : ∀ task, e = .executed task → task.Over A

/-- Every session has a token of the right length and an account among `A`,
and so have the tasks of the storage thread; what has been sent fits. -/
structure InBounds (fmt : FloatFormat F) (A : String → Prop) (s : Lobby F) : Prop where
  log : ∀ e ∈ s.log, e.InBounds fmt A
  session : ∀ {p x}, s.sessions.lookup p = some x → x.token.utf8ByteSize ≤ 32 ∧ A x.account
  store : ∀ task ∈ s.store, task.Over A

variable {fmt : FloatFormat F} {A : String → Prop}

theorem Entry.inBounds_send (conn : Conn) {msg : ServerMsg F} (h : Room.Fits fmt msg) :
    (Entry.send conn msg).InBounds fmt A := by
  refine ⟨fun c msg' hmsg => ?_, fun task h => by cases h⟩
  simp only [Entry.toConn] at hmsg
  split at hmsg
  · obtain rfl := List.mem_singleton.mp hmsg
    exact h
  · cases hmsg

theorem Entry.inBounds_silent {e : Entry F} (hsilent : ∀ c, e.toConn c = [])
    (hover : ∀ task, e ≠ .executed task) : e.InBounds fmt A := by
  refine ⟨fun c msg hmsg => ?_, fun task h => absurd h (hover task)⟩
  rw [hsilent c] at hmsg
  cases hmsg

/-- The rule for an update of the tables. -/
theorem InBounds.update {s s' : Lobby F} (h : InBounds fmt A s) {es : List (Entry F)}
    (hlog : s'.log = s.log ++ es) (hes : ∀ e ∈ es, e.InBounds fmt A)
    (hstore : ∀ task ∈ s'.store, task ∈ s.store ∨ task.Over A)
    (hsession : ∀ p x', s'.sessions.lookup p = some x' →
      ∃ x, s.sessions.lookup p = some x ∧ x'.token = x.token ∧ x'.account = x.account) :
    InBounds fmt A s' := by
  refine ⟨fun e he => ?_, fun {p x'} hx' => ?_, fun task ht => ?_⟩
  · rw [hlog] at he
    rcases List.mem_append.mp he with he | he
    · exact h.log e he
    · exact hes e he
  · obtain ⟨x, hx, htoken, haccount⟩ := hsession p x' hx'
    rw [htoken, haccount]
    exact h.session hx
  · rcases hstore task ht with ht | ht
    · exact h.store task ht
    · exact ht

/-- A change of one session that leaves its strings alone. -/
theorem same_strings_modify {s s' : Lobby F} (p : ℕ) (f : Session → Session)
    (hsessions : s'.sessions = s.sessions.modify p f)
    (hf : ∀ x, (f x).token = x.token ∧ (f x).account = x.account) (p' : ℕ) (x' : Session)
    (hx' : s'.sessions.lookup p' = some x') :
    ∃ x, s.sessions.lookup p' = some x ∧ x'.token = x.token ∧ x'.account = x.account := by
  rw [hsessions, UnorderedMap.lookup_modify] at hx'
  split at hx'
  · obtain ⟨x, hx, rfl⟩ := Option.map_eq_some_iff.mp hx'
    exact ⟨x, hx, hf x⟩
  · exact ⟨x', hx', rfl, rfl⟩

theorem InBounds.modify {s s' : Lobby F} (h : InBounds fmt A s) (p : ℕ) (f : Session → Session)
    (hlog : s'.log = s.log) (hstore : s'.store = s.store)
    (hsessions : s'.sessions = s.sessions.modify p f)
    (hf : ∀ x, (f x).token = x.token ∧ (f x).account = x.account) : InBounds fmt A s' :=
  h.update (hlog.trans (List.append_nil _).symm) (by simp)
    (fun task ht => .inl (hstore ▸ ht)) (same_strings_modify p f hsessions hf)

/-- The rule for what touches nothing that `InBounds` reads. -/
theorem InBounds.congr {s s' : Lobby F} (h : InBounds fmt A s) (hlog : s'.log = s.log)
    (hstore : s'.store = s.store) (hsessions : s'.sessions = s.sessions) : InBounds fmt A s' :=
  h.update (hlog.trans (List.append_nil _).symm) (by simp) (fun task ht => .inl (hstore ▸ ht))
    fun p x' hx' => ⟨x', hsessions ▸ hx', rfl, rfl⟩

theorem InBounds.emit {s : Lobby F} (h : InBounds fmt A s) {e : Entry F} (he : e.InBounds fmt A) :
    InBounds fmt A (s.emit e) :=
  h.update rfl (List.forall_mem_singleton.mpr he) (fun _ => .inl)
    fun _ x' hx' => ⟨x', hx', rfl, rfl⟩

theorem InBounds.enqueue {s : Lobby F} (h : InBounds fmt A s) {task : StoreTask}
    (ht : task.Over A) : InBounds fmt A (s.enqueue task) := by
  unfold Lobby.enqueue
  split
  · have hentry : (Entry.enqueue task : Entry F).InBounds fmt A :=
      Entry.inBounds_silent (fun _ => rfl) (by simp)
    refine h.update rfl (List.forall_mem_singleton.mpr hentry) (fun t ht' => ?_)
      fun _ x' hx' => ⟨x', hx', rfl, rfl⟩
    · rcases List.mem_append.mp ht' with ht' | ht'
      · exact .inl ht'
      · obtain rfl := List.mem_singleton.mp ht'
        exact .inr ht
  · exact h

/-! ### Rooms -/

/-- The loop over the sessions finds an account or leaves the string empty. -/
theorem lastAccount_cases (r : ℕ) (which : ℕ → Bool) (s : Lobby F) :
    s.lastAccount r which = "" ∨
      ∃ p x, s.sessions.lookup p = some x ∧ s.lastAccount r which = x.account := by
  have hloop : ∀ (l : List (Σ _ : ℕ, Session)) (acc : String), (∀ e ∈ l, e ∈ s.sessions.entries) →
      (acc = "" ∨ ∃ p x, s.sessions.lookup p = some x ∧ acc = x.account) →
      (l.foldl (fun acc e => if e.2.roomId = r && which e.1 then e.2.account else acc) acc = "" ∨
        ∃ p x, s.sessions.lookup p = some x ∧ l.foldl (fun acc e =>
          if e.2.roomId = r && which e.1 then e.2.account else acc) acc = x.account) := by
    intro l
    induction l with
    | nil => exact fun acc _ hacc => hacc
    | cons e l ih =>
        intro acc hl hacc
        refine ih _ (fun e' he' => hl e' (List.mem_cons_of_mem _ he')) ?_
        dsimp only
        split
        · exact .inr ⟨e.1, e.2, UnorderedMap.mem_entries_iff.mp (hl e (List.mem_cons_self ..)), rfl⟩
        · exact hacc
  exact hloop s.sessions.entries "" (fun _ h => h) (.inl rfl)

theorem InBounds.lastAccount {s : Lobby F} (h : InBounds fmt A s) {r : ℕ} {which : ℕ → Bool}
    (hne : s.lastAccount r which ≠ "") : A (s.lastAccount r which) := by
  rcases lastAccount_cases r which s with hempty | ⟨p, x, hx, heq⟩
  · exact absurd hempty hne
  · rw [heq]
    exact (h.session hx).2

theorem InBounds.onRoomEnd {s : Lobby F} (h : InBounds fmt A s) (r w : ℕ) :
    InBounds fmt A (s.onRoomEnd r w) := by
  have hsettled : ∀ task, (Entry.settled r w task : Entry F).InBounds fmt A := fun _ =>
    Entry.inBounds_silent (fun _ => rfl) (by simp)
  have hleft : InBounds fmt A { s with
      rooms := s.rooms.erase r
      sessions := s.sessions.mapVal fun _ (p : Session) =>
        if p.roomId = r then { p with roomId := 0, state := .kLobby } else p } := by
    refine h.update (List.append_nil _).symm (by simp) (fun _ => .inl) fun p x' hx' => ?_
    rw [UnorderedMap.lookup_mapVal] at hx'
    obtain ⟨x, hx, rfl⟩ := Option.map_eq_some_iff.mp hx'
    refine ⟨x, hx, ?_⟩
    split <;> exact ⟨rfl, rfl⟩
  unfold Lobby.onRoomEnd
  dsimp only
  split
  · next hcond =>
      simp only [Bool.and_eq_true, decide_eq_true_eq] at hcond
      have hover : (StoreTask.settle (s.lastAccount r (· = w)) (s.lastAccount r (· ≠ w))).Over A :=
        ⟨h.lastAccount hcond.1.2, h.lastAccount hcond.2⟩
      exact (hleft.enqueue hover).emit (hsettled _)
  · exact hleft.emit (hsettled _)

theorem InBounds.perform {s : Lobby F} (h : InBounds fmt A s) (r : ℕ) {act : RoomAct F}
    (hact : ∀ c, ∀ msg ∈ act.toConn c, Room.Fits fmt msg) : InBounds fmt A (s.perform r act) := by
  have hemit : InBounds fmt A (s.emit (.room r act)) := h.emit ⟨hact, fun _ h => by cases h⟩
  unfold Lobby.perform
  cases act with
  | queueTickerReset => exact hemit.congr rfl rfl rfl
  | onEnd rid winner =>
      dsimp only
      split
      · exact hemit.onRoomEnd rid winner
      · exact hemit.congr rfl rfl rfl
  | broadcast | send => exact hemit

theorem InBounds.runRoom {s : Lobby F} (h : InBounds fmt A s) (r : ℕ)
    {f : Room F → Room F × List (RoomAct F)}
    (hacts : ∀ cell, s.cells.lookup r = some cell → ∀ act ∈ (f cell.room).2, ∀ c,
      ∀ msg ∈ act.toConn c, Room.Fits fmt msg) : InBounds fmt A (s.runRoom r f) := by
  unfold Lobby.runRoom
  split
  · exact h
  · next cell hcell =>
      have hloop : ∀ (acts : List (RoomAct F)) (s : Lobby F), InBounds fmt A s →
          (∀ act ∈ acts, ∀ c, ∀ msg ∈ act.toConn c, Room.Fits fmt msg) →
          InBounds fmt A (acts.foldl (Lobby.perform r) s) := by
        intro acts
        induction acts with
        | nil => exact fun s h _ => h
        | cons act acts ih =>
            intro s h hacts
            exact ih _ (h.perform r (hacts act (List.mem_cons_self ..)))
              fun act' h' => hacts act' (List.mem_cons_of_mem _ h')
      exact hloop _ _ (h.congr rfl rfl rfl) (hacts cell hcell)

variable [Scalar F]

/-- A room takes a task at once, or finds it in its mailbox. -/
theorem InBounds.post {s : Lobby F} (h : InBounds fmt A s) {r : ℕ} {task : RoomTask F}
    (hseats : ∀ cell, s.cells.lookup r = some cell → ∃ a b, Room.Seats a b cell.room)
    (hroomy : s.gameThreads = 0 → ∀ cell, s.cells.lookup r = some cell →
      cell.room.roomy (.task task) = true) : InBounds fmt A (s.post r task) := by
  unfold Lobby.post
  split
  · next hinline =>
      refine h.runRoom r fun cell hcell act hact c msg hmsg => ?_
      obtain ⟨a, b, hroom⟩ := hseats cell hcell
      exact Room.fits_apply fmt hroom (hroomy hinline cell hcell) hact hmsg
  · exact h.congr rfl rfl rfl

theorem InBounds.postToRoom {s : Lobby F} (h : InBounds fmt A s) (p : Session) (task : RoomTask F)
    (hseats : ∀ r cell, s.cells.lookup r = some cell → ∃ a b, Room.Seats a b cell.room)
    (hroomy : s.gameThreads = 0 → ∀ cell, s.cells.lookup p.roomId = some cell →
      cell.room.roomy (.task task) = true) : InBounds fmt A (s.postToRoom p task) := by
  unfold Lobby.postToRoom
  split
  · exact h.post (hseats p.roomId) hroomy
  · exact h

/-! ### Handlers -/

omit [Scalar F] in
theorem Base.seats {s : Lobby F} (h : Base s) (r : ℕ) (cell : RoomCell F)
    (hcell : s.cells.lookup r = some cell) : ∃ a b, Room.Seats a b cell.room :=
  (h.cell hcell).seats

omit [Scalar F] in
theorem InBounds.onLogin {s : Lobby F} (h : InBounds fmt A s) (conn : Conn) {account token : String}
    (htoken : token.utf8ByteSize ≤ 32) (haccount : A account) (now : ℕ) (ks : List ℕ) :
    InBounds fmt A (s.onLogin conn account token now ks) := by
  have hadd : ∀ session : Session, session.token = token → session.account = account →
      InBounds fmt A (s.addSession conn session ks) := by
    intro session hsession haccount'
    refine ⟨h.log, fun {p x} hx => ?_, h.store⟩
    simp only [addSession, UnorderedMap.lookup_reorder, UnorderedMap.lookup_insert_eq] at hx
    split at hx
    · obtain rfl := Option.some.inj hx
      rw [hsession, haccount']
      exact ⟨htoken, haccount⟩
    · exact h.session hx
  exact ((hadd _ rfl rfl).emit (Entry.inBounds_send conn (length_loginResp fmt 0 _ htoken))).enqueue trivial

omit [Scalar F] in
theorem InBounds.reject {s : Lobby F} (h : InBounds fmt A s) (conn : Conn) :
    InBounds fmt A (s.reject conn) :=
  (h.emit (Entry.inBounds_send conn (length_loginResp fmt 1 0 (by decide)))).emit
    (Entry.inBounds_silent (fun _ => rfl) (by simp))

theorem InBounds.onReconnect {s : Lobby F} (hbase : Base s) (h : InBounds fmt A s) (conn : Conn)
    (pid : ℕ) (token : String) (now : ℕ)
    (hroomy : s.gameThreads = 0 → ∀ p, s.sessions.lookup pid = some p →
      ∀ cell, s.cells.lookup p.roomId = some cell → cell.room.light = true) :
    InBounds fmt A (s.onReconnect conn pid token now) := by
  rcases onReconnect_cases s conn pid token now with ⟨-, heq⟩ | ⟨p, -, hp, -, -, heq⟩
  · rw [heq]
    exact h.reject conn
  · rw [heq]
    have hbind : InBounds fmt A (s.rebindSession conn pid p now) :=
      h.modify pid (fun p => { p with
        conn := some conn, lastHeartbeatMs := now, expireTimerId := 0 }) rfl rfl rfl
        fun _ => ⟨rfl, rfl⟩
    have hsend := hbind.emit (Entry.inBounds_send conn
      (length_loginResp fmt 0 p.playerId (h.session hp).1))
    have hpost := hsend.postToRoom p (.rebind p.playerId (some conn)) hbase.seats (hroomy · p hp)
    exact hpost.enqueue trivial

theorem InBounds.onMatch {s : Lobby F} (hbase : Base s) (h : InBounds fmt A s) (ks : List ℕ)
    (conn : Conn) : InBounds fmt A (s.onMatch ks conn) := by
  cases hp : s.sessionOf conn with
  | none => simpa only [Lobby.onMatch, hp] using h
  | some p =>
      have hjoin : InBounds fmt A (s.joinQueue p.playerId) := by
        refine h.update rfl (List.forall_mem_singleton.mpr ?_) (fun _ => .inl)
          (same_strings_modify p.playerId (fun x => { x with state := .kMatching }) rfl
            fun _ => ⟨rfl, rfl⟩)
        exact Entry.inBounds_silent (fun _ => rfl) (by simp)
      by_cases hstate : p.state = .kLobby
      · obtain ⟨-, hsess, hconn⟩ := sessionOf_some hbase.tables hp
        have hconn : p.conn.isSome := by simp [hconn]
        rcases onMatch_eq hbase ks hp hstate with
          ⟨-, heq⟩ | ⟨a, b, pa, pb, q, hne, hwait, hpa, hpb, hq, heq⟩
        · rw [heq]
          exact hjoin.congr rfl rfl rfl
        · rw [heq]
          have hpair : Move (fun _ => True) s _ :=
            .pair ks hsess hconn hstate hne hwait hpa hpb hq
          have hmade : InBounds fmt A ((s.joinQueue p.playerId).pairUp ks a b pa pb q) := by
            obtain ⟨wheel, timers, heq⟩ := pairUp_eq ks a b pa pb q (s.joinQueue p.playerId)
            refine hjoin.update (by rw [heq]; rfl) (List.forall_mem_singleton.mpr
              (Entry.inBounds_silent (fun _ => rfl) (by simp)))
              (fun _ ht => .inl (by rw [heq] at ht; exact ht)) fun p' x' hx' => ?_
            rw [lookup_pairUp] at hx'
            obtain ⟨x, hx, rfl⟩ := Option.map_eq_some_iff.mp hx'
            refine ⟨x, hx, ?_⟩
            split <;> exact ⟨rfl, rfl⟩
          refine hmade.post ((hbase.move hpair).seats _) fun _ cell hcell => ?_
          have hnew := new_cell_pairUp ks a b pa pb q (s.joinQueue p.playerId)
          obtain rfl := Option.some.inj (hnew.symm.trans hcell)
          exact Room.light_new ks _ _ _ _ _
      · have hself : s.onMatch ks conn = s := by simp [Lobby.onMatch, hp, hstate]
        rw [hself]
        exact h

theorem InBounds.onInput {s : Lobby F} (hbase : Base s) (h : InBounds fmt A s) (conn : Conn)
    (input : PlayerInput F) : InBounds fmt A (s.onInput conn input) := by
  unfold Lobby.onInput
  split
  · exact h
  · exact h.postToRoom _ _ hbase.seats fun _ _ _ => rfl

omit [Scalar F] in
theorem InBounds.onHeartbeat {s : Lobby F} (h : InBounds fmt A s) (conn : Conn) (clientMs : ℤ)
    (now : ℕ) : InBounds fmt A (s.onHeartbeat conn clientMs now) := by
  unfold Lobby.onHeartbeat
  dsimp only
  split
  · exact h.emit (Entry.inBounds_send conn (length_heartbeat fmt clientMs))
  · next p _ =>
      have hbeat : InBounds fmt A { s with sessions := s.sessions.modify p.playerId fun p =>
          { p with lastHeartbeatMs := now } } :=
        h.modify p.playerId (fun p => { p with lastHeartbeatMs := now }) rfl rfl rfl
          fun _ => ⟨rfl, rfl⟩
      exact hbeat.emit (Entry.inBounds_send conn (length_heartbeat fmt clientMs))

omit [Scalar F] in
theorem InBounds.unbindSession {s : Lobby F} (h : InBounds fmt A s) (conn : Conn) (pid : ℕ)
    (p : Session) : InBounds fmt A (s.unbindSession conn pid p) := by
  unfold Lobby.unbindSession
  split
  · exact h.modify pid (fun p => { p with conn := none, state := .kLobby }) rfl rfl rfl
      fun _ => ⟨rfl, rfl⟩
  · exact h.modify pid (fun p => { p with conn := none }) rfl rfl rfl fun _ => ⟨rfl, rfl⟩

omit [Scalar F] in
theorem InBounds.scheduleExpiry {s : Lobby F} (h : InBounds fmt A s) (pid : ℕ) :
    InBounds fmt A (s.scheduleExpiry pid) :=
  h.modify pid (fun p => { p with expireTimerId :=
    (s.wheel.add kSessionKeepMs (TimerCb.expireSession pid)).2 }) rfl rfl rfl fun _ => ⟨rfl, rfl⟩

theorem InBounds.onDisconnect {s : Lobby F} (hbase : Base s) (h : InBounds fmt A s) (conn : Conn) :
    InBounds fmt A (s.onDisconnect conn) := by
  rcases onDisconnect_cases hbase conn with heq | ⟨pid, p, -, -, -, heq⟩
  · rw [heq]
    exact h
  · rw [heq]
    have hcells : (s.unbindSession conn pid p).cells = s.cells := by
      unfold Lobby.unbindSession
      split <;> rfl
    have hpost := (h.unbindSession conn pid p).postToRoom p (.dropConn pid)
      (hcells ▸ hbase.seats) fun _ _ _ => rfl
    exact (hpost.scheduleExpiry pid).enqueue trivial

omit [Scalar F] in
theorem InBounds.eraseSession {s : Lobby F} (h : InBounds fmt A s) (pid : ℕ) :
    InBounds fmt A (s.eraseSession pid) := by
  refine ⟨h.log, fun {p x} hx => ?_, h.store⟩
  simp only [Lobby.eraseSession, UnorderedMap.lookup_erase_eq] at hx
  split at hx
  · cases hx
  · exact h.session hx

theorem InBounds.expireSession {s : Lobby F} (hbase : Base s) (h : InBounds fmt A s) (pid : ℕ) :
    InBounds fmt A (s.expireSession pid) := by
  unfold Lobby.expireSession
  split
  · exact h
  · split
    · exact h
    · exact (h.postToRoom _ _ hbase.seats fun _ _ _ => rfl).eraseSession pid

omit [Scalar F] in
theorem InBounds.onLeaderboard {s : Lobby F} (h : InBounds fmt A s) (conn : Conn) (topN : ℕ) :
    InBounds fmt A (s.onLeaderboard conn topN) := by
  unfold Lobby.onLeaderboard
  dsimp only
  split
  · exact h.enqueue trivial
  · exact h.emit (Entry.inBounds_send conn (length_leaderboardResp fmt (by simp)))

/-! ### Timers, rooms and the storage thread -/

omit [Scalar F] in
theorem InBounds.matchTimeout {s : Lobby F} (h : InBounds fmt A s) (pid : ℕ) :
    InBounds fmt A (s.matchTimeout pid) := by
  have hleave : InBounds fmt A (({ s with matchTimer := s.matchTimer.erase pid } :
      Lobby F).leaveQueue pid) :=
    h.modify pid (fun p => { p with state := .kLobby }) rfl rfl rfl fun _ => ⟨rfl, rfl⟩
  unfold Lobby.matchTimeout
  dsimp only
  split
  · split
    · exact hleave
    · exact hleave.emit (Entry.inBounds_send _ (length_enterRoom fmt 0 (by simp)))
  · exact h.congr rfl rfl rfl

omit [Scalar F] in
theorem InBounds.sweepHeartbeats {s : Lobby F} (h : InBounds fmt A s) (now : ℕ) :
    InBounds fmt A (s.sweepHeartbeats now) := by
  refine h.update rfl (fun e he => ?_) (fun _ => .inl) fun _ x' hx' => ⟨x', hx', rfl, rfl⟩
  obtain ⟨x, -, hx⟩ := List.mem_filterMap.mp he
  split at hx
  · cases hx
  · split at hx
    · obtain rfl := Option.some.inj hx
      exact Entry.inBounds_silent (fun _ => rfl) (by simp)
    · cases hx

theorem InBounds.fireNext {s : Lobby F} (hbase : Base s) (h : InBounds fmt A s) (now : ℕ) :
    InBounds fmt A (s.fireNext now) := by
  rcases fireNext_cases s now with heq | ⟨n, rest, -, -, heq⟩ |
    ⟨n, rest, node, w, hfiring, htake, -, heq⟩
  · rw [heq]
    exact h
  · rw [heq]
    exact h.congr rfl rfl rfl
  · rw [heq]
    have htaken : InBounds fmt A { s with firing := rest, wheel := w } := h.congr rfl rfl rfl
    cases hcb : node.cb with
    | matchTimeout pid => exact htaken.matchTimeout pid
    | expireSession pid =>
        have hmove : Move (fun _ => True) s { s with firing := rest, wheel := w } :=
          .take hfiring htake (by simp [hcb])
        exact htaken.expireSession (hbase.move hmove) pid
    | sweep => exact (htaken.sweepHeartbeats now).congr rfl rfl rfl

theorem InBounds.roomTask {s : Lobby F} (hbase : Base s) (h : InBounds fmt A s) (r : ℕ)
    (hroomy : ∀ cell task, s.cells.lookup r = some cell → cell.mailbox.head? = some task →
      cell.room.roomy (.task task) = true) : InBounds fmt A (s.roomTask r) := by
  unfold Lobby.roomTask
  split
  · exact h
  · next cell hcell =>
      split
      · exact h
      · next task rest hmail =>
          have hpopped : InBounds fmt A
              (s.modifyCell r fun cell => { cell with mailbox := rest }) := h.congr rfl rfl rfl
          refine hpopped.runRoom r fun cell' hcell' act hact c msg hmsg => ?_
          simp only [modifyCell, UnorderedMap.lookup_modify, if_true, hcell, Option.map_some,
            Option.some.injEq] at hcell'
          subst hcell'
          obtain ⟨a, b, hroom⟩ := hbase.seats r cell hcell
          exact Room.fits_apply fmt hroom (hroomy cell task hcell (by simp [hmail])) hact hmsg

theorem InBounds.roomTick {s : Lobby F} (hbase : Base s) (h : InBounds fmt A s) (r : ℕ) (ks : List ℕ)
    (hroomy : ∀ cell, s.cells.lookup r = some cell → cell.room.roomy (.onTick ks) = true) :
    InBounds fmt A (s.roomTick r ks) := by
  unfold Lobby.roomTick
  split
  · exact h
  · split
    · refine h.runRoom r fun cell hcell act hact c msg hmsg => ?_
      obtain ⟨a, b, hroom⟩ := hbase.seats r cell hcell
      exact Room.fits_apply fmt hroom (hroomy cell hcell) hact hmsg
    · exact h

omit [Scalar F] in
theorem InBounds.storeTask {s : Lobby F} (h : InBounds fmt A s) (top : List (String × F))
    (hroomy : ∀ conn n rest, s.store = .leaderboard conn n :: rest →
      ((top.take n).map fun e => entryCost e.1).sum ≤ 65534) :
    InBounds fmt A (s.storeTask top) := by
  unfold Lobby.storeTask
  split
  · exact h
  · next task rest hstore =>
      have hdone : InBounds fmt A (({ s with store := rest } : Lobby F).emit (.executed task)) := by
        have hentry : (Entry.executed task : Entry F).InBounds fmt A := by
          refine ⟨fun c msg hmsg => (by cases hmsg), fun task' ht => ?_⟩
          obtain rfl := Entry.executed.inj ht
          exact h.store task (by simp [hstore])
        refine h.update rfl (List.forall_mem_singleton.mpr hentry) (fun t ht => .inl ?_)
          fun _ x' hx' => ⟨x', hx', rfl, rfl⟩
        rw [hstore]
        exact List.mem_cons_of_mem _ ht
      cases task with
      | leaderboard conn n =>
          exact hdone.emit (Entry.inBounds_send conn
            (length_leaderboardResp fmt (hroomy conn n rest hstore)))
      | setOnline | delOnline | settle => exact hdone

/-! ### Runs -/

/-- The step sends nothing that grows beyond a frame: the room that is to
send a snapshot is light, and the accounts of the leaderboard that is to be
sent fit. -/
def Lobby.roomy (s : Lobby F) : LobbyEvent F → Bool
  | .reconnect _ pid _ _ =>
      s.gameThreads ≠ 0 || (s.sessions.lookup pid).all fun p =>
        (s.cells.lookup p.roomId).all fun cell => cell.room.light
  | .roomTask r =>
      (s.cells.lookup r).all fun cell => cell.mailbox.head?.all fun task =>
        cell.room.roomy (.task task)
  | .roomTick r ks => (s.cells.lookup r).all fun cell => cell.room.roomy (.onTick ks)
  | .storeTask top =>
      match s.store with
      | .leaderboard _ n :: _ => ((top.take n).map fun e => entryCost e.1).sum ≤ 65534
      | _ => true
  | _ => true

/-- What a login brings along. -/
def LobbyEvent.Brings (A : String → Prop) : LobbyEvent F → Prop
  | .login _ account token _ _ => A account ∧ token.utf8ByteSize ≤ 32
  | _ => True

theorem InBounds.step {s : Lobby F} (hbase : Base s) (h : InBounds fmt A s) {e : LobbyEvent F}
    (hlogin : e.Brings A) (hroomy : s.roomy e = true) : InBounds fmt A (s.step e) := by
  rcases step_cases s e with hself | ⟨-, hstep⟩
  · rw [hself]
    exact h
  rw [hstep]
  cases e with
  | login conn account token now ks => exact h.onLogin conn hlogin.2 hlogin.1 now ks
  | reconnect conn pid token now =>
      refine h.onReconnect hbase conn pid token now fun hg p hp cell hcell => ?_
      simpa [Lobby.roomy, hg, hp, hcell] using hroomy
  | matchReq conn ks => exact h.onMatch hbase ks conn
  | input conn input => exact h.onInput hbase conn input
  | heartbeat conn clientMs now => exact h.onHeartbeat conn clientMs now
  | disconnect conn => exact h.onDisconnect hbase conn
  | leaderboard conn topN => exact h.onLeaderboard conn topN
  | roomEnd =>
      simp only [handle, handleRoomEnd]
      split
      · exact h
      · next rest _ =>
          have hpopped : InBounds fmt A { s with roomEnds := rest } := h.congr rfl rfl rfl
          exact hpopped.onRoomEnd _ _
  | wheelTick => exact h.congr rfl rfl rfl
  | fireNext now => exact h.fireNext hbase now
  | roomTask r =>
      refine h.roomTask hbase r fun cell task hcell hhead => ?_
      simpa [Lobby.roomy, hcell, hhead] using hroomy
  | roomTick r ks =>
      refine h.roomTick hbase r ks fun cell hcell => ?_
      simpa [Lobby.roomy, hcell] using hroomy
  | storeTask top =>
      refine h.storeTask top fun conn n rest hstore => ?_
      simpa [Lobby.roomy, hstore] using hroomy

end GameServer.Game
