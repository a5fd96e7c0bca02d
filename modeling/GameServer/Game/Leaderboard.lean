import GameServer.Game.Online
import GameServer.Game.Recording

/-!
The leaderboard: `onLeaderboard`, the settlements of `onRoomEnd` and the tasks
of the storage thread.

Queries come in on the IO threads and battles are settled on the lobby thread,
but both go through the one queue of the storage thread. `asked` reads off the
log in which order they came; a query stands for what it should be answered:
the scores at the start and the wins counted until then.
-/

namespace GameServer.Game

open GameServer.Lib GameServer.Proto GameServer.Timer
open Lobby

variable {F : Type}

/-! ### The sorted set -/

/-- The score of a member, or 0. -/
def score (member : String) : List (String × ℕ) → ℕ
  | [] => 0
  | (m, k) :: board => if m = member then k else score member board

/-- The sorted set when these members have won one more battle each. -/
def boardAfter (board : List (String × ℕ)) (members : List String) : List (String × ℕ) :=
  members.foldl (fun board member => zincrby member board) board

theorem members_zincrby (member m : String) (board : List (String × ℕ)) :
    m ∈ (zincrby member board).map Prod.fst ↔ m ∈ board.map Prod.fst ∨ m = member := by
  induction board with
  | nil => simp [zincrby]
  | cons e board ih =>
      rw [zincrby]
      split
      · next heq =>
          subst heq
          simp only [List.map_cons, List.mem_cons]
          tauto
      · rw [List.map_cons, List.mem_cons, ih, List.map_cons, List.mem_cons, or_assoc]

theorem nodup_zincrby (member : String) {board : List (String × ℕ)}
    (h : (board.map Prod.fst).Nodup) : ((zincrby member board).map Prod.fst).Nodup := by
  induction board with
  | nil => exact List.nodup_singleton member
  | cons e board ih =>
      obtain ⟨hnot, hrest⟩ := List.nodup_cons.mp h
      rw [zincrby]
      split
      · exact h
      · next hne =>
          refine List.nodup_cons.mpr ⟨fun hmem => ?_, ih hrest⟩
          rcases (members_zincrby member e.1 board).mp hmem with hmem | heq
          · exact hnot hmem
          · exact hne heq

theorem score_zincrby (member m : String) (board : List (String × ℕ)) :
    score m (zincrby member board) = score m board + if member = m then 1 else 0 := by
  induction board with
  | nil => simp [zincrby, score]
  | cons e board ih =>
      obtain ⟨x, k⟩ := e
      rw [zincrby]
      by_cases hx : x = member
      · subst hx
        simp only [score, if_true]
        split <;> rfl
      · rw [if_neg hx, score, score]
        split
        · next hm =>
            subst hm
            rw [if_neg (Ne.symm hx), Nat.add_zero]
        · exact ih

theorem mem_iff_score {board : List (String × ℕ)} (h : (board.map Prod.fst).Nodup) (m : String)
    (k : ℕ) : (m, k) ∈ board ↔ m ∈ board.map Prod.fst ∧ k = score m board := by
  induction board with
  | nil => simp
  | cons e board ih =>
      obtain ⟨x, j⟩ := e
      obtain ⟨hnot, hrest⟩ := List.nodup_cons.mp h
      rw [List.mem_cons, ih hrest, List.map_cons, List.mem_cons, score]
      by_cases hx : x = m
      · subst hx
        have hmem : x ∉ board.map Prod.fst := hnot
        simp [hmem]
      · have hne : m ≠ x := Ne.symm hx
        simp [hx, hne]

/-- Each member of the sorted set has what it had at first and its wins. -/
theorem mem_boardAfter {board : List (String × ℕ)} (h : (board.map Prod.fst).Nodup)
    (members : List String) (m : String) (k : ℕ) :
    (m, k) ∈ boardAfter board members ↔
      (m ∈ board.map Prod.fst ∨ m ∈ members) ∧ k = score m board + members.count m := by
  induction members generalizing board with
  | nil => simpa [boardAfter] using mem_iff_score h m k
  | cons member members ih =>
      have hafter : boardAfter board (member :: members) =
          boardAfter (zincrby member board) members := rfl
      rw [hafter, ih (nodup_zincrby member h), members_zincrby, score_zincrby, List.count_cons,
        List.mem_cons, or_assoc]
      simp only [beq_iff_eq]
      rw [Nat.add_assoc, Nat.add_comm (if member = m then 1 else 0)]

theorem nodup_boardAfter {board : List (String × ℕ)} (h : (board.map Prod.fst).Nodup)
    (members : List String) : ((boardAfter board members).map Prod.fst).Nodup := by
  induction members generalizing board with
  | nil => exact h
  | cons member members ih => exact ih (nodup_zincrby member h)

/-! ### Queries and answers -/

/-- A query for the best `n`, and the winners of the battles that were settled
before. -/
structure Query where
  conn : Conn
  n : ℕ
  wins : List String

/-- The member that a task counts a win for. -/
def StoreTask.win : StoreTask → Option String
  | .settle winner _ => some (cStr winner)
  | .setOnline _ | .delOnline _ | .leaderboard _ _ => none

def StoreTask.query (wins : List String) : StoreTask → Option Query
  | .leaderboard conn n => some ⟨conn, n, wins⟩
  | .setOnline _ | .delOnline _ | .settle _ _ => none

/-- The queries among these tasks, which come after these wins. -/
def queries (wins : List String) : List StoreTask → List Query
  | [] => []
  | task :: tasks => (task.query wins).toList ++ queries (wins ++ task.win.toList) tasks

def winners (tasks : List StoreTask) : List String := tasks.filterMap StoreTask.win

/-- Queries, and the results of battles when they are settled. -/
def Entry.asks : Entry F → Option StoreTask
  | .enqueue (.leaderboard conn n) => some (.leaderboard conn n)
  | .settled _ _ result => result
  | _ => none

def asked (log : List (Entry F)) : List Query := queries [] (log.filterMap Entry.asks)

def Entry.done : Entry F → Option StoreTask
  | .executed task => some task
  | _ => none

def executed (log : List (Entry F)) : List StoreTask := log.filterMap Entry.done

def Entry.answer : Entry F → Option (Conn × List (String × F))
  | .send conn (.leaderboardResp entries) => some (conn, entries)
  | _ => none

def answers (log : List (Entry F)) : List (Conn × List (String × F)) :=
  log.filterMap Entry.answer

/-- The answer to a query that Redis has replied to. It goes to whoever asked
and names the first `n` of the reply; and these are the `n` best of all who
are on the board at first or have won since, with the scores they had when the
query came in, unless Redis has replied with nothing. -/
def Answers [Scalar F] (board : List (String × ℕ)) (q : Query × List (String × F))
    (answer : Conn × List (String × F)) : Prop :=
  answer = (q.1.conn, q.2.take q.1.n) ∧ (q.2 = [] ∨ ∃ ranked : List (String × ℕ),
    answer.2 = (ranked.take q.1.n).map (fun e => (e.1, Scalar.lit e.2)) ∧
    ranked.Pairwise (fun e e' => e'.2 ≤ e.2) ∧ (ranked.map Prod.fst).Nodup ∧
    ∀ m k, (m, k) ∈ ranked ↔
      (m ∈ board.map Prod.fst ∨ m ∈ q.1.wins) ∧ k = score m board + q.1.wins.count m)

/-- What Redis replies to `ZREVRANGE`, from a sorted set that it was told about
by `ZINCRBY` alone since the server started: nothing, or all members in order. -/
def Ranking [Scalar F] (board : List (String × ℕ)) (top : List (String × F)) : Prop :=
  top = [] ∨ ∃ ranked : List (String × ℕ), ranked.Perm board ∧
    ranked.Pairwise (fun e e' => e'.2 ≤ e.2) ∧ top = ranked.map fun e => (e.1, Scalar.lit e.2)

def Lobby.Stored [Scalar F] (board : List (String × ℕ)) (s : Lobby F) (e : LobbyEvent F) : Prop :=
  ∀ top, e = .storeTask top → Ranking (boardAfter board (winners (executed s.log))) top

/-- What Redis replies to the query that an event executes. -/
def Lobby.reply (s : Lobby F) : LobbyEvent F → Option (List (String × F))
  | .storeTask top =>
      match s.store with
      | .leaderboard _ _ :: _ => some top
      | _ => none
  | _ => none

def Lobby.replies [Scalar F] : Lobby F → List (LobbyEvent F) → List (List (String × F))
  | _, [] => []
  | s, e :: es => (s.reply e).toList ++ (s.step e).replies es

theorem mem_queries {wins : List String} {tasks : List StoreTask} {q : Query}
    (h : q ∈ queries wins tasks) : .leaderboard q.conn q.n ∈ tasks := by
  induction tasks generalizing wins with
  | nil => cases h
  | cons task tasks ih =>
      rcases List.mem_append.mp h with h | h
      · cases task with
        | leaderboard conn n =>
            rw [List.mem_singleton.mp h]
            exact List.mem_cons_self ..
        | setOnline | delOnline | settle => cases h
      · exact List.mem_cons_of_mem _ (ih h)

theorem queries_append (wins : List String) (tasks more : List StoreTask) :
    queries wins (tasks ++ more) = queries wins tasks ++ queries (wins ++ winners tasks) more := by
  induction tasks generalizing wins with
  | nil => simp [queries, winners]
  | cons task tasks ih =>
      rw [List.cons_append, queries, ih, queries, List.append_assoc]
      cases h : task.win <;> simp [winners, h]

theorem queries_filter (wins : List String) (tasks : List StoreTask) :
    queries wins (tasks.filter fun task => !task.isFlag) = queries wins tasks := by
  induction tasks generalizing wins with
  | nil => rfl
  | cons task tasks ih =>
      cases task with
      | setOnline | delOnline =>
          refine (ih wins).trans ?_
          simp [queries, StoreTask.query, StoreTask.win]
      | settle | leaderboard =>
          refine congrArg (_ ++ ·) (ih _)

/-! ### What an event adds -/

/-- A query is for 1 to 100 players. -/
def Entry.Limited (e : Entry F) : Prop :=
  ∀ conn n, e.asks = some (.leaderboard conn n) → 0 < n ∧ n ≤ 100

/-- The log and the queue of the storage thread grow, and each query and each
result goes into both. Nothing is executed or answered. -/
structure Asks (s s' : Lobby F) (es : List (Entry F)) (tasks : List StoreTask) : Prop where
  writer : s'.writer = s.writer
  log : s'.log = s.log ++ es
  store : s'.store = s.store ++ tasks
  asks : (tasks.filter fun task => !task.isFlag) = es.filterMap Entry.asks
  quiet : ∀ e ∈ es, e.done = none ∧ e.answer = none
  limited : ∀ e ∈ es, e.Limited

def Flow (s s' : Lobby F) : Prop := ∃ es tasks, Asks s s' es tasks

theorem flow_same {s s' : Lobby F} (hwriter : s'.writer = s.writer) (hlog : s'.log = s.log)
    (hstore : s'.store = s.store) : Flow s s' :=
  ⟨[], [], hwriter, by rw [hlog, List.append_nil], by rw [hstore, List.append_nil], rfl, by simp,
    by simp⟩

theorem Flow.refl (s : Lobby F) : Flow s s := flow_same rfl rfl rfl

theorem Flow.trans {s s' s'' : Lobby F} (h : Flow s s') (h' : Flow s' s'') : Flow s s'' := by
  obtain ⟨es, tasks, h⟩ := h
  obtain ⟨es', tasks', h'⟩ := h'
  refine ⟨es ++ es', tasks ++ tasks', h'.writer.trans h.writer, ?_, ?_, ?_, fun e he => ?_,
    fun e he => ?_⟩
  · rw [h'.log, h.log, List.append_assoc]
  · rw [h'.store, h.store, List.append_assoc]
  · rw [List.filter_append, h.asks, h'.asks, List.filterMap_append]
  · exact (List.mem_append.mp he).elim (h.quiet e) (h'.quiet e)
  · exact (List.mem_append.mp he).elim (h.limited e) (h'.limited e)

/-- What is done after an update of the tables. -/
theorem Flow.tables {s t s' : Lobby F} (h : Flow t s') (hwriter : t.writer = s.writer)
    (hlog : t.log = s.log) (hstore : t.store = s.store) : Flow s s' :=
  (flow_same hwriter hlog hstore).trans h

/-- An entry that has nothing to do with the leaderboard. -/
structure Entry.Aside (e : Entry F) : Prop where
  asks : e.asks = none
  done : e.done = none
  answer : e.answer = none

theorem Entry.Aside.limited {e : Entry F} (h : e.Aside) : e.Limited := by
  intro conn n hask
  rw [h.asks] at hask
  cases hask

theorem flow_entries {s s' : Lobby F} {l : List (Entry F)} (haside : ∀ e ∈ l, e.Aside)
    (hwriter : s'.writer = s.writer) (hlog : s'.log = s.log ++ l) (hstore : s'.store = s.store) :
    Flow s s' := by
  refine ⟨l, [], hwriter, hlog, by rw [hstore, List.append_nil], ?_,
    fun e he => ⟨(haside e he).done, (haside e he).answer⟩, fun e he => (haside e he).limited⟩
  exact (List.filterMap_eq_nil_iff.mpr fun e he => (haside e he).asks).symm

theorem flow_emit (s : Lobby F) {e : Entry F} (haside : e.Aside) : Flow s (s.emit e) :=
  flow_entries (l := [e]) (by simpa using haside) rfl rfl rfl

theorem flow_flag (s : Lobby F) {task : StoreTask} (hflag : task.isFlag = true) :
    Flow s (s.enqueue task) := by
  unfold enqueue
  split
  · have haside : (Entry.enqueue task : Entry F).Aside := by
      cases task with
      | setOnline | delOnline => exact ⟨rfl, rfl, rfl⟩
      | settle | leaderboard => cases hflag
    refine ⟨[.enqueue task], [task], rfl, rfl, rfl, ?_, ?_, ?_⟩
    · simp [hflag, haside.asks]
    · simpa using ⟨haside.done, haside.answer⟩
    · simpa using haside.limited
  · exact .refl s

theorem store_onRoomEnd (r w : ℕ) (s : Lobby F) :
    (s.onRoomEnd r w).store = s.store ++ (settleEntries r w s).filterMap Entry.enqueuedResult := by
  simp only [onRoomEnd, settleEntries]
  split
  · next hsettle =>
      simp only [Bool.and_eq_true] at hsettle
      simp [enqueue, hsettle.1.1, emit, Entry.enqueuedResult]
  · simp [emit, Entry.enqueuedResult]

theorem flow_onRoomEnd (r w : ℕ) (s : Lobby F) : Flow s (s.onRoomEnd r w) := by
  have hentries : ∀ e ∈ settleEntries r w s, e.done = none ∧ e.answer = none ∧ e.Limited := by
    intro e he
    unfold settleEntries at he
    dsimp only at he
    split at he
    · rcases List.mem_cons.mp he with rfl | he
      · exact ⟨rfl, rfl, fun conn n hask => by cases hask⟩
      · rw [List.mem_singleton.mp he]
        exact ⟨rfl, rfl, fun conn n hask => by cases hask⟩
    · rw [List.mem_singleton.mp he]
      exact ⟨rfl, rfl, fun conn n hask => by cases hask⟩
  refine ⟨_, _, writer_onRoomEnd r w s, log_onRoomEnd r w s, store_onRoomEnd r w s, ?_,
    fun e he => ?_, fun e he => (hentries e he).2.2⟩
  · unfold settleEntries
    dsimp only
    split <;> rfl
  · obtain ⟨hdone, hanswer, -⟩ := hentries e he
    exact ⟨hdone, hanswer⟩

theorem flow_mail (r : ℕ) (task : RoomTask F) (s : Lobby F) : Flow s (s.mail r task) :=
  flow_same rfl rfl rfl

theorem flow_perform (r : ℕ) (s : Lobby F) (act : RoomAct F) : Flow s (perform r s act) := by
  have hemit : Flow s (s.emit (.room r act)) := flow_emit s ⟨rfl, rfl, rfl⟩
  cases act with
  | broadcast | send => exact hemit
  | queueTickerReset => exact hemit.trans (flow_mail r .resetTicker _)
  | onEnd rid winner =>
      simp only [perform]
      split
      · exact hemit.trans (flow_onRoomEnd rid winner _)
      · exact hemit.trans (flow_same rfl rfl rfl)

theorem flow_runRoom (r : ℕ) (f : Room F → Room F × List (RoomAct F)) (s : Lobby F) :
    Flow s (s.runRoom r f) := by
  unfold runRoom
  split
  · exact .refl s
  · next cell _ =>
      have hroom : Flow s (s.modifyCell r fun cell => { cell with room := (f cell.room).1 }) :=
        flow_same rfl rfl rfl
      exact invariant_run_of_step (I := Flow s) (fun s' act h => h.trans (flow_perform r s' act))
        hroom _

theorem flow_handleRoomEnd (s : Lobby F) : Flow s s.handleRoomEnd := by
  unfold handleRoomEnd
  split
  · exact .refl s
  · exact (flow_onRoomEnd _ _ _).tables rfl rfl rfl

theorem flow_matchTimeout (p : ℕ) (s : Lobby F) : Flow s (s.matchTimeout p) := by
  unfold Lobby.matchTimeout
  dsimp only
  split
  · split
    · exact flow_same rfl rfl rfl
    · exact (flow_emit _ ⟨rfl, rfl, rfl⟩).tables rfl rfl rfl
  · exact flow_same rfl rfl rfl

theorem flow_sweepHeartbeats (now : ℕ) (s : Lobby F) : Flow s (s.sweepHeartbeats now) := by
  refine flow_entries (fun e he => ?_) rfl rfl rfl
  obtain ⟨entry, -, hshut⟩ := List.mem_filterMap.mp he
  split at hshut
  · cases hshut
  · split at hshut
    · rw [← Option.some.inj hshut]
      exact ⟨rfl, rfl, rfl⟩
    · cases hshut

theorem flow_cancelMatchTimer (p : ℕ) (s : Lobby F) : Flow s (s.cancelMatchTimer p) := by
  unfold cancelMatchTimer
  split
  · exact .refl s
  · exact flow_same rfl rfl rfl

theorem flow_onLogin (conn : Conn) (account token : String) (now : ℕ) (ks : List ℕ)
    (s : Lobby F) : Flow s (s.onLogin conn account token now ks) :=
  ((flow_emit _ ⟨rfl, rfl, rfl⟩).trans (flow_flag _ rfl)).tables rfl rfl rfl

theorem flow_onHeartbeat (conn : Conn) (clientMs : ℤ) (now : ℕ) (s : Lobby F) :
    Flow s (s.onHeartbeat conn clientMs now) := by
  unfold onHeartbeat
  dsimp only
  split
  · exact flow_emit s ⟨rfl, rfl, rfl⟩
  · exact (flow_emit _ ⟨rfl, rfl, rfl⟩).tables rfl rfl rfl

variable [Scalar F]

theorem flow_roomTask (r : ℕ) (s : Lobby F) : Flow s (s.roomTask r) := by
  unfold roomTask
  split
  · exact .refl s
  · split
    · exact .refl s
    · exact (flow_runRoom _ _ _).tables rfl rfl rfl

theorem flow_roomTick (r : ℕ) (ks : List ℕ) (s : Lobby F) : Flow s (s.roomTick r ks) := by
  unfold roomTick
  split
  · exact .refl s
  · split
    · exact flow_runRoom _ _ s
    · exact .refl s

theorem flow_post (r : ℕ) (task : RoomTask F) (s : Lobby F) : Flow s (s.post r task) := by
  unfold post
  split
  · exact flow_runRoom r _ s
  · exact flow_mail r task s

theorem flow_postToRoom (p : Session) (task : RoomTask F) (s : Lobby F) :
    Flow s (s.postToRoom p task) := by
  unfold postToRoom
  split
  · exact flow_post _ task s
  · exact .refl s

theorem flow_onReconnect (conn : Conn) (pid : ℕ) (token : String) (now : ℕ) (s : Lobby F) :
    Flow s (s.onReconnect conn pid token now) := by
  rcases onReconnect_cases s conn pid token now with ⟨-, heq⟩ | ⟨p, -, -, -, -, heq⟩
  · rw [heq]
    exact (flow_emit s ⟨rfl, rfl, rfl⟩).trans (flow_emit _ ⟨rfl, rfl, rfl⟩)
  · rw [heq]
    have hbound : Flow s (s.rebindSession conn pid p now) := flow_same rfl rfl rfl
    exact ((hbound.trans (flow_emit _ ⟨rfl, rfl, rfl⟩)).trans (flow_postToRoom _ _ _)).trans
      (flow_flag _ rfl)

theorem flow_tryMatch (ks : List ℕ) (s : Lobby F) : Flow s (s.tryMatch ks) := by
  unfold tryMatch
  split
  · exact .refl s
  · exact flow_same rfl rfl rfl
  · next a b q _ =>
      have hpop : Flow s { s with matchQueue := q } := flow_same rfl rfl rfl
      dsimp only
      split
      · next pa pb _ _ =>
          have hroom : ∀ t : Lobby F, Flow t (t.createRoom ks a b pa pb) := fun t =>
            flow_entries (l := [.created t.nextRoomId a b pa.account pb.account])
              (by simpa using ⟨rfl, rfl, rfl⟩) rfl rfl rfl
          exact (((hpop.trans (flow_cancelMatchTimer a _)).trans (flow_cancelMatchTimer b _)).trans
            (hroom _)).trans (flow_post _ _ _)
      · exact hpop

theorem flow_onMatch (ks : List ℕ) (conn : Conn) (s : Lobby F) : Flow s (s.onMatch ks conn) := by
  unfold onMatch
  split
  · exact .refl s
  · next p _ =>
      split
      · exact .refl s
      · split
        · have hjoin : Flow s (s.joinQueue p.playerId) :=
            flow_entries (l := [.queued p.playerId s.wheel.nowTick])
              (by simpa using ⟨rfl, rfl, rfl⟩) rfl rfl rfl
          exact hjoin.trans (flow_tryMatch ks _)
        · exact .refl s

theorem flow_onInput (conn : Conn) (input : PlayerInput F) (s : Lobby F) :
    Flow s (s.onInput conn input) := by
  unfold onInput
  split
  · exact .refl s
  · exact flow_postToRoom _ _ s

theorem flow_onDisconnect (conn : Conn) (s : Lobby F) : Flow s (s.onDisconnect conn) := by
  unfold onDisconnect
  split
  · exact .refl s
  · next pid _ =>
      split
      · exact flow_same rfl rfl rfl
      · next p _ =>
          have hunbind : Flow s (s.unbindSession conn pid p) := by
            unfold unbindSession
            split <;> exact flow_same rfl rfl rfl
          have hexpiry : ∀ t : Lobby F, Flow t (t.scheduleExpiry pid) :=
            fun t => flow_same rfl rfl rfl
          exact ((hunbind.trans (flow_postToRoom _ _ _)).trans (hexpiry _)).trans (flow_flag _ rfl)

theorem flow_expireSession (pid : ℕ) (s : Lobby F) : Flow s (s.expireSession pid) := by
  unfold expireSession
  split
  · exact .refl s
  · split
    · exact .refl s
    · exact (flow_postToRoom _ _ s).trans (flow_same rfl rfl rfl)

theorem flow_fireNext (now : ℕ) (s : Lobby F) : Flow s (s.fireNext now) := by
  unfold fireNext
  split
  · exact .refl s
  · next n rest _ =>
      have hnext : Flow s { s with firing := rest } := flow_same rfl rfl rfl
      dsimp only
      split
      · exact hnext
      · next node w _ =>
          have htaken : Flow s { s with firing := rest, wheel := w } := flow_same rfl rfl rfl
          cases hcb : node.cb with
          | matchTimeout pid => exact htaken.trans (flow_matchTimeout pid _)
          | expireSession pid => exact htaken.trans (flow_expireSession pid _)
          | sweep => exact (htaken.trans (flow_sweepHeartbeats now _)).trans (flow_same rfl rfl rfl)

/-- Every event but those of the storage thread. -/
theorem flow_step {s : Lobby F} (hwriter : s.writer = true) {e : LobbyEvent F}
    (he : ∀ top, e ≠ .storeTask top) : Flow s (s.step e) := by
  cases e with
  | storeTask top => exact absurd rfl (he top)
  | leaderboard conn topN =>
      simp only [step, onLeaderboard, if_pos hwriter, enqueue]
      refine ⟨[.enqueue (.leaderboard conn _)], [.leaderboard conn _], rfl, rfl, rfl, rfl,
        by simp [Entry.done, Entry.answer], fun e he conn' n hask => ?_⟩
      obtain rfl := List.mem_singleton.mp he
      obtain ⟨-, rfl⟩ : conn = conn' ∧ _ = n := by simpa [Entry.asks] using hask
      split
      · assumption
      · exact ⟨by decide, by decide⟩
  | fireNext now => exact flow_fireNext now s
  | login conn account token now ks =>
      simp only [step]
      split
      · exact flow_onLogin conn account token now ks s
      · exact .refl s
  | reconnect conn pid token now =>
      simp only [step]
      split
      · exact flow_onReconnect conn pid token now s
      · exact .refl s
  | matchReq conn ks =>
      simp only [step]
      split
      · exact flow_onMatch ks conn s
      · exact .refl s
  | input conn input =>
      simp only [step]
      split
      · exact flow_onInput conn input s
      · exact .refl s
  | heartbeat conn clientMs now =>
      simp only [step]
      split
      · exact flow_onHeartbeat conn clientMs now s
      · exact .refl s
  | disconnect conn =>
      simp only [step]
      split
      · exact flow_onDisconnect conn s
      · exact .refl s
  | roomEnd =>
      simp only [step]
      split
      · exact flow_handleRoomEnd s
      · exact .refl s
  | wheelTick =>
      simp only [step]
      split
      · exact flow_same rfl rfl rfl
      · exact .refl s
  | roomTask r =>
      simp only [step]
      split
      · exact .refl s
      · exact flow_roomTask r s
  | roomTick r ks =>
      simp only [step]
      split
      · exact .refl s
      · exact flow_roomTick r ks s

/-! ### The storage thread -/

/-- What has been executed and what waits is what has been asked, and all
that has been executed has been answered, as Redis has replied to it. -/
structure Answered (board : List (String × ℕ)) (tops : List (List (String × F))) (s : Lobby F) :
    Prop where
  writer : s.writer = true
  fifo : (executed s.log ++ s.store).filter (fun task => !task.isFlag) =
    s.log.filterMap Entry.asks
  limited : ∀ e ∈ s.log, e.Limited
  replied : (queries [] (executed s.log)).length = tops.length
  answered : List.Forall₂ (Answers board) ((queries [] (executed s.log)).zip tops)
    (answers s.log)

theorem Answered.flow {board : List (String × ℕ)} {tops : List (List (String × F))}
    {s s' : Lobby F} (h : Answered board tops s) (hflow : Flow s s') : Answered board tops s' := by
  obtain ⟨es, tasks, hasks⟩ := hflow
  have hdone : executed s'.log = executed s.log := by
    rw [executed, hasks.log, List.filterMap_append,
      List.filterMap_eq_nil_iff.mpr fun e he => (hasks.quiet e he).1, List.append_nil, executed]
  have hanswers : answers s'.log = answers s.log := by
    rw [answers, hasks.log, List.filterMap_append,
      List.filterMap_eq_nil_iff.mpr fun e he => (hasks.quiet e he).2, List.append_nil, answers]
  refine ⟨hasks.writer.trans h.writer, ?_, fun e he => ?_, hdone ▸ h.replied, ?_⟩
  · rw [hdone, hasks.store, ← List.append_assoc, List.filter_append, h.fifo, hasks.asks, hasks.log,
      List.filterMap_append]
  · rw [hasks.log] at he
    exact (List.mem_append.mp he).elim (h.limited e) (hasks.limited e)
  · rw [hdone, hanswers]
    exact h.answered

/-- The storage thread answers a query when all that was asked before has been
executed. -/
theorem answers_top {board : List (String × ℕ)} (hboard : (board.map Prod.fst).Nodup)
    {conn : Conn} {n : ℕ} {wins : List String} {top : List (String × F)}
    (htop : Ranking (boardAfter board wins) top) :
    Answers board (⟨conn, n, wins⟩, top) (conn, top.take n) := by
  refine ⟨rfl, htop.imp_right ?_⟩
  rintro ⟨ranked, hperm, hsorted, rfl⟩
  refine ⟨ranked, List.map_take.symm, hsorted, ?_, fun m k => ?_⟩
  · exact (hperm.map Prod.fst).nodup_iff.mpr (nodup_boardAfter hboard wins)
  · rw [hperm.mem_iff, mem_boardAfter hboard]

/-- A task is taken from the queue: the log gets it, and the answer if it is a
query. -/
theorem Answered.takes {board : List (String × ℕ)} {tops tops' : List (List (String × F))}
    {s : Lobby F} (h : Answered board tops s) {task : StoreTask} {rest : List StoreTask}
    (hstore : s.store = task :: rest) {answer : List (Entry F)}
    (hquiet : ∀ e ∈ answer, e.asks = none ∧ e.done = none)
    (hreplied : (task.query (winners (executed s.log))).toList.length = tops'.length)
    (hanswer : List.Forall₂ (Answers board)
      ((task.query (winners (executed s.log))).toList.zip tops') (answers answer)) :
    Answered board (tops ++ tops')
      { s with store := rest, log := s.log ++ [.executed task] ++ answer } := by
  have hasks : answer.filterMap Entry.asks = [] :=
    List.filterMap_eq_nil_iff.mpr fun e he => (hquiet e he).1
  have hexecuted : executed (s.log ++ [.executed task] ++ answer) = executed s.log ++ [task] := by
    have hdone : answer.filterMap Entry.done = [] :=
      List.filterMap_eq_nil_iff.mpr fun e he => (hquiet e he).2
    simp [executed, hdone, Entry.done]
  have hqueries : queries [] (executed (s.log ++ [.executed task] ++ answer)) =
      queries [] (executed s.log) ++ (task.query (winners (executed s.log))).toList := by
    rw [hexecuted, queries_append]
    simp [queries]
  refine ⟨h.writer, ?_, fun e he conn n hask => ?_, ?_, ?_⟩
  · have hfifo := h.fifo
    rw [hstore] at hfifo
    rw [hexecuted, List.append_assoc, List.singleton_append, hfifo, List.filterMap_append, hasks,
      List.append_nil, List.filterMap_append]
    exact (List.append_nil _).symm
  · rcases List.mem_append.mp he with he | he
    · rcases List.mem_append.mp he with he | he
      · exact h.limited e he conn n hask
      · rw [List.mem_singleton.mp he] at hask
        cases hask
    · rw [(hquiet e he).1] at hask
      cases hask
  · rw [hqueries, List.length_append, List.length_append, h.replied, hreplied]
  · have hnew : answers (s.log ++ [.executed task] ++ answer) =
        answers s.log ++ answers answer := by
      rw [answers, List.filterMap_append, List.filterMap_append]
      exact congrArg (· ++ _) (List.append_nil _)
    rw [hqueries, hnew, List.zip_append h.replied]
    exact List.rel_append h.answered hanswer

theorem Answered.storeTask {board : List (String × ℕ)} (hboard : (board.map Prod.fst).Nodup)
    {tops : List (List (String × F))} {s : Lobby F} (h : Answered board tops s)
    {top : List (String × F)}
    (htop : Ranking (boardAfter board (winners (executed s.log))) top) :
    Answered board (tops ++ (s.reply (.storeTask top)).toList) (s.storeTask top) := by
  cases hstore : s.store with
  | nil =>
      have hidle : s.storeTask top = s := by simp [Lobby.storeTask, hstore]
      have hreply : s.reply (.storeTask top) = none := by simp [Lobby.reply, hstore]
      rw [hidle, hreply]
      simpa using h
  | cons task rest =>
      cases task with
      | leaderboard conn n =>
          have hlog : s.storeTask top = { s with
              store := rest
              log := s.log ++ [.executed (.leaderboard conn n)] ++
                [.send conn (.leaderboardResp (top.take n))] } := by
            simp [Lobby.storeTask, hstore, emit]
          have hreply : s.reply (.storeTask top) = some top := by simp [Lobby.reply, hstore]
          rw [hlog, hreply]
          refine h.takes hstore ?_ rfl (.cons (answers_top hboard htop) .nil)
          simp [Entry.asks, Entry.done]
      | setOnline | delOnline | settle =>
          have hlog : ∀ task, s.store = task :: rest → (∀ conn n, task ≠ .leaderboard conn n) →
              s.reply (.storeTask top) = none ∧ s.storeTask top = { s with
                store := rest, log := s.log ++ [.executed task] ++ [] } := by
            intro task hstore hquery
            cases task with
            | leaderboard conn n => exact absurd rfl (hquery conn n)
            | setOnline | delOnline | settle =>
                simp [Lobby.reply, Lobby.storeTask, hstore, emit]
          obtain ⟨hreply, hstep⟩ := hlog _ hstore (by simp)
          rw [hreply, hstep]
          exact h.takes hstore (by simp) rfl .nil

theorem Answered.run {board : List (String × ℕ)} (hboard : (board.map Prod.fst).Nodup)
    {tops : List (List (String × F))} {s : Lobby F} (h : Answered board tops s)
    {es : List (LobbyEvent F)} (hstored : Along step (Stored board) s es) :
    Answered board (tops ++ s.replies es) (es.foldl step s) := by
  induction es generalizing tops s with
  | nil => simpa [replies] using h
  | cons e es ih =>
      have hstep : Answered board (tops ++ (s.reply e).toList) (s.step e) := by
        by_cases hstore : ∃ top, e = .storeTask top
        · obtain ⟨top, rfl⟩ := hstore
          exact h.storeTask hboard (hstored.1 top rfl)
        · have hreply : s.reply e = none := by
            cases e with
            | storeTask top => exact absurd ⟨top, rfl⟩ hstore
            | _ => rfl
          rw [hreply, Option.toList_none, List.append_nil]
          exact h.flow (flow_step h.writer fun top he => hstore ⟨top, he⟩)
      rw [replies, ← List.append_assoc, List.foldl_cons]
      exact ih hstep hstored.2

/-- Queries for the leaderboard are answered once each and in the order in
which they came, whoever asks. An answer is the beginning of what Redis has
replied, and ranks the players by the battles that had been settled when the
query came in, no matter what is settled while it waits for the storage
thread; it is empty only if Redis has replied with nothing. -/
theorem leaderboard_linearizable (gameThreads : ℕ) {board : List (String × ℕ)}
    (hboard : (board.map Prod.fst).Nodup) {es : List (LobbyEvent F)}
    (hstored : Along step (Stored board) (init gameThreads true) es) :
    let s := es.foldl step (init gameThreads true)
    List.Forall₂ (Answers board)
        (((asked s.log).take (answers s.log).length).zip ((init gameThreads true).replies es))
        (answers s.log) ∧
      ((init gameThreads true).replies es).length = (answers s.log).length ∧
      (∀ q ∈ asked s.log, 0 < q.n ∧ q.n ≤ 100) ∧
      (s.store = [] → (answers s.log).length = (asked s.log).length) := by
  intro s
  have hinit : Answered board [] (init gameThreads true : Lobby F) :=
    ⟨rfl, rfl, fun e he => (List.not_mem_nil he).elim, rfl, .nil⟩
  have h : Answered board ((init gameThreads true).replies es) s := hinit.run hboard hstored
  have hasked : asked s.log = queries [] (executed s.log) ++
      queries (winners (executed s.log)) s.store := by
    rw [asked, ← h.fifo, queries_filter, queries_append, List.nil_append]
  have hlength : (queries [] (executed s.log)).length = (answers s.log).length := by
    rw [← h.answered.length_eq, List.length_zip, ← h.replied, Nat.min_self]
  refine ⟨?_, h.replied.symm.trans hlength, fun q hq => ?_, fun hstore => ?_⟩
  · rw [hasked, List.take_left' hlength]
    exact h.answered
  · obtain ⟨e, he, hask⟩ := List.mem_filterMap.mp (mem_queries hq)
    exact h.limited e he q.conn q.n hask
  · rw [hasked, hstore, ← hlength]
    simp [queries]

/-- Someone asks during a battle and again when it is over. Bob has won three
times in the past. -/
def contested : List (LobbyEvent (Ext ℚ)) :=
  [.login 1 "alice" "t" 0 [], .login 2 "bob" "u" 0 [], .matchReq 1 [], .matchReq 2 [],
    .roomTask 1, .input 1 ⟨1, .fin 0, .fin 0, true⟩, .roomTask 1, .leaderboard 2 5] ++
  List.replicate 43 (.roomTick 1 []) ++
  [.roomTask 1, .roomEnd, .leaderboard 1 0, .storeTask [], .storeTask []]

/-- The first query is answered, and the result is stored. -/
def halfway : List (LobbyEvent (Ext ℚ)) :=
  contested ++ [.storeTask [("bob", .fin 3)], .storeTask []]

theorem leaderboard_linearizable_contested :
    let es : List (LobbyEvent (Ext ℚ)) :=
      halfway ++ [.storeTask [("bob", .fin 3), ("alice", .fin 1)]]
    let s := es.foldl step (init 2 true)
    s.store = [] ∧ (asked s.log).map Query.wins = [[], ["alice"]] ∧
      answers s.log = [(2, [("bob", .fin 3)]), (1, [("bob", .fin 3), ("alice", .fin 1)])] ∧
      List.Forall₂ (Answers [("bob", 3)])
        (((asked s.log).take (answers s.log).length).zip ((init 2 true).replies es))
        (answers s.log) := by
  intro es
  have hfirst : winners (executed (contested.foldl step (init 2 true)).log) = [] := by
    decide +kernel
  have hlast : winners (executed (halfway.foldl step (init 2 true)).log) = ["alice"] := by
    decide +kernel
  have hstored : Along step (Stored [("bob", 3)]) (init 2 true) es := by
    refine along_append.mpr ⟨along_append.mpr ⟨along_of_forall (fun e he s => ?_) _, ?_, ?_,
      trivial⟩, ?_, trivial⟩
    · rintro top rfl
      exact .inl (by simpa [contested] using he)
    · rintro top ⟨⟩
      rw [hfirst]
      exact .inr ⟨[("bob", 3)], .refl _, by simp, rfl⟩
    · rintro top ⟨⟩
      exact .inl rfl
    · rintro top ⟨⟩
      rw [hlast]
      exact .inr ⟨[("bob", 3), ("alice", 1)], .refl _, by simp, rfl⟩
  have hboard : ([("bob", 3)].map Prod.fst).Nodup := by simp
  have h := leaderboard_linearizable 2 hboard hstored
  exact ⟨by decide +kernel, by decide +kernel, by decide +kernel, h.1⟩

end GameServer.Game
