import GameServer.Game.LobbyStep

/-!
The tables of the lobby in every reachable state.

`lobby_is_consistent` holds in every run. The connection table and the
sessions agree (`connections_match_sessions`) only in runs in which no
connection that is bound already logs in or reconnects: the lobby does not
look for the old binding, and leaves a session behind whose connection the
table gives to somebody else.
-/

namespace GameServer.Game

open GameServer.Lib GameServer.Proto GameServer.Timer
open Lobby

variable {F : Type}

/-- Session states, room ids, queue and room table agree. -/
structure Consistent [Scalar F] (s : Lobby F) : Prop where
  queue : ∀ p, s.matchQueue.contains p = true ↔
    ∃ x, s.sessions.lookup p = some x ∧ x.state = .kMatching
  inRoom : ∀ p x, s.sessions.lookup p = some x →
    (x.roomId ≠ 0 ↔ x.state = .kInRoom) ∧ (x.roomId ≠ 0 → x.roomId ∈ s.rooms)
  two : ∀ r, r ≠ 0 → (s.sessions.entries.filter fun e => e.2.roomId = r).length ≤ 2
  few : s.matchQueue.waiting.card ≤ 1
  /-- `tryMatch`, called by `onMatch`, never reads the front of an empty
  deque and finds the sessions of both players. -/
  found : ∀ conn p, s.sessionOf conn = some p → p.state = .kLobby →
    ∃ pair q, (s.joinQueue p.playerId).matchQueue.popPair = some (pair, q) ∧
      ∀ a b, pair = some (a, b) → ((s.joinQueue p.playerId).sessions.lookup a).isSome ∧
        ((s.joinQueue p.playerId).sessions.lookup b).isSome
  /-- Who waits, and who has just asked for a match, waits or plays then. -/
  kept : ∀ ks conn p, s.sessionOf conn = some p → p.state = .kLobby →
    ∀ a ∈ insert p.playerId s.matchQueue.waiting,
      a ∈ (s.onMatch ks conn).matchQueue.waiting ∨
      ∃ x, (s.onMatch ks conn).sessions.lookup a = some x ∧ x.state = .kInRoom

variable [Scalar F]

theorem Base.kept {s : Lobby F} (h : Base s) (ks : List ℕ) {conn : Conn} {p : Session}
    (hp : s.sessionOf conn = some p) (hstate : p.state = .kLobby) {a : ℕ}
    (ha : a ∈ insert p.playerId s.matchQueue.waiting) :
    a ∈ (s.onMatch ks conn).matchQueue.waiting ∨
      ∃ x, (s.onMatch ks conn).sessions.lookup a = some x ∧ x.state = .kInRoom := by
  obtain ⟨-, hsess, hconn⟩ := sessionOf_some h.tables hp
  have hconn : p.conn.isSome := by simp [hconn]
  obtain ⟨-, hw, -⟩ := h.joinQueue hsess hconn hstate
  rcases onMatch_eq h ks hp hstate with
    ⟨-, heq⟩ | ⟨b, c, pb, pc, q, hne, hwait, hpb, hpc, hq, heq⟩
  · left
    rw [heq]
    show a ∈ (s.matchQueue.push p.playerId).1.waiting
    rw [hw]
    exact ha
  · right
    have hpair : Move (fun _ => True) s _ := .pair ks hsess hconn hstate hne hwait hpb hpc hq
    have hnew := new_cell_pairUp ks b c pb pc q (s.joinQueue p.playerId)
    have hcore : (((s.joinQueue p.playerId).pairUp ks b c pb pc q).post s.nextRoomId .start).core =
        ((s.joinQueue p.playerId).pairUp ks b c pb pc q).core :=
      (h.move hpair).core_post (Option.isSome_iff_exists.mpr ⟨_, hnew⟩) (by simp) (by simp)
    have hsessions : (((s.joinQueue p.playerId).pairUp ks b c pb pc q).post s.nextRoomId
        .start).sessions = ((s.joinQueue p.playerId).pairUp ks b c pb pc q).sessions :=
      congrArg Core.sessions hcore
    have hmem : a = b ∨ a = c := by
      rw [hwait] at ha
      simpa using ha
    rw [heq, hsessions, lookup_pairUp]
    rcases hmem with rfl | rfl
    · exact ⟨_, by rw [hpb]; rfl, by simp⟩
    · exact ⟨_, by rw [hpc]; rfl, by simp⟩

theorem lobby_is_consistent (gameThreads : ℕ) (writer : Bool) (es : List (LobbyEvent F)) :
    Consistent (Lobby.run gameThreads writer es) := by
  have h := base_run gameThreads writer es
  generalize Lobby.run gameThreads writer es = s at h
  constructor
  · intro p
    simp only [MatchQueue.contains, decide_eq_true_eq]
    constructor
    · intro hmem
      obtain ⟨x, hx⟩ := Option.isSome_iff_exists.mp (h.tables.waiting hmem)
      exact ⟨x, hx, (h.tables.session hx).queue.mpr hmem⟩
    · rintro ⟨x, hx, hstate⟩
      exact (h.tables.session hx).queue.mp hstate
  · intro p x hx
    exact ⟨(h.tables.session hx).inRoom, (h.tables.session hx).room⟩
  · intro r hr
    obtain ⟨a, b, hab⟩ := h.tables.two r hr
    refine UnorderedMap.length_filter_le [a, b] fun p x hx hroom => ?_
    simpa using hab hx (by simpa using hroom)
  · exact h.few
  · intro conn p hp hstate
    obtain ⟨-, hsess, hconn⟩ := sessionOf_some h.tables hp
    rcases popPair_joinQueue h hsess (by simp [hconn]) hstate with
      ⟨-, hpop⟩ | ⟨a, b, pa, pb, q, hpop, -, -, hpa, hpb, -⟩
    · exact ⟨none, _, hpop, by simp⟩
    · refine ⟨some (a, b), q, hpop, fun a' b' heq => ?_⟩
      obtain ⟨rfl, rfl⟩ := Prod.mk.inj (Option.some.inj heq)
      exact ⟨by rw [hpa]; rfl, by rw [hpb]; rfl⟩
  · intro ks conn p hp hstate a ha
    exact h.kept ks hp hstate ha

/-! ### Connections -/

/-- The connection table knows every connection that a session holds. -/
def Bindings (s : Lobby F) : Prop :=
  ∀ p x c, s.sessions.lookup p = some x → x.conn = some c → s.connToPlayer.lookup c = some p

omit [Scalar F] in
/-- The rule for updates of sessions that leave the connections alone. -/
theorem Bindings.update {s s' : Lobby F} (h : Bindings s) {g : ℕ → Session → Session}
    (hg : ∀ p, s'.sessions.lookup p = (s.sessions.lookup p).map (g p))
    (hconn : ∀ p x, (g p x).conn = x.conn) (hlink : s'.connToPlayer = s.connToPlayer) :
    Bindings s' := by
  intro p x c hx hc
  rw [hg] at hx
  obtain ⟨y, hy, rfl⟩ := Option.map_eq_some_iff.mp hx
  rw [hlink]
  exact h _ _ _ hy ((hconn p y).symm.trans hc)

omit [Scalar F] in
theorem Bindings.modify {s s' : Lobby F} (h : Bindings s) (p : ℕ) (f : Session → Session)
    (hsessions : s'.sessions = s.sessions.modify p f) (hf : ∀ x, (f x).conn = x.conn)
    (hlink : s'.connToPlayer = s.connToPlayer) : Bindings s' := by
  refine h.update (g := fun p' x => if p' = p then f x else x) (fun p' => ?_) (fun p' x => ?_) hlink
  · rw [hsessions, UnorderedMap.lookup_modify]
    split <;> simp
  · split
    · exact hf x
    · rfl

omit [Scalar F] in
theorem Bindings.onRoomEnd {s : Lobby F} (h : Bindings s) (r w : ℕ) :
    Bindings (s.onRoomEnd r w) :=
  h.update (g := fun _ x => x.leave r) (lookup_onRoomEnd r w s) (fun _ x => x.leave_conn r)
    (congrArg Core.connToPlayer (core_onRoomEnd r w s))

theorem Bindings.move {φ : Deed → Prop} (hφ : ¬φ .bindsTwice) {s s' : Lobby F} (hbase : Base s)
    (h : Bindings s) (hmove : Move φ s s') : Bindings s' := by
  cases hmove with
  | plain | take | skip | wheelTick | scheduleSweep | mail | quiet => exact h
  | heartbeat pid now =>
      exact h.modify pid (fun p => { p with lastHeartbeatMs := now }) rfl (fun _ => rfl) rfl
  | scheduleExpiry pid =>
      exact h.modify pid (fun p => { p with
        expireTimerId := (s.wheel.add kSessionKeepMs (TimerCb.expireSession pid)).2 })
        rfl (fun _ => rfl) rfl
  | @wait pid =>
      exact h.modify pid (fun p => { p with state := .kMatching }) rfl (fun _ => rfl) rfl
  | login conn account token now ks hfresh =>
      have hfresh := hfresh.resolve_right hφ
      intro p x c hx hc
      simp only [emit, addSession, UnorderedMap.lookup_reorder, UnorderedMap.lookup_insert_eq]
        at hx ⊢
      split at hx
      · next hp =>
          obtain rfl := Option.some.inj hx
          rw [if_pos (Option.some.inj hc).symm, hp]
      · have hold := h _ _ _ hx hc
        have hne : c ≠ conn := by
          rintro rfl
          rw [hfresh] at hold
          cases hold
        rw [if_neg hne]
        exact hold
  | @rebind conn pid p now hp hnone hfresh =>
      have hfresh := hfresh.resolve_right hφ
      have hid : p.playerId = pid := (hbase.tables.session hp).id
      intro p' x c hx hc
      simp only [emit, rebindSession, UnorderedMap.lookup_modify, UnorderedMap.lookup_insert_eq]
        at hx ⊢
      split at hx
      · next hpp =>
          obtain ⟨y, -, rfl⟩ := Option.map_eq_some_iff.mp hx
          rw [if_pos (Option.some.inj hc).symm, hid, hpp]
      · have hold := h _ _ _ hx hc
        have hne : c ≠ conn := by
          rintro rfl
          rw [hfresh] at hold
          cases hold
        rw [if_neg hne]
        exact hold
  | @unbind conn pid p hconn hp =>
      intro p' x c hx hc
      rw [lookup_unbindSession] at hx
      obtain ⟨y, hy, rfl⟩ := Option.map_eq_some_iff.mp hx
      -- whoever still holds a connection is not `pid`, so its connection is not `conn`
      have hne : p' ≠ pid := by
        intro heq
        rw [if_pos heq] at hc
        cases hc
      rw [if_neg hne] at hc
      have hold := h _ _ _ hy hc
      have hcc : c ≠ conn := by
        rintro rfl
        exact hne (Option.some.inj (hold.symm.trans hconn))
      rw [connToPlayer_unbindSession, UnorderedMap.lookup_erase_eq, if_neg hcc]
      exact hold
  | erase hp =>
      intro p' x c hx hc
      simp only [eraseSession, UnorderedMap.lookup_erase_eq] at hx
      split at hx
      · cases hx
      · exact h _ _ _ hx hc
  | forfeit =>
      intro p' x c hx hc
      simp only [eraseSession, UnorderedMap.lookup_erase_eq] at hx
      split at hx
      · cases hx
      · exact h _ _ _ hx hc
  | @pair pid a b p pa pb q ks =>
      have hjoin : Bindings (s.joinQueue pid) :=
        h.modify pid (fun p => { p with state := .kMatching }) rfl (fun _ => rfl) rfl
      refine hjoin.update (lookup_pairUp ks a b pa pb q _) (fun p' x => ?_) ?_
      · split <;> rfl
      · obtain ⟨wheel, timers, heq⟩ := pairUp_eq ks a b pa pb q (s.joinQueue pid)
        rw [heq]
        rfl
  | @matchTimeout n rest node w pid =>
      unfold Lobby.matchTimeout
      dsimp only
      split
      · split <;>
          exact h.modify pid (fun p => { p with state := .kLobby }) rfl (fun _ => rfl) rfl
      · exact h
  | closing =>
      unfold closeRoom
      split
      · refine Bindings.onRoomEnd ?_ _ _
        exact h
      · exact h
  | @roomEnd r winner rest =>
      refine Bindings.onRoomEnd ?_ r winner
      exact h

/-- Sessions and connection table are inverse to each other. -/
structure OneToOne (s : Lobby F) : Prop where
  bound : ∀ p c, (∃ x, s.sessions.lookup p = some x ∧ x.conn = some c) ↔
    s.connToPlayer.lookup c = some p
  single : ∀ p q x y c, s.sessions.lookup p = some x → s.sessions.lookup q = some y →
    x.conn = some c → y.conn = some c → p = q
  /-- `tryMatch`, called by `onMatch`, does not pair a connection with itself. -/
  opponents : ∀ conn p, s.sessionOf conn = some p → p.state = .kLobby → ∀ a b q pa pb,
    (s.joinQueue p.playerId).matchQueue.popPair = some (some (a, b), q) →
    (s.joinQueue p.playerId).sessions.lookup a = some pa →
    (s.joinQueue p.playerId).sessions.lookup b = some pb → pa.conn ≠ pb.conn
  dropped : ∀ c p x, (s.onDisconnect c).sessions.lookup p = some x → x.conn ≠ some c

omit [Scalar F] in
theorem Bindings.single {s : Lobby F} (h : Bindings s) {p q : ℕ} {x y : Session} {c : Conn}
    (hx : s.sessions.lookup p = some x) (hy : s.sessions.lookup q = some y)
    (hxc : x.conn = some c) (hyc : y.conn = some c) : p = q :=
  Option.some.inj ((h p x c hx hxc).symm.trans (h q y c hy hyc))

omit [Scalar F] in
theorem Bindings.opponents {s : Lobby F} (h : Bindings s) (hbase : Base s) {conn : Conn}
    {p : Session} (hp : s.sessionOf conn = some p) (hstate : p.state = .kLobby) {a b : ℕ}
    {q : MatchQueue} {pa pb : Session}
    (hpop : (s.joinQueue p.playerId).matchQueue.popPair = some (some (a, b), q))
    (hpa : (s.joinQueue p.playerId).sessions.lookup a = some pa)
    (hpb : (s.joinQueue p.playerId).sessions.lookup b = some pb) : pa.conn ≠ pb.conn := by
  obtain ⟨-, hsess, hconn⟩ := sessionOf_some hbase.tables hp
  have hconn : p.conn.isSome := by simp [hconn]
  have hjoin : Bindings (s.joinQueue p.playerId) :=
    h.modify p.playerId (fun p => { p with state := .kMatching }) rfl (fun _ => rfl) rfl
  have htables := (hbase.joinQueue hsess hconn hstate).2.2
  rcases popPair_joinQueue hbase hsess hconn hstate with
    ⟨-, hnone⟩ | ⟨a', b', pa', pb', q', hpop', hne, hwait, -⟩
  · rw [hpop] at hnone
    cases hnone
  · rw [hpop] at hpop'
    simp only [Option.some.injEq, Prod.mk.injEq] at hpop'
    obtain ⟨⟨rfl, rfl⟩, -⟩ := hpop'
    -- both wait, so both hold a connection, and it is not the same one
    have hmem : a ∈ (s.joinQueue p.playerId).matchQueue.waiting := by
      have hw := (hbase.joinQueue hsess hconn hstate).2.1
      show a ∈ (s.matchQueue.push p.playerId).1.waiting
      rw [hw, hwait]
      exact Finset.mem_insert_self ..
    have hok := htables.session hpa
    obtain ⟨c, hc⟩ := Option.isSome_iff_exists.mp (hok.conn (hok.queue.mpr hmem))
    intro hsame
    exact hne (hjoin.single hpa hpb hc (hsame ▸ hc))

/-- After `onDisconnect` the table has forgotten the connection. -/
theorem connToPlayer_onDisconnect {s : Lobby F} (h : Base s) (c : Conn) :
    (s.onDisconnect c).connToPlayer.lookup c = none := by
  cases hpid : s.connToPlayer.lookup c with
  | none => simp only [onDisconnect, hpid]
  | some pid =>
      obtain ⟨p, hp, -⟩ := h.tables.bound hpid
      have hp : s.sessions.lookup pid = some p := hp
      have hcore : ((s.unbindSession c pid p).postToRoom p (.dropConn pid)).core =
          (s.unbindSession c pid p).core :=
        (h.unbindSession hpid hp).core_postToRoom p (by simp) (by simp)
      have hlink : (s.onDisconnect c).connToPlayer = s.connToPlayer.erase c := by
        simp only [onDisconnect, hpid, hp, enqueue]
        have := congrArg Core.connToPlayer hcore
        simp only [Lobby.core, connToPlayer_unbindSession] at this
        split <;> exact this
      rw [hlink, UnorderedMap.lookup_erase_eq, if_pos rfl]

theorem connections_match_sessions (gameThreads : ℕ) (writer : Bool) (es : List (LobbyEvent F))
    (hok : Along Lobby.step (fun s e => s.commits e .bindsTwice = false)
      (Lobby.init gameThreads writer) es) :
    OneToOne (Lobby.run gameThreads writer es) := by
  have hbase := base_run gameThreads writer es
  have h : Bindings (Lobby.run gameThreads writer es) := by
    refine invariant_moves (φ := (· ≠ .bindsTwice)) (I := Bindings) ?_
      (fun s s' hbase h hmove => h.move (by simp) hbase hmove) (hok.mono fun s e hno deed hf => ?_)
    · intro p x c hx
      simp [Lobby.init, scheduleSweep] at hx
    · rintro rfl
      rw [hno] at hf
      cases hf
  generalize Lobby.run gameThreads writer es = s at hbase h
  refine ⟨fun p c => ⟨?_, ?_⟩, fun p q x y c hx hy => h.single hx hy, ?_, fun c p x hx hc => ?_⟩
  · rintro ⟨x, hx, hc⟩
    exact h p x c hx hc
  · exact fun hc => hbase.tables.bound hc
  · exact fun conn p hp hstate a b q pa pb hpop hpa hpb =>
      h.opponents hbase hp hstate hpop hpa hpb
  · have hmoves : Moves (· ≠ .bindsTwice) s (s.onDisconnect c) :=
      moves_onDisconnect hbase (fun p _ => .inr (by simp)) (by simp)
    have hafter : Bindings (s.onDisconnect c) :=
      invariant_of_moves (fun s s' hbase h hmove => h.move (by simp) hbase hmove) hbase h hmoves
    have hnone := connToPlayer_onDisconnect hbase c
    rw [hafter p x c hx hc] at hnone
    cases hnone

/-- A player comes back on a new connection, and another one logs in. -/
theorem connections_match_sessions_reconnect :
    let es : List (LobbyEvent (Ext ℚ)) :=
      [.login 1 "alice" "t" 0 [], .disconnect 1, .reconnect 2 1 "t" 5, .login 3 "bob" "u" 7 [1]]
    Along Lobby.step (fun s e => s.commits e .bindsTwice = false) (Lobby.init 2 true) es ∧
      (Lobby.run 2 true es).connToPlayer.lookup 2 = some 1 ∧ OneToOne (Lobby.run 2 true es) := by
  intro es
  have hok : Along Lobby.step (fun s e => s.commits e .bindsTwice = false) (Lobby.init 2 true) es := by
    refine ⟨?_, ?_, ?_, ?_, trivial⟩ <;> decide +kernel
  exact ⟨hok, by decide +kernel, connections_match_sessions 2 true es hok⟩

/-- A connection that logs in twice is held by two sessions, and the first of
them holds it even after the connection is gone. -/
theorem login_twice_breaks_binding :
    let s : Lobby (Ext ℚ) := Lobby.run 0 false
      [.login 1 "alice" "t" 0 [], .login 1 "bob" "u" 0 []]
    (∃ x, s.sessions.lookup 1 = some x ∧ x.conn = some 1) ∧ s.connToPlayer.lookup 1 = some 2 ∧
      (∃ x, (s.onDisconnect 1).sessions.lookup 1 = some x ∧ x.conn = some 1) ∧ ¬OneToOne s := by
  intro s
  have hheld : (s.sessions.lookup 1).bind Session.conn = some 1 := by decide +kernel
  have htable : s.connToPlayer.lookup 1 = some 2 := by decide +kernel
  have hstale : ((s.onDisconnect 1).sessions.lookup 1).bind Session.conn = some 1 := by
    decide +kernel
  refine ⟨Option.bind_eq_some_iff.mp hheld, htable, Option.bind_eq_some_iff.mp hstale, fun h => ?_⟩
  have hone := (h.bound 1 1).mp (Option.bind_eq_some_iff.mp hheld)
  rw [htable] at hone
  cases hone

end GameServer.Game
