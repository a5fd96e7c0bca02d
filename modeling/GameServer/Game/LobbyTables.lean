import GameServer.Game.LobbyRoom

/-!
The tables of the lobby agree with each other.

Session state, room id, match queue, connection table and room table are
updated separately. `Tables` is the relation between them that every handler
and every timer callback restores, whatever order they come in. Part of it is
what makes it inductive: a session without a connection is never matching,
and every entry of the connection table is confirmed by its session.

The relation only reads the part of the lobby collected in `Core`. A room
can touch that part only by ending, so the steps of rooms are covered by one
rule (`Tables.endRoom`).
-/

namespace GameServer.Game

open GameServer.Lib GameServer.Proto GameServer.Timer

/-- What the handlers keep consistent. -/
structure Core where
  connToPlayer : UnorderedMap Conn ℕ
  sessions : UnorderedMap ℕ Session
  rooms : List ℕ
  matchQueue : MatchQueue
  nextPlayerId : ℕ
  nextRoomId : ℕ

def Lobby.core {F : Type} (s : Lobby F) : Core :=
  { connToPlayer := s.connToPlayer, sessions := s.sessions, rooms := s.rooms
    matchQueue := s.matchQueue, nextPlayerId := s.nextPlayerId, nextRoomId := s.nextRoomId }

/-- What `onRoomEnd` does to a session. -/
def Session.leave (roomId : ℕ) (p : Session) : Session :=
  if p.roomId = roomId then { p with roomId := 0, state := .kLobby } else p

def Core.endRoom (c : Core) (roomId : ℕ) : Core :=
  { c with
    rooms := c.rooms.erase roomId
    sessions := c.sessions.mapVal fun _ p => p.leave roomId }

/-- A session and the other tables agree. -/
structure SessionOk (c : Core) (p : ℕ) (x : Session) : Prop where
  id : x.playerId = p
  pos : p ≠ 0
  lt : p < c.nextPlayerId
  queue : x.state = .kMatching ↔ p ∈ c.matchQueue.waiting
  conn : x.state = .kMatching → x.conn.isSome
  inRoom : x.roomId ≠ 0 ↔ x.state = .kInRoom
  room : x.roomId ≠ 0 → x.roomId ∈ c.rooms

theorem SessionOk.roomId_of_matching {c : Core} {p : ℕ} {x : Session} (h : SessionOk c p x)
    (hm : x.state = .kMatching) : x.roomId = 0 := by
  by_contra hne
  have hin := h.inRoom.mp hne
  rw [hm] at hin
  cases hin

structure Tables (c : Core) : Prop where
  session : ∀ {p x}, c.sessions.lookup p = some x → SessionOk c p x
  waiting : ∀ {p}, p ∈ c.matchQueue.waiting → (c.sessions.lookup p).isSome
  two : ∀ r, r ≠ 0 → ∃ a b, ∀ {p x}, c.sessions.lookup p = some x → x.roomId = r → p = a ∨ p = b
  bound : ∀ {conn p}, c.connToPlayer.lookup conn = some p →
    ∃ x, c.sessions.lookup p = some x ∧ x.conn = some conn
  rooms_lt : ∀ {r}, r ∈ c.rooms → r < c.nextRoomId
  rooms_nodup : c.rooms.Nodup
  order : c.matchQueue.Ok
  player_pos : c.nextPlayerId ≠ 0
  room_pos : c.nextRoomId ≠ 0

/-- The rule for updates of existing sessions by `g`, which puts nobody into
a room and leaves the room table and the counters alone. -/
theorem Tables.update {c : Core} (h : Tables c) {g : ℕ → Session → Session}
    {sessions : UnorderedMap ℕ Session} {link : UnorderedMap Conn ℕ} {q : MatchQueue}
    (hg : ∀ p, sessions.lookup p = (c.sessions.lookup p).map (g p))
    (hok : ∀ {p x}, c.sessions.lookup p = some x → SessionOk c p x →
      SessionOk { c with sessions := sessions, connToPlayer := link, matchQueue := q } p (g p x))
    (hwaiting : ∀ p ∈ q.waiting, p ∈ c.matchQueue.waiting ∨ (c.sessions.lookup p).isSome)
    (hroom : ∀ p x, (g p x).roomId = x.roomId ∨ (g p x).roomId = 0)
    (hbound : ∀ {conn p}, link.lookup conn = some p →
      ∃ x, c.sessions.lookup p = some x ∧ (g p x).conn = some conn)
    (horder : q.Ok) :
    Tables { c with sessions := sessions, connToPlayer := link, matchQueue := q } where
  session {p x} hx := by
    obtain ⟨y, hy, rfl⟩ := Option.map_eq_some_iff.mp ((hg p).symm.trans hx)
    exact hok hy (h.session hy)
  waiting {p} hp := by
    have hsome : (c.sessions.lookup p).isSome := (hwaiting p hp).elim h.waiting fun h => h
    simpa [hg] using hsome
  two r hr := by
    obtain ⟨a, b, hab⟩ := h.two r hr
    refine ⟨a, b, fun {p x} hx hx' => ?_⟩
    obtain ⟨y, hy, rfl⟩ := Option.map_eq_some_iff.mp ((hg p).symm.trans hx)
    rcases hroom p y with hsame | hzero
    · exact hab hy (hsame.symm.trans hx')
    · exact absurd (hx'.symm.trans hzero) hr
  bound {conn p} hp := by
    obtain ⟨x, hx, hconn⟩ := hbound hp
    exact ⟨g p x, by simp [hg, hx], hconn⟩
  rooms_lt := h.rooms_lt
  rooms_nodup := h.rooms_nodup
  order := horder
  player_pos := h.player_pos
  room_pos := h.room_pos

/-! ### Ending a room -/

@[simp] theorem Session.leave_conn (r : ℕ) (p : Session) : (p.leave r).conn = p.conn := by
  unfold leave
  split <;> rfl

theorem Session.leave_roomId {r : ℕ} {p : Session} (h : p.roomId = r) : (p.leave r).roomId = 0 := by
  simp [leave, h]

/-- Ending a room frees its members and touches nobody else. -/
theorem Tables.endRoom {c : Core} (h : Tables c) {r : ℕ} (hr : r ≠ 0) :
    Tables (c.endRoom r) := by
  have hlookup : ∀ p, (c.endRoom r).sessions.lookup p =
      (c.sessions.lookup p).map (Session.leave r) := fun p => UnorderedMap.lookup_mapVal _ _ _
  constructor
  · intro p x hx
    rw [hlookup] at hx
    obtain ⟨y, hy, rfl⟩ := Option.map_eq_some_iff.mp hx
    have hok := h.session hy
    unfold Session.leave
    split
    · next hin =>
        have hstate := hok.inRoom.mp (hin ▸ hr)
        refine ⟨hok.id, hok.pos, hok.lt, ?_, by simp, by simp, by simp⟩
        rw [← show _ ↔ p ∈ (c.endRoom r).matchQueue.waiting from hok.queue, hstate]
        simp
    · next hout =>
        exact ⟨hok.id, hok.pos, hok.lt, hok.queue, hok.conn, hok.inRoom,
          fun hne => (List.mem_erase_of_ne hout).mpr (hok.room hne)⟩
  · intro p hp
    simpa [hlookup] using h.waiting hp
  · intro r' hr'
    obtain ⟨a, b, hab⟩ := h.two r' hr'
    refine ⟨a, b, fun {p x} hx hx' => ?_⟩
    rw [hlookup] at hx
    obtain ⟨y, hy, rfl⟩ := Option.map_eq_some_iff.mp hx
    refine hab hy ?_
    unfold Session.leave at hx'
    split at hx'
    · exact absurd hx'.symm hr'
    · exact hx'
  · intro conn p hp
    obtain ⟨x, hx, hconn⟩ := h.bound hp
    exact ⟨x.leave r, by simp [hlookup, hx], by simp [hconn]⟩
  · exact fun hr' => h.rooms_lt (List.mem_of_mem_erase hr')
  · exact h.rooms_nodup.erase r
  · exact h.order
  · exact h.player_pos
  · exact h.room_pos

/-! ### The updates of the handlers -/

/-- A change to a session that the tables do not look at. -/
theorem Tables.touch {c : Core} (h : Tables c) (p : ℕ) {f : Session → Session}
    (hf : ∀ x, (f x).playerId = x.playerId ∧ (f x).conn = x.conn ∧ (f x).roomId = x.roomId ∧
      (f x).state = x.state) :
    Tables { c with sessions := c.sessions.modify p f } := by
  refine h.update (g := fun p' x => if p' = p then f x else x) (fun p' => ?_) ?_ (fun _ => .inl)
    (fun p' x => ?_) (fun {conn p'} hp => ?_) h.order
  · rw [UnorderedMap.lookup_modify]
    split <;> simp
  · intro p' x hx hok
    split
    · obtain ⟨h₁, h₂, h₃, h₄⟩ := hf x
      exact ⟨h₁.trans hok.id, hok.pos, hok.lt, by rw [h₄]; exact hok.queue,
        by rw [h₂, h₄]; exact hok.conn, by rw [h₃, h₄]; exact hok.inRoom,
        by rw [h₃]; exact hok.room⟩
    · exact ⟨hok.id, hok.pos, hok.lt, hok.queue, hok.conn, hok.inRoom, hok.room⟩
  · split
    · exact .inl (hf x).2.2.1
    · exact .inl rfl
  · obtain ⟨x, hx, hconn⟩ := h.bound hp
    refine ⟨x, hx, ?_⟩
    split
    · exact (hf x).2.1.trans hconn
    · exact hconn

theorem Tables.login {c : Core} (h : Tables c) (ks : List ℕ) (conn : Conn) {x : Session}
    (hid : x.playerId = c.nextPlayerId) (hconn : x.conn = some conn) (hroom : x.roomId = 0)
    (hstate : x.state = .kLobby) :
    Tables { c with
      nextPlayerId := c.nextPlayerId + 1
      sessions := UnorderedMap.reorder ks (c.sessions.insert c.nextPlayerId x)
      connToPlayer := c.connToPlayer.insert conn c.nextPlayerId } := by
  have hfresh : c.sessions.lookup c.nextPlayerId = none := by
    cases hn : c.sessions.lookup c.nextPlayerId with
    | none => rfl
    | some y => exact absurd (h.session hn).lt (Nat.lt_irrefl _)
  have hold : ∀ {p y}, c.sessions.lookup p = some y → p ≠ c.nextPlayerId := by
    rintro p y hy rfl
    rw [hfresh] at hy
    cases hy
  have hlookup : ∀ p, (UnorderedMap.reorder ks (c.sessions.insert c.nextPlayerId x)).lookup p =
      if p = c.nextPlayerId then some x else c.sessions.lookup p := fun p => by
    rw [UnorderedMap.lookup_reorder, UnorderedMap.lookup_insert_eq]
  constructor
  · intro p y hy
    rw [hlookup] at hy
    split at hy
    · next hp =>
        obtain rfl := Option.some.inj hy
        subst hp
        refine ⟨hid, h.player_pos, Nat.lt_succ_self _, ?_, by simp [hstate], by simp [hroom, hstate],
          by simp [hroom]⟩
        rw [hstate]
        refine ⟨fun hst => (nomatch hst), fun hmem => ?_⟩
        have := h.waiting hmem
        simp [hfresh] at this
    · have hok := h.session hy
      exact ⟨hok.id, hok.pos, Nat.lt_succ_of_lt hok.lt, hok.queue, hok.conn, hok.inRoom, hok.room⟩
  · intro p hp
    rw [hlookup]
    split
    · rfl
    · exact h.waiting hp
  · intro r hr
    obtain ⟨a, b, hab⟩ := h.two r hr
    refine ⟨a, b, fun hy hy' => ?_⟩
    rw [hlookup] at hy
    split at hy
    · obtain rfl := Option.some.inj hy
      exact absurd (hy'.symm.trans hroom) hr
    · exact hab hy hy'
  · intro conn' p hp
    rw [UnorderedMap.lookup_insert_eq] at hp
    split at hp
    · next hc =>
        obtain rfl := Option.some.inj hp
        exact ⟨x, by simp [hlookup], hc ▸ hconn⟩
    · obtain ⟨y, hy, hyc⟩ := h.bound hp
      exact ⟨y, by rw [hlookup, if_neg (hold hy)]; exact hy, hyc⟩
  · exact h.rooms_lt
  · exact h.rooms_nodup
  · exact h.order
  · simp
  · exact h.room_pos

/-- A session gets a connection back. -/
theorem Tables.reconnect {c : Core} (h : Tables c) {p : ℕ} {x : Session}
    (hx : c.sessions.lookup p = some x) (hnone : x.conn = none) (conn : Conn)
    {f : Session → Session} (hf : ∀ x, (f x).playerId = x.playerId ∧ (f x).conn = some conn ∧
      (f x).roomId = x.roomId ∧ (f x).state = x.state) :
    Tables { c with
      sessions := c.sessions.modify p f
      connToPlayer := c.connToPlayer.insert conn p } := by
  refine h.update (g := fun p' x => if p' = p then f x else x) (fun p' => ?_) ?_ (fun _ => .inl)
    (fun p' x => ?_) (fun {conn' p'} hp => ?_) h.order
  · rw [UnorderedMap.lookup_modify]
    split <;> simp
  · intro p' x hx hok
    split
    · obtain ⟨h₁, h₂, h₃, h₄⟩ := hf x
      exact ⟨h₁.trans hok.id, hok.pos, hok.lt, by rw [h₄]; exact hok.queue,
        by rw [h₂]; simp, by rw [h₃, h₄]; exact hok.inRoom, by rw [h₃]; exact hok.room⟩
    · exact ⟨hok.id, hok.pos, hok.lt, hok.queue, hok.conn, hok.inRoom, hok.room⟩
  · split
    · exact .inl (hf x).2.2.1
    · exact .inl rfl
  · rw [UnorderedMap.lookup_insert_eq] at hp
    split at hp
    · next hc =>
        obtain rfl := Option.some.inj hp
        exact ⟨x, hx, by rw [if_pos rfl, hc]; exact (hf x).2.1⟩
    · -- an old entry cannot be for `p`, which had no connection
      obtain ⟨y, hy, hyc⟩ := h.bound hp
      have hne : p' ≠ p := by
        rintro rfl
        rw [hx] at hy
        obtain rfl := Option.some.inj hy
        rw [hnone] at hyc
        cases hyc
      exact ⟨y, hy, by rw [if_neg hne]; exact hyc⟩

/-- A session loses its connection; if it was matching, it leaves the queue. -/
theorem Tables.unbind {c : Core} (h : Tables c) {conn : Conn} {p : ℕ} {x : Session}
    (hp : c.connToPlayer.lookup conn = some p) (hx : c.sessions.lookup p = some x)
    {f : Session → Session} {q : MatchQueue}
    (hf : ∀ x, (f x).playerId = x.playerId ∧ (f x).conn = none ∧ (f x).roomId = x.roomId)
    (hstate : (x.state ≠ .kMatching ∧ (∀ x, (f x).state = x.state) ∧ q = c.matchQueue) ∨
      (x.state = .kMatching ∧ (∀ x, (f x).state = .kLobby) ∧ q = c.matchQueue.remove p)) :
    Tables { c with
      sessions := c.sessions.modify p f
      connToPlayer := c.connToPlayer.erase conn
      matchQueue := q } := by
  obtain ⟨y, hy, hyc⟩ := h.bound hp
  rw [hx] at hy
  obtain rfl := Option.some.inj hy
  have hwaiting : ∀ p' ∈ q.waiting, p' ∈ c.matchQueue.waiting := by
    intro p' hp'
    rcases hstate with ⟨-, -, rfl⟩ | ⟨-, -, rfl⟩
    · exact hp'
    · exact Finset.mem_of_mem_erase hp'
  refine h.update (g := fun p' x => if p' = p then f x else x) (fun p' => ?_) ?_
    (fun p' hp' => .inl (hwaiting p' hp')) (fun p' x => ?_) (fun {conn' p'} hp' => ?_) ?_
  · rw [UnorderedMap.lookup_modify]
    split <;> simp
  · intro p' x' hx' hok
    split
    · next hpp =>
        subst hpp
        obtain rfl : x' = x := Option.some.inj (hx'.symm.trans hx)
        obtain ⟨h₁, h₂, h₃⟩ := hf x'
        rcases hstate with ⟨hne, hst, rfl⟩ | ⟨hm, hst, rfl⟩
        · refine ⟨h₁.trans hok.id, hok.pos, hok.lt, by rw [hst]; exact hok.queue, ?_,
            by rw [h₃, hst]; exact hok.inRoom, by rw [h₃]; exact hok.room⟩
          rw [hst]
          exact fun hm => absurd hm hne
        · have hzero : ¬x'.roomId ≠ 0 := by
            rw [hok.inRoom, hm]
            simp
          refine ⟨h₁.trans hok.id, hok.pos, hok.lt, ?_, by rw [hst]; simp, ?_, ?_⟩
          · rw [hst]
            simp [MatchQueue.remove]
          · rw [h₃, hst]
            simpa using hzero
          · rw [h₃]
            exact fun hne => absurd hne hzero
    · next hpp =>
        refine ⟨hok.id, hok.pos, hok.lt, ?_, hok.conn, hok.inRoom, hok.room⟩
        rcases hstate with ⟨-, -, rfl⟩ | ⟨-, -, rfl⟩
        · exact hok.queue
        · rw [hok.queue]
          simp [MatchQueue.remove, hpp]
  · split
    · exact .inl (hf x).2.2
    · exact .inl rfl
  · rw [UnorderedMap.lookup_erase_eq] at hp'
    split at hp'
    · cases hp'
    · next hc =>
        obtain ⟨y, hy, hyc'⟩ := h.bound hp'
        have hne : p' ≠ p := by
          rintro rfl
          rw [hx] at hy
          obtain rfl := Option.some.inj hy
          exact hc (Option.some.inj (hyc'.symm.trans hyc))
        exact ⟨y, hy, by rw [if_neg hne]; exact hyc'⟩
  · rcases hstate with ⟨-, -, rfl⟩ | ⟨-, -, rfl⟩
    · exact h.order
    · exact h.order.remove p

/-- A session outside every room enters the queue or leaves it. -/
theorem Tables.setState {c : Core} (h : Tables c) {p : ℕ} {x : Session}
    (hx : c.sessions.lookup p = some x) (hroom : x.roomId = 0) {f : Session → Session}
    {q : MatchQueue} {st : SessionState}
    (hf : ∀ x, (f x).playerId = x.playerId ∧ (f x).conn = x.conn ∧ (f x).roomId = x.roomId ∧
      (f x).state = st) (hq : q.Ok)
    (hst : (st = .kMatching ∧ x.conn.isSome ∧ q.waiting = insert p c.matchQueue.waiting) ∨
      (st = .kLobby ∧ q.waiting = c.matchQueue.waiting.erase p)) :
    Tables { c with sessions := c.sessions.modify p f, matchQueue := q } := by
  refine h.update (g := fun p' x => if p' = p then f x else x) (fun p' => ?_) ?_
    (fun p' hp' => ?_) (fun p' x => ?_) (fun {conn p'} hp => ?_) hq
  · rw [UnorderedMap.lookup_modify]
    split <;> simp
  · intro p' x' hx' hok
    split
    · next hpp =>
        subst hpp
        obtain rfl : x' = x := Option.some.inj (hx'.symm.trans hx)
        obtain ⟨h₁, h₂, h₃, h₄⟩ := hf x'
        rcases hst with ⟨rfl, hconn, hw⟩ | ⟨rfl, hw⟩
        · exact ⟨h₁.trans hok.id, hok.pos, hok.lt, by simp [h₄, hw], by rw [h₂]; exact fun _ => hconn,
            by simp [h₃, h₄, hroom], by simp [h₃, hroom]⟩
        · exact ⟨h₁.trans hok.id, hok.pos, hok.lt, by simp [h₄, hw], by simp [h₄],
            by simp [h₃, h₄, hroom], by simp [h₃, hroom]⟩
    · next hpp =>
        refine ⟨hok.id, hok.pos, hok.lt, ?_, hok.conn, hok.inRoom, hok.room⟩
        rw [hok.queue]
        rcases hst with ⟨-, -, hw⟩ | ⟨-, hw⟩ <;> simp [hw, hpp]
  · rcases hst with ⟨-, -, hw⟩ | ⟨-, hw⟩
    · rw [hw, Finset.mem_insert] at hp'
      rcases hp' with rfl | hp'
      · exact .inr (by simp [hx])
      · exact .inl hp'
    · rw [hw] at hp'
      exact .inl (Finset.mem_of_mem_erase hp')
  · split
    · exact .inl (hf x).2.2.1
    · exact .inl rfl
  · obtain ⟨y, hy, hyc⟩ := h.bound hp
    refine ⟨y, hy, ?_⟩
    split
    · exact (hf y).2.1.trans hyc
    · exact hyc

/-- Two matching sessions go into a new room. -/
theorem Tables.pair {c : Core} (h : Tables c) {a b : ℕ}
    (ha : a ∈ c.matchQueue.waiting) (hb : b ∈ c.matchQueue.waiting) {f : Session → Session}
    (hf : ∀ x, (f x).playerId = x.playerId ∧ (f x).conn = x.conn ∧
      (f x).roomId = c.nextRoomId ∧ (f x).state = .kInRoom)
    {q : MatchQueue} (hq : q.Ok) (hw : q.waiting = (c.matchQueue.waiting.erase a).erase b) :
    Tables { c with
      nextRoomId := c.nextRoomId + 1
      rooms := c.nextRoomId :: c.rooms
      sessions := (c.sessions.modify a f).modify b f
      matchQueue := q } := by
  have hlookup : ∀ {p x}, ((c.sessions.modify a f).modify b f).lookup p = some x →
      ∃ y, c.sessions.lookup p = some y ∧ (p = a ∨ p = b → x.playerId = y.playerId ∧
        x.conn = y.conn ∧ x.roomId = c.nextRoomId ∧ x.state = .kInRoom) ∧
        (p ≠ a → p ≠ b → x = y) := by
    intro p x hx
    simp only [UnorderedMap.lookup_modify] at hx
    cases hy : c.sessions.lookup p with
    | none => simp [hy] at hx
    | some y =>
        refine ⟨y, rfl, ?_⟩
        by_cases hpa : p = a <;> by_cases hpb : p = b <;> simp_all
        all_goals
          obtain rfl := hx
          simp [hf]
  have hsome : ∀ p, (((c.sessions.modify a f).modify b f).lookup p).isSome =
      (c.sessions.lookup p).isSome := by
    intro p
    simp only [UnorderedMap.lookup_modify]
    split <;> split <;> simp
  have hnew : c.nextRoomId ∉ c.rooms := fun hmem => Nat.lt_irrefl _ (h.rooms_lt hmem)
  constructor
  · intro p x hx
    obtain ⟨y, hy, hin, hout⟩ := hlookup hx
    have hok := h.session hy
    by_cases hp : p = a ∨ p = b
    · obtain ⟨h₁, h₂, h₃, h₄⟩ := hin hp
      refine ⟨h₁.trans hok.id, hok.pos, hok.lt, ?_, by simp [h₄], by simp [h₃, h₄, h.room_pos],
        by simp [h₃]⟩
      rw [h₄, hw]
      rcases hp with rfl | rfl <;> simp
    · obtain ⟨hpa, hpb⟩ := not_or.mp hp
      obtain rfl := hout hpa hpb
      refine ⟨hok.id, hok.pos, hok.lt, ?_, hok.conn, hok.inRoom,
        fun hne => List.mem_cons_of_mem _ (hok.room hne)⟩
      rw [hok.queue, hw]
      simp [hpa, hpb]
  · intro p hp
    rw [hsome]
    rw [hw] at hp
    exact h.waiting (Finset.mem_of_mem_erase (Finset.mem_of_mem_erase hp))
  · intro r hr
    by_cases hrn : r = c.nextRoomId
    · refine ⟨a, b, fun {p x} hx hx' => ?_⟩
      obtain ⟨y, hy, -, hout⟩ := hlookup hx
      by_contra hp
      obtain ⟨hpa, hpb⟩ := not_or.mp hp
      obtain rfl := hout hpa hpb
      exact hnew (hrn ▸ hx' ▸ (h.session hy).room (hx' ▸ hr))
    · obtain ⟨a', b', hab⟩ := h.two r hr
      refine ⟨a', b', fun {p x} hx hx' => ?_⟩
      obtain ⟨y, hy, hin, hout⟩ := hlookup hx
      by_cases hp : p = a ∨ p = b
      · exact absurd (hx'.symm.trans (hin hp).2.2.1) hrn
      · obtain ⟨hpa, hpb⟩ := not_or.mp hp
        obtain rfl := hout hpa hpb
        exact hab hy hx'
  · intro conn p hp
    obtain ⟨y, hy, hyc⟩ := h.bound hp
    obtain ⟨x, hx⟩ := Option.isSome_iff_exists.mp ((hsome p).trans (by simp [hy]))
    refine ⟨x, hx, ?_⟩
    obtain ⟨y', hy', hin, hout⟩ := hlookup hx
    obtain rfl : y' = y := Option.some.inj (hy'.symm.trans hy)
    by_cases hp : p = a ∨ p = b
    · exact (hin hp).2.1.trans hyc
    · obtain ⟨hpa, hpb⟩ := not_or.mp hp
      exact (hout hpa hpb) ▸ hyc
  · intro r hr
    rcases List.mem_cons.mp hr with rfl | hr
    · exact Nat.lt_succ_self _
    · exact Nat.lt_succ_of_lt (h.rooms_lt hr)
  · exact List.nodup_cons.mpr ⟨hnew, h.rooms_nodup⟩
  · exact hq
  · exact h.player_pos
  · simp

/-- A session without a connection disappears. -/
theorem Tables.expire {c : Core} (h : Tables c) {p : ℕ} {x : Session}
    (hx : c.sessions.lookup p = some x) (hnone : x.conn = none) :
    Tables { c with sessions := c.sessions.erase p } := by
  have hlookup : ∀ {p' y}, (c.sessions.erase p).lookup p' = some y →
      p' ≠ p ∧ c.sessions.lookup p' = some y := by
    intro p' y hy
    rw [UnorderedMap.lookup_erase_eq] at hy
    split at hy
    · cases hy
    · next hne => exact ⟨hne, hy⟩
  have hnot : p ∉ c.matchQueue.waiting := by
    intro hmem
    have hok := h.session hx
    have := hok.conn (hok.queue.mpr hmem)
    simp [hnone] at this
  constructor
  · intro p' y hy
    have hok := h.session (hlookup hy).2
    exact ⟨hok.id, hok.pos, hok.lt, hok.queue, hok.conn, hok.inRoom, hok.room⟩
  · intro p' hp'
    have hne : p' ≠ p := fun heq => hnot (heq ▸ hp')
    rw [UnorderedMap.lookup_erase_eq, if_neg hne]
    exact h.waiting hp'
  · intro r hr
    obtain ⟨a, b, hab⟩ := h.two r hr
    exact ⟨a, b, fun hy hy' => hab (hlookup hy).2 hy'⟩
  · intro conn p' hp'
    obtain ⟨y, hy, hyc⟩ := h.bound hp'
    have hne : p' ≠ p := by
      rintro rfl
      rw [hx] at hy
      obtain rfl := Option.some.inj hy
      rw [hnone] at hyc
      cases hyc
    exact ⟨y, by rw [UnorderedMap.lookup_erase_eq, if_neg hne]; exact hy, hyc⟩
  · exact h.rooms_lt
  · exact h.rooms_nodup
  · exact h.order
  · exact h.player_pos
  · exact h.room_pos

end GameServer.Game
