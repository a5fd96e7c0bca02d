import GameServer.Game.Seating

/-!
How battles end, as the log of the lobby shows it.

`endings` are the broadcasts of `BattleEnd` and the calls of `onEnd_` that a
room has made. A room that runs has made none; a room that has ended has made
one of each, with one and the same winner, who sits in the room.
-/

namespace GameServer.Game

open GameServer.Lib GameServer.Proto GameServer.Timer
open Lobby

variable {F : Type}

/-- A broadcast of `BattleEnd`, or a call of `onEnd_`. -/
def RoomAct.isEnding : RoomAct F → Bool
  | .broadcast (.battleEnd _) _ | .onEnd _ _ => true
  | _ => false

/-- The winner that a broadcast of `BattleEnd` names. -/
def RoomAct.battleEndWinner : RoomAct F → Option ℕ
  | .broadcast (.battleEnd w) _ => some w
  | _ => none

/-- The arguments of a call of `onEnd_`. -/
def RoomAct.onEndArgs : RoomAct F → Option (ℕ × ℕ)
  | .onEnd r w => some (r, w)
  | _ => none

theorem RoomAct.battleEndWinner_eq_none {act : RoomAct F} (h : act.isEnding = false) :
    act.battleEndWinner = none := by
  unfold battleEndWinner
  split
  · cases h
  · rfl

theorem RoomAct.onEndArgs_eq_none {act : RoomAct F} (h : act.isEnding = false) :
    act.onEndArgs = none := by
  unfold onEndArgs
  split
  · cases h
  · rfl

def Entry.roomAct (r : ℕ) : Entry F → Option (RoomAct F)
  | .room r' act => if r' = r then some act else none
  | _ => none

/-- What room `r` has done. -/
def roomActs (r : ℕ) (log : List (Entry F)) : List (RoomAct F) := log.filterMap (Entry.roomAct r)

def Entry.ending (r : ℕ) : Entry F → Option (RoomAct F)
  | .room r' act => if r' = r ∧ act.isEnding then some act else none
  | _ => none

/-- How room `r` has ended. -/
def endings (r : ℕ) (log : List (Entry F)) : List (RoomAct F) := log.filterMap (Entry.ending r)

/-- The endings are all that can be found out about the end of a battle. -/
theorem filterMap_endings {β : Type} {f : RoomAct F → Option β}
    (hf : ∀ act, act.isEnding = false → f act = none) (r : ℕ) (log : List (Entry F)) :
    (endings r log).filterMap f = (roomActs r log).filterMap f := by
  unfold endings roomActs
  rw [List.filterMap_filterMap, List.filterMap_filterMap]
  congr 1
  funext e
  cases e with
  | room r' act =>
      simp only [Entry.ending, Entry.roomAct]
      by_cases hr : r' = r
      · cases hact : act.isEnding with
        | true => simp [hr]
        | false => simp [hr, hf act hact]
      · simp [hr]
  | _ => rfl

@[simp] theorem endings_append (r : ℕ) (log es : List (Entry F)) :
    endings r (log ++ es) = endings r log ++ endings r es :=
  List.filterMap_append

theorem endings_eq_nil {r : ℕ} {es : List (Entry F)} (h : ∀ e ∈ es, e.ending r = none) :
    endings r es = [] :=
  List.filterMap_eq_nil_iff.mpr h

theorem Entry.ending_of_plain {e : Entry F} (h : e.plain = true) (r : ℕ) : e.ending r = none := by
  cases e with
  | room => cases h
  | _ => rfl

theorem Entry.ending_of_quiet {act : RoomAct F} (h : act.quiet = true) (r r' : ℕ) :
    (Entry.room r act).ending r' = none := by
  have hno : act.isEnding = false := by
    cases act with
    | broadcast msg slots =>
        cases msg with
        | battleEnd => cases h
        | _ => rfl
    | send => rfl
    | queueTickerReset => cases h
    | onEnd => cases h
  simp [Entry.ending, hno]

theorem endings_quiet {acts : List (RoomAct F)} (h : ∀ act ∈ acts, act.quiet = true) (r r' : ℕ) :
    endings r (acts.map (Entry.room r')) = [] := by
  refine endings_eq_nil fun e he => ?_
  obtain ⟨act, hact, rfl⟩ := List.mem_map.mp he
  exact Entry.ending_of_quiet (h act hact) r' r

theorem endings_closing {acts pre : List (RoomAct F)} {room : Room F} {w : ℕ}
    (hpre : ∀ act ∈ pre, act.quiet = true) (hacts : acts = pre ++ room.closing w) (r r' : ℕ) :
    endings r (acts.map (Entry.room r')) =
      if r' = r then [room.broadcast (.battleEnd w), .onEnd room.id w] else [] := by
  rw [hacts, List.map_append, endings_append, endings_quiet hpre]
  by_cases hr : r' = r <;>
    simp [endings, Room.closing, Room.broadcast, Entry.ending, RoomAct.isEnding, hr]

/-- How a room has ended, if it has. -/
def Lobby.Endings (s : Lobby F) (r : ℕ) : Prop :=
  match s.cells.lookup r with
  | none => endings r s.log = []
  | some cell =>
      (cell.room.ended = false ∧ endings r s.log = []) ∨
      cell.room.ended = true ∧ ∃ w slots, cell.HasSeat w ∧
        endings r s.log = [.broadcast (.battleEnd w) slots, .onEnd r w]

theorem Lobby.Endings.congr {s s' : Lobby F} {r : ℕ} (h : s.Endings r)
    (hcells : s'.cells.lookup r = s.cells.lookup r) (hlog : endings r s'.log = endings r s.log) :
    s'.Endings r := by
  unfold Lobby.Endings at h ⊢
  rw [hcells, hlog]
  exact h

/-- The rule for updates of one room that do not end it. -/
theorem Lobby.Endings.replace {s s' : Lobby F} {r r' : ℕ} (h : s.Endings r) {cell cell' : RoomCell F}
    (hcell : s.cells.lookup r' = some cell)
    (hcells : s.Replaced r' cell' s'.cells) (hended : cell'.room.ended = cell.room.ended)
    (hseats : ∀ p, cell'.HasSeat p ↔ cell.HasSeat p)
    (hlog : endings r s'.log = endings r s.log) : s'.Endings r := by
  by_cases hr : r = r'
  · subst hr
    simp only [Lobby.Endings, hcell] at h
    simp only [Lobby.Endings, hcells r, if_pos, hlog, hended, hseats]
    exact h
  · exact h.congr (by rw [hcells r, if_neg hr]) hlog

theorem endings_onRoomEnd (r r' w : ℕ) (s : Lobby F) :
    endings r (s.onRoomEnd r' w).log = endings r s.log := by
  simp only [onRoomEnd, enqueue, emit]
  split
  · split <;> simp [endings, Entry.ending]
  · simp [endings, Entry.ending]

/-! ### Foundation of rooms -/

/-- The players that `tryMatch` made a room for, with their accounts. -/
structure Founding where
  roomId : ℕ
  a : ℕ
  b : ℕ
  accountA : String
  accountB : String
deriving DecidableEq

def Entry.founding : Entry F → Option Founding
  | .created r a b accountA accountB => some ⟨r, a, b, accountA, accountB⟩
  | _ => none

def foundings (log : List (Entry F)) : List Founding := log.filterMap Entry.founding

theorem mem_foundings {log : List (Entry F)} {f : Founding} :
    f ∈ foundings log ↔ Entry.created f.roomId f.a f.b f.accountA f.accountB ∈ log := by
  constructor
  · intro hf
    obtain ⟨e, he, hef⟩ := List.mem_filterMap.mp hf
    cases e with
    | created =>
        obtain rfl := Option.some.inj hef
        exact he
    | _ => cases hef
  · intro he
    exact List.mem_filterMap.mpr ⟨_, he, rfl⟩

@[simp] theorem foundings_append (log es : List (Entry F)) :
    foundings (log ++ es) = foundings log ++ foundings es :=
  List.filterMap_append

theorem foundings_eq_nil {es : List (Entry F)} (h : ∀ e ∈ es, e.founding = none) :
    foundings es = [] :=
  List.filterMap_eq_nil_iff.mpr h

theorem Entry.founding_of_plain {e : Entry F} (h : e.plain = true) : e.founding = none := by
  cases e with
  | created => cases h
  | _ => rfl

theorem foundings_room (acts : List (RoomAct F)) (r : ℕ) :
    foundings (acts.map (Entry.room r)) = [] := by
  refine foundings_eq_nil fun e he => ?_
  obtain ⟨act, -, rfl⟩ := List.mem_map.mp he
  rfl

theorem foundings_onRoomEnd (r w : ℕ) (s : Lobby F) :
    foundings (s.onRoomEnd r w).log = foundings s.log := by
  simp only [onRoomEnd, enqueue, emit]
  split
  · split <;> simp [foundings, Entry.founding]
  · simp [foundings, Entry.founding]

variable [Scalar F]

/-- Pairing founds a room; every other move leaves the foundings alone. -/
theorem Move.foundings {φ : Deed → Prop} {s s' : Lobby F} (hmove : Move φ s s') :
    foundings s'.log = foundings s.log ∨
    ∃ pid a b p pa pb q ks, s.sessions.lookup pid = some p ∧ p.conn.isSome = true ∧
      p.state = .kLobby ∧ a ≠ b ∧ insert pid s.matchQueue.waiting = {a, b} ∧
      (s.joinQueue pid).sessions.lookup a = some pa ∧
      (s.joinQueue pid).sessions.lookup b = some pb ∧
      s' = (s.joinQueue pid).pairUp ks a b pa pb q ∧
      foundings s'.log = foundings s.log ++ [⟨s.nextRoomId, a, b, pa.account, pb.account⟩] := by
  cases hmove with
  | @pair pid a b p pa pb q ks hp hconn hstate hne hwaiting hpa hpb hq =>
      right
      refine ⟨pid, a, b, p, pa, pb, q, ks, hp, hconn, hstate, hne, hwaiting, hpa, hpb, rfl, ?_⟩
      obtain ⟨wheel, timers, heq⟩ := pairUp_eq ks a b pa pb q (s.joinQueue pid)
      rw [heq]
      simp only [createRoom, joinQueue, foundings_append, List.append_assoc]
      rfl
  | plain es store hplain =>
      left
      simp [foundings_eq_nil fun e he => Entry.founding_of_plain (hplain e he)]
  | quiet => exact .inl (by simp [foundings_room])
  | closing =>
      left
      unfold closeRoom
      split
      · simp [foundings_onRoomEnd, foundings_room]
      · simp [foundings_room]
  | roomEnd => exact .inl (foundings_onRoomEnd ..)
  | login | rebind | wait =>
      left
      simp [emit, addSession, rebindSession, joinQueue, Game.foundings, Entry.founding]
  | unbind =>
      left
      unfold unbindSession
      split <;> rfl
  | matchTimeout =>
      left
      unfold Lobby.matchTimeout
      dsimp only
      split
      · split
        · rfl
        · simp [emit, leaveQueue, Game.foundings, Entry.founding]
      · rfl
  | heartbeat | scheduleExpiry | erase | forfeit | take | skip | wheelTick | scheduleSweep | mail =>
      exact .inl rfl

/-- Rooms are founded once, for two players who have the seats. -/
structure Founded (s : Lobby F) : Prop where
  seats : ∀ f ∈ foundings s.log, ∃ cell, s.cells.lookup f.roomId = some cell ∧
    Room.Seats f.a f.b cell.room
  unique : ((foundings s.log).map Founding.roomId).Nodup

omit [Scalar F] in
theorem founded_init (gameThreads : ℕ) (writer : Bool) :
    Founded (Lobby.init gameThreads writer : Lobby F) := by
  constructor <;> simp [Lobby.init, scheduleSweep, foundings]

/-- The rooms that a move changes keep their seats. -/
theorem Move.seats {φ : Deed → Prop} {s s' : Lobby F} (hbase : Base s) (hmove : Move φ s s')
    {r a b : ℕ} {cell : RoomCell F} (hcell : s.cells.lookup r = some cell)
    (hseats : Room.Seats a b cell.room) :
    ∃ cell', s'.cells.lookup r = some cell' ∧ Room.Seats a b cell'.room := by
  have hsame : ∀ {t : Lobby F}, t.cells = s.cells →
      ∃ cell', t.cells.lookup r = some cell' ∧ Room.Seats a b cell'.room := by
    intro t ht
    exact ⟨cell, by rw [ht]; exact hcell, hseats⟩
  have hmail : ∀ r' task, ∃ cell', (s.mail r' task).cells.lookup r = some cell' ∧
      Room.Seats a b cell'.room := by
    intro r' task
    simp only [Lobby.mail, modifyCell, UnorderedMap.lookup_modify, hcell]
    split
    · exact ⟨_, rfl, hseats⟩
    · exact ⟨cell, rfl, hseats⟩
  have happly : ∀ {r' c op mailbox cells}, s.cells.lookup r' = some c →
      s.Replaced r' ⟨(c.room.apply op).1, mailbox⟩ cells →
      ∃ cell', cells.lookup r = some cell' ∧ Room.Seats a b cell'.room := by
    intro r' c op mailbox cells hc hcells
    rw [hcells r]
    split
    · next hr =>
        subst hr
        obtain rfl := Option.some.inj (hc.symm.trans hcell)
        exact ⟨_, rfl, hseats.apply op⟩
    · exact ⟨cell, hcell, hseats⟩
  cases hmove with
  | @pair pid a' b' p pa pb q ks =>
      have hne : r ≠ s.nextRoomId := Nat.ne_of_lt (hbase.cell hcell).lt
      refine ⟨cell, ?_, hseats⟩
      rw [cells_joined, if_neg hne]
      exact hcell
  | unbind =>
      refine hsame ?_
      unfold unbindSession
      split <;> rfl
  | matchTimeout =>
      refine hsame ?_
      unfold Lobby.matchTimeout
      dsimp only
      split
      · split <;> rfl
      · rfl
  | forfeit => exact hmail _ _
  | mail => exact hmail _ _
  | quiet hc _ _ _ _ hcells => exact happly hc hcells
  | closing hc _ _ _ _ _ _ hcells =>
      unfold closeRoom
      split
      · rw [(cells_onRoomEnd ..).1]
        exact happly hc hcells
      · exact happly hc hcells
  | roomEnd => exact hsame (cells_onRoomEnd ..).1
  | plain | heartbeat | login | rebind | scheduleExpiry | erase | wait | take | skip | wheelTick
  | scheduleSweep => exact hsame rfl

theorem Founded.move {φ : Deed → Prop} {s s' : Lobby F} (hbase : Base s) (h : Founded s)
    (hmove : Move φ s s') : Founded s' := by
  have hold : ∀ f ∈ foundings s.log, ∃ cell, s'.cells.lookup f.roomId = some cell ∧
      Room.Seats f.a f.b cell.room := by
    intro f hf
    obtain ⟨cell, hcell, hseats⟩ := h.seats f hf
    exact hmove.seats hbase hcell hseats
  rcases hmove.foundings with
    hsame | ⟨pid, a, b, p, pa, pb, q, ks, hp, hconn, hstate, hne, hwaiting, hpa, hpb, rfl, hnew⟩
  · exact ⟨hsame ▸ hold, hsame ▸ h.unique⟩
  · refine ⟨fun f hf => ?_, ?_⟩
    · rw [hnew] at hf
      rcases List.mem_append.mp hf with hf | hf
      · exact hold f hf
      · obtain rfl := List.mem_singleton.mp hf
        exact ⟨_, new_cell_pairUp ks a b pa pb q (s.joinQueue pid),
          hbase.seats_new hp hconn hstate hne hpa hpb ks⟩
    · rw [hnew, List.map_append, List.nodup_append]
      refine ⟨h.unique, by simp, fun r hr r' hr' => ?_⟩
      obtain ⟨f, hf, rfl⟩ := List.mem_map.mp hr
      obtain ⟨cell, hcell, -⟩ := h.seats f hf
      obtain rfl := List.mem_singleton.mp hr'
      exact Nat.ne_of_lt (hbase.cell hcell).lt

/-! ### Ends of battles -/

theorem Lobby.Endings.move {φ : Deed → Prop} {s s' : Lobby F} (hbase : Base s)
    (hseating : Seating s) (hmove : Move φ s s') {r : ℕ} (h : s.Endings r) : s'.Endings r := by
  cases hmove with
  | plain es store hplain =>
      refine h.congr rfl ?_
      simp [endings_eq_nil fun e he => Entry.ending_of_plain (hplain e he) r]
  | login | rebind | wait =>
      refine h.congr rfl ?_
      simp [emit, addSession, rebindSession, joinQueue, endings, Entry.ending]
  | unbind =>
      unfold unbindSession
      split <;> exact h.congr rfl rfl
  | matchTimeout =>
      unfold Lobby.matchTimeout
      dsimp only
      split
      · split
        · exact h.congr rfl rfl
        · exact h.congr rfl (by simp [emit, leaveQueue, endings, Entry.ending])
      · exact h.congr rfl rfl
  | heartbeat | scheduleExpiry | erase | take | skip | wheelTick | scheduleSweep =>
      exact h.congr rfl rfl
  | @forfeit pid p hthreads hp hnone hroom =>
      have hmem : p.roomId ∈ s.rooms := (hbase.tables.session hp).room hroom
      obtain ⟨cell, hcell⟩ := Option.isSome_iff_exists.mp (hbase.live hmem)
      exact h.replace hcell (replaced_mail hcell _) rfl (fun _ => Iff.rfl) rfl
  | mail hthreads hcell => exact h.replace hcell (replaced_mail hcell _) rfl (fun _ => Iff.rfl) rfl
  | @pair pid a b p pa pb q ks =>
      obtain ⟨wheel, timers, heq⟩ := pairUp_eq ks a b pa pb q (s.joinQueue pid)
      have hlog : endings r ((s.joinQueue pid).pairUp ks a b pa pb q).log = endings r s.log := by
        rw [heq]
        simp [createRoom, joinQueue, endings, Entry.ending]
      by_cases hr : r = s.nextRoomId
      · -- a room that has just been made
        have hnone : s.cells.lookup r = none := by
          cases hcell : s.cells.lookup r with
          | none => rfl
          | some cell => exact absurd (hbase.cell hcell).lt (by omega)
        simp only [Lobby.Endings, hnone] at h
        simp only [Lobby.Endings, cells_joined, if_pos hr]
        exact .inl ⟨rfl, hlog.trans h⟩
      · refine h.congr ?_ hlog
        rw [cells_joined, if_neg hr]
  | @quiet r' cell op mailbox cells hcell hsource hended hquiet hforce hcells =>
      refine h.replace hcell hcells hended (fun p => ?_) (by simp [endings_quiet hquiet])
      exact iff_of_eq (congrArg (· = true) (Room.apply_conns cell.room op p))
  | @closing r' cell op mailbox cells winner pre hcell hsource hrun hended hwinner hpre hacts hcells =>
      let t : Lobby F := { s with
        cells := cells
        log := s.log ++ (cell.room.apply op).2.map (Entry.room r') }
      have hid : (cell.room.apply op).1.id = r' := (Room.apply_id _ _).trans (hbase.cell hcell).id
      have ht : t.Endings r := by
        have hlog : endings r t.log = endings r s.log ++ _ :=
          (endings_append ..).trans (congrArg _ (endings_closing hpre hacts r r'))
        by_cases hr : r' = r
        · subst hr
          simp only [Lobby.Endings, hcell, hrun, Bool.false_eq_true, false_and, or_false,
            true_and] at h
          have hseat := hseating.winner hbase hcell hsource hrun hwinner
          simp only [Lobby.Endings, show t.cells = cells from rfl, hcells r', if_pos]
          refine .inr ⟨hended, winner, (cell.room.apply op).1.bound, ?_, ?_⟩
          · exact (iff_of_eq (congrArg (· = true) (Room.apply_conns cell.room op winner))).mpr hseat
          · rw [hlog, h, if_pos rfl, hid]
            rfl
        · refine h.congr ?_ ?_
          · rw [show t.cells = cells from rfl, hcells r, if_neg (Ne.symm hr)]
          · rw [hlog, if_neg hr, List.append_nil]
      unfold closeRoom
      split
      · exact ht.congr (congrArg _ (cells_onRoomEnd ..).1) (endings_onRoomEnd ..)
      · exact ht
  | roomEnd =>
      exact h.congr (congrArg _ (cells_onRoomEnd ..).1) (endings_onRoomEnd ..)

/-- The rooms of the lobby: who sits where, and how battles have ended. -/
structure RoomsOk (s : Lobby F) : Prop where
  seating : Seating s
  founded : Founded s
  ends : ∀ r, s.Endings r

theorem RoomsOk.move {φ : Deed → Prop} {s s' : Lobby F} (hbase : Base s) (h : RoomsOk s)
    (hmove : Move φ s s') : RoomsOk s' :=
  ⟨h.seating.move hbase hmove, h.founded.move hbase hmove,
    fun r => (h.ends r).move hbase h.seating hmove⟩

omit [Scalar F] in
theorem roomsOk_init (gameThreads : ℕ) (writer : Bool) :
    RoomsOk (Lobby.init gameThreads writer : Lobby F) := by
  refine ⟨seating_init gameThreads writer, founded_init gameThreads writer, fun r => ?_⟩
  simp [Lobby.Endings, Lobby.init, scheduleSweep, endings]

theorem roomsOk_run (gameThreads : ℕ) (writer : Bool) (es : List (LobbyEvent F)) :
    RoomsOk (Lobby.run gameThreads writer es) :=
  invariant_moves (φ := fun _ => True) (I := RoomsOk) (roomsOk_init gameThreads writer)
    (fun _ _ hbase h hmove => h.move hbase hmove)
    ((along_true _ es).mono fun _ _ _ _ _ => trivial)

theorem settlement_of_room (gameThreads : ℕ) (writer : Bool) (es : List (LobbyEvent F))
    (r a b : ℕ) (accountA accountB : String)
    (hroom : Entry.created r a b accountA accountB ∈ (Lobby.run gameThreads writer es).log) :
    endings r (Lobby.run gameThreads writer es).log = [] ∨
    ∃ w slots, (w = a ∨ w = b) ∧ w ≠ 0 ∧ endings r (Lobby.run gameThreads writer es).log =
      [.broadcast (.battleEnd w) slots, .onEnd r w] := by
  have h := roomsOk_run gameThreads writer es
  generalize Lobby.run gameThreads writer es = s at h hroom
  have hfounding : (⟨r, a, b, accountA, accountB⟩ : Founding) ∈ foundings s.log :=
    mem_foundings.mpr hroom
  obtain ⟨cell, hcell, hseats⟩ := h.founded.seats _ hfounding
  have hend := h.ends r
  simp only [Lobby.Endings, hcell] at hend
  rcases hend with ⟨-, hnone⟩ | ⟨-, w, slots, hseat, hlog⟩
  · exact .inl hnone
  · have hw := (hseats.conns w).mp hseat
    refine .inr ⟨w, slots, hw, ?_, hlog⟩
    rcases hw with rfl | rfl
    · exact hseats.a_ne
    · exact hseats.b_ne

/-- A room that `tryMatch` made broadcasts `BattleEnd` at most once and calls
`onEnd_` at most once, both for the same one of its two players. -/
theorem settlement_names_a_participant (gameThreads : ℕ) (writer : Bool)
    (es : List (LobbyEvent F)) (r a b : ℕ) (accountA accountB : String)
    (hroom : Entry.created r a b accountA accountB ∈ (Lobby.run gameThreads writer es).log) :
    let acts := roomActs r (Lobby.run gameThreads writer es).log
    (acts.filterMap RoomAct.battleEndWinner).length ≤ 1 ∧
      (acts.filterMap RoomAct.onEndArgs).length ≤ 1 ∧
      acts.filterMap RoomAct.battleEndWinner = (acts.filterMap RoomAct.onEndArgs).map Prod.snd ∧
      ∀ r' w, (r', w) ∈ acts.filterMap RoomAct.onEndArgs → r' = r ∧ (w = a ∨ w = b) ∧ w ≠ 0 := by
  intro acts
  have hwinner : (endings r (Lobby.run gameThreads writer es).log).filterMap
      RoomAct.battleEndWinner = acts.filterMap RoomAct.battleEndWinner :=
    filterMap_endings (fun _ => RoomAct.battleEndWinner_eq_none) r _
  have hargs : (endings r (Lobby.run gameThreads writer es).log).filterMap RoomAct.onEndArgs =
      acts.filterMap RoomAct.onEndArgs :=
    filterMap_endings (fun _ => RoomAct.onEndArgs_eq_none) r _
  rw [← hwinner, ← hargs]
  rcases settlement_of_room gameThreads writer es r a b accountA accountB hroom with
    hnil | ⟨w, slots, hw, hpos, hends⟩
  · simp [hnil]
  · rw [hends]
    refine ⟨by simp [RoomAct.battleEndWinner, List.filterMap_cons],
      by simp [RoomAct.onEndArgs, List.filterMap_cons], rfl, fun r' w' hmem => ?_⟩
    have hpair : (r', w') = (r, w) := List.mem_singleton.mp hmem
    obtain ⟨rfl, rfl⟩ := Prod.mk.inj hpair
    exact ⟨rfl, hw, hpos⟩

/-- Both players lose their connection at the start and forfeit in the same
wheel tick, 30 s later; the second forfeit names nobody and comes too late. -/
theorem settlement_names_a_participant_double_forfeit :
    let es : List (LobbyEvent (Ext ℚ)) :=
      [.login 1 "alice" "t" 0 [], .login 2 "bob" "u" 0 [], .matchReq 1 [], .matchReq 2 [],
        .disconnect 1, .disconnect 2] ++
      (List.range 6).flatMap (fun k => List.replicate 50 .wheelTick ++ [.fireNext (5000 * k)]) ++
      [.fireNext 30000, .fireNext 30000] ++ List.replicate 5 (.roomTask 1)
    let s := Lobby.run 1 true es
    Entry.created 1 1 2 "alice" "bob" ∈ s.log ∧
      (roomActs 1 s.log).filterMap RoomAct.onEndArgs = [(1, 2)] ∧
      ((roomActs 1 s.log).filterMap RoomAct.battleEndWinner).length ≤ 1 := by
  intro es s
  have hrun : foundings s.log = [⟨1, 1, 2, "alice", "bob"⟩] ∧
      (roomActs 1 s.log).filterMap RoomAct.onEndArgs = [(1, 2)] := by
    decide +kernel
  have hroom : Entry.created 1 1 2 "alice" "bob" ∈ s.log :=
    mem_foundings.mp (hrun.1 ▸ List.mem_singleton_self _)
  have hone := settlement_names_a_participant 1 true es 1 1 2 "alice" "bob" hroom
  exact ⟨hroom, hrun.2, hone.1⟩

end GameServer.Game
