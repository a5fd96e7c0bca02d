import GameServer.Game.LobbyStep

/-!
Who sits in a room, and who wins it by forfeit.

A session that carries a room id has a seat in that room. The converse holds
as long as the room is not *doomed*: once its battle is over, or a forfeit is
on its way to it, sessions of its players may be gone. That is enough to see
that the first forfeit a running room receives names one of its players,
although `expireSession` looks for the opponent among sessions that may have
been erased: mailboxes are FIFO, and a later forfeit with a wrong winner finds
the battle over.
-/

namespace GameServer.Game

open GameServer.Lib GameServer.Proto GameServer.Timer
open Lobby

variable {F : Type}

namespace RoomCell

def HasSeat (cell : RoomCell F) (p : ℕ) : Prop := (cell.room.conns.lookup p).isSome

/-- The battle is over or will be by forfeit. -/
def Doomed (cell : RoomCell F) : Prop :=
  cell.room.ended = true ∨ ∃ w, RoomTask.forceEnd w ∈ cell.mailbox

end RoomCell

/-- The winner named by the first forfeit in a mailbox. -/
def firstForce : List (RoomTask F) → Option ℕ
  | [] => none
  | .forceEnd w :: _ => some w
  | _ :: mailbox => firstForce mailbox

/-- The session of player `p` is in room `r`. -/
def Lobby.Carries (s : Lobby F) (p r : ℕ) : Prop :=
  ∃ x, s.sessions.lookup p = some x ∧ x.roomId = r

structure Seating (s : Lobby F) : Prop where
  seated : ∀ p r, s.Carries p r → r ≠ 0 → ∃ cell, s.cells.lookup r = some cell ∧ cell.HasSeat p
  present : ∀ r cell p, r ∈ s.rooms → s.cells.lookup r = some cell → ¬cell.Doomed →
    cell.HasSeat p → s.Carries p r
  named : ∀ r cell w, s.cells.lookup r = some cell → cell.room.ended = false →
    firstForce cell.mailbox = some w → cell.HasSeat w

/-! ### Mailboxes -/

theorem firstForce_eq_none {mailbox : List (RoomTask F)}
    (h : ∀ w, RoomTask.forceEnd w ∉ mailbox) : firstForce mailbox = none := by
  induction mailbox with
  | nil => rfl
  | cons task mailbox ih =>
      have hrest := ih fun w hw => h w (List.mem_cons_of_mem _ hw)
      cases task with
      | forceEnd w => exact absurd (List.mem_cons_self ..) (h w)
      | _ => exact hrest

theorem firstForce_cons {task : RoomTask F} (h : ∀ w, task ≠ .forceEnd w)
    (mailbox : List (RoomTask F)) : firstForce (task :: mailbox) = firstForce mailbox := by
  cases task with
  | forceEnd w => exact absurd rfl (h w)
  | _ => rfl

/-- A forfeit at the end of a mailbox counts only if no other one is there. -/
theorem firstForce_append (mailbox : List (RoomTask F)) (task : RoomTask F) :
    firstForce (mailbox ++ [task]) = (firstForce mailbox).or (firstForce [task]) := by
  induction mailbox with
  | nil => simp [firstForce]
  | cons first mailbox ih =>
      cases first with
      | forceEnd w => rfl
      | _ => exact ih

theorem firstForce_isSome {mailbox : List (RoomTask F)} {w : ℕ}
    (h : RoomTask.forceEnd w ∈ mailbox) : (firstForce mailbox).isSome := by
  induction mailbox with
  | nil => cases h
  | cons task mailbox ih =>
      cases task with
      | forceEnd w' => rfl
      | _ =>
          rcases List.mem_cons.mp h with h | h
          · cases h
          · exact ih h

/-! ### Updates of sessions -/

/-- The rule for updates that keep the room of every session. -/
theorem Seating.update {s s' : Lobby F} (h : Seating s) (hcells : s'.cells = s.cells)
    (hrooms : s'.rooms = s.rooms) (hcarries : ∀ p r, r ≠ 0 → (s'.Carries p r ↔ s.Carries p r))
    (hzero : 0 ∉ s.rooms) : Seating s' where
  seated p r hp hr := by
    rw [hcells]
    exact h.seated p r ((hcarries p r hr).mp hp) hr
  present r cell p hr hcell hdoomed hseat := by
    rw [hcells] at hcell
    rw [hrooms] at hr
    have hne : r ≠ 0 := fun h0 => hzero (h0 ▸ hr)
    exact (hcarries p r hne).mpr (h.present r cell p hr hcell hdoomed hseat)
  named := by
    rw [hcells]
    exact h.named

theorem carries_map {s s' : Lobby F} {g : ℕ → Session → Session}
    (hg : ∀ p, s'.sessions.lookup p = (s.sessions.lookup p).map (g p))
    (hroom : ∀ p x, s.sessions.lookup p = some x → (g p x).roomId = x.roomId) (p r : ℕ) :
    s'.Carries p r ↔ s.Carries p r := by
  constructor
  · rintro ⟨x, hx, hr⟩
    obtain ⟨y, hy, rfl⟩ := Option.map_eq_some_iff.mp ((hg p).symm.trans hx)
    exact ⟨y, hy, (hroom p y hy).symm.trans hr⟩
  · rintro ⟨x, hx, hr⟩
    exact ⟨g p x, by rw [hg, hx]; rfl, (hroom p x hx).trans hr⟩

theorem carries_modify {s s' : Lobby F} (p : ℕ) (f : Session → Session)
    (hsessions : s'.sessions = s.sessions.modify p f) (hf : ∀ x, (f x).roomId = x.roomId)
    (p' r : ℕ) : s'.Carries p' r ↔ s.Carries p' r := by
  refine carries_map (g := fun p' x => if p' = p then f x else x) (fun p' => ?_)
    (fun p' x _ => ?_) p' r
  · rw [hsessions, UnorderedMap.lookup_modify]
    split <;> simp
  · split
    · exact hf x
    · rfl

/-! ### Rooms -/

/-- The players of a new room come from no other room. -/
theorem Base.pair_free {s : Lobby F} (h : Base s) {pid a b c r : ℕ} {p : Session}
    (hp : s.sessions.lookup pid = some p) (hconn : p.conn.isSome) (hstate : p.state = .kLobby)
    (hwaiting : insert pid s.matchQueue.waiting = {a, b}) (hc : c = a ∨ c = b)
    (hcarries : s.Carries c r) : r = 0 := by
  obtain ⟨-, hw, htables⟩ := h.joinQueue hp hconn hstate
  have hjoin : (s.joinQueue pid).Carries c r :=
    (carries_modify pid (fun p => { p with state := .kMatching }) rfl (fun _ => rfl) c r).mpr hcarries
  obtain ⟨x, hx, hxr⟩ := hjoin
  have hok := htables.session hx
  have hmem : c ∈ (s.matchQueue.push pid).1.waiting := by
    rw [hw, hwaiting]
    rcases hc with rfl | rfl <;> simp
  exact hxr ▸ hok.roomId_of_matching (hok.queue.mpr hmem)

/-- The rule for updates of one room. -/
theorem Seating.replace {s s' : Lobby F} (h : Seating s) {r : ℕ} {cell cell' : RoomCell F}
    (hcell : s.cells.lookup r = some cell)
    (hcells : ∀ r', s'.cells.lookup r' = if r' = r then some cell' else s.cells.lookup r')
    (hrooms : s'.rooms = s.rooms) (hsessions : s'.sessions = s.sessions)
    (hseats : ∀ p, cell'.HasSeat p ↔ cell.HasSeat p) (hdoomed : cell.Doomed → cell'.Doomed)
    (hnamed : ∀ w, cell'.room.ended = false → firstForce cell'.mailbox = some w →
      cell'.HasSeat w) : Seating s' := by
  have hcarries : ∀ p r, s'.Carries p r ↔ s.Carries p r := by
    intro p r
    unfold Carries
    rw [hsessions]
  refine ⟨fun p r' hp hr' => ?_, fun r' c p hr' hc hnot hseat => ?_, fun r' c w hc => ?_⟩
  · obtain ⟨c, hc, hseat⟩ := h.seated p r' ((hcarries p r').mp hp) hr'
    rw [hcells]
    split
    · next heq =>
        subst heq
        obtain rfl := Option.some.inj (hc.symm.trans hcell)
        exact ⟨cell', rfl, (hseats p).mpr hseat⟩
    · exact ⟨c, hc, hseat⟩
  · rw [hcells] at hc
    rw [hrooms] at hr'
    rw [hcarries]
    split at hc
    · next heq =>
        subst heq
        obtain rfl := Option.some.inj hc
        exact h.present r' cell p hr' hcell (fun hd => hnot (hdoomed hd)) ((hseats p).mp hseat)
    · exact h.present r' c p hr' hc hnot hseat
  · rw [hcells] at hc
    split at hc
    · obtain rfl := Option.some.inj hc
      exact hnamed w
    · exact h.named r' c w hc

/-- In a room that is not doomed, the opponent that `expireSession` finds has
the other seat. -/
theorem Seating.opponent {s : Lobby F} (h : Seating s) (hbase : Base s) {p r : ℕ}
    {cell : RoomCell F} (hr : r ∈ s.rooms) (hcell : s.cells.lookup r = some cell)
    (hnot : ¬cell.Doomed) (hp : s.Carries p r) : cell.HasSeat (s.opponent p r) := by
  have hok := hbase.cell hcell
  obtain ⟨a, b, hseats⟩ := hok.seats
  obtain ⟨c, hc, hseat⟩ := h.seated p r hp hok.pos
  obtain rfl := Option.some.inj (hc.symm.trans hcell)
  -- the one with the other seat, whose session is there as well
  obtain ⟨o, hne, ho⟩ : ∃ o, o ≠ p ∧ c.HasSeat o := by
    rcases (hseats.conns p).mp hseat with rfl | rfl
    · exact ⟨b, hseats.players.ne.symm, (hseats.conns b).mpr (.inr rfl)⟩
    · exact ⟨a, hseats.players.ne, (hseats.conns a).mpr (.inl rfl)⟩
  obtain ⟨y, hy, hyr⟩ := h.present r c o hr hcell hnot ho
  obtain ⟨a', b', hab⟩ := hbase.tables.two r hok.pos
  obtain ⟨x, hx, hxr⟩ := hp
  have honly : ∀ {q z}, s.sessions.lookup q = some z → z.roomId = r → q = p ∨ q = o := by
    intro q z hz hzr
    have h₁ := hab hx hxr
    have h₂ := hab hy hyr
    have h₃ := hab hz hzr
    omega
  have hfold : s.opponent p r = o := by
    unfold Lobby.opponent
    rw [UnorderedMap.foldl_entries_of_skip (k := o), hy]
    · simp [hyr, hne]
    · intro w e he hek
      have hmem := UnorderedMap.mem_entries_iff.mp he
      rw [if_neg]
      simp only [Bool.and_eq_true, decide_eq_true_eq, not_and, ne_eq, not_not]
      exact fun her => (honly hmem her).resolve_right hek
  rw [hfold]
  exact ho

/-- `onRoomEnd` empties the room and takes it out of the table. -/
theorem carries_onRoomEnd {s : Lobby F} {r : ℕ} (w : ℕ) {p r' : ℕ} (hr' : r' ≠ 0) :
    (s.onRoomEnd r w).Carries p r' ↔ s.Carries p r' ∧ r' ≠ r := by
  unfold Carries
  simp only [lookup_onRoomEnd, Option.map_eq_some_iff]
  constructor
  · rintro ⟨x, ⟨y, hy, rfl⟩, hx⟩
    unfold Session.leave at hx
    split at hx
    · exact absurd hx.symm hr'
    · next hne => exact ⟨⟨y, hy, hx⟩, fun heq => hne (hx.trans heq)⟩
  · rintro ⟨⟨y, hy, hyr⟩, hne⟩
    refine ⟨y, ⟨y, hy, ?_⟩, hyr⟩
    rw [Session.leave, if_neg (by rw [hyr]; exact hne)]

theorem Seating.onRoomEnd {s : Lobby F} (h : Seating s) (hnodup : s.rooms.Nodup)
    (hzero : 0 ∉ s.rooms) (r w : ℕ) : Seating (s.onRoomEnd r w) := by
  have hcells := (cells_onRoomEnd r w s).1
  have hrooms : (s.onRoomEnd r w).rooms = s.rooms.erase r :=
    congrArg Core.rooms (core_onRoomEnd r w s)
  refine ⟨fun p r' hp hr' => ?_, fun r' cell p hr' hcell hnot hseat => ?_, ?_⟩
  · rw [hcells]
    exact h.seated p r' ((carries_onRoomEnd w hr').mp hp).1 hr'
  · rw [hcells] at hcell
    rw [hrooms, hnodup.mem_erase_iff] at hr'
    have hne : r' ≠ 0 := fun h0 => hzero (h0 ▸ hr'.2)
    exact (carries_onRoomEnd w hne).mpr ⟨h.present r' cell p hr'.2 hcell hnot hseat, hr'.1⟩
  · rw [hcells]
    exact h.named

theorem Base.zero_notMem {s : Lobby F} (h : Base s) : 0 ∉ s.rooms := by
  intro hmem
  obtain ⟨cell, hcell⟩ := Option.isSome_iff_exists.mp (h.live hmem)
  exact (h.cell hcell).pos rfl

theorem seating_init (gameThreads : ℕ) (writer : Bool) :
    Seating (Lobby.init gameThreads writer : Lobby F) := by
  constructor <;> simp [Lobby.init, Lobby.scheduleSweep, Carries]

theorem Seating.eraseSession {s : Lobby F} (h : Seating s) {pid : ℕ}
    (hother : ∀ r cell, r ∈ s.rooms → s.cells.lookup r = some cell → ¬cell.Doomed →
      ¬s.Carries pid r) : Seating (s.eraseSession pid) := by
  have hlookup : ∀ p, (s.eraseSession pid).sessions.lookup p =
      if p = pid then none else s.sessions.lookup p := fun p => UnorderedMap.lookup_erase_eq _ _ _
  refine ⟨fun p r hp hr => ?_, fun r cell p hr hcell hnot hseat => ?_, h.named⟩
  · obtain ⟨x, hx, hxr⟩ := hp
    rw [hlookup] at hx
    split at hx
    · cases hx
    · exact h.seated p r ⟨x, hx, hxr⟩ hr
  · have hold := h.present r cell p hr hcell hnot hseat
    have hne : p ≠ pid := fun heq => hother r cell hr hcell hnot (heq ▸ hold)
    obtain ⟨x, hx, hxr⟩ := hold
    exact ⟨x, by rw [hlookup, if_neg hne]; exact hx, hxr⟩

theorem Lobby.Carries.unique {s : Lobby F} {p r r' : ℕ} (h : s.Carries p r) (h' : s.Carries p r') :
    r = r' := by
  obtain ⟨x, hx, hr⟩ := h
  obtain ⟨y, hy, hr'⟩ := h'
  obtain rfl := Option.some.inj (hx.symm.trans hy)
  exact hr.symm.trans hr'

theorem replaced_mail {s : Lobby F} {r : ℕ} {cell : RoomCell F}
    (hcell : s.cells.lookup r = some cell) (task : RoomTask F) :
    s.Replaced r { cell with mailbox := cell.mailbox ++ [task] } (s.mail r task).cells := by
  intro r'
  simp only [Lobby.mail, modifyCell, UnorderedMap.lookup_modify]
  split
  · next hr => rw [hr, hcell]; rfl
  · rfl

/-- A posted forfeit dooms the room; it is the first one or does not count. -/
theorem Seating.mail_forceEnd {s : Lobby F} (h : Seating s) {r w : ℕ} {cell : RoomCell F}
    (hcell : s.cells.lookup r = some cell) (hw : ¬cell.Doomed → cell.HasSeat w) :
    Seating (s.mail r (.forceEnd w)) := by
  refine h.replace hcell (replaced_mail hcell _) rfl rfl (fun _ => Iff.rfl)
    (fun _ => .inr ⟨w, by simp⟩) (fun w' hended hfirst => ?_)
  rw [firstForce_append] at hfirst
  cases hold : firstForce cell.mailbox with
  | some v =>
      rw [hold] at hfirst
      obtain rfl := Option.some.inj hfirst
      exact h.named r cell v hcell hended hold
  | none =>
      rw [hold] at hfirst
      obtain rfl := Option.some.inj hfirst
      refine hw fun hd => ?_
      rcases hd with hd | ⟨v, hv⟩
      · rw [show cell.room.ended = false from hended] at hd
        cases hd
      · have := firstForce_isSome hv
        simp [hold] at this

theorem Seating.mail {s : Lobby F} (h : Seating s) {r : ℕ} {cell : RoomCell F} {task : RoomTask F}
    (hcell : s.cells.lookup r = some cell) (hforce : ∀ w, task ≠ .forceEnd w) :
    Seating (s.mail r task) := by
  have hfirst : firstForce (cell.mailbox ++ [task]) = firstForce cell.mailbox := by
    rw [firstForce_append, firstForce_cons hforce]
    simp [firstForce]
  refine h.replace hcell (replaced_mail hcell _) rfl rfl (fun _ => Iff.rfl) (fun hd => ?_)
    (fun w hended hw => ?_)
  · exact hd.imp id fun ⟨w, hw⟩ => ⟨w, List.mem_append_left _ hw⟩
  · exact h.named r cell w hcell hended (hfirst.symm.trans hw)

/-! ### Steps of a room -/

/-- A room whose battle goes on has not taken a forfeit out of its mailbox. -/
theorem Lobby.Source.firstForce_eq {s : Lobby F} {r : ℕ} {cell : RoomCell F} {op : RoomOp F}
    {mailbox : List (RoomTask F)} (h : s.Source r cell op mailbox)
    (hforce : ∀ w, op ≠ .task (.forceEnd w)) :
    firstForce cell.mailbox = firstForce mailbox := by
  cases h with
  | tick => rfl
  | posted => rfl
  | head hmail =>
      rw [hmail]
      exact firstForce_cons (fun w heq => hforce w (congrArg _ heq)) _

/-- The winner of a battle has a seat in the room, also when it is won by
forfeit. -/
theorem Seating.winner {s : Lobby F} (h : Seating s) (hbase : Base s) {r winner : ℕ}
    {cell : RoomCell F} {op : RoomOp F} {mailbox : List (RoomTask F)}
    (hcell : s.cells.lookup r = some cell) (hsource : s.Source r cell op mailbox)
    (hrun : cell.room.ended = false)
    (hwinner : op = .task (.forceEnd winner) ∨ (cell.room.conns.lookup winner).isSome) :
    cell.HasSeat winner := by
  rcases hwinner with rfl | hseat
  · cases hsource with
    | head hmail => exact h.named r cell winner hcell hrun (by rw [hmail]; rfl)
    | posted hinline hpost =>
        obtain ⟨p, x, hx, hroom, -, rfl⟩ := hpost
        have hok := hbase.cell hcell
        have hmem : r ∈ s.rooms := hroom ▸ (hbase.tables.session hx).room (hroom ▸ hok.pos)
        refine h.opponent hbase hmem hcell (fun hd => ?_) ⟨x, hx, hroom⟩
        rcases hd with hd | ⟨w, hw⟩
        · rw [hrun] at hd
          cases hd
        · cases hok.idle hinline _ hw
  · exact hseat

variable [Scalar F]

theorem Seating.quiet {s : Lobby F} (h : Seating s) {r : ℕ} {cell : RoomCell F} {op : RoomOp F}
    {mailbox : List (RoomTask F)} {cells : UnorderedMap ℕ (RoomCell F)}
    (hcell : s.cells.lookup r = some cell) (hsource : s.Source r cell op mailbox)
    (hended : (cell.room.apply op).1.ended = cell.room.ended)
    (hforce : ∀ w, op = .task (.forceEnd w) → cell.room.ended = true)
    (hcells : s.Replaced r ⟨(cell.room.apply op).1, mailbox⟩ cells) (log : List (Entry F)) :
    Seating { s with cells := cells, log := log } := by
  have hseats : ∀ p, RoomCell.HasSeat ⟨(cell.room.apply op).1, mailbox⟩ p ↔ cell.HasSeat p :=
    fun p => iff_of_eq (congrArg (· = true) (Room.apply_conns cell.room op p))
  have hsame : cell.room.ended = false → firstForce cell.mailbox = firstForce mailbox := by
    intro hrun
    refine hsource.firstForce_eq fun w heq => ?_
    rw [hforce w heq] at hrun
    cases hrun
  refine h.replace hcell hcells rfl rfl hseats (fun hd => ?_) (fun w hrun hw => ?_)
  · cases hrun : cell.room.ended with
    | true => exact .inl (hended.trans hrun)
    | false =>
        right
        rcases hd with hd | ⟨w, hw⟩
        · rw [hrun] at hd
          cases hd
        · by_contra hno
          have hnone : firstForce mailbox = none := firstForce_eq_none fun w hw => hno ⟨w, hw⟩
          have hsome := firstForce_isSome hw
          rw [hsame hrun, hnone] at hsome
          cases hsome
  · rw [show (cell.room.apply op).1.ended = cell.room.ended from hended] at hrun
    exact (hseats w).mpr (h.named r cell w hcell hrun ((hsame hrun).trans hw))

theorem Seating.closing {s : Lobby F} (h : Seating s) (hbase : Base s) {r : ℕ} {cell : RoomCell F}
    {op : RoomOp F} {mailbox : List (RoomTask F)} {cells : UnorderedMap ℕ (RoomCell F)}
    (hcell : s.cells.lookup r = some cell) (hended : (cell.room.apply op).1.ended = true)
    (hcells : s.Replaced r ⟨(cell.room.apply op).1, mailbox⟩ cells) (w : ℕ)
    (log : List (Entry F)) : Seating (closeRoom r w { s with cells := cells, log := log }) := by
  have hreplaced : Seating { s with cells := cells, log := log } := by
    refine h.replace hcell hcells rfl rfl (fun p => ?_) (fun _ => .inl hended) (fun w hrun => ?_)
    · exact iff_of_eq (congrArg (· = true) (Room.apply_conns cell.room op p))
    · rw [show (cell.room.apply op).1.ended = false from hrun] at hended
      cases hended
  unfold closeRoom
  split
  · exact hreplaced.onRoomEnd hbase.tables.rooms_nodup hbase.zero_notMem r w
  · exact ⟨hreplaced.seated, hreplaced.present, hreplaced.named⟩

/-- The two players of a new room are in it, and nobody else goes anywhere. -/
theorem carries_joined {s : Lobby F} {pid a b : ℕ} {pa pb : Session} (ks : List ℕ)
    (hpa : (s.joinQueue pid).sessions.lookup a = some pa)
    (hpb : (s.joinQueue pid).sessions.lookup b = some pb) (q : MatchQueue) (c r : ℕ) :
    ((s.joinQueue pid).pairUp ks a b pa pb q).Carries c r ↔
      ((c = a ∨ c = b) ∧ r = s.nextRoomId) ∨ (¬(c = a ∨ c = b) ∧ s.Carries c r) := by
  have hjoin : (s.joinQueue pid).Carries c r ↔ s.Carries c r :=
    carries_modify pid (fun p => { p with state := .kMatching }) rfl (fun _ => rfl) c r
  rw [← hjoin]
  unfold Carries
  simp only [lookup_pairUp, Option.map_eq_some_iff]
  by_cases hc : c = a ∨ c = b
  · have hsome : ∃ x, (s.joinQueue pid).sessions.lookup c = some x := by
      rcases hc with rfl | rfl
      · exact ⟨pa, hpa⟩
      · exact ⟨pb, hpb⟩
    obtain ⟨x, hx⟩ := hsome
    simp only [hc, hx, if_true, true_and, not_true, false_and, or_false]
    constructor
    · rintro ⟨_, ⟨y, -, rfl⟩, hr⟩
      exact hr.symm
    · rintro rfl
      exact ⟨_, ⟨x, rfl, rfl⟩, rfl⟩
  · simp only [hc, if_false, false_and, false_or, not_false_iff, true_and]
    constructor
    · rintro ⟨_, ⟨y, hy, rfl⟩, hr⟩
      exact ⟨y, hy, hr⟩
    · rintro ⟨y, hy, hr⟩
      exact ⟨y, ⟨y, hy, rfl⟩, hr⟩

/-- Two players take their seats in a new room. -/
theorem Seating.pair {s : Lobby F} (h : Seating s) (hbase : Base s) {pid a b : ℕ}
    {p pa pb : Session} {q : MatchQueue} (hp : s.sessions.lookup pid = some p)
    (hconn : p.conn.isSome) (hstate : p.state = .kLobby) (hne : a ≠ b)
    (hwaiting : insert pid s.matchQueue.waiting = {a, b})
    (hpa : (s.joinQueue pid).sessions.lookup a = some pa)
    (hpb : (s.joinQueue pid).sessions.lookup b = some pb) (ks : List ℕ) :
    Seating ((s.joinQueue pid).pairUp ks a b pa pb q) := by
  have hseats := hbase.seats_new hp hconn hstate hne hpa hpb ks
  have hfree : ∀ {c r}, c = a ∨ c = b → s.Carries c r → r = 0 :=
    hbase.pair_free hp hconn hstate hwaiting
  have hcarries := carries_joined ks hpa hpb q
  have hcells := cells_joined ks pid a b pa pb q s
  obtain ⟨wheel, timers, heq⟩ := pairUp_eq ks a b pa pb q (s.joinQueue pid)
  have hrooms : ((s.joinQueue pid).pairUp ks a b pa pb q).rooms = s.nextRoomId :: s.rooms := by
    rw [heq]
    rfl
  refine ⟨fun c r hc hr => ?_, fun r cell c hr hcell hnot hseat => ?_,
    fun r cell w hcell hrun hfirst => ?_⟩
  · rcases (hcarries c r).mp hc with ⟨hseat, rfl⟩ | ⟨-, hold⟩
    · exact ⟨_, new_cell_pairUp ks a b pa pb q (s.joinQueue pid), (hseats.conns c).mpr hseat⟩
    · obtain ⟨cell, hcell, hseat⟩ := h.seated c r hold hr
      have hlt : r ≠ s.nextRoomId := Nat.ne_of_lt (hbase.cell hcell).lt
      exact ⟨cell, by rw [hcells, if_neg hlt]; exact hcell, hseat⟩
  · rw [hcells] at hcell
    split at hcell
    · next hnew =>
        obtain rfl := Option.some.inj hcell
        exact (hcarries c r).mpr (.inl ⟨(hseats.conns c).mp hseat, hnew⟩)
    · next hnew =>
        rw [hrooms] at hr
        have hr : r ∈ s.rooms := (List.mem_cons.mp hr).resolve_left hnew
        have hold := h.present r cell c hr hcell hnot hseat
        refine (hcarries c r).mpr (.inr ⟨fun hc => ?_, hold⟩)
        exact hbase.zero_notMem (hfree hc hold ▸ hr)
  · rw [hcells] at hcell
    split at hcell
    · obtain rfl := Option.some.inj hcell
      cases hfirst
    · exact h.named r cell w hcell hrun hfirst

/-! ### All moves -/

theorem Seating.move {φ : Deed → Prop} {s s' : Lobby F} (hbase : Base s) (h : Seating s)
    (hmove : Move φ s s') : Seating s' := by
  have hzero := hbase.zero_notMem
  -- the moves that keep the room of every session
  have hmodify : ∀ {t : Lobby F} (p : ℕ) (f : Session → Session),
      t.sessions = s.sessions.modify p f → (∀ x, (f x).roomId = x.roomId) → t.cells = s.cells →
      t.rooms = s.rooms → Seating t := fun p f hsessions hf hcells hrooms =>
    h.update hcells hrooms (fun p' r _ => carries_modify p f hsessions hf p' r) hzero
  cases hmove with
  | plain | take | skip | wheelTick | scheduleSweep => exact ⟨h.seated, h.present, h.named⟩
  | heartbeat pid now =>
      exact hmodify pid (fun p => { p with lastHeartbeatMs := now }) rfl (fun _ => rfl) rfl rfl
  | login conn account token now ks =>
      have hfresh : s.sessions.lookup s.nextPlayerId = none := by
        cases hn : s.sessions.lookup s.nextPlayerId with
        | none => rfl
        | some x => exact absurd (hbase.tables.session hn).lt (Nat.lt_irrefl _)
      refine h.update rfl rfl (fun p r hr => ?_) hzero
      simp only [Carries, emit, addSession, UnorderedMap.lookup_reorder,
        UnorderedMap.lookup_insert_eq]
      by_cases hp : p = s.nextPlayerId
      · subst hp
        simp [hfresh, Ne.symm hr]
      · simp [hp]
  | @rebind conn pid p now =>
      exact hmodify pid (fun p =>
        { p with conn := some conn, lastHeartbeatMs := now, expireTimerId := 0 })
        rfl (fun _ => rfl) rfl rfl
  | @unbind conn pid p =>
      refine h.update ?_ ?_ (fun p' r _ => carries_map (lookup_unbindSession conn pid p s)
        (fun p' x _ => ?_) p' r) hzero
      · unfold unbindSession
        split <;> rfl
      · unfold unbindSession
        split <;> rfl
      · split <;> rfl
  | scheduleExpiry pid =>
      exact hmodify pid (fun p => { p with
        expireTimerId := (s.wheel.add kSessionKeepMs (TimerCb.expireSession pid)).2 })
        rfl (fun _ => rfl) rfl rfl
  | erase hp hnone hroom =>
      refine h.eraseSession fun r cell hr _ _ hcarries => ?_
      obtain ⟨x, hx, hxr⟩ := hcarries
      obtain rfl := Option.some.inj (hx.symm.trans hp)
      exact hzero (hroom ▸ hxr ▸ hr)
  | @forfeit pid p hthreads hp hnone hroom =>
      have hmem : p.roomId ∈ s.rooms := (hbase.tables.session hp).room hroom
      obtain ⟨cell, hcell⟩ := Option.isSome_iff_exists.mp (hbase.live hmem)
      refine Seating.eraseSession (h.mail_forceEnd hcell fun hnot =>
        h.opponent hbase hmem hcell hnot ⟨p, hp, rfl⟩) fun r c hr hc hnot hcarries => hnot ?_
      have heq : r = p.roomId := Carries.unique hcarries ⟨p, hp, rfl⟩
      rw [replaced_mail hcell _ r, if_pos heq] at hc
      obtain rfl := Option.some.inj hc
      exact .inr ⟨s.opponent pid p.roomId, by simp⟩
  | @wait pid =>
      exact hmodify pid (fun p => { p with state := .kMatching }) rfl (fun _ => rfl) rfl rfl
  | pair ks hp hconn hstate hne hwaiting hpa hpb hq =>
      exact h.pair hbase hp hconn hstate hne hwaiting hpa hpb ks
  | @matchTimeout n rest node w pid =>
      unfold Lobby.matchTimeout
      dsimp only
      split
      · split <;>
          exact hmodify pid (fun p => { p with state := .kLobby }) rfl (fun _ => rfl) rfl rfl
      · exact ⟨h.seated, h.present, h.named⟩
  | mail hthreads hcell hpost hforce => exact h.mail hcell hforce
  | quiet hcell hsource hended hquiet hforce hcells =>
      exact h.quiet hcell hsource hended hforce hcells _
  | closing hcell hsource hrunning hended hwinner hpre hacts hcells =>
      exact h.closing hbase hcell hended hcells _ _
  | @roomEnd r winner rest =>
      have hsame : Seating { s with roomEnds := rest } := ⟨h.seated, h.present, h.named⟩
      exact hsame.onRoomEnd hbase.tables.rooms_nodup hzero r winner

end GameServer.Game
