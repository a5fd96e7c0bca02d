import GameServer.Client.GameSession
import GameServer.Game.Presence

/-!
What the moves of the lobby mean to a client.

A client on connection `c` is *engaged* when its player is in a room whose
battle goes on, or when a room whose battle is over is still to be told about
`c`. As long as the second thing does not come about, a client that believes
to be in a battle is engaged: it has entered by a message of a room it is in,
and it will be told when the battle ends, since the room has its connection
or will have it before it ends.
-/

namespace GameServer.Client

open GameServer.Lib GameServer.Proto GameServer.Timer GameServer.Game
open Lobby

variable {F : Type}

/-- Connection `c` belongs to player `p`: rooms that know it are those that
`p` is in, as long as the battle lasts, and the room that `p` is in has got
the connection or will get it. -/
structure Bound (p : ℕ) (c : Conn) (s : Lobby F) : Prop where
  table : s.connToPlayer.lookup c = some p
  held : Held c (· = p) s
  seated : ∀ r cell, s.cells.lookup r = some cell → cell.room.ended = false →
    cell.room.conns.lookup p = some (some c) ∨ RoomTask.rebind p (some c) ∈ cell.mailbox →
    s.Carries p r
  aims : ∀ r cell, s.Carries p r → r ≠ 0 → s.cells.lookup r = some cell → cell.aim p = some c

/-- The player is in a room whose battle goes on. -/
def Present (p : ℕ) (s : Lobby F) : Prop :=
  ∃ r cell, s.Carries p r ∧ r ≠ 0 ∧ s.cells.lookup r = some cell ∧ cell.room.ended = false

/-- A room whose battle is over has yet to be told about the connection. -/
def Late (p : ℕ) (c : Conn) (s : Lobby F) : Prop :=
  ∃ r cell, s.cells.lookup r = some cell ∧ cell.room.ended = true ∧
    RoomTask.rebind p (some c) ∈ cell.mailbox

def Engaged (p : ℕ) (c : Conn) (s : Lobby F) : Prop := Present p s ∨ Late p c s

/-- The server has come from `s` to `s'`: what this means to the client on
connection `c`, whoever it is and whatever it has received before. -/
structure Tracks (p : ℕ) (c : Conn) (s s' : Lobby F) : Prop where
  bound : Bound p c s'
  sent : ∃ es, s'.log = s.log ++ es ∧ (∀ msg ∈ sentTo c es, msg.isLoginResp = false) ∧
    ∀ client : GameSession, (client.state = .inBattle → Engaged p c s) →
      (client.handleAll (sentTo c es)).state = .inBattle → Engaged p c s'

theorem isLoginResp_of_inert {msg : ServerMsg F} (h : msg.inert = true) :
    msg.isLoginResp = false := by
  cases msg with
  | loginResp => cases h
  | _ => rfl

/-- The rule for moves that send nothing of importance to the client. -/
theorem Tracks.of_inert {p : ℕ} {c : Conn} {s s' : Lobby F} (hbound : Bound p c s')
    (hengaged : Engaged p c s → Engaged p c s') {es : List (Entry F)} (hlog : s'.log = s.log ++ es)
    (hes : ∀ msg ∈ sentTo c es, msg.inert = true) : Tracks p c s s' := by
  refine ⟨hbound, es, hlog, fun msg hmsg => isLoginResp_of_inert (hes msg hmsg), ?_⟩
  intro client hclient hin
  rw [GameSession.handleAll_inert hes] at hin
  exact hengaged (hclient hin)

/-! ### Updates of sessions -/

theorem Bound.frame {p : ℕ} {c : Conn} {s s' : Lobby F} (h : Bound p c s) (hbase : Base s)
    (htable : s'.connToPlayer.lookup c = some p) (hheld : Held c (· = p) s')
    (hcells : s'.cells = s.cells) (hcarries : ∀ r, r ≠ 0 → (s'.Carries p r ↔ s.Carries p r)) :
    Bound p c s' := by
  refine ⟨htable, hheld, fun r cell hcell hrun hc => ?_, fun r cell hr hne hcell => ?_⟩
  · rw [hcells] at hcell
    exact (hcarries r (hbase.cell hcell).pos).mpr (h.seated r cell hcell hrun hc)
  · rw [hcells] at hcell
    exact h.aims r cell ((hcarries r hne).mp hr) hne hcell

theorem Engaged.frame {p : ℕ} {c : Conn} {s s' : Lobby F} (h : Engaged p c s)
    (hcells : s'.cells = s.cells) (hcarries : ∀ r, r ≠ 0 → (s'.Carries p r ↔ s.Carries p r)) :
    Engaged p c s' := by
  rcases h with ⟨r, cell, hr, hne, hcell, hrun⟩ | ⟨r, cell, hcell, hlate⟩
  · exact .inl ⟨r, cell, (hcarries r hne).mpr hr, hne, hcells ▸ hcell, hrun⟩
  · exact .inr ⟨r, cell, hcells ▸ hcell, hlate⟩

/-! ### Updates of a room -/

theorem Bound.replace {p : ℕ} {c : Conn} {s s' : Lobby F} (h : Bound p c s) (hbase : Base s)
    (htable : s'.connToPlayer.lookup c = some p) (hheld : Held c (· = p) s') {r : ℕ}
    {cell cell' : RoomCell F} (hcell : s.cells.lookup r = some cell)
    (hcells : s.Replaced r cell' s'.cells)
    (hcarries : ∀ r, r ≠ 0 → (s'.Carries p r ↔ s.Carries p r))
    (hseated : cell'.room.ended = false → cell'.room.conns.lookup p = some (some c) ∨
      RoomTask.rebind p (some c) ∈ cell'.mailbox → s.Carries p r)
    (haims : s.Carries p r → cell'.aim p = some c) : Bound p c s' := by
  refine ⟨htable, hheld, fun r' d hd hrun hc => ?_, fun r' d hr' hne hd => ?_⟩
  · rw [hcells r'] at hd
    split at hd
    · next hr =>
        subst hr
        obtain rfl := Option.some.inj hd
        exact (hcarries r' (hbase.cell hcell).pos).mpr (hseated hrun hc)
    · exact (hcarries r' (hbase.cell hd).pos).mpr (h.seated r' d hd hrun hc)
  · have hold := (hcarries r' hne).mp hr'
    rw [hcells r'] at hd
    split at hd
    · next hr =>
        subst hr
        obtain rfl := Option.some.inj hd
        exact haims hold
    · exact h.aims r' d hold hne hd

theorem Engaged.replace {p : ℕ} {c : Conn} {s s' : Lobby F} (h : Engaged p c s) {r : ℕ}
    {cell cell' : RoomCell F} (hcell : s.cells.lookup r = some cell)
    (hcells : s.Replaced r cell' s'.cells)
    (hcarries : ∀ r, r ≠ 0 → (s'.Carries p r ↔ s.Carries p r))
    (hended : cell'.room.ended = cell.room.ended)
    (hlate : cell.room.ended = true → RoomTask.rebind p (some c) ∈ cell.mailbox →
      RoomTask.rebind p (some c) ∈ cell'.mailbox) : Engaged p c s' := by
  rcases h with ⟨r', d, hr', hne, hd, hrun⟩ | ⟨r', d, hd, hdone, hmem⟩
  · left
    by_cases hr : r' = r
    · subst hr
      obtain rfl := Option.some.inj (hcell.symm.trans hd)
      exact ⟨r', cell', (hcarries r' hne).mpr hr', hne, by rw [hcells r', if_pos rfl],
        hended.trans hrun⟩
    · exact ⟨r', d, (hcarries r' hne).mpr hr', hne, by rw [hcells r', if_neg hr]; exact hd, hrun⟩
  · right
    by_cases hr : r' = r
    · subst hr
      obtain rfl := Option.some.inj (hcell.symm.trans hd)
      exact ⟨r', cell', by rw [hcells r', if_pos rfl], hended.trans hdone, hlate hdone hmem⟩
    · exact ⟨r', d, by rw [hcells r', if_neg hr]; exact hd, hdone, hmem⟩

/-- A task about player `p` is posted, if at all, with the connection `c`. -/
theorem Bound.postable {p : ℕ} {c : Conn} {s : Lobby F} (h : Bound p c s) (hbase : Base s) {r : ℕ}
    {task : RoomTask F} (hpost : s.Postable r task) :
    task ≠ .dropConn p ∧ ∀ conn, task = .rebind p conn → conn = some c ∧ s.Carries p r := by
  obtain ⟨x, hx, hxc⟩ := hbase.tables.bound h.table
  constructor
  · rintro rfl
    obtain ⟨y, hy, -, hyc⟩ := hpost
    obtain rfl := Option.some.inj (hx.symm.trans hy)
    rw [hxc] at hyc
    cases hyc
  · rintro conn rfl
    obtain ⟨y, c', hy, hyr, hyc, rfl⟩ := hpost
    obtain rfl := Option.some.inj (hx.symm.trans hy)
    exact ⟨hyc.symm.trans hxc, x, hx, hyr⟩

/-- Such a task leaves the slot of `p` with the connection that it is to have. -/
theorem Bound.setSlot {p : ℕ} {c : Conn} {s : Lobby F} (h : Bound p c s) (hbase : Base s) {r : ℕ}
    {task : RoomTask F} (hpost : s.Postable r task) :
    task.setSlot p (some c) = some c := by
  obtain ⟨hdrop, hrebind⟩ := h.postable hbase hpost
  cases task with
  | rebind q conn =>
      simp only [RoomTask.setSlot]
      split
      · next hq => exact (hrebind conn (by rw [hq])).1
      · rfl
  | dropConn q =>
      simp only [RoomTask.setSlot]
      split
      · next hq => exact absurd (by rw [hq]) hdrop
      · rfl
  | _ => rfl

theorem Tracks.mail {p : ℕ} {c : Conn} {s s' : Lobby F} (h : Bound p c s) (hbase : Base s)
    (htable : s'.connToPlayer.lookup c = some p) (hheld : Held c (· = p) s') {r : ℕ}
    {cell : RoomCell F} (hcell : s.cells.lookup r = some cell) {task : RoomTask F}
    (hpost : s.Postable r task) (hcells : s'.cells = (s.mail r task).cells)
    (hcarries : ∀ r, r ≠ 0 → (s'.Carries p r ↔ s.Carries p r)) (hlog : s'.log = s.log) :
    Tracks p c s s' := by
  have hreplaced : s.Replaced r { cell with mailbox := cell.mailbox ++ [task] } s'.cells :=
    hcells ▸ replaced_mail hcell task
  have hpos := (hbase.cell hcell).pos
  have hnil : s'.log = s.log ++ [] := by rw [hlog, List.append_nil]
  refine .of_inert ?_ (fun heng => ?_) hnil (by simp)
  · refine h.replace hbase htable hheld hcell hreplaced hcarries (fun hrun hc => ?_) fun hr => ?_
    · rcases hc with hc | hc
      · exact h.seated r cell hcell hrun (.inl hc)
      · rcases List.mem_append.mp hc with hc | hc
        · exact h.seated r cell hcell hrun (.inr hc)
        · exact ((h.postable hbase hpost).2 _ (List.mem_singleton.mp hc).symm).2
    · have hold := h.aims r cell hr hpos hcell
      simp only [RoomCell.aim, List.foldl_append, List.foldl_cons, List.foldl_nil] at hold ⊢
      rw [hold]
      exact h.setSlot hbase hpost
  · exact heng.replace hcell hreplaced hcarries rfl fun _ hmem => List.mem_append_left _ hmem

/-! ### Steps of a room -/

variable [Scalar F]

/-- An operation leaves the slot of `p` with the connection. -/
theorem Bound.aim_apply {p : ℕ} {c : Conn} {s : Lobby F} (h : Bound p c s) (hbase : Base s)
    (hseating : Seating s) {r : ℕ} {cell : RoomCell F} {op : RoomOp F}
    {mailbox : List (RoomTask F)} (hcell : s.cells.lookup r = some cell)
    (hsource : s.Source r cell op mailbox) (hr : s.Carries p r) :
    RoomCell.aim ⟨(cell.room.apply op).1, mailbox⟩ p = some c :=
  hbase.aim_apply hseating hcell hsource hr (h.aims r cell hr (hbase.cell hcell).pos hcell)
    fun _ hpost => h.setSlot hbase hpost

/-- A room whose battle goes on gets the connection only while `p` is in it. -/
theorem Bound.seated_apply {p : ℕ} {c : Conn} {s : Lobby F} (h : Bound p c s) (hbase : Base s)
    {r : ℕ} {cell : RoomCell F} {op : RoomOp F} {mailbox : List (RoomTask F)}
    (hcell : s.cells.lookup r = some cell) (hsource : s.Source r cell op mailbox)
    (hrun : cell.room.ended = false)
    (hc : (cell.room.apply op).1.conns.lookup p = some (some c) ∨
      RoomTask.rebind p (some c) ∈ mailbox) : s.Carries p r := by
  rcases hc with hc | hc
  · rcases Room.slot_apply hc with hold | rfl
    · exact h.seated r cell hcell hrun (.inl hold)
    · cases hsource with
      | head hmail =>
          exact h.seated r cell hcell hrun (.inr (by rw [hmail]; exact List.mem_cons_self ..))
      | posted _ hpost => exact ((h.postable hbase hpost).2 _ rfl).2
  · exact h.seated r cell hcell hrun (.inr (hsource.mem hc))

omit [Scalar F] in
/-- A room is started before its battle ends. -/
theorem running_of_start {s : Lobby F} (horder : Orderly s) {r : ℕ} {cell : RoomCell F}
    {mailbox : List (RoomTask F)} (hcell : s.cells.lookup r = some cell)
    (hsource : s.Source r cell (.task .start) mailbox) : cell.room.ended = false := by
  cases hsource with
  | head hmail =>
      exact (horder.start r cell hcell (by rw [hmail]; exact List.mem_cons_self ..)).1
  | posted _ hpost =>
      obtain ⟨-, d, hd, -, -, hended⟩ := hpost
      obtain rfl := Option.some.inj (hcell.symm.trans hd)
      exact hended

theorem Bound.quiet {p : ℕ} {c : Conn} {s s' : Lobby F} (h : Bound p c s) (hbase : Base s)
    (hseating : Seating s) (htable : s'.connToPlayer.lookup c = some p)
    (hheld : Held c (· = p) s') {r : ℕ} {cell : RoomCell F} {op : RoomOp F}
    {mailbox : List (RoomTask F)} (hcell : s.cells.lookup r = some cell)
    (hsource : s.Source r cell op mailbox)
    (hended : (cell.room.apply op).1.ended = cell.room.ended)
    (hcells : s.Replaced r ⟨(cell.room.apply op).1, mailbox⟩ s'.cells)
    (hcarries : ∀ r, r ≠ 0 → (s'.Carries p r ↔ s.Carries p r)) : Bound p c s' := by
  refine h.replace hbase htable hheld hcell hcells hcarries (fun hrun hc => ?_) fun hr => ?_
  · exact h.seated_apply hbase hcell hsource (hended.symm.trans hrun) hc
  · exact h.aim_apply hbase hseating hcell hsource hr

/-- A step that does not end the battle. If it sends `EnterRoom` to the
client, then the client's player is in the room. -/
theorem Tracks.quiet {p : ℕ} {c : Conn} {s s' : Lobby F} (h : Bound p c s) (hbase : Base s)
    (horder : Orderly s) (hseating : Seating s) (htable : s'.connToPlayer.lookup c = some p)
    (hheld : Held c (· = p) s') {r : ℕ} {cell : RoomCell F} {op : RoomOp F}
    {mailbox : List (RoomTask F)} (hcell : s.cells.lookup r = some cell)
    (hsource : s.Source r cell op mailbox)
    (hended : (cell.room.apply op).1.ended = cell.room.ended)
    (hquiet : ∀ act ∈ (cell.room.apply op).2, act.quiet = true)
    (hcells : s.Replaced r ⟨(cell.room.apply op).1, mailbox⟩ s'.cells)
    (hlate : ∀ q, op = .task (.rebind q (some c)) → cell.room.ended = false)
    (hsessions : s'.sessions = s.sessions)
    (hlog : s'.log = s.log ++ (cell.room.apply op).2.map (Entry.room r)) : Tracks p c s s' := by
  have hpos := (hbase.cell hcell).pos
  have hcarries : ∀ r, r ≠ 0 → (s'.Carries p r ↔ s.Carries p r) := by
    intro r _
    unfold Lobby.Carries
    rw [hsessions]
  have hbound : Bound p c s' :=
    h.quiet hbase hseating htable hheld hcell hsource hended hcells hcarries
  have hengaged : Engaged p c s → Engaged p c s' := by
    intro heng
    refine heng.replace hcell hcells hcarries hended fun hdone hmem => ?_
    -- the rebind is not the task that has been done
    cases hsource with
    | tick | posted => exact hmem
    | @head task _ hmail =>
        rw [hmail] at hmem
        rcases List.mem_cons.mp hmem with rfl | hmem
        · rw [hlate p rfl] at hdone
          cases hdone
        · exact hmem
  have hmsg : ∀ msg ∈ sentTo c ((cell.room.apply op).2.map (Entry.room r)),
      msg.inert = true ∨ (msg.isLoginResp = false ∧ Present p s') := by
    intro msg hmsg
    rw [sentTo_room] at hmsg
    obtain ⟨act, hact, hmem⟩ := List.mem_flatMap.mp hmsg
    obtain ⟨⟨q, hq⟩, hinert | ⟨w, hw⟩ | ⟨rfl, hop⟩⟩ := Room.mem_toConn hact hmem
    · exact .inl hinert
    · have := hquiet act hact
      rw [hw] at this
      cases this
    · right
      refine ⟨rfl, ?_⟩
      obtain rfl := h.held.slot_apply hcell hsource hq
      have hrun : cell.room.ended = false := by
        rcases hop with rfl | ⟨q', rfl⟩
        · exact running_of_start horder hcell hsource
        · exact hlate q' rfl
      have hr := h.seated_apply hbase hcell hsource hrun (.inl hq)
      exact ⟨r, _, (hcarries r hpos).mpr hr, hpos, by rw [hcells r, if_pos rfl],
        hended.trans hrun⟩
  by_cases hall : ∀ msg ∈ sentTo c ((cell.room.apply op).2.map (Entry.room r)), msg.inert = true
  · exact .of_inert hbound hengaged hlog hall
  · refine ⟨hbound, _, hlog, fun msg hm => ?_, fun _ _ _ => ?_⟩
    · exact (hmsg msg hm).elim isLoginResp_of_inert And.left
    · simp only [not_forall] at hall
      obtain ⟨msg, hm, hnot⟩ := hall
      exact .inl ((hmsg msg hm).resolve_left hnot).2

/-- Ending a battle does not touch the slots. -/
theorem conns_ending {r : Room F} {op : RoomOp F} (hrun : r.ended = false)
    (hended : (r.apply op).1.ended = true) :
    (r.apply op).1.conns = r.conns ∧ ∀ q conn, op ≠ .task (.rebind q conn) := by
  cases op with
  | onTick ks => exact ⟨Room.conns_onTick r ks, by simp⟩
  | task task =>
      cases task with
      | forceEnd w =>
          refine ⟨?_, by simp⟩
          simp only [Room.apply, Room.exec, Room.forceEnd]
          split <;> rfl
      | stop => exact ⟨rfl, by simp⟩
      | rebind q conn =>
          simp only [Room.apply, Room.exec, Room.rebind] at hended
          split at hended <;> simp [hrun] at hended
      | onInput =>
          simp only [Room.apply, Room.exec, Room.onInput] at hended
          split at hended <;> simp [hrun] at hended
      | start | dropConn | resetTicker => exact absurd (hrun.symm.trans hended) (by simp)

omit [Scalar F] in
/-- The end of the battle has the last word. -/
theorem state_battleEnd {c : Conn} {room : Room F} (hslot : ∃ q, room.conns.lookup q = some (some c))
    (w : ℕ) (client : GameSession) :
    (client.handleAll ((room.closing w).flatMap (RoomAct.toConn c))).state = .battleEnded := by
  have hall : ∀ (slots : List (ℕ × Conn)) (client : GameSession),
      client.state = .battleEnded ∨ slots ≠ [] →
      (client.handleAll (slots.map fun _ => (.battleEnd w : ServerMsg F))).state = .battleEnded := by
    intro slots
    induction slots with
    | nil => exact fun client hc => hc.resolve_right (by simp)
    | cons slot slots ih => exact fun client _ => ih _ (.inl rfl)
  obtain ⟨q, hq⟩ := hslot
  have hmem := Room.mem_bound hq
  simp only [Room.closing, Room.broadcast, List.flatMap_cons, List.flatMap_nil, RoomAct.toConn,
    List.append_nil]
  refine hall _ client (.inr (List.ne_nil_of_mem (a := (q, c)) ?_))
  exact List.mem_filter.mpr ⟨hmem, by simp⟩

/-- The end of a battle reaches the client, unless the room does not have its
connection yet. -/
theorem Tracks.closing {p : ℕ} {c : Conn} {s s' : Lobby F} (h : Bound p c s) (hbase : Base s)
    (hseating : Seating s) (htable : s'.connToPlayer.lookup c = some p)
    (hheld : Held c (· = p) s') {r : ℕ} {cell : RoomCell F} {op : RoomOp F}
    {mailbox : List (RoomTask F)} {winner : ℕ} {pre : List (RoomAct F)} {es : List (Entry F)}
    (hcell : s.cells.lookup r = some cell) (hsource : s.Source r cell op mailbox)
    (hrun : cell.room.ended = false) (hended : (cell.room.apply op).1.ended = true)
    (hacts : (cell.room.apply op).2 = pre ++ (cell.room.apply op).1.closing winner)
    (hcells : s.Replaced r ⟨(cell.room.apply op).1, mailbox ++ [.resetTicker]⟩ s'.cells)
    (hcarries : ∀ r', r' ≠ 0 → s'.Carries p r' → s.Carries p r')
    (hother : ∀ r', r' ≠ 0 → r' ≠ r → s.Carries p r' → s'.Carries p r')
    (hlog : s'.log = s.log ++ ((cell.room.apply op).2.map (Entry.room r) ++ es))
    (hes : sentTo c es = []) : Tracks p c s s' := by
  obtain ⟨hconns, hrebind⟩ := conns_ending hrun hended
  refine ⟨⟨htable, hheld, fun r' d hd hrun' hc => ?_, fun r' d hr' hne hd => ?_⟩, _, hlog, ?_, ?_⟩
  · rw [hcells r'] at hd
    split at hd
    · obtain rfl := Option.some.inj hd
      rw [show (cell.room.apply op).1.ended = false from hrun'] at hended
      cases hended
    · next hne => exact hother r' (hbase.cell hd).pos hne (h.seated r' d hd hrun' hc)
  · have hold := hcarries r' hne hr'
    rw [hcells r'] at hd
    split at hd
    · next heq =>
        subst heq
        obtain rfl := Option.some.inj hd
        have haim := h.aim_apply hbase hseating hcell hsource hold
        simp only [RoomCell.aim, List.foldl_append, List.foldl_cons, List.foldl_nil] at haim ⊢
        exact haim
    · exact h.aims r' d hold hne hd
  · intro msg hmsg
    rw [sentTo_append, hes, List.append_nil, sentTo_room] at hmsg
    obtain ⟨act, hact, hmem⟩ := List.mem_flatMap.mp hmsg
    obtain ⟨-, hinert | ⟨w, rfl⟩ | ⟨rfl, -⟩⟩ := Room.mem_toConn hact hmem
    · exact isLoginResp_of_inert hinert
    · obtain ⟨rfl, -⟩ := Room.mem_broadcast hmem
      rfl
    · rfl
  · intro client hclient hin
    rw [sentTo_append, hes, List.append_nil, sentTo_room] at hin
    by_cases hslot : ∃ q, (cell.room.apply op).1.conns.lookup q = some (some c)
    · rw [hacts, List.flatMap_append, GameSession.handleAll_append, state_battleEnd hslot] at hin
      cases hin
    · -- without a slot nothing has been sent to the client
      have hnil : (cell.room.apply op).2.flatMap (RoomAct.toConn c) = [] := by
        rw [List.flatMap_eq_nil_iff]
        intro act hact
        rw [List.eq_nil_iff_forall_not_mem]
        exact fun msg hmem => hslot (Room.mem_toConn hact hmem).1
      rw [hnil] at hin
      rcases hclient hin with ⟨r', d, hr', hne, hd, hgo⟩ | ⟨r', d, hd, hdone, hmem⟩
      · by_cases heq : r' = r
        · subst heq
          obtain rfl := Option.some.inj (hcell.symm.trans hd)
          rcases RoomCell.aim_eq_some (h.aims r' cell hr' hne hcell) with hc | hmem
          · exact absurd ⟨p, by rw [hconns]; exact hc⟩ hslot
          · refine .inr ⟨r', _, by rw [hcells r', if_pos rfl], hended,
              List.mem_append_left _ ?_⟩
            cases hsource with
            | tick | posted => exact hmem
            | @head task _ hmail =>
                rw [hmail] at hmem
                rcases List.mem_cons.mp hmem with rfl | hmem
                · exact absurd rfl (hrebind p (some c))
                · exact hmem
        · exact .inl ⟨r', d, hother r' hne heq hr', hne, by rw [hcells r', if_neg heq]; exact hd,
            hgo⟩
      · have heq : r' ≠ r := by
          rintro rfl
          obtain rfl := Option.some.inj (hcell.symm.trans hd)
          rw [hrun] at hdone
          cases hdone
        exact .inr ⟨r', d, by rw [hcells r', if_neg heq]; exact hd, hdone, hmem⟩

/-! ### All moves -/

/-- Two players get a room. If `p` is one of them, it was in no room before. -/
theorem Tracks.pair {p : ℕ} {c : Conn} {s : Lobby F} (h : Bound p c s) (hbase : Base s)
    {pid a b : ℕ} {x pa pb : Session} {q : MatchQueue} (ks : List ℕ)
    (hx : s.sessions.lookup pid = some x) (hconn : x.conn.isSome) (hstate : x.state = .kLobby)
    (hwaiting : insert pid s.matchQueue.waiting = {a, b})
    (hpa : (s.joinQueue pid).sessions.lookup a = some pa)
    (hpb : (s.joinQueue pid).sessions.lookup b = some pb)
    (htable : ((s.joinQueue pid).pairUp ks a b pa pb q).connToPlayer.lookup c = some p)
    (hheld : Held c (· = p) ((s.joinQueue pid).pairUp ks a b pa pb q)) :
    Tracks p c s ((s.joinQueue pid).pairUp ks a b pa pb q) := by
  have hcells := cells_joined ks pid a b pa pb q s
  have hcarries := carries_joined ks hpa hpb q p
  have hfree : ∀ {r}, s.Carries p r → r ≠ 0 → ¬(p = a ∨ p = b) := fun hr hne hp =>
    hne (hbase.pair_free hx hconn hstate hwaiting hp hr)
  have hids : pa.playerId = a ∧ pb.playerId = b := by
    obtain ⟨-, -, htables⟩ := hbase.joinQueue hx hconn hstate
    exact ⟨(htables.session hpa).id, (htables.session hpb).id⟩
  -- the session of `p` has had the connection all the time
  have hpconn : ∀ y, (s.joinQueue pid).sessions.lookup p = some y → y.conn = some c := by
    intro y hy
    obtain ⟨z, hz, hzc⟩ := hbase.tables.bound h.table
    have hz : s.sessions.lookup p = some z := hz
    simp only [joinQueue, UnorderedMap.lookup_modify, hz] at hy
    split at hy
    · obtain rfl := Option.some.inj hy
      exact hzc
    · obtain rfl := Option.some.inj hy
      exact hzc
  have hbound : Bound p c ((s.joinQueue pid).pairUp ks a b pa pb q) := by
    refine ⟨htable, hheld, fun r cell hcell hrun hc => ?_, fun r cell hr hne hcell => ?_⟩
    · rw [hcells] at hcell
      split at hcell
      · next hnew =>
          obtain rfl := Option.some.inj hcell
          rw [Room.conns_new, hids.1, hids.2] at hc
          refine (hcarries r).mpr (.inl ⟨?_, hnew⟩)
          by_contra hno
          rw [not_or] at hno
          simp [hno.1, hno.2] at hc
      · have hold := h.seated r cell hcell hrun hc
        exact (hcarries r).mpr (.inr ⟨hfree hold (hbase.cell hcell).pos, hold⟩)
    · rw [hcells] at hcell
      rcases (hcarries r).mp hr with ⟨hp, hnew⟩ | ⟨-, hold⟩
      · rw [if_pos hnew] at hcell
        obtain rfl := Option.some.inj hcell
        simp only [RoomCell.aim, List.foldl_nil, Room.conns_new, hids.1, hids.2]
        split
        · next hb => exact hpconn pb (hb ▸ hpb)
        · next hb =>
            have ha := hp.resolve_right hb
            rw [if_pos ha]
            exact hpconn pa (ha ▸ hpa)
      · split at hcell
        · next hnew =>
            obtain ⟨y, hy, hyr⟩ := hold
            have hmem := (hbase.tables.session hy).room (hyr ▸ hne)
            exact absurd (hyr ▸ hbase.tables.rooms_lt hmem) (hnew ▸ Nat.lt_irrefl _)
        · exact h.aims r cell hold hne hcell
  obtain ⟨wheel, timers, heq⟩ := pairUp_eq ks a b pa pb q (s.joinQueue pid)
  have hlog : ((s.joinQueue pid).pairUp ks a b pa pb q).log = s.log ++
      [.queued pid s.wheel.nowTick, .created s.nextRoomId a b pa.account pb.account] := by
    rw [heq]
    exact List.append_assoc ..
  refine .of_inert hbound (fun heng => ?_) hlog (by simp [sentTo, Entry.toConn])
  · rcases heng with ⟨r, cell, hr, hne, hcell, hrun⟩ | ⟨r, cell, hcell, hlate⟩
    · have hlt : r ≠ s.nextRoomId := Nat.ne_of_lt (hbase.cell hcell).lt
      exact .inl ⟨r, cell, (hcarries r).mpr (.inr ⟨hfree hr hne, hr⟩), hne,
        by rw [hcells, if_neg hlt]; exact hcell, hrun⟩
    · have hlt : r ≠ s.nextRoomId := Nat.ne_of_lt (hbase.cell hcell).lt
      exact .inr ⟨r, cell, by rw [hcells, if_neg hlt]; exact hcell, hlate⟩

omit [Scalar F] in
theorem Tracks.roomEnd {p : ℕ} {c : Conn} {s : Lobby F} (h : Bound p c s) (hbase : Base s)
    (horder : Orderly s) {r winner : ℕ} {rest : List (ℕ × ℕ)}
    (hends : s.roomEnds = (r, winner) :: rest)
    (htable : (Lobby.onRoomEnd r winner { s with roomEnds := rest }).connToPlayer.lookup c = some p)
    (hheld : Held c (· = p) (Lobby.onRoomEnd r winner { s with roomEnds := rest })) :
    Tracks p c s (Lobby.onRoomEnd r winner { s with roomEnds := rest }) := by
  have hcells := (cells_onRoomEnd r winner ({ s with roomEnds := rest } : Lobby F)).1
  have hcarries : ∀ {r'}, r' ≠ 0 →
      ((Lobby.onRoomEnd r winner { s with roomEnds := rest }).Carries p r' ↔
        s.Carries p r' ∧ r' ≠ r) := fun hne => carries_onRoomEnd winner hne
  obtain ⟨d, hd, hdone⟩ := horder.ends (r, winner) (by rw [hends]; exact List.mem_cons_self ..)
  have hother : ∀ {r' cell}, s.cells.lookup r' = some cell → cell.room.ended = false → r' ≠ r := by
    rintro r' cell hcell hrun rfl
    obtain rfl := Option.some.inj (hcell.symm.trans hd)
    rw [hrun] at hdone
    cases hdone
  obtain ⟨es, hes, hsent⟩ :=
    sentTo_onRoomEnd c r winner ({ s with roomEnds := rest } : Lobby F)
  refine .of_inert ⟨htable, hheld, fun r' cell hcell hrun hc => ?_, fun r' cell hr' hne hcell => ?_⟩
    (fun heng => ?_) hes (by simp [hsent])
  · rw [hcells] at hcell
    exact (hcarries (hbase.cell hcell).pos).mpr
      ⟨h.seated r' cell hcell hrun hc, hother hcell hrun⟩
  · rw [hcells] at hcell
    exact h.aims r' cell ((hcarries hne).mp hr').1 hne hcell
  · rcases heng with ⟨r', cell, hr', hne, hcell, hrun⟩ | ⟨r', cell, hcell, hlate⟩
    · exact .inl ⟨r', cell, (hcarries hne).mpr ⟨hr', hother hcell hrun⟩, hne,
        by rw [hcells]; exact hcell, hrun⟩
    · exact .inr ⟨r', cell, by rw [hcells]; exact hcell, hlate⟩

omit [Scalar F] in
/-- What `matchTimeout` does apart from the queue. -/
theorem matchTimeout_rest (pid : ℕ) (s : Lobby F) :
    (s.matchTimeout pid).cells = s.cells ∧
      (∀ p r, (s.matchTimeout pid).Carries p r ↔ s.Carries p r) ∧
      ((s.matchTimeout pid).log = s.log ∨
        ∃ c, (s.matchTimeout pid).log = s.log ++ [.send c (.enterRoom 0 [])]) := by
  have hleave : ∀ {t : Lobby F},
      t.sessions = s.sessions.modify pid (fun p => { p with state := .kLobby }) →
      ∀ p r, t.Carries p r ↔ s.Carries p r := fun ht =>
    carries_modify pid (fun p => { p with state := .kLobby }) ht fun _ => rfl
  unfold Lobby.matchTimeout
  dsimp only
  split
  · split
    · exact ⟨rfl, hleave rfl, .inl rfl⟩
    · exact ⟨rfl, hleave rfl, .inr ⟨_, rfl⟩⟩
  · exact ⟨rfl, fun _ _ => Iff.rfl, .inl rfl⟩

omit [Scalar F] in
/-- What `closeRoom` does apart from telling the lobby. -/
theorem closeRoom_rest (c : Conn) (p r winner : ℕ) (s : Lobby F) :
    (closeRoom r winner s).cells = s.cells ∧
      (∀ r', r' ≠ 0 → ((closeRoom r winner s).Carries p r' → s.Carries p r') ∧
        (r' ≠ r → s.Carries p r' → (closeRoom r winner s).Carries p r')) ∧
      ∃ es, (closeRoom r winner s).log = s.log ++ es ∧ sentTo c es = [] := by
  unfold closeRoom
  split
  · refine ⟨(cells_onRoomEnd r winner s).1, fun r' hne => ?_, sentTo_onRoomEnd c r winner s⟩
    have hiff := carries_onRoomEnd (s := s) (r := r) winner (p := p) hne
    exact ⟨fun h => (hiff.mp h).1, fun hrr h => hiff.mpr ⟨h, hrr⟩⟩
  · exact ⟨rfl, fun r' _ => ⟨id, fun _ => id⟩, [], (List.append_nil _).symm, rfl⟩

/-- What the client on connection `c` can rely on in every move that is not a
request on its connection, nor its end, nor a late rebind. -/
theorem Bound.move {φ : Deed → Prop} {p : ℕ} {c : Conn} (hrequest : ¬φ (.requests c))
    (hclose : ¬φ (.closes c)) (hlate : ¬φ (.lateRebind c)) {s s' : Lobby F} (hbase : Base s)
    (horder : Orderly s) (hseating : Seating s) (h : Bound p c s) (hmove : Move φ s s') :
    Tracks p c s s' := by
  have htable := (hmove.connToPlayer_lookup hrequest hclose).trans h.table
  have hheld := h.held.move hrequest hbase hmove
  obtain ⟨x, hx, hxc⟩ := hbase.tables.bound h.table
  have hx : s.sessions.lookup p = some x := hx
  -- the moves that concern sessions of other players, or nothing of `p` that matters here
  have hframe : ∀ es, s'.cells = s.cells → (∀ r, r ≠ 0 → (s'.Carries p r ↔ s.Carries p r)) →
      s'.log = s.log ++ es → (∀ msg ∈ sentTo c es, msg.inert = true) → Tracks p c s s' :=
    fun es hcells hcarries hlog hes => .of_inert
      (h.frame hbase htable hheld hcells hcarries) (fun heng => heng.frame hcells hcarries) hlog hes
  have hmodify : ∀ es (pid : ℕ) (f : Session → Session), s'.sessions = s.sessions.modify pid f →
      (∀ x, (f x).roomId = x.roomId) → s'.cells = s.cells → s'.log = s.log ++ es →
      (∀ msg ∈ sentTo c es, msg.inert = true) → Tracks p c s s' :=
    fun es pid f hsessions hf hcells => hframe es hcells fun r _ =>
      carries_modify pid f hsessions hf p r
  have hself : s'.sessions = s.sessions → ∀ r, r ≠ 0 → (s'.Carries p r ↔ s.Carries p r) := by
    intro hsessions r _
    unfold Lobby.Carries
    rw [hsessions]
  have herase : ∀ {pid y}, s.sessions.lookup pid = some y → y.conn = none → ∀ r, r ≠ 0 →
      ((s.eraseSession pid).Carries p r ↔ s.Carries p r) := by
    intro pid y hy hnone r _
    have hne : p ≠ pid := by
      rintro rfl
      obtain rfl := Option.some.inj (hx.symm.trans hy)
      rw [hxc] at hnone
      cases hnone
    simp only [Lobby.Carries, eraseSession, UnorderedMap.lookup_erase_eq, if_neg hne]
  cases hmove with
  | plain es store hplain hanswer =>
      refine hframe es rfl (hself rfl) rfl fun msg hmsg => ?_
      obtain ⟨e, he, hmem⟩ := mem_sentTo.mp hmsg
      exact Entry.inert_of_plain (hplain e he) (fun hc => hrequest (hanswer e he c hc)) msg hmem
  | heartbeat pid now =>
      exact hmodify [] pid (fun p => { p with lastHeartbeatMs := now }) rfl (fun _ => rfl) rfl
        (List.append_nil _).symm (by simp)
  | @login conn account token now ks _ hreq =>
      refine hframe [.send conn (.loginResp 0 s.nextPlayerId token)] rfl (fun r _ => ?_) rfl ?_
      · have hne : p ≠ s.nextPlayerId := Nat.ne_of_lt (hbase.tables.session hx).lt
        simp only [Lobby.Carries, emit, addSession, UnorderedMap.lookup_reorder,
          UnorderedMap.lookup_insert_eq, if_neg hne]
      · have hne : conn ≠ c := by
          rintro rfl
          exact hrequest hreq
        simp [sentTo, Entry.toConn, hne]
  | @rebind conn pid y now _ _ _ hreq =>
      refine hmodify [.send conn (.loginResp 0 y.playerId y.token)] pid (fun p =>
        { p with conn := some conn, lastHeartbeatMs := now, expireTimerId := 0 }) rfl (fun _ => rfl)
        rfl rfl ?_
      have hne : conn ≠ c := by
        rintro rfl
        exact hrequest hreq
      simp [sentTo, Entry.toConn, hne]
  | @unbind conn pid y =>
      have hrest : (s.unbindSession conn pid y).cells = s.cells ∧
          (s.unbindSession conn pid y).log = s.log := by
        unfold unbindSession
        split <;> exact ⟨rfl, rfl⟩
      refine hframe [] hrest.1 (fun r _ => ?_) (hrest.2.trans (List.append_nil _).symm) (by simp)
      refine carries_map (lookup_unbindSession conn pid y s) (fun p' x _ => ?_) p r
      split <;> rfl
  | scheduleExpiry pid =>
      exact hmodify [] pid (fun p => { p with
        expireTimerId := (s.wheel.add kSessionKeepMs (TimerCb.expireSession pid)).2 }) rfl
        (fun _ => rfl) rfl (List.append_nil _).symm (by simp)
  | erase hp hnone =>
      exact hframe [] rfl (herase hp hnone) (List.append_nil _).symm (by simp)
  | @forfeit pid y hthreads hy hnone hroom =>
      have hmem : y.roomId ∈ s.rooms := (hbase.tables.session hy).room hroom
      obtain ⟨cell, hcell⟩ := Option.isSome_iff_exists.mp (hbase.live hmem)
      have hpost : s.Postable y.roomId (.forceEnd (s.opponent pid y.roomId)) :=
        ⟨pid, y, hy, rfl, hnone, rfl⟩
      exact .mail h hbase htable hheld hcell hpost rfl (herase hy hnone) rfl
  | @wait pid =>
      exact hmodify [.queued pid s.wheel.nowTick] pid (fun p => { p with state := .kMatching }) rfl
        (fun _ => rfl) rfl rfl (by simp [sentTo, Entry.toConn])
  | pair ks hp hconn hstate _ hwaiting hpa hpb =>
      exact .pair h hbase ks hp hconn hstate hwaiting hpa hpb htable hheld
  | @matchTimeout n rest node w pid =>
      obtain ⟨hcells, hcarries, hlog⟩ := matchTimeout_rest pid
        ({ s with firing := rest, wheel := w } : Lobby F)
      rcases hlog with hlog | ⟨c', hlog⟩
      · exact hframe [] hcells (fun r _ => hcarries p r) (hlog.trans (List.append_nil _).symm)
          (by simp)
      · by_cases hc : c' = c
        · -- `EnterRoom` with room 0 takes the client out of any battle
          refine ⟨h.frame hbase htable hheld hcells fun r _ => hcarries p r, _, hlog, ?_, ?_⟩
          · simp [sentTo, Entry.toConn, hc, ServerMsg.isLoginResp]
          · intro client _ hin
            simp [sentTo, Entry.toConn, hc, GameSession.handleAll, GameSession.handleMessage,
              GameSession.onEnterRoom] at hin
        · exact hframe _ hcells (fun r _ => hcarries p r) hlog (by simp [sentTo, Entry.toConn, hc])
  | take | skip | wheelTick | scheduleSweep =>
      exact hframe [] rfl (hself rfl) (List.append_nil _).symm (by simp)
  | mail hthreads hcell hpost =>
      exact .mail h hbase htable hheld hcell hpost rfl (hself rfl) rfl
  | quiet hcell hsource hended hquiet _ hcells hl =>
      refine .quiet h hbase horder hseating htable hheld hcell hsource hended hquiet hcells
        (fun q hop => ?_) rfl rfl
      by_contra hdone
      exact hlate (hl q c hop (by simpa using hdone))
  | @closing r cell op mailbox cells winner pre hcell hsource hrunning hended _ _ hacts hcells =>
      obtain ⟨hcells', hcarries, es, hlog, hes⟩ := closeRoom_rest c p r winner ({ s with
        cells := cells
        log := s.log ++ (cell.room.apply op).2.map (Entry.room r) } : Lobby F)
      exact .closing h hbase hseating htable hheld hcell hsource hrunning hended hacts
        (hcells' ▸ hcells) (fun r' hne => (hcarries r' hne).1) (fun r' hne => (hcarries r' hne).2)
        (hlog.trans (List.append_assoc ..)) hes
  | roomEnd hends => exact .roomEnd h hbase horder hends htable hheld

end GameServer.Client
