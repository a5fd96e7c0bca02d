import GameServer.Game.Seating

/-!
Where a connection is known, and what is sent to it.

A connection gets into a session by a login or reconnect request, from there
into the slots of a room, and messages of rooms go to slots. `Held` bounds
the players through whom a connection is known; it can only be broken by a
request on that connection. A connection that nothing is known of (`Fresh`)
receives no message that would mean anything to a client.
-/

namespace GameServer.Game

open GameServer.Lib GameServer.Proto GameServer.Timer
open Lobby

variable {F : Type}

/-! ### Messages to a connection -/

/-- The messages that a room's act puts on connection `c`. -/
def RoomAct.toConn (c : Conn) : RoomAct F → List (ServerMsg F)
  | .broadcast msg slots => (slots.filter (·.2 = c)).map fun _ => msg
  | .send _ conn msg => if conn = c then [msg] else []
  | .queueTickerReset | .onEnd _ _ => []

def Entry.toConn (c : Conn) : Entry F → List (ServerMsg F)
  | .send conn msg => if conn = c then [msg] else []
  | .room _ act => act.toConn c
  | _ => []

/-- What the log shows to have been sent to connection `c`. -/
def sentTo (c : Conn) (log : List (Entry F)) : List (ServerMsg F) := log.flatMap (Entry.toConn c)

@[simp] theorem sentTo_nil (c : Conn) : sentTo c ([] : List (Entry F)) = [] := rfl

@[simp] theorem sentTo_append (c : Conn) (log es : List (Entry F)) :
    sentTo c (log ++ es) = sentTo c log ++ sentTo c es :=
  List.flatMap_append

@[simp] theorem sentTo_send (c : Conn) (msg : ServerMsg F) (es : List (Entry F)) :
    sentTo c (.send c msg :: es) = msg :: sentTo c es := by
  simp [sentTo, Entry.toConn]

theorem sentTo_room (c : Conn) (r : ℕ) (acts : List (RoomAct F)) :
    sentTo c (acts.map (Entry.room r)) = acts.flatMap (RoomAct.toConn c) := by
  simp only [sentTo, List.flatMap_map]
  rfl

theorem mem_sentTo {c : Conn} {log : List (Entry F)} {msg : ServerMsg F} :
    msg ∈ sentTo c log ↔ ∃ e ∈ log, msg ∈ e.toConn c :=
  List.mem_flatMap

/-- Someone must have a slot with the connection to receive a broadcast. -/
theorem RoomAct.mem_toConn_broadcast {c : Conn} {msg msg' : ServerMsg F} {slots : List (ℕ × Conn)} :
    msg' ∈ (RoomAct.broadcast msg slots).toConn c ↔ msg' = msg ∧ ∃ q, (q, c) ∈ slots := by
  simp only [RoomAct.toConn, List.mem_map, List.mem_filter, decide_eq_true_eq]
  constructor
  · rintro ⟨⟨q, c'⟩, ⟨hmem, rfl⟩, rfl⟩
    exact ⟨rfl, q, hmem⟩
  · rintro ⟨rfl, q, hmem⟩
    exact ⟨(q, c), ⟨hmem, rfl⟩, rfl⟩

theorem Entry.inert_of_plain {e : Entry F} (h : e.plain = true) {c : Conn}
    (hanswer : e.answers ≠ some c) : ∀ msg ∈ e.toConn c, msg.inert = true := by
  intro msg hmsg
  cases e with
  | send conn m =>
      simp only [Entry.toConn] at hmsg
      split at hmsg
      · next hconn =>
          obtain rfl := List.mem_singleton.mp hmsg
          cases msg with
          | loginResp => exact absurd (congrArg some hconn) hanswer
          | heartbeat | leaderboardResp => rfl
          | enterRoom | stateSnapshot | battleEnd => cases h
      · cases hmsg
  | room => cases h
  | shutdown | enqueue | executed | created | settled | queued => cases hmsg

theorem sentTo_onRoomEnd (c : Conn) (r w : ℕ) (s : Lobby F) :
    ∃ es, (s.onRoomEnd r w).log = s.log ++ es ∧ sentTo c es = [] := by
  simp only [onRoomEnd, enqueue, emit]
  split
  · split
    · exact ⟨_, List.append_assoc .., rfl⟩
    · exact ⟨_, rfl, rfl⟩
  · exact ⟨_, rfl, rfl⟩

/-! ### Slots -/

theorem Room.mem_bound_iff {r : Room F} {q : ℕ} {c : Conn} :
    (q, c) ∈ r.bound ↔ r.conns.lookup q = some (some c) := by
  constructor
  · intro h
    obtain ⟨⟨q', conn⟩, he, hqc⟩ := List.mem_filterMap.mp h
    obtain ⟨c', rfl, hpair⟩ := Option.map_eq_some_iff.mp hqc
    obtain ⟨rfl, rfl⟩ := Prod.mk.inj hpair
    exact UnorderedMap.mem_entries_iff.mp he
  · exact Room.mem_bound

/-- What a task does to the connection in the slot of player `p`. -/
def RoomTask.setSlot (p : ℕ) (slot : Option Conn) : RoomTask F → Option Conn
  | .rebind q conn => if q = p then conn else slot
  | .dropConn q => if q = p then none else slot
  | _ => slot

/-- The connection in the slot of player `p` when the mailbox is empty. -/
def RoomCell.aim (cell : RoomCell F) (p : ℕ) : Option Conn :=
  cell.mailbox.foldl (RoomTask.setSlot p) (cell.room.conns.lookup p).join

theorem foldl_setSlot {p : ℕ} {c : Conn} {slot : Option Conn} {mailbox : List (RoomTask F)}
    (h : mailbox.foldl (RoomTask.setSlot p) slot = some c) :
    slot = some c ∨ RoomTask.rebind p (some c) ∈ mailbox := by
  induction mailbox generalizing slot with
  | nil => exact .inl h
  | cons task mailbox ih =>
      rcases ih h with hslot | hmem
      · cases task with
        | rebind q conn =>
            simp only [RoomTask.setSlot] at hslot
            split at hslot
            · next hq =>
                subst hq hslot
                exact .inr (List.mem_cons_self ..)
            · exact .inl hslot
        | dropConn q =>
            simp only [RoomTask.setSlot] at hslot
            split at hslot
            · cases hslot
            · exact .inl hslot
        | start | onInput | forceEnd | stop | resetTicker => exact .inl hslot
      · exact .inr (List.mem_cons_of_mem _ hmem)

/-- Where the connection is that a room will use for `p`. -/
theorem RoomCell.aim_eq_some {cell : RoomCell F} {p : ℕ} {c : Conn} (h : cell.aim p = some c) :
    cell.room.conns.lookup p = some (some c) ∨ RoomTask.rebind p (some c) ∈ cell.mailbox :=
  (foldl_setSlot h).imp (fun hslot => by simpa [Option.join_eq_some_iff] using hslot) id

theorem foldl_setSlot_idle {p : ℕ} {slot : Option Conn} {mailbox : List (RoomTask F)}
    (h : ∀ task ∈ mailbox, task = .resetTicker) :
    mailbox.foldl (RoomTask.setSlot p) slot = slot := by
  induction mailbox with
  | nil => rfl
  | cons task mailbox ih =>
      obtain rfl := h task (List.mem_cons_self ..)
      exact ih fun task' h' => h task' (List.mem_cons_of_mem _ h')

variable [Scalar F]

namespace Room

theorem conns_onTick (r : Room F) (ks : List ℕ) : (r.onTick ks).1.conns = r.conns := by
  simp only [onTick]
  split
  · rfl
  · split <;> rfl

/-- Tasks write into slots as `setSlot` says. -/
theorem slot_exec {r : Room F} {p : ℕ} (h : (r.conns.lookup p).isSome) (task : RoomTask F) :
    ((r.exec task).1.conns.lookup p).join = task.setSlot p (r.conns.lookup p).join := by
  cases task with
  | rebind q conn =>
      simp only [exec, rebind, RoomTask.setSlot]
      split
      · next hnone =>
          rw [if_neg]
          rintro rfl
          rw [hnone] at h
          cases h
      · simp only [UnorderedMap.lookup_modify]
        by_cases hq : p = q
        · subst hq
          obtain ⟨slot, hslot⟩ := Option.isSome_iff_exists.mp h
          simp [hslot]
        · rw [if_neg hq, if_neg (Ne.symm hq)]
  | dropConn q =>
      simp only [exec, dropConn, RoomTask.setSlot, UnorderedMap.lookup_modify]
      by_cases hq : p = q
      · subst hq
        obtain ⟨slot, hslot⟩ := Option.isSome_iff_exists.mp h
        simp [hslot]
      · rw [if_neg hq, if_neg (Ne.symm hq)]
  | onInput =>
      simp only [exec, onInput, RoomTask.setSlot]
      split <;> rfl
  | forceEnd =>
      simp only [exec, forceEnd, RoomTask.setSlot]
      split <;> rfl
  | start | stop | resetTicker => rfl

/-- A slot holds what it held before, or what a task has brought. -/
theorem slot_apply {r : Room F} {op : RoomOp F} {q : ℕ} {c : Conn}
    (h : (r.apply op).1.conns.lookup q = some (some c)) :
    r.conns.lookup q = some (some c) ∨ op = .task (.rebind q (some c)) := by
  have hseat : (r.conns.lookup q).isSome := by
    rw [← apply_conns r op q, h]
    rfl
  cases op with
  | onTick ks =>
      rw [show (r.apply (.onTick ks)).1.conns = r.conns from conns_onTick r ks] at h
      exact .inl h
  | task task =>
      have hset : ([task]).foldl (RoomTask.setSlot q) (r.conns.lookup q).join = some c := by
        rw [List.foldl_cons, List.foldl_nil, ← slot_exec hseat task]
        rw [show (r.exec task).1.conns.lookup q = some (some c) from h]
        rfl
      rcases foldl_setSlot hset with hslot | hmem
      · exact .inl (by simpa [Option.join_eq_some_iff] using hslot)
      · exact .inr (by rw [List.mem_singleton.mp hmem])

theorem conns_new (ks : List ℕ) (id a b : ℕ) (connA connB : Option Conn) (q : ℕ) :
    (new ks id [(a, connA), (b, connB)] : Room F).conns.lookup q =
      if q = b then some connB else if q = a then some connA else none := by
  have hlookup : (new ks id [(a, connA), (b, connB)] : Room F).conns.lookup q =
      (UnorderedMap.reorder ks ((UnorderedMap.reorder ks
        ((∅ : UnorderedMap ℕ (Option Conn)).insert a connA)).insert b connB)).lookup q :=
    rfl
  rw [hlookup]
  simp only [UnorderedMap.lookup_reorder, UnorderedMap.lookup_insert_eq, AList.lookup_empty]

omit [Scalar F] in
theorem mem_broadcast {r : Room F} {msg msg' : ServerMsg F} {c : Conn}
    (h : msg' ∈ (r.broadcast msg).toConn c) :
    msg' = msg ∧ ∃ q, r.conns.lookup q = some (some c) := by
  obtain ⟨hmsg, q, hq⟩ := RoomAct.mem_toConn_broadcast.mp h
  exact ⟨hmsg, q, mem_bound_iff.mp hq⟩

omit [Scalar F] in
theorem mem_sendTo {playerId : ℕ} {conn : Option Conn} {msg msg' : ServerMsg F} {c : Conn}
    {act : RoomAct F} (hact : act ∈ sendTo playerId conn msg) (h : msg' ∈ act.toConn c) :
    msg' = msg ∧ conn = some c := by
  cases conn with
  | none => cases hact
  | some c' =>
      obtain rfl := List.mem_singleton.mp hact
      simp only [RoomAct.toConn] at h
      split at h
      · next hc => exact ⟨List.mem_singleton.mp h, congrArg some hc⟩
      · cases h

theorem mem_simulate {r : Room F} {ks : List ℕ} {act : RoomAct F} (h : act ∈ (r.simulate ks).2) :
    ∃ snap, act = (r.simulate ks).1.broadcast (.stateSnapshot snap) := by
  simp only [simulate] at h ⊢
  split at h
  · cases h
  · exact ⟨_, List.mem_singleton.mp h⟩

/-- What an operation sends to a connection is a snapshot or the end of the
battle, or else it comes from one of the two tasks that send `EnterRoom`. -/
theorem mem_toConn {r : Room F} {op : RoomOp F} {act : RoomAct F} {c : Conn} {msg : ServerMsg F}
    (hact : act ∈ (r.apply op).2) (hmsg : msg ∈ act.toConn c) :
    (∃ q, (r.apply op).1.conns.lookup q = some (some c)) ∧
      (msg.inert = true ∨ (∃ w, act = (r.apply op).1.broadcast (.battleEnd w)) ∨
        (msg = r.enterRoom ∧ (op = .task .start ∨ ∃ q, op = .task (.rebind q (some c))))) := by
  cases op with
  | onTick ks =>
      simp only [apply, onTick] at hact ⊢
      split at hact
      · cases hact
      · next hended =>
          rw [if_neg hended]
          split at hact
          · next hw =>
              rw [if_pos hw]
              rcases List.mem_append.mp hact with hact | hact
              · obtain ⟨snap, rfl⟩ := mem_simulate hact
                obtain ⟨rfl, hq⟩ := mem_broadcast hmsg
                exact ⟨hq, .inl rfl⟩
              · simp only [endBattle, List.mem_cons, List.not_mem_nil, or_false] at hact
                rcases hact with rfl | rfl | rfl
                · obtain ⟨rfl, hq⟩ := mem_broadcast hmsg
                  exact ⟨hq, .inr (.inl ⟨_, rfl⟩)⟩
                · cases hmsg
                · cases hmsg
          · next hw =>
              rw [if_neg hw]
              obtain ⟨snap, rfl⟩ := mem_simulate hact
              obtain ⟨rfl, hq⟩ := mem_broadcast hmsg
              exact ⟨hq, .inl rfl⟩
  | task task =>
      cases task with
      | start =>
          simp only [apply, exec, start, List.mem_cons, List.mem_flatMap] at hact
          rcases hact with rfl | ⟨e, he, hact⟩
          · obtain ⟨rfl, hq⟩ := mem_broadcast hmsg
            exact ⟨hq, .inr (.inr ⟨rfl, .inl rfl⟩)⟩
          · obtain ⟨rfl, hconn⟩ := mem_sendTo hact hmsg
            refine ⟨⟨e.1, ?_⟩, .inl rfl⟩
            rw [← hconn]
            exact UnorderedMap.mem_entries_iff.mp he
      | rebind q conn =>
          simp only [apply, exec, rebind] at hact ⊢
          split at hact
          · cases hact
          · next slot hslot =>
              have hset : ∀ c, conn = some c → ∃ q', (r.conns.modify q fun _ => conn).lookup q' =
                  some (some c) := by
                rintro c rfl
                exact ⟨q, by simp [hslot]⟩
              rcases List.mem_append.mp hact with hact | hact
              · obtain ⟨rfl, rfl⟩ := mem_sendTo hact hmsg
                exact ⟨hset c rfl, .inr (.inr ⟨rfl, .inr ⟨q, rfl⟩⟩)⟩
              · obtain ⟨rfl, rfl⟩ := mem_sendTo hact hmsg
                exact ⟨hset c rfl, .inl rfl⟩
      | forceEnd w =>
          simp only [apply, exec, forceEnd] at hact ⊢
          split at hact
          · cases hact
          · next hended =>
              rw [if_neg hended]
              simp only [endBattle, List.mem_cons, List.not_mem_nil, or_false] at hact
              rcases hact with rfl | rfl | rfl
              · obtain ⟨rfl, hq⟩ := mem_broadcast hmsg
                exact ⟨hq, .inr (.inl ⟨w, rfl⟩)⟩
              · cases hmsg
              · cases hmsg
      | onInput | dropConn | stop | resetTicker => cases hact

end Room

/-- An operation does to a slot what the mailbox had in store, or what the
lobby has just posted. -/
theorem Base.aim_apply {s : Lobby F} (hbase : Base s) (hseating : Seating s) {r : ℕ}
    {cell : RoomCell F} {op : RoomOp F} {mailbox : List (RoomTask F)}
    (hcell : s.cells.lookup r = some cell) (hsource : s.Source r cell op mailbox) {p : ℕ}
    {conn : Option Conn} (hcarries : s.Carries p r) (haim : cell.aim p = conn)
    (hposted : ∀ task, s.Postable r task → task.setSlot p conn = conn) :
    RoomCell.aim ⟨(cell.room.apply op).1, mailbox⟩ p = conn := by
  have hok := hbase.cell hcell
  obtain ⟨d, hd, hseat⟩ := hseating.seated p r hcarries hok.pos
  obtain rfl := Option.some.inj (hcell.symm.trans hd)
  cases hsource with
  | tick ks =>
      have hsame : (cell.room.apply (.onTick ks)).1.conns = cell.room.conns :=
        Room.conns_onTick cell.room ks
      rw [RoomCell.aim, hsame]
      exact haim
  | @head task _ hmail =>
      have hslot : ((cell.room.apply (.task task)).1.conns.lookup p).join =
          task.setSlot p (cell.room.conns.lookup p).join := Room.slot_exec hseat task
      rw [RoomCell.aim, hmail, List.foldl_cons] at haim
      rw [RoomCell.aim, hslot]
      exact haim
  | @posted task hinline hpost =>
      have hslot : ((cell.room.apply (.task task)).1.conns.lookup p).join =
          task.setSlot p (cell.room.conns.lookup p).join := Room.slot_exec hseat task
      rw [RoomCell.aim, foldl_setSlot_idle (hok.idle hinline)] at haim
      rw [RoomCell.aim, foldl_setSlot_idle (hok.idle hinline), hslot, haim]
      exact hposted task hpost

omit [Scalar F] in
theorem aim_append (cell : RoomCell F) (task : RoomTask F) (p : ℕ) :
    RoomCell.aim { cell with mailbox := cell.mailbox ++ [task] } p =
      task.setSlot p (cell.aim p) := by
  simp [RoomCell.aim]

/-- A task that is posted changes the aim of a slot at once, whether it is
executed now or later. -/
theorem aim_deliver {gameThreads : ℕ} {cell : RoomCell F}
    (hidle : gameThreads = 0 → ∀ task ∈ cell.mailbox, task = .resetTicker) {p : ℕ}
    (hseat : (cell.room.conns.lookup p).isSome) (task : RoomTask F) :
    (deliver gameThreads task cell).aim p = task.setSlot p (cell.aim p) := by
  unfold deliver
  split
  · next hinline =>
      rw [RoomCell.aim, RoomCell.aim, foldl_setSlot_idle (hidle hinline),
        foldl_setSlot_idle (hidle hinline), Room.slot_exec hseat]
  · exact aim_append cell task p

/-! ### The order of a room's tasks -/

/-- A room is started before anything else happens to it, and the lobby
hears of the end of a room only when it has ended. -/
structure Orderly (s : Lobby F) : Prop where
  start : ∀ r cell, s.cells.lookup r = some cell → RoomTask.start ∈ cell.mailbox →
    cell.room.ended = false ∧ cell.room.ticker = false ∧
      ∃ rest, cell.mailbox = .start :: rest ∧ RoomTask.start ∉ rest
  ends : ∀ e ∈ s.roomEnds, ∃ cell, s.cells.lookup e.1 = some cell ∧ cell.room.ended = true

omit [Scalar F] in
theorem orderly_init (gameThreads : ℕ) (writer : Bool) :
    Orderly (Lobby.init gameThreads writer : Lobby F) := by
  constructor <;> simp [Lobby.init, scheduleSweep]

omit [Scalar F] in
theorem Orderly.congr {s s' : Lobby F} (h : Orderly s) (hcells : s'.cells = s.cells)
    (hends : s'.roomEnds = s.roomEnds) : Orderly s' := by
  obtain ⟨hstart, hends'⟩ := h
  constructor
  · rw [hcells]
    exact hstart
  · rw [hcells, hends]
    exact hends'

omit [Scalar F] in
/-- When a task is done or the ticker ticks, no start is left to be done. -/
theorem Orderly.source {s : Lobby F} (h : Orderly s) (hbase : Base s) {r : ℕ} {cell : RoomCell F}
    {op : RoomOp F} {mailbox : List (RoomTask F)} (hcell : s.cells.lookup r = some cell)
    (hsource : s.Source r cell op mailbox) : RoomTask.start ∉ mailbox := by
  cases hsource with
  | tick ks hticker =>
      intro hmem
      rw [(h.start r cell hcell hmem).2.1] at hticker
      cases hticker
  | @head task mailbox hmail =>
      intro hmem
      obtain ⟨-, -, rest, hrest, hnot⟩ := h.start r cell hcell (by simp [hmail, hmem])
      obtain ⟨-, rfl⟩ := List.cons.inj (hmail.symm.trans hrest)
      exact hnot hmem
  | posted hinline =>
      intro hmem
      cases (hbase.cell hcell).idle hinline _ hmem

omit [Scalar F] in
/-- The rule for updates of one room. -/
theorem Orderly.replace {s s' : Lobby F} (h : Orderly s) {r : ℕ} {cell cell' : RoomCell F}
    (hcell : s.cells.lookup r = some cell) (hcells : s.Replaced r cell' s'.cells)
    (hstart : RoomTask.start ∈ cell'.mailbox → cell'.room.ended = false ∧
      cell'.room.ticker = false ∧ ∃ rest, cell'.mailbox = .start :: rest ∧ RoomTask.start ∉ rest)
    (hended : cell.room.ended = true → cell'.room.ended = true)
    (hends : ∀ e ∈ s'.roomEnds, e ∈ s.roomEnds ∨ (e.1 = r ∧ cell'.room.ended = true)) :
    Orderly s' := by
  constructor
  · intro r' c hc hmem
    rw [hcells r'] at hc
    split at hc
    · obtain rfl := Option.some.inj hc
      exact hstart hmem
    · exact h.start r' c hc hmem
  · intro e he
    rw [hcells e.1]
    split
    · next hr =>
        refine ⟨cell', rfl, ?_⟩
        rcases hends e he with hold | ⟨-, hnew⟩
        · obtain ⟨c, hc, hce⟩ := h.ends e hold
          rw [hr, hcell] at hc
          obtain rfl := Option.some.inj hc
          exact hended hce
        · exact hnew
    · next hr =>
        rcases hends e he with hold | ⟨hnew, -⟩
        · exact h.ends e hold
        · exact absurd hnew hr

omit [Scalar F] in
theorem Orderly.onRoomEnd {s : Lobby F} (h : Orderly s) (r w : ℕ) : Orderly (s.onRoomEnd r w) :=
  h.congr (cells_onRoomEnd r w s).1 (cells_onRoomEnd r w s).2.1

theorem Orderly.move {φ : Deed → Prop} {s s' : Lobby F} (hbase : Base s) (h : Orderly s)
    (hmove : Move φ s s') : Orderly s' := by
  have hmail : ∀ {r cell task}, s.cells.lookup r = some cell → (task = .start →
      cell.mailbox = [] ∧ cell.room.ticker = false ∧ cell.room.ended = false) →
      Orderly (s.mail r task) := by
    intro r cell task hcell htask
    refine h.replace hcell (replaced_mail hcell task) (fun hmem => ?_) id fun e he => .inl he
    by_cases hstart : task = .start
    · obtain ⟨hnil, hticker, hended⟩ := htask hstart
      exact ⟨hended, hticker, [], by simp [hnil, hstart], by simp⟩
    · have hold : RoomTask.start ∈ cell.mailbox := by simpa [Ne.symm hstart] using hmem
      obtain ⟨hended, hticker, rest, hrest, hnot⟩ := h.start r cell hcell hold
      refine ⟨hended, hticker, rest ++ [task], by simp [hrest], ?_⟩
      simp [hnot, Ne.symm hstart]
  cases hmove with
  | unbind =>
      unfold unbindSession
      split <;> exact h.congr rfl rfl
  | @forfeit pid p hthreads hp hnone hroom =>
      have hmem : p.roomId ∈ s.rooms := (hbase.tables.session hp).room hroom
      obtain ⟨cell, hcell⟩ := Option.isSome_iff_exists.mp (hbase.live hmem)
      exact (hmail hcell (by simp)).congr rfl rfl
  | @pair pid a b p pa pb q ks =>
      have hcells := cells_joined ks pid a b pa pb q s
      obtain ⟨wheel, timers, heq⟩ := pairUp_eq ks a b pa pb q (s.joinQueue pid)
      constructor
      · intro r c hc hmem
        rw [hcells] at hc
        split at hc
        · obtain rfl := Option.some.inj hc
          cases hmem
        · exact h.start r c hc hmem
      · intro e he
        rw [heq] at he
        obtain ⟨c, hc, hce⟩ := h.ends e he
        have hlt : e.1 ≠ s.nextRoomId := Nat.ne_of_lt (hbase.cell hc).lt
        exact ⟨c, by rw [hcells, if_neg hlt]; exact hc, hce⟩
  | matchTimeout =>
      unfold Lobby.matchTimeout
      dsimp only
      split
      · split <;> exact h.congr rfl rfl
      · exact h.congr rfl rfl
  | @mail r cell task hthreads hcell hpost =>
      refine hmail hcell ?_
      rintro rfl
      obtain ⟨-, cell', hcell', hnil, hticker, hended⟩ := hpost
      obtain rfl := Option.some.inj (hcell.symm.trans hcell')
      exact ⟨hnil, hticker, hended⟩
  | quiet hcell hsource hended _ _ hcells =>
      exact h.replace hcell hcells (fun hmem => absurd hmem (h.source hbase hcell hsource))
        hended.trans fun e he => .inl he
  | @closing r cell op mailbox cells winner pre hcell hsource hrunning hended _ _ _ hcells =>
      have hstart : RoomTask.start ∉ mailbox ++ [.resetTicker] := by
        simpa using h.source hbase hcell hsource
      unfold closeRoom
      split
      · refine Orderly.onRoomEnd ?_ r winner
        exact h.replace hcell hcells (fun hmem => absurd hmem hstart) (fun _ => hended)
          fun e he => .inl he
      · refine h.replace hcell hcells (fun hmem => absurd hmem hstart) (fun _ => hended)
          fun e he => ?_
        rcases List.mem_append.mp he with he | he
        · exact .inl he
        · rw [List.mem_singleton.mp he]
          exact .inr ⟨rfl, hended⟩
  | @roomEnd r winner rest hends =>
      refine Orderly.onRoomEnd ?_ r winner
      refine ⟨h.start, fun e he => h.ends e ?_⟩
      rw [hends]
      exact List.mem_cons_of_mem _ he
  | _ => exact h.congr rfl rfl

/-! ### Who knows a connection -/

/-- Connection `c` is known only through players that satisfy `P`. -/
structure Held (c : Conn) (P : ℕ → Prop) (s : Lobby F) : Prop where
  sessions : ∀ q x, s.sessions.lookup q = some x → x.conn = some c → P q
  slots : ∀ r cell q, s.cells.lookup r = some cell →
    cell.room.conns.lookup q = some (some c) → P q
  tasks : ∀ r cell q, s.cells.lookup r = some cell →
    RoomTask.rebind q (some c) ∈ cell.mailbox → P q

omit [Scalar F] in
/-- The rule for updates after which no session has the connection that did
not have it before. -/
theorem Held.update {c : Conn} {P : ℕ → Prop} {s s' : Lobby F} (h : Held c P s)
    (hcells : s'.cells = s.cells)
    (hsessions : ∀ q x', s'.sessions.lookup q = some x' → x'.conn = some c →
      ∃ x, s.sessions.lookup q = some x ∧ x.conn = some c) : Held c P s' := by
  refine ⟨fun q x' hx' hc => ?_, ?_, ?_⟩
  · obtain ⟨x, hx, hxc⟩ := hsessions q x' hx' hc
    exact h.sessions q x hx hxc
  · rw [hcells]
    exact h.slots
  · rw [hcells]
    exact h.tasks

omit [Scalar F] in
theorem Held.modify {c : Conn} {P : ℕ → Prop} {s s' : Lobby F} (h : Held c P s) (p : ℕ)
    (f : Session → Session) (hsessions : s'.sessions = s.sessions.modify p f)
    (hf : ∀ x, (f x).conn = some c → x.conn = some c) (hcells : s'.cells = s.cells) :
    Held c P s' := by
  refine h.update hcells fun q x' hx' hc => ?_
  rw [hsessions, UnorderedMap.lookup_modify] at hx'
  split at hx'
  · obtain ⟨x, hx, rfl⟩ := Option.map_eq_some_iff.mp hx'
    exact ⟨x, hx, hf x hc⟩
  · exact ⟨x', hx', hc⟩

omit [Scalar F] in
/-- The rule for updates of one room. -/
theorem Held.replace {c : Conn} {P : ℕ → Prop} {s s' : Lobby F} (h : Held c P s) {r : ℕ}
    {cell : RoomCell F} (hcells : s.Replaced r cell s'.cells) (hsessions : s'.sessions = s.sessions)
    (hslots : ∀ q, cell.room.conns.lookup q = some (some c) → P q)
    (htasks : ∀ q, RoomTask.rebind q (some c) ∈ cell.mailbox → P q) : Held c P s' := by
  refine ⟨?_, fun r' cell' q hcell' hq => ?_, fun r' cell' q hcell' hq => ?_⟩
  · rw [hsessions]
    exact h.sessions
  · rw [hcells r'] at hcell'
    split at hcell'
    · obtain rfl := Option.some.inj hcell'
      exact hslots q hq
    · exact h.slots r' cell' q hcell' hq
  · rw [hcells r'] at hcell'
    split at hcell'
    · obtain rfl := Option.some.inj hcell'
      exact htasks q hq
    · exact h.tasks r' cell' q hcell' hq

omit [Scalar F] in
theorem Held.mail {c : Conn} {P : ℕ → Prop} {s : Lobby F} (h : Held c P s) {r : ℕ}
    {cell : RoomCell F} (hcell : s.cells.lookup r = some cell) {task : RoomTask F}
    (htask : ∀ q, task = .rebind q (some c) → P q) : Held c P (s.mail r task) := by
  refine h.replace (replaced_mail hcell task) rfl (fun q => h.slots r cell q hcell) fun q hq => ?_
  rcases List.mem_append.mp hq with hq | hq
  · exact h.tasks r cell q hcell hq
  · exact htask q (List.mem_singleton.mp hq).symm

omit [Scalar F] in
/-- The lobby posts no connection but that of the player's session. -/
theorem Held.postable {c : Conn} {P : ℕ → Prop} {s : Lobby F} (h : Held c P s) {r q : ℕ}
    (hpost : s.Postable r (.rebind q (some c))) : P q := by
  obtain ⟨x, c', hx, -, hc', heq⟩ := hpost
  obtain rfl := Option.some.inj heq
  exact h.sessions q x hx hc'

omit [Scalar F] in
theorem Held.onRoomEnd {c : Conn} {P : ℕ → Prop} {s : Lobby F} (h : Held c P s) (r w : ℕ) :
    Held c P (s.onRoomEnd r w) := by
  refine h.update (cells_onRoomEnd r w s).1 fun q x' hx' hc => ?_
  rw [lookup_onRoomEnd] at hx'
  obtain ⟨x, hx, rfl⟩ := Option.map_eq_some_iff.mp hx'
  exact ⟨x, hx, by rwa [Session.leave_conn] at hc⟩

/-- An operation on a room puts the connection into no other slot. -/
theorem Held.slot_apply {c : Conn} {P : ℕ → Prop} {s : Lobby F} (h : Held c P s) {r : ℕ}
    {cell : RoomCell F} {op : RoomOp F} {mailbox : List (RoomTask F)}
    (hcell : s.cells.lookup r = some cell) (hsource : s.Source r cell op mailbox) {q : ℕ}
    (hq : (cell.room.apply op).1.conns.lookup q = some (some c)) : P q := by
  rcases Room.slot_apply hq with hold | rfl
  · exact h.slots r cell q hcell hold
  · cases hsource with
    | head hmail => exact h.tasks r cell q hcell (by rw [hmail]; exact List.mem_cons_self ..)
    | posted _ hpost => exact h.postable hpost

theorem Held.move {φ : Deed → Prop} {c : Conn} (hφ : ¬φ (.requests c)) {P : ℕ → Prop}
    {s s' : Lobby F} (hbase : Base s) (h : Held c P s) (hmove : Move φ s s') : Held c P s' := by
  cases hmove with
  | heartbeat pid now =>
      exact h.modify pid (fun p => { p with lastHeartbeatMs := now }) rfl (fun _ => id) rfl
  | @login conn account token now ks _ hrequest =>
      refine h.update rfl fun q x' hx' hc => ?_
      simp only [emit, addSession, UnorderedMap.lookup_reorder, UnorderedMap.lookup_insert_eq] at hx'
      split at hx'
      · obtain rfl := Option.some.inj hx'
        obtain rfl := Option.some.inj hc
        exact absurd hrequest hφ
      · exact ⟨x', hx', hc⟩
  | @rebind conn pid p now _ _ _ hrequest =>
      refine h.modify pid (fun p =>
        { p with conn := some conn, lastHeartbeatMs := now, expireTimerId := 0 }) rfl
        (fun x hc => ?_) rfl
      obtain rfl := Option.some.inj hc
      exact absurd hrequest hφ
  | @unbind conn pid p =>
      refine h.update ?_ fun q x' hx' hc => ?_
      · unfold unbindSession
        split <;> rfl
      · rw [lookup_unbindSession] at hx'
        obtain ⟨x, hx, rfl⟩ := Option.map_eq_some_iff.mp hx'
        refine ⟨x, hx, ?_⟩
        split at hc
        · cases hc
        · exact hc
  | scheduleExpiry pid =>
      exact h.modify pid (fun p => { p with
        expireTimerId := (s.wheel.add kSessionKeepMs (TimerCb.expireSession pid)).2 }) rfl
        (fun _ => id) rfl
  | erase =>
      refine h.update rfl fun q x' hx' hc => ?_
      simp only [eraseSession, UnorderedMap.lookup_erase_eq] at hx'
      split at hx'
      · cases hx'
      · exact ⟨x', hx', hc⟩
  | @forfeit pid p hthreads hp hnone hroom =>
      have hmem : p.roomId ∈ s.rooms := (hbase.tables.session hp).room hroom
      obtain ⟨cell, hcell⟩ := Option.isSome_iff_exists.mp (hbase.live hmem)
      have hmail : Held c P (s.mail p.roomId (.forceEnd (s.opponent pid p.roomId))) :=
        h.mail hcell (by simp)
      refine hmail.update rfl fun q x' hx' hc => ?_
      simp only [eraseSession, UnorderedMap.lookup_erase_eq] at hx'
      split at hx'
      · cases hx'
      · exact ⟨x', hx', hc⟩
  | @wait pid =>
      exact h.modify pid (fun p => { p with state := .kMatching }) rfl (fun _ => id) rfl
  | @pair pid a b p pa pb q ks hp hconn hstate _ _ hpa hpb =>
      have hjoin : Held c P (s.joinQueue pid) :=
        h.modify pid (fun p => { p with state := .kMatching }) rfl (fun _ => id) rfl
      have hids : pa.playerId = a ∧ pb.playerId = b := by
        obtain ⟨-, -, htables⟩ := hbase.joinQueue hp hconn hstate
        exact ⟨(htables.session hpa).id, (htables.session hpb).id⟩
      refine ⟨fun q' x' hx' hc => ?_, fun r cell q' hcell hq' => ?_, fun r cell q' hcell hq' => ?_⟩
      · rw [lookup_pairUp] at hx'
        obtain ⟨x, hx, rfl⟩ := Option.map_eq_some_iff.mp hx'
        refine hjoin.sessions q' x hx ?_
        split at hc <;> exact hc
      · rw [cells_joined] at hcell
        split at hcell
        · obtain rfl := Option.some.inj hcell
          rw [Room.conns_new, hids.1, hids.2] at hq'
          split at hq'
          · next heq => exact heq ▸ hjoin.sessions b pb hpb (Option.some.inj hq')
          · split at hq'
            · next heq => exact heq ▸ hjoin.sessions a pa hpa (Option.some.inj hq')
            · cases hq'
        · exact h.slots r cell q' hcell hq'
      · rw [cells_joined] at hcell
        split at hcell
        · obtain rfl := Option.some.inj hcell
          cases hq'
        · exact h.tasks r cell q' hcell hq'
  | @matchTimeout n rest node w pid =>
      unfold Lobby.matchTimeout
      dsimp only
      split
      · split <;>
          exact h.modify pid (fun p => { p with state := .kLobby }) rfl (fun _ => id) rfl
      · exact ⟨h.sessions, h.slots, h.tasks⟩
  | mail hthreads hcell hpost =>
      refine h.mail hcell fun q hq => ?_
      subst hq
      exact h.postable hpost
  | quiet hcell hsource _ _ _ hcells =>
      exact h.replace hcells rfl (fun q => h.slot_apply hcell hsource)
        fun q hq => h.tasks _ _ q hcell (hsource.mem hq)
  | @closing r cell op mailbox cells winner pre hcell hsource _ _ _ _ _ hcells =>
      have hreplace : ∀ {s' : Lobby F}, s'.cells = cells → s'.sessions = s.sessions →
          Held c P s' := by
        intro s' hs' hsessions
        refine h.replace (hs' ▸ hcells) hsessions (fun q => h.slot_apply hcell hsource)
          fun q hq => h.tasks r cell q hcell (hsource.mem ?_)
        simpa using hq
      unfold closeRoom
      split
      · refine Held.onRoomEnd ?_ r winner
        exact hreplace rfl rfl
      · exact hreplace rfl rfl
  | @roomEnd r winner rest =>
      refine Held.onRoomEnd ?_ r winner
      exact ⟨h.sessions, h.slots, h.tasks⟩
  | plain | take | skip | wheelTick | scheduleSweep => exact ⟨h.sessions, h.slots, h.tasks⟩

/-- The table of connections has the entry it had. -/
theorem Move.connToPlayer_lookup {φ : Deed → Prop} {c : Conn} (hrequest : ¬φ (.requests c))
    (hclose : ¬φ (.closes c)) {s s' : Lobby F} (hmove : Move φ s s') :
    s'.connToPlayer.lookup c = s.connToPlayer.lookup c := by
  cases hmove with
  | @login conn account token now ks _ hreq | @rebind conn pid p now _ _ _ hreq =>
      refine (UnorderedMap.lookup_insert_eq _ _ _ _).trans (if_neg ?_)
      rintro rfl
      exact hrequest hreq
  | @unbind conn pid p _ _ _ hcl =>
      rw [connToPlayer_unbindSession, UnorderedMap.lookup_erase_eq, if_neg]
      rintro rfl
      exact hclose hcl
  | @pair pid a b p pa pb q ks =>
      obtain ⟨wheel, timers, heq⟩ := pairUp_eq ks a b pa pb q (s.joinQueue pid)
      rw [heq]
      rfl
  | matchTimeout =>
      unfold Lobby.matchTimeout
      dsimp only
      split
      · split <;> rfl
      · rfl
  | closing =>
      unfold closeRoom
      split
      · exact congrArg (fun core : Core => core.connToPlayer.lookup c) (core_onRoomEnd ..)
      · rfl
  | roomEnd => exact congrArg (fun core : Core => core.connToPlayer.lookup c) (core_onRoomEnd ..)
  | _ => rfl

/-- Nothing is known of connection `c`. -/
structure Fresh (c : Conn) (s : Lobby F) : Prop where
  table : s.connToPlayer.lookup c = none
  held : Held c (fun _ => False) s

omit [Scalar F] in
theorem fresh_init (c : Conn) (gameThreads : ℕ) (writer : Bool) :
    Fresh c (Lobby.init gameThreads writer : Lobby F) := by
  refine ⟨?_, ?_, ?_, ?_⟩ <;> simp [Lobby.init, scheduleSweep]

/-- Moves made without a request on the connection leave it unknown, and send
it nothing of importance. -/
theorem Fresh.move {φ : Deed → Prop} {c : Conn} (hrequest : ¬φ (.requests c))
    (hclose : ¬φ (.closes c)) {s s' : Lobby F} (hbase : Base s) (h : Fresh c s)
    (hmove : Move φ s s') :
    Fresh c s' ∧ ∃ es, s'.log = s.log ++ es ∧ ∀ msg ∈ sentTo c es, msg.inert = true := by
  refine ⟨⟨(hmove.connToPlayer_lookup hrequest hclose).trans h.table,
    h.held.move hrequest hbase hmove⟩, ?_⟩
  have hacts : ∀ {r cell op mailbox}, s.cells.lookup r = some cell →
      s.Source r cell op mailbox →
      sentTo c ((cell.room.apply op).2.map (Entry.room r)) = [] := by
    intro r cell op mailbox hcell hsource
    rw [sentTo_room, List.flatMap_eq_nil_iff]
    intro act hact
    rw [List.eq_nil_iff_forall_not_mem]
    intro msg hmsg
    obtain ⟨q, hq⟩ := (Room.mem_toConn hact hmsg).1
    exact h.held.slot_apply hcell hsource hq
  have hsilent : ∀ {es : List (Entry F)}, sentTo c es = [] → s'.log = s.log ++ es →
      ∃ es, s'.log = s.log ++ es ∧ ∀ msg ∈ sentTo c es, msg.inert = true := by
    intro es hes hlog
    exact ⟨es, hlog, by simp [hes]⟩
  cases hmove with
  | plain es store hplain hanswer =>
      refine ⟨es, rfl, fun msg hmsg => ?_⟩
      obtain ⟨e, he, hmem⟩ := mem_sentTo.mp hmsg
      refine Entry.inert_of_plain (hplain e he) (fun hc => ?_) msg hmem
      exact hrequest (hanswer e he c hc)
  | @login conn account token now ks _ hreq | @rebind conn pid p now _ _ _ hreq =>
      refine hsilent ?_ rfl
      have hne : conn ≠ c := by
        rintro rfl
        exact hrequest hreq
      simp [sentTo, Entry.toConn, hne]
  | unbind =>
      unfold unbindSession
      split <;> exact ⟨[], (List.append_nil _).symm, by simp⟩
  | @wait pid =>
      exact hsilent (show sentTo c [.queued pid s.wheel.nowTick] = [] from rfl) rfl
  | @pair pid a b p pa pb q ks =>
      obtain ⟨wheel, timers, heq⟩ := pairUp_eq ks a b pa pb q (s.joinQueue pid)
      rw [heq]
      exact ⟨[.queued pid s.wheel.nowTick, .created s.nextRoomId a b pa.account pb.account],
        List.append_assoc .., by simp [sentTo, Entry.toConn]⟩
  | @matchTimeout n rest node w pid =>
      unfold Lobby.matchTimeout
      dsimp only
      split
      · split
        · exact ⟨[], (List.append_nil _).symm, by simp⟩
        · next c' hc' =>
            have hne : c' ≠ c := by
              rintro rfl
              obtain ⟨x, hx, hxc⟩ := Option.bind_eq_some_iff.mp hc'
              exact h.held.sessions pid x hx hxc
            exact ⟨[.send c' (.enterRoom 0 [])], rfl, by simp [sentTo, Entry.toConn, hne]⟩
      · exact ⟨[], (List.append_nil _).symm, by simp⟩
  | quiet hcell hsource => exact hsilent (hacts hcell hsource) rfl
  | @closing r cell op mailbox cells winner pre hcell hsource =>
      have hnil := hacts hcell hsource
      unfold closeRoom
      split
      · obtain ⟨es, hes, hsent⟩ := sentTo_onRoomEnd c r winner ({ s with
            cells := cells
            log := s.log ++ (cell.room.apply op).2.map (Entry.room r) } : Lobby F)
        refine ⟨_, hes.trans (List.append_assoc ..), ?_⟩
        simp [hnil, hsent]
      · exact ⟨_, rfl, by simp [hnil]⟩
  | @roomEnd r winner rest =>
      obtain ⟨es, hes, hsent⟩ := sentTo_onRoomEnd c r winner ({ s with roomEnds := rest } : Lobby F)
      exact ⟨es, hes, by simp [hsent]⟩
  | heartbeat | scheduleExpiry | erase | forfeit | take | skip | wheelTick | scheduleSweep | mail =>
      exact ⟨[], (List.append_nil _).symm, by simp⟩

end GameServer.Game
