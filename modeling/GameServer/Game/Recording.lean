import GameServer.Game.Settlement

/-!
Results of battles on their way to the storage.

`onRoomEnd` looks for the accounts of the two players among the sessions. It
finds both as long as no session is erased while its battle is unsettled.
`expireSession` does erase such a session. With a room on the lobby's own
loop that is too late to matter, because the forfeit it posts settles the
battle at once. With a room on another thread the settlement comes later and
finds one account only, so the battle is not recorded.
-/

namespace GameServer.Game

open GameServer.Lib GameServer.Proto GameServer.Timer
open Lobby

variable {F : Type}

/-! ### The log -/

/-- A run of `onRoomEnd` for room `r`: the winner, and what it enqueued. -/
def Entry.settlement (r : ℕ) : Entry F → Option (ℕ × Option StoreTask)
  | .settled r' w task => if r' = r then some (w, task) else none
  | _ => none

def settlements (r : ℕ) (log : List (Entry F)) : List (ℕ × Option StoreTask) :=
  log.filterMap (Entry.settlement r)

def Entry.enqueuedResult : Entry F → Option StoreTask
  | .enqueue (.settle winner loser) => some (.settle winner loser)
  | _ => none

def Entry.settledResult : Entry F → Option StoreTask
  | .settled _ _ task => task
  | _ => none

/-- Every settlement task in the queue of the storage comes from a run of
`onRoomEnd`, and the other way round. -/
def Balanced (log : List (Entry F)) : Prop :=
  log.filterMap Entry.enqueuedResult = log.filterMap Entry.settledResult

/-- What `onRoomEnd` writes into the log. -/
def settleEntries (r w : ℕ) (s : Lobby F) : List (Entry F) :=
  let winnerAcc := s.lastAccount r (· = w)
  let loserAcc := s.lastAccount r (· ≠ w)
  if s.writer && winnerAcc ≠ "" && loserAcc ≠ "" then
    [.enqueue (.settle winnerAcc loserAcc), .settled r w (some (.settle winnerAcc loserAcc))]
  else [.settled r w none]

theorem writer_onRoomEnd (r w : ℕ) (s : Lobby F) : (s.onRoomEnd r w).writer = s.writer := by
  simp only [onRoomEnd, enqueue, emit]
  split
  · split <;> rfl
  · rfl

theorem log_onRoomEnd (r w : ℕ) (s : Lobby F) :
    (s.onRoomEnd r w).log = s.log ++ settleEntries r w s := by
  simp only [onRoomEnd, settleEntries]
  split
  · next hcond =>
      have hwriter : s.writer = true := by
        simp only [Bool.and_eq_true] at hcond
        exact hcond.1.1
      simp [enqueue, emit, hwriter]
  · simp [emit]

@[simp] theorem settlements_append (r : ℕ) (log es : List (Entry F)) :
    settlements r (log ++ es) = settlements r log ++ settlements r es :=
  List.filterMap_append

theorem settlements_settleEntries (r w : ℕ) (s : Lobby F) :
    settlements r (settleEntries r w s) =
      [(w, if s.writer && s.lastAccount r (· = w) ≠ "" && s.lastAccount r (· ≠ w) ≠ "" then
        some (.settle (s.lastAccount r (· = w)) (s.lastAccount r (· ≠ w))) else none)] := by
  simp only [settleEntries]
  split <;> simp [settlements, List.filterMap_cons, Entry.settlement]

theorem Balanced.append {log es : List (Entry F)} (h : Balanced log)
    (hes : es.filterMap Entry.enqueuedResult = es.filterMap Entry.settledResult) :
    Balanced (log ++ es) := by
  unfold Balanced at h ⊢
  rw [List.filterMap_append, List.filterMap_append, h, hes]

theorem Balanced.onRoomEnd {s : Lobby F} (h : Balanced s.log) (r w : ℕ) :
    Balanced (s.onRoomEnd r w).log := by
  rw [log_onRoomEnd]
  refine h.append ?_
  simp only [settleEntries]
  split <;> simp [List.filterMap_cons, Entry.enqueuedResult, Entry.settledResult]

theorem Balanced.room {log : List (Entry F)} (h : Balanced log) (acts : List (RoomAct F)) (r : ℕ) :
    Balanced (log ++ acts.map (Entry.room r)) := by
  refine h.append ?_
  rw [List.filterMap_map, List.filterMap_map]
  rfl

/-- The account is that of the only session that a loop picks. -/
theorem lastAccount_eq {s : Lobby F} {r k : ℕ} {x : Session} {which : ℕ → Bool}
    (hx : s.sessions.lookup k = some x) (hr : x.roomId = r) (hk : which k = true)
    (honly : ∀ q z, s.sessions.lookup q = some z → z.roomId = r → which q = true → q = k) :
    s.lastAccount r which = x.account := by
  unfold lastAccount
  rw [UnorderedMap.foldl_entries_of_skip (k := k), hx]
  · simp [hr, hk]
  · intro acc e he hek
    have hmem := UnorderedMap.mem_entries_iff.mp he
    rw [if_neg]
    intro hcond
    simp only [Bool.and_eq_true, decide_eq_true_eq] at hcond
    exact hek (honly e.1 e.2 hmem hcond.1 hcond.2)

/-! ### The ledger -/

/-- The session of `p` is in room `r` and belongs to this account. -/
def Lobby.Plays (s : Lobby F) (p r : ℕ) (account : String) : Prop :=
  ∃ x, s.sessions.lookup p = some x ∧ x.roomId = r ∧ x.account = account

/-- What `onRoomEnd` has to enqueue when `w` wins the battle. -/
def Founding.result (f : Founding) (writer : Bool) (w : ℕ) : Option StoreTask :=
  if writer && f.accountA ≠ "" && f.accountB ≠ "" then
    some (if w = f.a then .settle f.accountA f.accountB else .settle f.accountB f.accountA)
  else none

/-- The `onRoomEnd` calls that wait for room `r`. -/
def Lobby.waitingEnds (s : Lobby F) (r : ℕ) : List (ℕ × ℕ) := s.roomEnds.filter fun e => e.1 = r

/-- A battle is unsettled, and both sessions are there, or it is settled. -/
inductive Recorded (s : Lobby F) (f : Founding) : Prop where
  | running (hroom : f.roomId ∈ s.rooms) (hends : endings f.roomId s.log = [])
      (hwaiting : s.waitingEnds f.roomId = []) (hsettled : settlements f.roomId s.log = [])
      (ha : s.Plays f.a f.roomId f.accountA) (hb : s.Plays f.b f.roomId f.accountB)
  | waiting {w : ℕ} {slots : List (ℕ × Conn)} (hroom : f.roomId ∈ s.rooms)
      (hends : endings f.roomId s.log = [.broadcast (.battleEnd w) slots, .onEnd f.roomId w])
      (hwaiting : s.waitingEnds f.roomId = [(f.roomId, w)])
      (hsettled : settlements f.roomId s.log = [])
      (ha : s.Plays f.a f.roomId f.accountA) (hb : s.Plays f.b f.roomId f.accountB)
  | settled {w : ℕ} {slots : List (ℕ × Conn)} (hroom : f.roomId ∉ s.rooms)
      (hends : endings f.roomId s.log = [.broadcast (.battleEnd w) slots, .onEnd f.roomId w])
      (hwaiting : s.waitingEnds f.roomId = [])
      (hsettled : settlements f.roomId s.log = [(w, f.result s.writer w)])

structure Ledger (s : Lobby F) : Prop where
  recorded : ∀ f ∈ foundings s.log, Recorded s f
  fresh : ∀ r, s.cells.lookup r = none → s.waitingEnds r = [] ∧ settlements r s.log = []
  noForce : ∀ r cell w, s.cells.lookup r = some cell → RoomTask.forceEnd w ∉ cell.mailbox
  balanced : Balanced s.log

/-- The rule for changes that no battle notices. -/
theorem Recorded.congr {s s' : Lobby F} {f : Founding} (h : Recorded s f)
    (hroom : f.roomId ∈ s'.rooms ↔ f.roomId ∈ s.rooms)
    (hends : endings f.roomId s'.log = endings f.roomId s.log)
    (hwaiting : s'.waitingEnds f.roomId = s.waitingEnds f.roomId)
    (hsettled : settlements f.roomId s'.log = settlements f.roomId s.log)
    (hwriter : s'.writer = s.writer)
    (hplays : ∀ p account, f.roomId ∈ s.rooms → s.Plays p f.roomId account →
      s'.Plays p f.roomId account) : Recorded s' f := by
  cases h with
  | running h₁ h₂ h₃ h₄ h₅ h₆ =>
      exact .running (hroom.mpr h₁) (hends.trans h₂) (hwaiting.trans h₃) (hsettled.trans h₄)
        (hplays _ _ h₁ h₅) (hplays _ _ h₁ h₆)
  | waiting h₁ h₂ h₃ h₄ h₅ h₆ =>
      exact .waiting (hroom.mpr h₁) (hends.trans h₂) (hwaiting.trans h₃) (hsettled.trans h₄)
        (hplays _ _ h₁ h₅) (hplays _ _ h₁ h₆)
  | settled h₁ h₂ h₃ h₄ =>
      exact .settled (fun hr => h₁ (hroom.mp hr)) (hends.trans h₂) (hwaiting.trans h₃)
        (by rw [hwriter]; exact hsettled.trans h₄)

/-- `onRoomEnd` settles the battle correctly if both sessions are there. -/
theorem settlements_onRoomEnd {s : Lobby F} {f : Founding} {w : ℕ}
    (htwo : ∃ a b, ∀ {p x}, s.sessions.lookup p = some x → x.roomId = f.roomId → p = a ∨ p = b)
    (hne : f.a ≠ f.b) (hw : w = f.a ∨ w = f.b) (ha : s.Plays f.a f.roomId f.accountA)
    (hb : s.Plays f.b f.roomId f.accountB) :
    settlements f.roomId (s.onRoomEnd f.roomId w).log =
      settlements f.roomId s.log ++ [(w, f.result s.writer w)] := by
  obtain ⟨x, hx, hxr, hxa⟩ := ha
  obtain ⟨y, hy, hyr, hyb⟩ := hb
  obtain ⟨a', b', hab⟩ := htwo
  have honly : ∀ {q z}, s.sessions.lookup q = some z → z.roomId = f.roomId →
      q = f.a ∨ q = f.b := by
    intro q z hz hzr
    have h₁ := hab hx hxr
    have h₂ := hab hy hyr
    have h₃ := hab hz hzr
    omega
  rw [log_onRoomEnd, settlements_append, settlements_settleEntries]
  have haccounts : s.lastAccount f.roomId (· = w) = (if w = f.a then f.accountA else f.accountB) ∧
      s.lastAccount f.roomId (· ≠ w) = (if w = f.a then f.accountB else f.accountA) := by
    rcases hw with rfl | rfl
    · rw [if_pos rfl, if_pos rfl]
      refine ⟨(lastAccount_eq hx hxr (by simp) ?_).trans hxa,
        (lastAccount_eq hy hyr (by simpa using hne.symm) ?_).trans hyb⟩
      · simp
      · intro q z hz hzr hq
        exact (honly hz hzr).resolve_left (by simpa using hq)
    · rw [if_neg hne.symm, if_neg hne.symm]
      refine ⟨(lastAccount_eq hy hyr (by simp) ?_).trans hyb,
        (lastAccount_eq hx hxr (by simpa using hne) ?_).trans hxa⟩
      · simp
      · intro q z hz hzr hq
        exact (honly hz hzr).resolve_right (by simpa using hq)
  rw [haccounts.1, haccounts.2, Founding.result]
  by_cases hwa : w = f.a
  · simp only [if_pos hwa]
  · simp only [if_neg hwa]
    rw [Bool.and_right_comm]

/-! ### Moves -/

/-- An entry that the ledger does not look at. -/
structure Entry.Silent (e : Entry F) : Prop where
  founding : e.founding = none
  ending : ∀ r, e.ending r = none
  settlement : ∀ r, e.settlement r = none
  enqueued : e.enqueuedResult = none
  settled : e.settledResult = none

theorem Entry.silent_of_plain {e : Entry F} (h : e.plain = true) : e.Silent := by
  refine ⟨Entry.founding_of_plain h, Entry.ending_of_plain h, fun r => ?_, ?_, ?_⟩
  · cases e with
    | settled => cases h
    | _ => rfl
  · cases e with
    | enqueue task =>
        cases task with
        | settle => cases h
        | _ => rfl
    | _ => rfl
  · cases e with
    | settled => cases h
    | _ => rfl

theorem Entry.silent_send (conn : Conn) (msg : ServerMsg F) : (Entry.send conn msg).Silent :=
  ⟨rfl, fun _ => rfl, fun _ => rfl, rfl, rfl⟩

theorem Entry.silent_queued (p tick : ℕ) : (Entry.queued p tick : Entry F).Silent :=
  ⟨rfl, fun _ => rfl, fun _ => rfl, rfl, rfl⟩

theorem Entry.silent_quiet {act : RoomAct F} (h : act.quiet = true) (r : ℕ) :
    (Entry.room r act).Silent :=
  ⟨rfl, fun _ => Entry.ending_of_quiet h r _, fun _ => rfl, rfl, rfl⟩

theorem plays_modify {s s' : Lobby F} (p : ℕ) (f : Session → Session)
    (hsessions : s'.sessions = s.sessions.modify p f)
    (hf : ∀ x, (f x).roomId = x.roomId ∧ (f x).account = x.account) {p' r : ℕ} {account : String}
    (h : s.Plays p' r account) : s'.Plays p' r account := by
  obtain ⟨x, hx, hr, ha⟩ := h
  by_cases hp : p' = p
  · refine ⟨f x, ?_, (hf x).1.trans hr, (hf x).2.trans ha⟩
    rw [hsessions, UnorderedMap.lookup_modify, if_pos hp, hx]
    rfl
  · refine ⟨x, ?_, hr, ha⟩
    rw [hsessions, UnorderedMap.lookup_modify, if_neg hp, hx]

/-- The rule for moves that the ledger does not notice. -/
theorem Ledger.update {s s' : Lobby F} (h : Ledger s) (hzero : 0 ∉ s.rooms) {es : List (Entry F)}
    (hlog : s'.log = s.log ++ es) (hsilent : ∀ e ∈ es, e.Silent)
    (hfresh : ∀ r, s'.cells.lookup r = none → s.cells.lookup r = none)
    (hforce : ∀ r cell w, s'.cells.lookup r = some cell → RoomTask.forceEnd w ∉ cell.mailbox)
    (hrooms : s'.rooms = s.rooms) (hends : s'.roomEnds = s.roomEnds)
    (hwriter : s'.writer = s.writer)
    (hplays : ∀ p r account, r ≠ 0 → s.Plays p r account → s'.Plays p r account) : Ledger s' := by
  have hfoundings : foundings s'.log = foundings s.log := by
    rw [hlog, foundings_append, foundings_eq_nil fun e he => (hsilent e he).founding, List.append_nil]
  have hendings : ∀ r, endings r s'.log = endings r s.log := by
    intro r
    rw [hlog, endings_append, endings_eq_nil fun e he => (hsilent e he).ending r, List.append_nil]
  have hsettle : ∀ r, settlements r s'.log = settlements r s.log := by
    intro r
    have hnil : settlements r es = [] :=
      List.filterMap_eq_nil_iff.mpr fun e he => (hsilent e he).settlement r
    rw [hlog, settlements_append, hnil, List.append_nil]
  have hwaiting : ∀ r, s'.waitingEnds r = s.waitingEnds r := by
    intro r
    unfold waitingEnds
    rw [hends]
  refine ⟨fun f hf => ?_, fun r hr => ?_, hforce, ?_⟩
  · rw [hfoundings] at hf
    refine (h.recorded f hf).congr (by rw [hrooms]) (hendings _) (hwaiting _) (hsettle _) hwriter
      fun p account hmem hp => hplays p _ account (fun h0 => hzero (h0 ▸ hmem)) hp
  · rw [hwaiting, hsettle]
    exact h.fresh r (hfresh r hr)
  · rw [hlog]
    refine h.balanced.append ?_
    rw [List.filterMap_eq_nil_iff.mpr fun e he => (hsilent e he).enqueued,
      List.filterMap_eq_nil_iff.mpr fun e he => (hsilent e he).settled]

theorem Ledger.frame {s s' : Lobby F} (h : Ledger s) (hzero : 0 ∉ s.rooms) {es : List (Entry F)}
    (hlog : s'.log = s.log ++ es) (hsilent : ∀ e ∈ es, e.Silent) (hcells : s'.cells = s.cells)
    (hrooms : s'.rooms = s.rooms) (hends : s'.roomEnds = s.roomEnds)
    (hwriter : s'.writer = s.writer)
    (hplays : ∀ p r account, r ≠ 0 → s.Plays p r account → s'.Plays p r account) : Ledger s' :=
  h.update hzero hlog hsilent (fun _ hr => hcells ▸ hr) (hcells ▸ h.noForce) hrooms hends hwriter
    hplays

/-- A room has got a new mailbox or made a step. -/
theorem Ledger.replace {s s' : Lobby F} (h : Ledger s) (hzero : 0 ∉ s.rooms) {es : List (Entry F)}
    (hlog : s'.log = s.log ++ es) (hsilent : ∀ e ∈ es, e.Silent) {r : ℕ} {cell : RoomCell F}
    (hcells : s.Replaced r cell s'.cells) (hforce : ∀ w, RoomTask.forceEnd w ∉ cell.mailbox)
    (hrooms : s'.rooms = s.rooms) (hends : s'.roomEnds = s.roomEnds)
    (hwriter : s'.writer = s.writer) (hsessions : s'.sessions = s.sessions) : Ledger s' := by
  refine h.update hzero hlog hsilent (fun r' hr' => ?_) (fun r' c w hc => ?_) hrooms hends hwriter
    fun _ _ _ _ ⟨x, hx, hr, ha⟩ => ⟨x, by rw [hsessions]; exact hx, hr, ha⟩
  · rw [hcells r'] at hr'
    split at hr'
    · cases hr'
    · exact hr'
  · rw [hcells r'] at hc
    split at hc
    · obtain rfl := Option.some.inj hc
      exact hforce w
    · exact h.noForce r' c w hc

theorem settlements_onRoomEnd_ne {r r' : ℕ} (hr : r' ≠ r) (w : ℕ) (s : Lobby F) :
    settlements r' (s.onRoomEnd r w).log = settlements r' s.log := by
  have hnil : settlements r' (settleEntries r w s) = [] := by
    simp only [settleEntries]
    split <;> simp [settlements, List.filterMap_cons, Entry.settlement, Ne.symm hr]
  rw [log_onRoomEnd, settlements_append, hnil, List.append_nil]

/-- `onRoomEnd` settles its room and leaves the others alone. -/
theorem Recorded.onRoomEnd {s : Lobby F} {f : Founding} {r w : ℕ}
    (hother : f.roomId ≠ r → Recorded s f)
    (hself : f.roomId = r → Recorded (s.onRoomEnd r w) f) : Recorded (s.onRoomEnd r w) f := by
  by_cases hr : f.roomId = r
  · exact hself hr
  · have hrooms : (s.onRoomEnd r w).rooms = s.rooms.erase r :=
      congrArg Core.rooms (core_onRoomEnd r w s)
    refine (hother hr).congr ?_ (endings_onRoomEnd ..) ?_ (settlements_onRoomEnd_ne hr w s)
      (writer_onRoomEnd r w s) ?_
    · rw [hrooms, List.mem_erase_of_ne hr]
    · unfold waitingEnds
      rw [(cells_onRoomEnd r w s).2.1]
    · rintro p account hmem ⟨x, hx, hxr, hxa⟩
      refine ⟨x, ?_, hxr, hxa⟩
      rw [lookup_onRoomEnd, hx]
      simp [Session.leave, hxr, hr]

theorem Recorded.settle {s : Lobby F} {f : Founding} {w : ℕ} {slots : List (ℕ × Conn)}
    (hnodup : s.rooms.Nodup)
    (hends : endings f.roomId s.log = [.broadcast (.battleEnd w) slots, .onEnd f.roomId w])
    (hwaiting : s.waitingEnds f.roomId = []) (hsettled : settlements f.roomId s.log = [])
    (htwo : ∃ a b, ∀ {p x}, s.sessions.lookup p = some x → x.roomId = f.roomId → p = a ∨ p = b)
    (hne : f.a ≠ f.b) (hw : w = f.a ∨ w = f.b) (ha : s.Plays f.a f.roomId f.accountA)
    (hb : s.Plays f.b f.roomId f.accountB) : Recorded (s.onRoomEnd f.roomId w) f := by
  have hrooms : (s.onRoomEnd f.roomId w).rooms = s.rooms.erase f.roomId :=
    congrArg Core.rooms (core_onRoomEnd f.roomId w s)
  refine .settled ?_ ((endings_onRoomEnd ..).trans hends) ?_ ?_
  · rw [hrooms]
    exact hnodup.not_mem_erase
  · unfold waitingEnds
    rw [(cells_onRoomEnd f.roomId w s).2.1]
    exact hwaiting
  · rw [settlements_onRoomEnd htwo hne hw ha hb, hsettled, writer_onRoomEnd]
    rfl

theorem settlements_room (acts : List (RoomAct F)) (r r' : ℕ) :
    settlements r (acts.map (Entry.room r')) = [] := by
  refine List.filterMap_eq_nil_iff.mpr fun e he => ?_
  obtain ⟨act, -, rfl⟩ := List.mem_map.mp he
  rfl

theorem ledger_init (gameThreads : ℕ) (writer : Bool) :
    Ledger (Lobby.init gameThreads writer : Lobby F) := by
  constructor <;>
    simp [Lobby.init, Lobby.scheduleSweep, foundings, waitingEnds, settlements, Balanced]

/-- The winner of a founded room is one of the two it was made for. -/
theorem Founded.winner {s : Lobby F} (h : Founded s) {f : Founding} (hf : f ∈ foundings s.log)
    {cell : RoomCell F} (hcell : s.cells.lookup f.roomId = some cell) {w : ℕ}
    (hw : cell.HasSeat w) : f.a ≠ f.b ∧ (w = f.a ∨ w = f.b) := by
  obtain ⟨c, hc, hseats⟩ := h.seats f hf
  obtain rfl := Option.some.inj (hc.symm.trans hcell)
  exact ⟨hseats.players.ne, (hseats.conns w).mp hw⟩

theorem RoomsOk.winner {s : Lobby F} (h : RoomsOk s) {f : Founding} (hf : f ∈ foundings s.log)
    {w : ℕ} {slots : List (ℕ × Conn)}
    (hends : endings f.roomId s.log = [.broadcast (.battleEnd w) slots, .onEnd f.roomId w]) :
    f.a ≠ f.b ∧ (w = f.a ∨ w = f.b) := by
  obtain ⟨cell, hcell, -⟩ := h.founded.seats f hf
  have hend := h.ends f.roomId
  simp only [Lobby.Endings, hcell, hends] at hend
  rcases hend with ⟨-, hnil⟩ | ⟨-, w', slots', hseat, heq⟩
  · cases hnil
  · simp only [List.cons.injEq, RoomAct.broadcast.injEq, ServerMsg.battleEnd.injEq] at heq
    exact h.founded.winner hf hcell (heq.1.1 ▸ hseat)

/-- The battle of founding `f` has been won, and the lobby has not heard of it. -/
structure Won (s : Lobby F) (f : Founding) (winner : ℕ) : Prop where
  room : f.roomId ∈ s.rooms
  ends : ∃ slots, endings f.roomId s.log =
    [.broadcast (.battleEnd winner) slots, .onEnd f.roomId winner]
  waiting : s.waitingEnds f.roomId = []
  settled : settlements f.roomId s.log = []
  playsA : s.Plays f.a f.roomId f.accountA
  playsB : s.Plays f.b f.roomId f.accountB
  ne : f.a ≠ f.b
  winner : winner = f.a ∨ winner = f.b

/-- A ledger in which room `r` has just ended. -/
structure Closing (s : Lobby F) (r winner : ℕ) : Prop where
  recorded : ∀ f ∈ foundings s.log, f.roomId ≠ r → Recorded s f
  won : ∀ f ∈ foundings s.log, f.roomId = r → Won s f winner
  fresh : ∀ r', s.cells.lookup r' = none →
    r' ≠ r ∧ s.waitingEnds r' = [] ∧ settlements r' s.log = []
  noForce : ∀ r' cell w, s.cells.lookup r' = some cell → RoomTask.forceEnd w ∉ cell.mailbox
  balanced : Balanced s.log

/-- The lobby hears of it. -/
theorem Closing.onRoomEnd {s : Lobby F} {r winner : ℕ} (h : Closing s r winner)
    (hnodup : s.rooms.Nodup)
    (htwo : ∃ a b, ∀ {p x}, s.sessions.lookup p = some x → x.roomId = r → p = a ∨ p = b) :
    Ledger (s.onRoomEnd r winner) := by
  refine ⟨fun f hf => ?_, fun r' hr' => ?_, ?_, h.balanced.onRoomEnd r winner⟩
  · rw [foundings_onRoomEnd] at hf
    refine Recorded.onRoomEnd (h.recorded f hf) fun hr => ?_
    have hwon := h.won f hf hr
    obtain ⟨slots, hends⟩ := hwon.ends
    subst hr
    exact Recorded.settle hnodup hends hwon.waiting hwon.settled htwo hwon.ne hwon.winner
      hwon.playsA hwon.playsB
  · rw [(cells_onRoomEnd ..).1] at hr'
    obtain ⟨hne, hwait, hset⟩ := h.fresh r' hr'
    refine ⟨?_, (settlements_onRoomEnd_ne hne winner s).trans hset⟩
    unfold waitingEnds
    rw [(cells_onRoomEnd ..).2.1]
    exact hwait
  · rw [(cells_onRoomEnd ..).1]
    exact h.noForce

/-- The end of the room waits for the lobby. -/
theorem Closing.queued {s : Lobby F} {r winner : ℕ} (h : Closing s r winner) :
    Ledger { s with roomEnds := s.roomEnds ++ [(r, winner)] } := by
  have hwaits : ∀ r', ({ s with roomEnds := s.roomEnds ++ [(r, winner)] } : Lobby F).waitingEnds r'
      = s.waitingEnds r' ++ if r = r' then [(r, winner)] else [] := by
    intro r'
    unfold waitingEnds
    rw [List.filter_append]
    by_cases hr : r = r' <;> simp [hr]
  refine ⟨fun f hf => ?_, fun r' hr' => ?_, h.noForce, h.balanced⟩
  · by_cases hr : f.roomId = r
    · have hwon := h.won f hf hr
      obtain ⟨slots, hends⟩ := hwon.ends
      subst hr
      refine .waiting hwon.room hends ?_ hwon.settled hwon.playsA hwon.playsB
      rw [hwaits, hwon.waiting, if_pos rfl]
      rfl
    · refine (h.recorded f hf hr).congr Iff.rfl rfl ?_ rfl rfl fun _ _ _ hp => hp
      rw [hwaits, if_neg (Ne.symm hr), List.append_nil]
  · obtain ⟨hne, hwait, hset⟩ := h.fresh r' hr'
    rw [hwaits, hwait, if_neg (Ne.symm hne)]
    exact ⟨rfl, hset⟩

theorem Ledger.roomEnd {s : Lobby F} (hbase : Base s) (hrooms : RoomsOk s) (h : Ledger s)
    {r w : ℕ} {rest : List (ℕ × ℕ)} (hends : s.roomEnds = (r, w) :: rest) :
    Ledger ({ s with roomEnds := rest }.onRoomEnd r w) := by
  have hwaits : ∀ r', s.waitingEnds r' = (if r = r' then [(r, w)] else []) ++
      ({ s with roomEnds := rest } : Lobby F).waitingEnds r' := by
    intro r'
    unfold waitingEnds
    rw [hends]
    by_cases hr : r = r' <;> simp [hr]
  have hcell : (s.cells.lookup r).isSome := by
    by_contra hnone
    obtain ⟨hwait, -⟩ := h.fresh r (by simpa using hnone)
    rw [hwaits, if_pos rfl] at hwait
    cases hwait
  obtain ⟨cell, hcell⟩ := Option.isSome_iff_exists.mp hcell
  have hclosing : Closing { s with roomEnds := rest } r w := by
    refine ⟨fun f hf hr => ?_, fun f hf hr => ?_, fun r' hr' => ?_, h.noForce, h.balanced⟩
    · refine (h.recorded f hf).congr Iff.rfl rfl ?_ rfl rfl fun _ _ _ hp => hp
      rw [hwaits, if_neg (Ne.symm hr), List.nil_append]
    · subst hr
      have hwait := hwaits f.roomId
      rw [if_pos rfl] at hwait
      cases h.recorded f hf with
      | running _ _ hw => rw [hw] at hwait; cases hwait
      | settled _ _ hw => rw [hw] at hwait; cases hwait
      | waiting hroom hends' hw hsettled ha hb =>
          rw [hw] at hwait
          obtain ⟨hhead, hrest⟩ := List.cons.inj hwait
          obtain rfl := (Prod.mk.inj hhead).2
          obtain ⟨hne, hwin⟩ := hrooms.winner hf hends'
          exact ⟨hroom, ⟨_, hends'⟩, hrest.symm, hsettled, ha, hb, hne, hwin⟩
    · have hr' : s.cells.lookup r' = none := hr'
      have hne : r' ≠ r := by
        rintro rfl
        rw [hcell] at hr'
        cases hr'
      obtain ⟨hwait, hset⟩ := h.fresh r' hr'
      rw [hwaits, if_neg (Ne.symm hne), List.nil_append] at hwait
      exact ⟨hne, hwait, hset⟩
  exact hclosing.onRoomEnd hbase.tables.rooms_nodup (hbase.tables.two r (hbase.cell hcell).pos)

variable [Scalar F]

theorem Ledger.ended {s : Lobby F} (hbase : Base s) (hrooms : RoomsOk s) (h : Ledger s) {r : ℕ}
    {cell : RoomCell F} {op : RoomOp F} {mailbox : List (RoomTask F)}
    {cells : UnorderedMap ℕ (RoomCell F)} {winner : ℕ} {pre : List (RoomAct F)}
    (hcell : s.cells.lookup r = some cell) (hsource : s.Source r cell op mailbox)
    (hrunning : cell.room.ended = false)
    (hwinner : op = .task (.forceEnd winner) ∨ (cell.room.conns.lookup winner).isSome)
    (hpre : ∀ act ∈ pre, act.quiet = true)
    (hacts : (cell.room.apply op).2 = pre ++ (cell.room.apply op).1.closing winner)
    (hcells : s.Replaced r ⟨(cell.room.apply op).1, mailbox ++ [.resetTicker]⟩ cells) :
    Closing { s with
      cells := cells
      log := s.log ++ (cell.room.apply op).2.map (Entry.room r) } r winner := by
  let t : Lobby F := { s with
    cells := cells
    log := s.log ++ (cell.room.apply op).2.map (Entry.room r) }
  have hid : (cell.room.apply op).1.id = r := (Room.apply_id _ _).trans (hbase.cell hcell).id
  have hlog : ∀ r', endings r' t.log = endings r' s.log ++
      if r = r' then [(cell.room.apply op).1.broadcast (.battleEnd winner), .onEnd r winner]
      else [] := fun r' => by
    rw [← hid]
    exact (endings_append ..).trans (congrArg _ (hid ▸ endings_closing hpre hacts r' r))
  have hsettle : ∀ r', settlements r' t.log = settlements r' s.log := fun r' =>
    (settlements_append ..).trans (by rw [settlements_room, List.append_nil])
  have hfoundings : foundings t.log = foundings s.log :=
    (foundings_append ..).trans (by rw [foundings_room, List.append_nil])
  refine ⟨fun f hf hr => ?_, fun f hf hr => ?_, fun r' hr' => ?_, fun r' c w hc hmem => ?_,
    h.balanced.room _ r⟩
  · -- another room has not noticed
    refine (h.recorded f (hfoundings ▸ hf)).congr Iff.rfl ?_ rfl (hsettle _) rfl fun _ _ _ hp => hp
    exact (hlog _).trans (by rw [if_neg (Ne.symm hr), List.append_nil])
  · -- this one was running
    subst hr
    have hf : f ∈ foundings s.log := hfoundings ▸ hf
    have hend := hrooms.ends f.roomId
    simp only [Lobby.Endings, hcell, hrunning, Bool.false_eq_true, false_and, or_false,
      true_and] at hend
    obtain ⟨hne, hw⟩ := hrooms.founded.winner hf hcell
      (hrooms.seating.winner hbase hcell hsource hrunning hwinner)
    cases h.recorded f hf with
    | running hroom _ hwaiting hsettled ha hb =>
        refine ⟨hroom, ⟨(cell.room.apply op).1.bound, (hlog _).trans ?_⟩, hwaiting,
          (hsettle _).trans hsettled, ha, hb, hne, hw⟩
        rw [hend, if_pos rfl]
        rfl
    | waiting _ hends => rw [hend] at hends; cases hends
    | settled _ hends => rw [hend] at hends; cases hends
  · dsimp only at hr'
    rw [hcells r'] at hr'
    split at hr'
    · cases hr'
    · next hne =>
        obtain ⟨hwait, hset⟩ := h.fresh r' hr'
        exact ⟨hne, hwait, (hsettle r').trans hset⟩
  · dsimp only at hc
    rw [hcells r'] at hc
    split at hc
    · obtain rfl := Option.some.inj hc
      simp only [List.mem_append, List.mem_singleton, reduceCtorEq, or_false] at hmem
      exact h.noForce r cell w hcell (hsource.mem hmem)
    · exact h.noForce r' c w hc hmem

/-- Two players who have just been paired play a battle that runs. -/
theorem Ledger.pair {s : Lobby F} (hbase : Base s) (hrooms : RoomsOk s) (h : Ledger s)
    {pid a b : ℕ} {p pa pb : Session} {q : MatchQueue} (hp : s.sessions.lookup pid = some p)
    (hconn : p.conn.isSome) (hstate : p.state = .kLobby)
    (hwaiting : insert pid s.matchQueue.waiting = {a, b})
    (hpa : (s.joinQueue pid).sessions.lookup a = some pa)
    (hpb : (s.joinQueue pid).sessions.lookup b = some pb) (ks : List ℕ) :
    Ledger ((s.joinQueue pid).pairUp ks a b pa pb q) := by
  obtain ⟨wheel, timers, heq⟩ := pairUp_eq ks a b pa pb q (s.joinQueue pid)
  have hcells := cells_joined ks pid a b pa pb q s
  have hsessions := lookup_pairUp ks a b pa pb q (s.joinQueue pid)
  have hlog : ((s.joinQueue pid).pairUp ks a b pa pb q).log = s.log ++
      [.queued pid s.wheel.nowTick, .created s.nextRoomId a b pa.account pb.account] := by
    rw [heq]
    simp [createRoom, joinQueue]
  have hroomIds : ((s.joinQueue pid).pairUp ks a b pa pb q).rooms = s.nextRoomId :: s.rooms := by
    rw [heq]
    rfl
  have hroomEnds : ((s.joinQueue pid).pairUp ks a b pa pb q).roomEnds = s.roomEnds := by
    rw [heq]
    rfl
  have hwriter : ((s.joinQueue pid).pairUp ks a b pa pb q).writer = s.writer := by
    rw [heq]
    rfl
  generalize (s.joinQueue pid).pairUp ks a b pa pb q = t at *
  have hfoundings : foundings t.log =
      foundings s.log ++ [⟨s.nextRoomId, a, b, pa.account, pb.account⟩] := by
    rw [hlog, foundings_append]
    rfl
  have hends : ∀ r, endings r t.log = endings r s.log := by
    intro r
    rw [hlog]
    simp [endings, Entry.ending]
  have hsettle : ∀ r, settlements r t.log = settlements r s.log := by
    intro r
    rw [hlog]
    simp [settlements, Entry.settlement]
  have hwaits : ∀ r, t.waitingEnds r = s.waitingEnds r := by
    intro r
    unfold waitingEnds
    rw [hroomEnds]
  have hnew : s.cells.lookup s.nextRoomId = none := by
    cases hcell : s.cells.lookup s.nextRoomId with
    | none => rfl
    | some cell => exact absurd (hbase.cell hcell).lt (Nat.lt_irrefl _)
  refine ⟨fun f hf => ?_, fun r hr => ?_, fun r cell w hcell => ?_,
    hlog ▸ h.balanced.append rfl⟩
  · rw [hfoundings] at hf
    rcases List.mem_append.mp hf with hf | hf
    · have hne : f.roomId ≠ s.nextRoomId := by
        intro hr
        obtain ⟨cell, hcell, -⟩ := hrooms.founded.seats f hf
        rw [hr, hnew] at hcell
        cases hcell
      refine (h.recorded f hf).congr ?_ (hends _) (hwaits _) (hsettle _) hwriter ?_
      · simp [hroomIds, hne]
      · rintro c account hmem ⟨x, hx, hxr, hxa⟩
        have hc : ¬(c = a ∨ c = b) := fun hc =>
          hbase.zero_notMem (hbase.pair_free hp hconn hstate hwaiting hc ⟨x, hx, hxr⟩ ▸ hmem)
        have hjoin : (s.joinQueue pid).Plays c f.roomId account :=
          plays_modify pid (fun p => { p with state := .kMatching }) rfl (fun _ => ⟨rfl, rfl⟩)
            ⟨x, hx, hxr, hxa⟩
        obtain ⟨y, hy, hyr, hya⟩ := hjoin
        exact ⟨y, by simp [hsessions, hy, hc], hyr, hya⟩
    · obtain rfl := List.mem_singleton.mp hf
      have hend := hrooms.ends s.nextRoomId
      simp only [Lobby.Endings, hnew] at hend
      obtain ⟨hwait, hset⟩ := h.fresh s.nextRoomId hnew
      refine .running (by simp [hroomIds]) ((hends _).trans hend) ((hwaits _).trans hwait)
        ((hsettle _).trans hset) ⟨_, by rw [hsessions, hpa]; rfl, ?_, ?_⟩
        ⟨_, by rw [hsessions, hpb]; rfl, ?_, ?_⟩
      all_goals simp [joinQueue]
  · rw [hcells] at hr
    split at hr
    · cases hr
    · rw [hwaits, hsettle]
      exact h.fresh r hr
  · rw [hcells] at hcell
    split at hcell
    · obtain rfl := Option.some.inj hcell
      simp
    · exact h.noForce r cell w hcell

theorem Ledger.move {φ : Deed → Prop} (hφ : ¬φ .forfeits) {s s' : Lobby F} (hbase : Base s)
    (hrooms : RoomsOk s) (h : Ledger s) (hmove : Move φ s s') : Ledger s' := by
  have hzero := hbase.zero_notMem
  -- the moves that update one session and keep its room and account
  have hmodify : ∀ {t : Lobby F} (p : ℕ) (f : Session → Session) (es : List (Entry F)),
      t.sessions = s.sessions.modify p f →
      (∀ x, (f x).roomId = x.roomId ∧ (f x).account = x.account) → t.log = s.log ++ es →
      (∀ e ∈ es, e.Silent) → t.cells = s.cells → t.rooms = s.rooms → t.roomEnds = s.roomEnds →
      t.writer = s.writer → Ledger t := fun p f es hsessions hf hlog hes hcells hroomIds hends hw =>
    h.frame hzero hlog hes hcells hroomIds hends hw fun _ _ _ _ hp => plays_modify p f hsessions hf hp
  -- the moves that do not touch the sessions
  have hsame : ∀ {t : Lobby F} (es : List (Entry F)), t.sessions = s.sessions →
      t.log = s.log ++ es → (∀ e ∈ es, e.Silent) → t.cells = s.cells → t.rooms = s.rooms →
      t.roomEnds = s.roomEnds → t.writer = s.writer → Ledger t :=
    fun es hsessions hlog hes hcells hroomIds hends hw =>
      h.frame hzero hlog hes hcells hroomIds hends hw fun _ _ _ _ ⟨x, hx, hr, ha⟩ =>
        ⟨x, by rw [hsessions]; exact hx, hr, ha⟩
  cases hmove with
  | plain es store hplain =>
      exact hsame es rfl rfl (fun e he => Entry.silent_of_plain (hplain e he)) rfl rfl rfl rfl
  | take | skip | wheelTick | scheduleSweep =>
      exact hsame [] rfl (List.append_nil _).symm (by simp) rfl rfl rfl rfl
  | heartbeat pid now =>
      exact hmodify pid (fun p => { p with lastHeartbeatMs := now }) [] rfl (fun _ => ⟨rfl, rfl⟩)
        (List.append_nil _).symm (by simp) rfl rfl rfl rfl
  | login conn account token now ks =>
      refine h.frame hzero
        (show _ = s.log ++ [.send conn (.loginResp 0 s.nextPlayerId token)] from rfl)
        (by simpa using Entry.silent_send ..) rfl rfl rfl rfl ?_
      rintro p r acc hr ⟨x, hx, hxr, hxa⟩
      refine ⟨x, ?_, hxr, hxa⟩
      have hne : p ≠ s.nextPlayerId := Nat.ne_of_lt (hbase.tables.session hx).lt
      simp only [emit, addSession, UnorderedMap.lookup_reorder, UnorderedMap.lookup_insert_eq,
        if_neg hne]
      exact hx
  | @rebind conn pid p now =>
      exact hmodify pid (fun p =>
        { p with conn := some conn, lastHeartbeatMs := now, expireTimerId := 0 })
        [.send conn (.loginResp 0 p.playerId p.token)] rfl (fun _ => ⟨rfl, rfl⟩) rfl
        (by simpa using Entry.silent_send ..) rfl rfl rfl rfl
  | @unbind conn pid p =>
      unfold unbindSession
      split
      · exact hmodify pid (fun p => { p with conn := none, state := .kLobby }) [] rfl
          (fun _ => ⟨rfl, rfl⟩) (List.append_nil _).symm (by simp) rfl rfl rfl rfl
      · exact hmodify pid (fun p => { p with conn := none }) [] rfl (fun _ => ⟨rfl, rfl⟩)
          (List.append_nil _).symm (by simp) rfl rfl rfl rfl
  | scheduleExpiry pid =>
      exact hmodify pid (fun p => { p with
        expireTimerId := (s.wheel.add kSessionKeepMs (TimerCb.expireSession pid)).2 }) [] rfl
        (fun _ => ⟨rfl, rfl⟩) (List.append_nil _).symm (by simp) rfl rfl rfl rfl
  | @erase pid p hp hnone hroom =>
      refine h.frame hzero (show _ = s.log ++ [] from (List.append_nil _).symm) (by simp) rfl rfl rfl
        rfl ?_
      rintro p' r acc hr ⟨x, hx, hxr, hxa⟩
      refine ⟨x, ?_, hxr, hxa⟩
      have hne : p' ≠ pid := by
        rintro rfl
        obtain rfl := Option.some.inj (hx.symm.trans hp)
        exact hr (hxr.symm.trans hroom)
      simp only [eraseSession, UnorderedMap.lookup_erase_eq, if_neg hne]
      exact hx
  | forfeit _ _ _ _ hdeed => exact absurd hdeed hφ
  | @wait pid =>
      exact hmodify pid (fun p => { p with state := .kMatching }) [.queued pid s.wheel.nowTick] rfl
        (fun _ => ⟨rfl, rfl⟩) rfl (by simpa using Entry.silent_queued ..) rfl rfl rfl rfl
  | pair ks hp hconn hstate hne hwaiting hpa hpb hq =>
      exact h.pair hbase hrooms hp hconn hstate hwaiting hpa hpb ks
  | @matchTimeout n rest node w pid =>
      unfold Lobby.matchTimeout
      dsimp only
      split
      · split
        · exact hmodify pid (fun p => { p with state := .kLobby }) [] rfl (fun _ => ⟨rfl, rfl⟩)
            (List.append_nil _).symm (by simp) rfl rfl rfl rfl
        · exact hmodify pid (fun p => { p with state := .kLobby }) [.send _ (.enterRoom 0 [])] rfl
            (fun _ => ⟨rfl, rfl⟩) rfl (by simpa using Entry.silent_send ..) rfl rfl rfl rfl
      · exact hsame [] rfl (List.append_nil _).symm (by simp) rfl rfl rfl rfl
  | @mail r cell task hthreads hcell hpost hforce =>
      refine h.replace hzero (List.append_nil _).symm (by simp) (replaced_mail hcell task)
        (fun w hmem => ?_) rfl rfl rfl rfl
      rcases List.mem_append.mp hmem with hmem | hmem
      · exact h.noForce r cell w hcell hmem
      · exact hforce w (List.mem_singleton.mp hmem).symm
  | @quiet r cell op mailbox cells hcell hsource hended hquiet hforce hcells =>
      refine h.replace hzero rfl (fun e he => ?_) hcells (fun w hmem => ?_) rfl rfl rfl rfl
      · obtain ⟨act, hact, rfl⟩ := List.mem_map.mp he
        exact Entry.silent_quiet (hquiet act hact) r
      · exact h.noForce r cell w hcell (hsource.mem hmem)
  | closing hcell hsource hrunning hended hwinner hpre hacts hcells =>
      have hclosing := h.ended hbase hrooms hcell hsource hrunning hwinner hpre hacts hcells
      unfold closeRoom
      split
      · exact hclosing.onRoomEnd hbase.tables.rooms_nodup
          (hbase.tables.two _ (hbase.cell hcell).pos)
      · exact hclosing.queued
  | roomEnd hends => exact h.roomEnd hbase hrooms hends

theorem Move.writer {φ : Deed → Prop} {s s' : Lobby F} (hmove : Move φ s s') :
    s'.writer = s.writer := by
  cases hmove with
  | unbind =>
      unfold unbindSession
      split <;> rfl
  | @pair pid a b p pa pb q ks =>
      obtain ⟨wheel, timers, heq⟩ := pairUp_eq ks a b pa pb q (s.joinQueue pid)
      rw [heq]
      rfl
  | matchTimeout =>
      unfold Lobby.matchTimeout
      dsimp only
      split
      · split <;> rfl
      · rfl
  | closing =>
      unfold closeRoom
      split
      · exact writer_onRoomEnd ..
      · rfl
  | roomEnd => exact writer_onRoomEnd ..
  | _ => rfl

/-- Everything that has to be known of a room's result. -/
structure RecordedOnce (s : Lobby F) (r a b : ℕ) (accountA accountB : String) : Prop where
  /-- No room enqueues more than one result. -/
  once : (settlements r s.log).length ≤ 1
  /-- A battle that goes on is not settled. -/
  running : endings r s.log = [] → settlements r s.log = []
  /-- When the battle is over, `onRoomEnd` is on its way or has enqueued the
  result. -/
  ended : ∀ w slots, endings r s.log = [.broadcast (.battleEnd w) slots, .onEnd r w] →
    (s.waitingEnds r = [(r, w)] ∧ settlements r s.log = []) ∨
    (s.waitingEnds r = [] ∧ settlements r s.log =
      [(w, some (if w = a then .settle accountA accountB else .settle accountB accountA))])
  /-- The settlements are what has been enqueued. -/
  balanced : Balanced s.log

/-- In a run without forfeits on other threads, every battle between two
accounts is recorded exactly once. -/
theorem battle_recorded_exactly_once (gameThreads : ℕ) (es : List (LobbyEvent F))
    (hok : Along Lobby.step (fun s e => s.commits e .forfeits = false)
      (Lobby.init gameThreads true) es) (r a b : ℕ) (accountA accountB : String)
    (hroom : Entry.created r a b accountA accountB ∈ (Lobby.run gameThreads true es).log)
    (hA : accountA ≠ "") (hB : accountB ≠ "") :
    RecordedOnce (Lobby.run gameThreads true es) r a b accountA accountB := by
  have h : RoomsOk (Lobby.run gameThreads true es) ∧ Ledger (Lobby.run gameThreads true es) ∧
      (Lobby.run gameThreads true es).writer = true := by
    refine invariant_moves (φ := (· ≠ .forfeits))
      (I := fun s => RoomsOk s ∧ Ledger s ∧ s.writer = true)
      ⟨roomsOk_init gameThreads true, ledger_init gameThreads true, rfl⟩
      (fun s s' hbase h hmove => ⟨h.1.move hbase hmove, h.2.1.move (by simp) hbase h.1 hmove,
        hmove.writer.trans h.2.2⟩) (hok.mono fun s e hno deed hf => ?_)
    rintro rfl
    rw [hno] at hf
    cases hf
  obtain ⟨hrooms, hledger, hwriter⟩ := h
  generalize Lobby.run gameThreads true es = s at *
  have hfounding : (⟨r, a, b, accountA, accountB⟩ : Founding) ∈ foundings s.log :=
    mem_foundings.mpr hroom
  have hresult : ∀ w, Founding.result ⟨r, a, b, accountA, accountB⟩ s.writer w =
      some (if w = a then .settle accountA accountB else .settle accountB accountA) := by
    intro w
    simp [Founding.result, hwriter, hA, hB]
  cases hledger.recorded _ hfounding with
  | running _ hends _ hsettled =>
      refine ⟨by simp [hsettled], fun _ => hsettled, fun w slots hw => ?_, hledger.balanced⟩
      rw [hends] at hw
      cases hw
  | waiting _ hends hwaiting hsettled =>
      refine ⟨by simp [hsettled], fun _ => hsettled, fun w slots hw => ?_, hledger.balanced⟩
      rw [hends] at hw
      simp only [List.cons.injEq, RoomAct.onEnd.injEq, true_and, and_true] at hw
      obtain ⟨-, rfl⟩ := hw
      exact .inl ⟨hwaiting, hsettled⟩
  | settled _ hends hwaiting hsettled =>
      refine ⟨by simp [hsettled], fun hnil => ?_, fun w slots hw => ?_, hledger.balanced⟩
      · rw [hends] at hnil
        cases hnil
      · rw [hends] at hw
        simp only [List.cons.injEq, RoomAct.onEnd.injEq, true_and, and_true] at hw
        obtain ⟨-, rfl⟩ := hw
        exact .inr ⟨hwaiting, by rw [hsettled, hresult]⟩

/-- Two players log in, are paired, and one of them shoots the other, who
stands still. The room runs on a game thread, and `onRoomEnd` comes last. -/
theorem battle_recorded_exactly_once_last_hit :
    let es : List (LobbyEvent (Ext ℚ)) :=
      [.login 1 "alice" "t" 0 [], .login 2 "bob" "u" 0 [], .matchReq 1 [], .matchReq 2 [],
        .roomTask 1, .input 1 ⟨1, .fin 0, .fin 0, true⟩, .roomTask 1] ++
      List.replicate 43 (.roomTick 1 []) ++ [.roomTask 1, .roomEnd]
    let s := Lobby.run 2 true es
    RecordedOnce s 1 1 2 "alice" "bob" ∧
      settlements 1 s.log = [(1, some (.settle "alice" "bob"))] := by
  intro es s
  have hok : Along Lobby.step (fun s e => s.commits e .forfeits = false) (Lobby.init 2 true) es := by
    refine along_of_forall (fun e he s => ?_) _
    simp only [es, List.cons_append, List.nil_append, List.mem_cons, List.mem_append,
      List.mem_replicate, List.not_mem_nil, or_false] at he
    rcases he with rfl | rfl | rfl | rfl | rfl | rfl | rfl | ⟨-, rfl⟩ | rfl | rfl <;> rfl
  have hrun : foundings s.log = [⟨1, 1, 2, "alice", "bob"⟩] ∧
      settlements 1 s.log = [(1, some (.settle "alice" "bob"))] := by
    decide +kernel
  have hroom : Entry.created 1 1 2 "alice" "bob" ∈ s.log :=
    mem_foundings.mp (hrun.1 ▸ List.mem_singleton_self _)
  exact ⟨battle_recorded_exactly_once 2 es hok 1 1 2 "alice" "bob" hroom (by decide) (by decide),
    hrun.2⟩

/-- A player who is away for 30 s loses, but the battle is not recorded: its
session is gone when the settlement looks for it. -/
theorem forfeit_on_game_thread_is_not_recorded :
    let es : List (LobbyEvent (Ext ℚ)) :=
      [.login 1 "alice" "t" 0 [], .login 2 "bob" "u" 0 [], .matchReq 1 [], .matchReq 2 [],
        .roomTask 1, .disconnect 1] ++
      (List.range 6).flatMap (fun k => .heartbeat 2 0 (5000 * k) ::
        List.replicate 50 .wheelTick ++ [.fireNext (5000 * (k + 1))]) ++
      [.fireNext 30000, .roomTask 1, .roomTask 1, .roomEnd]
    let s := Lobby.run 1 true es
    Entry.created 1 1 2 "alice" "bob" ∈ s.log ∧ (endings 1 s.log).length = 2 ∧
      s.roomEnds = [] ∧ settlements 1 s.log = [(2, none)] ∧
      ¬RecordedOnce s 1 1 2 "alice" "bob" := by
  intro es s
  have hrun : foundings s.log = [⟨1, 1, 2, "alice", "bob"⟩] ∧ (endings 1 s.log).length = 2 ∧
      s.roomEnds = [] ∧ settlements 1 s.log = [(2, none)] := by
    decide +kernel
  obtain ⟨hfounding, hlength, hends, hnone⟩ := hrun
  have hroom : Entry.created 1 1 2 "alice" "bob" ∈ s.log :=
    mem_foundings.mp (hfounding ▸ List.mem_singleton_self _)
  refine ⟨hroom, hlength, hends, hnone, fun hrec => ?_⟩
  rcases settlement_of_room 1 true es 1 1 2 "alice" "bob" hroom with hnil | ⟨w, slots, -, -, hends⟩
  · simp [s, hnil] at hlength
  · rcases hrec.ended w slots hends with ⟨-, hempty⟩ | ⟨-, hone⟩
    · rw [hnone] at hempty
      cases hempty
    · rw [hnone] at hone
      simp at hone

end GameServer.Game
