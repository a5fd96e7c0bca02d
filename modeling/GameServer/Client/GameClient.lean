import GameServer.Lib.Scalar
import GameServer.Client.GameSession
import GameServer.Client.NetworkClient

/-!
The client as a whole, `client/Assets/Scripts/Client/GameClient.cs` with the
buttons of `GameUI.cs`: the transport drives the session, the session sends
through the transport.

The main thread takes one step for each event it pumps, so the receive thread
may put more events into the queue meanwhile. An exception that a callback
throws ends the frame. Drawing is left out, and so are the fields that only
drawing reads. `sent` are the messages that were handed to `Write`, with the
number of the connection.
-/

namespace GameServer.Client

open GameServer.Lib
open GameServer.Lib.Scalar
open GameServer.Proto

namespace MsgIds

def loginResp : UInt16 := 4

def enterRoom : UInt16 := 11

def stateSnapshot : UInt16 := 21

def battleEnd : UInt16 := 22

def leaderboardResp : UInt16 := 31

end MsgIds

/-- `ParseFrom` for the messages of the server; `none` is an exception. -/
structure Parsers (F : Type) where
  loginResp : List UInt8 → Option (ℤ × ℕ × String)
  enterRoom : List UInt8 → Option (ℕ × List ℕ)
  stateSnapshot : List UInt8 → Option (StateSnapshot F)
  battleEnd : List UInt8 → Option ℕ
  leaderboardResp : List UInt8 → Option (List (String × F))

structure Keyboard where
  spacePressed : Bool
  dKey : Bool
  aKey : Bool
  wKey : Bool
  sKey : Bool

inductive Click where
  | connect (account : String)
  | requestMatch
  | backToLobby

/-- `net` is a step of a receive thread. `update` is `Update` up to `Pump`,
`pump` one round of the loop there, `finish` the rest. `ui` is
`GameUI.Update`, and `drop` sets the switch of the inspector. -/
inductive GameAct (F : Type) where
  | net (a : NetAct)
  | update (now : F)
  | pump
  | finish (nowMs : ℤ) (now : F) (kb : Option Keyboard)
  | click (c : Click)
  | ui
  | drop

structure GameClient (F : Type) where
  net_ : NetworkClient := {}
  session_ : GameSession := {}
  account : String
  autoMatch : Bool
  autoReconnect : Bool
  debugDrop : Bool := false
  reconnectAt_ : F
  lastInputSentAt_ : F
  attackLatch_ : Bool := false
  pumping : Option ℕ := none
  loginPanel : Bool := false
  matchButton : Bool := false
  endPanel : Bool := false
  clicked : Bool := false
  sent : List (ℕ × ClientMsg F) := []

namespace GameSession

variable {F : Type}

/-- The callback of `OnStateChanged`, after a method has changed the state
from `old`. -/
def onStateChanged (autoMatch : Bool) (old : SessionState) (s : GameSession) :
    GameSession × List (ClientMsg F) :=
  if s.state ≠ old ∧ s.state = .lobby ∧ autoMatch then s.requestMatch else (s, [])

/-- `HandleMessage` with all its callbacks; the flag says that it returned. -/
def handleRaw (parsers : Parsers F) (autoMatch : Bool) (m : RawMessage) (s : GameSession) :
    GameSession × List (ClientMsg F) × Bool :=
  if m.msgId = MsgIds.loginResp then
    match parsers.loginResp m.body with
    | some (code, playerId, token) =>
        let r := onStateChanged autoMatch s.state (s.onLoginResp code playerId token)
        (r.1, r.2, true)
    | none => (s, [], false)
  else if m.msgId = MsgIds.enterRoom then
    match parsers.enterRoom m.body with
    | some (roomId, _) =>
        let r := onStateChanged autoMatch s.state (s.onEnterRoom roomId)
        (r.1, r.2, true)
    | none => (s, [], false)
  else if m.msgId = MsgIds.stateSnapshot then
    (s, [], s.state ≠ .inBattle || (parsers.stateSnapshot m.body).isSome)
  else if m.msgId = MsgIds.battleEnd then
    let ended := { s with roomId := 0, wasInBattle := false, state := .battleEnded }
    match parsers.battleEnd m.body with
    | some _ =>
        let r := ended.requestLeaderboard 10
        (r.1, r.2, true)
    | none => (ended, [], false)
  else if m.msgId = MsgIds.leaderboardResp then
    (s, [], (parsers.leaderboardResp m.body).isSome)
  else (s, [], true)

end GameSession

namespace GameClient

variable {F : Type}

/-- `Send` for each of the messages. -/
def send (msgs : List (ClientMsg F)) (s : GameClient F) : GameClient F :=
  match s.net_.stream_ with
  | some k =>
      if s.net_.closed_ then s else { s with sent := s.sent ++ msgs.map fun msg => (k, msg) }
  | none => s

/-- A method of the session has run. -/
def act (r : GameSession × List (ClientMsg F)) (s : GameClient F) : GameClient F :=
  { s with session_ := r.1 }.send r.2

def connect (s : GameClient F) : GameClient F :=
  { s with
    session_ := s.session_.transportConnecting
    net_ := s.net_.step .connect }

/-- What the callbacks make of an event. -/
def raise (parsers : Parsers F) (e : Ev) (s : GameClient F) : GameClient F :=
  match e with
  | .connected => s.act (s.session_.transportConnected s.account)
  | .disconnected _ => { s with session_ := s.session_.transportDisconnected }
  | .message m =>
      let r := s.session_.handleRaw parsers s.autoMatch m
      let s := s.act (r.1, r.2.1)
      if r.2.2 then s else { s with pumping := none }

/-- One round of the loop in `Pump`. -/
def pumpOne (parsers : Parsers F) (s : GameClient F) : GameClient F :=
  match s.pumping with
  | some (n + 1) =>
      match s.net_.queue_ with
      | e :: _ => { s with net_ := s.net_.pump 1, pumping := some n }.raise parsers e
      | [] => { s with pumping := some 0 }
  | _ => s

def ui (s : GameClient F) : GameClient F :=
  { s with
    loginPanel := s.session_.state = .disconnected && !s.session_.canReconnect
    matchButton := s.session_.state = .lobby || s.session_.state = .battleEnded
    endPanel := s.session_.state = .battleEnded
    clicked := false }

/-- A button that is not shown cannot be clicked. -/
def onClick (c : Click) (s : GameClient F) : GameClient F :=
  let s := { s with clicked := true }
  match c with
  | .connect account =>
      if s.loginPanel then
        { s with account := if account = "" then s.account else account }.connect
      else s
  | .requestMatch => if s.matchButton then s.act s.session_.requestMatch else s
  | .backToLobby =>
      if s.endPanel then
        s.act (GameSession.onStateChanged s.autoMatch s.session_.state s.session_.backToLobby)
      else s

variable [Scalar F]

/-- `Start` has run. -/
def start (account : String) (autoConnect autoMatch autoReconnect : Bool) : GameClient F :=
  let s : GameClient F :=
    { account := account
      autoMatch := autoMatch
      autoReconnect := autoReconnect
      reconnectAt_ := lit (-1)
      lastInputSentAt_ := lit 0 }
  if autoConnect then s.connect else s

def forceDrop (s : GameClient F) : GameClient F :=
  if s.debugDrop then
    { s with
      debugDrop := false
      net_ := s.net_.step .close
      session_ := s.session_.transportDisconnected }
  else s

def reconnect (now : F) (s : GameClient F) : GameClient F :=
  if s.autoReconnect ∧ s.session_.state = .disconnected ∧ s.session_.canReconnect then
    if lt s.reconnectAt_ (lit 0) then { s with reconnectAt_ := now + lit 1 }
    else if le s.reconnectAt_ now then { s with reconnectAt_ := lit (-1) }.connect
    else s
  else { s with reconnectAt_ := lit (-1) }

def InputIntervalSec : F := lit (1 / 10)

/-- Opposite keys cancel, and a diagonal is normalised. -/
def moveOf (kb : Keyboard) : F × F :=
  let mx := (if kb.dKey then lit 1 else lit 0) - (if kb.aKey then lit 1 else lit 0)
  let my := (if kb.wKey then lit 1 else lit 0) - (if kb.sKey then lit 1 else lit 0)
  if !eq mx (lit 0) && !eq my (lit 0) then (mx * lit (7071 / 10000), my * lit (7071 / 10000))
  else (mx, my)

def sampleInput (now : F) (kb : Keyboard) (s : GameClient F) : GameClient F :=
  let s := { s with attackLatch_ := s.attackLatch_ || kb.spacePressed }
  if s.session_.state ≠ .inBattle then s
  else if lt (now - s.lastInputSentAt_) InputIntervalSec then s
  else
    let move := moveOf kb
    { { s with lastInputSentAt_ := now }.act
        (s.session_.sendInput move.1 move.2 s.attackLatch_) with attackLatch_ := false }

def finish (nowMs : ℤ) (now : F) (kb : Option Keyboard) (s : GameClient F) : GameClient F :=
  let s := { s with pumping := none }.act (s.session_.tick nowMs)
  match kb with
  | some kb => s.sampleInput now kb
  | none => s

/-- The main thread does one thing at a time. -/
def step (parsers : Parsers F) (s : GameClient F) : GameAct F → GameClient F
  | .net a => if a.isThread then { s with net_ := s.net_.step a } else s
  | .update now =>
      if s.pumping = none then { (s.forceDrop.reconnect now) with pumping := some 64 } else s
  | .pump => s.pumpOne parsers
  | .finish nowMs now kb => if s.pumping = some 0 then s.finish nowMs now kb else s
  | .click c => if s.pumping = none then s.onClick c else s
  | .ui => if s.pumping = none then s.ui else s
  | .drop => { s with debugDrop := true }

end GameClient

/-! ### What the session does about its methods -/

/-- The transport has said that it is connected. -/
def SessionState.live (st : SessionState) : Bool := st ≠ .disconnected && st ≠ .connecting

/-- The request that makes a connection a player's. -/
def isHandshake {F : Type} : ClientMsg F → Bool
  | .loginReq _ | .reconnectReq _ _ => true
  | .matchReq _ | .playerInput _ | .heartbeat _ | .leaderboardReq _ => false

/-- The numbers of the inputs among these messages. -/
def inputsOf {F : Type} (msgs : List (ClientMsg F)) : List ℕ :=
  msgs.filterMap fun msg =>
    match msg with
    | .playerInput input => some input.seq
    | _ => none

namespace GameSession

variable {F : Type} {s : GameSession} {r : GameSession × List (ClientMsg F)}

/-- An input that is sent has the next number. -/
def Counts (s : GameSession) (r : GameSession × List (ClientMsg F)) : Prop :=
  (inputsOf r.2 = [] ∧ r.1.inputSeq = s.inputSeq) ∨
    (inputsOf r.2 = [(s.inputSeq + 1) % 2 ^ 32] ∧ r.1.inputSeq = (s.inputSeq + 1) % 2 ^ 32)

/-- What a method does on a connection that is up. -/
structure Plain (s : GameSession) (r : GameSession × List (ClientMsg F)) : Prop where
  live : r.1.state.live = true
  plain : ∀ msg ∈ r.2, isHandshake msg = false
  counts : Counts s r

/-- A method that may be called at any time. -/
structure Polite (s : GameSession) (r : GameSession × List (ClientMsg F)) : Prop where
  asleep : s.state.live = false → r = (s, [])
  awake : s.state.live = true → Plain s r

theorem plain_silent {s' : GameSession} (hlive : s'.state.live = true)
    (hseq : s'.inputSeq = s.inputSeq) : Plain s (s', ([] : List (ClientMsg F))) :=
  ⟨hlive, nofun, .inl ⟨rfl, hseq⟩⟩

theorem Plain.trans {s' : GameSession} (h : Plain s' r) (hseq : s'.inputSeq = s.inputSeq) :
    Plain s r :=
  ⟨h.live, h.plain, by have := h.counts; rwa [Counts, hseq] at this⟩

theorem polite_refl (s : GameSession) : Polite s (s, ([] : List (ClientMsg F))) :=
  ⟨fun _ => rfl, fun h => plain_silent h rfl⟩

theorem polite_requestMatch (s : GameSession) : Polite s (s.requestMatch (F := F)) := by
  unfold requestMatch
  split
  · exact polite_refl s
  · next hstate =>
      refine ⟨fun hlive => ?_, fun _ => ⟨rfl, by simp [isHandshake], .inl ⟨rfl, rfl⟩⟩⟩
      have : s.state = .lobby ∨ s.state = .battleEnded := by
        by_contra hne
        exact hstate ⟨fun h => hne (.inl h), fun h => hne (.inr h)⟩
      rcases this with h | h <;> rw [h] at hlive <;> cases hlive

theorem polite_requestLeaderboard (topN : ℕ) (s : GameSession) :
    Polite s (s.requestLeaderboard (F := F) topN) := by
  unfold requestLeaderboard
  split
  · exact polite_refl s
  · next hstate =>
      refine ⟨fun hlive => ?_, fun h => ⟨h, by simp [isHandshake], .inl ⟨rfl, rfl⟩⟩⟩
      exact absurd hlive (by simpa [SessionState.live] using hstate)

theorem polite_sendInput (moveX moveY : F) (attack : Bool) (s : GameSession) :
    Polite s (s.sendInput moveX moveY attack) := by
  unfold sendInput
  split
  · exact polite_refl s
  · next hstate =>
      refine ⟨fun hlive => ?_, fun h => ⟨h, by simp [isHandshake], .inr ⟨rfl, rfl⟩⟩⟩
      rw [not_not.mp hstate] at hlive
      cases hlive

theorem polite_tick (nowMs : ℤ) (s : GameSession) : Polite s (s.tick (F := F) nowMs) := by
  unfold tick
  split
  · exact polite_refl s
  · next hstate =>
      split
      · exact polite_refl s
      · refine ⟨fun hlive => ?_, fun h => ⟨h, by simp [isHandshake], .inl ⟨rfl, rfl⟩⟩⟩
        refine absurd hlive ?_
        simp only [not_or] at hstate
        simp [SessionState.live, hstate]

theorem plain_onStateChanged (autoMatch : Bool) (old : SessionState) (h : s.state.live = true) :
    Plain s (onStateChanged (F := F) autoMatch old s) := by
  unfold onStateChanged
  split
  · exact (polite_requestMatch s).awake h
  · exact plain_silent h rfl

theorem polite_backToLobby (autoMatch : Bool) (s : GameSession) :
    Polite s (onStateChanged (F := F) autoMatch s.state s.backToLobby) := by
  unfold backToLobby
  split
  · next hstate =>
      have hplain := plain_onStateChanged (F := F) (s := { s with state := .lobby }) autoMatch
        s.state rfl
      refine ⟨fun h => ?_, fun _ => hplain.trans rfl⟩
      rw [hstate] at h
      cases h
  · unfold onStateChanged
    rw [if_neg fun h => h.1 rfl]
    exact polite_refl s

/-- What `HandleMessage` does on a connection that is up. -/
theorem plain_handleRaw (parsers : Parsers F) (autoMatch : Bool) (m : RawMessage)
    (h : s.state.live = true) :
    Plain s ((s.handleRaw parsers autoMatch m).1, (s.handleRaw parsers autoMatch m).2.1) := by
  unfold handleRaw
  split
  · split
    · next code playerId token _ =>
        have hseq : (s.onLoginResp code playerId token).inputSeq = s.inputSeq := by
          unfold onLoginResp
          split <;> rfl
        refine (plain_onStateChanged autoMatch s.state ?_).trans hseq
        unfold onLoginResp
        split
        · exact h
        · dsimp only
          split <;> rfl
    · exact plain_silent h rfl
  split
  · split
    · next roomId _ _ =>
        have hseq : (s.onEnterRoom roomId).inputSeq = s.inputSeq := by
          unfold onEnterRoom
          split <;> rfl
        refine (plain_onStateChanged autoMatch s.state ?_).trans hseq
        unfold onEnterRoom
        split <;> rfl
    · exact plain_silent h rfl
  split
  · exact plain_silent h rfl
  split
  · dsimp only
    split
    · have hpolite := polite_requestLeaderboard (F := F) 10
        { s with roomId := 0, wasInBattle := false, state := .battleEnded }
      exact (hpolite.awake rfl).trans rfl
    · exact plain_silent rfl rfl
  split
  · exact plain_silent h rfl
  · exact plain_silent h rfl

end GameSession

/-! ### What is sent -/

/-- What was sent on connection `i`. -/
def sentOn {F : Type} (i : ℕ) (sent : List (ℕ × ClientMsg F)) : List (ClientMsg F) :=
  (sent.filter (·.1 = i)).map Prod.snd

/-- One handshake, and it comes first. -/
def Conversation {F : Type} (msgs : List (ClientMsg F)) : Prop :=
  ∃ msg rest, msgs = msg :: rest ∧ isHandshake msg = true ∧ ∀ m ∈ rest, isHandshake m = false

/-- What a client may have sent on this many connections, when its last input
had the number `seq`. -/
structure Ledger {F : Type} (sent : List (ℕ × ClientMsg F)) (connections seq : ℕ) : Prop where
  talks : ∀ i, sentOn i sent = [] ∨ Conversation (sentOn i sent)
  past : ∀ m ∈ sent, m.1 < connections
  order : (sent.map Prod.fst).Pairwise (· ≤ ·)
  numbered : ∃ n, seq = n % 2 ^ 32 ∧
    inputsOf (sent.map Prod.snd) = (List.range n).map fun k => (k + 1) % 2 ^ 32

section

variable {F : Type} {sent : List (ℕ × ClientMsg F)} {msgs more : List (ClientMsg F)} {k n seq : ℕ}

theorem sentOn_append (i k : ℕ) (sent : List (ℕ × ClientMsg F)) (msgs : List (ClientMsg F)) :
    sentOn i (sent ++ msgs.map fun msg => (k, msg)) =
      sentOn i sent ++ if k = i then msgs else [] := by
  have htagged : ((msgs.map fun msg => (k, msg)).filter (·.1 = i)).map Prod.snd =
      if k = i then msgs else [] := by
    induction msgs with
    | nil => simp
    | cons msg msgs ih => split at ih <;> simp_all
  rw [sentOn, List.filter_append, List.map_append, htagged, sentOn]

theorem Conversation.append (h : Conversation msgs)
    (hmore : ∀ msg ∈ more, isHandshake msg = false) : Conversation (msgs ++ more) := by
  obtain ⟨msg, rest, rfl, hmsg, hrest⟩ := h
  refine ⟨msg, rest ++ more, rfl, hmsg, fun m hm => ?_⟩
  rcases List.mem_append.mp hm with hm | hm
  · exact hrest m hm
  · exact hmore m hm

theorem Ledger.mono (h : Ledger sent k seq) (hkn : k ≤ n) : Ledger sent n seq :=
  ⟨h.talks, fun m hm => (h.past m hm).trans_le hkn, h.order, h.numbered⟩

theorem Ledger.silent (h : Ledger sent k seq) : sentOn k sent = [] := by
  have hnone : sent.filter (·.1 = k) = [] := by
    refine List.filter_eq_nil_iff.mpr fun m hm hk => ?_
    have := h.past m hm
    simp only [decide_eq_true_eq] at hk
    omega
  rw [sentOn, hnone, List.map_nil]

theorem inputsOf_append (msgs more : List (ClientMsg F)) :
    inputsOf (msgs ++ more) = inputsOf msgs ++ inputsOf more :=
  List.filterMap_append

/-- Something is sent on the newest connection. -/
theorem Ledger.send (h : Ledger sent (k + 1) seq) {s : GameSession}
    {r : GameSession × List (ClientMsg F)} (hseq : s.inputSeq = seq) (hcounts : s.Counts r)
    (htalk : Conversation (sentOn k sent ++ r.2)) :
    Ledger (sent ++ r.2.map fun msg => (k, msg)) (k + 1) r.1.inputSeq := by
  refine ⟨fun i => ?_, fun m hm => ?_, ?_, ?_⟩
  · rw [sentOn_append]
    split
    · next hk => exact .inr (hk ▸ htalk)
    · rw [List.append_nil]
      exact h.talks i
  · rcases List.mem_append.mp hm with hm | hm
    · exact h.past m hm
    · obtain ⟨msg, -, rfl⟩ := List.mem_map.mp hm
      exact Nat.lt_succ_self k
  · rw [List.map_append, List.pairwise_append]
    refine ⟨h.order, ?_, fun a ha b hb => ?_⟩
    · rw [List.map_map]
      exact List.pairwise_map.mpr (List.pairwise_of_forall fun _ _ => le_rfl)
    · obtain ⟨m, hm, rfl⟩ := List.mem_map.mp ha
      rw [List.map_map] at hb
      obtain ⟨msg, -, rfl⟩ := List.mem_map.mp hb
      exact Nat.le_of_lt_succ (h.past m hm)
  · obtain ⟨n, hn, hinputs⟩ := h.numbered
    have hmsgs : (sent ++ r.2.map fun msg => (k, msg)).map Prod.snd = sent.map Prod.snd ++ r.2 := by
      simp
    rw [hmsgs, inputsOf_append, hinputs]
    rcases hcounts with ⟨hnone, hsame⟩ | ⟨hone, hnext⟩
    · exact ⟨n, by omega, by rw [hnone, List.append_nil]⟩
    · refine ⟨n + 1, by omega, ?_⟩
      rw [hone, List.range_succ, List.map_append, List.map_singleton, hseq, hn]
      simp

end

/-! ### The client and its connections -/

namespace GameClient

variable {F : Type} {s s' : GameClient F} {r : GameSession × List (ClientMsg F)}
  {init : List RecvThread} {t : RecvThread}

/-- Nobody pulls the cable, and between two clicks `GameUI.Update` runs. -/
def Civil (s : GameClient F) : GameAct F → Prop
  | .drop => False
  | .click _ => s.clicked = false
  | .net _ | .update _ | .pump | .finish _ _ _ | .ui => True

instance (s : GameClient F) (a : GameAct F) : Decidable (s.Civil a) :=
  match a with
  | .drop => .isFalse id
  | .click _ => inferInstanceAs (Decidable (s.clicked = false))
  | .net _ | .update _ | .pump | .finish _ _ _ | .ui => .isTrue trivial

/-- How far the session has followed the transport. -/
inductive Phase (s : GameClient F) : Prop where
  | away (hstate : s.session_.state = .disconnected) (hqueue : s.net_.queue_ = [])
      (hover : ∀ t ∈ s.net_.threads, t.pc = .finished)
  | dialling (hstate : s.session_.state = .connecting) (init : List RecvThread) (t : RecvThread)
      (hthreads : s.net_.threads = init ++ [t])
      (hraised : s.net_.raised = init.flatMap RecvThread.log)
      (hsilent : sentOn init.length s.sent = [])
  | talking (hstate : s.session_.state.live = true) (init : List RecvThread) (t : RecvThread)
      (hthreads : s.net_.threads = init ++ [t]) (ms : List RawMessage)
      (hraised : s.net_.raised =
        init.flatMap RecvThread.log ++ .connected :: ms.map .message)
      (htalk : Conversation (sentOn init.length s.sent))

structure Ok (s : GameClient F) : Prop where
  net : s.net_.Inv
  told : s.net_.Told
  wired : s.net_.Wired
  phase : s.Phase
  ledger : Ledger s.sent s.net_.threads.length s.session_.inputSeq
  drop : s.debugDrop = false
  panel : s.loginPanel = true → s.clicked = false →
    s.session_.state = .disconnected ∧ s.session_.canReconnect = false

/-- The fields that the invariant is about. -/
theorem Ok.congr (h : s.Ok) (hnet : s'.net_ = s.net_) (hsession : s'.session_ = s.session_)
    (hsent : s'.sent = s.sent) (hdrop : s'.debugDrop = s.debugDrop)
    (hpanel : s'.loginPanel = true → s'.clicked = false →
      s'.session_.state = .disconnected ∧ s'.session_.canReconnect = false) : s'.Ok := by
  refine ⟨hnet ▸ h.net, hnet ▸ h.told, hnet ▸ h.wired, ?_,
    by rw [hsent, hnet, hsession]; exact h.ledger, hdrop.trans h.drop, hpanel⟩
  cases h.phase with
  | away hstate hqueue hover =>
      exact .away (hsession ▸ hstate) (hnet ▸ hqueue) (hnet ▸ hover)
  | dialling hstate init t hthreads hraised hsilent =>
      exact .dialling (hsession ▸ hstate) init t (hnet ▸ hthreads) (hnet ▸ hraised)
        (hsent ▸ hsilent)
  | talking hstate init t hthreads ms hraised htalk =>
      exact .talking (hsession ▸ hstate) init t (hnet ▸ hthreads) ms (hnet ▸ hraised)
        (hsent ▸ htalk)

/-- `Send` on connection `k`. -/
theorem send_eq {k : ℕ} (hstream : s.net_.stream_ = some k) (hopen : s.net_.closed_ = false)
    (msgs : List (ClientMsg F)) :
    s.send msgs = { s with sent := s.sent ++ msgs.map fun msg => (k, msg) } := by
  unfold send
  rw [hstream]
  dsimp only
  rw [hopen, if_neg (by decide)]

theorem send_nil (s : GameClient F) : s.send [] = s := by
  unfold send
  split
  · split
    · rfl
    · rw [List.map_nil, List.append_nil]
  · rfl

/-- The stream of the connection that the session talks on. -/
theorem Ok.stream (h : s.Ok) (hthreads : s.net_.threads = init ++ [t])
    (hmem : .connected ∈ t.log) : s.net_.stream_ = some init.length :=
  h.wired init.length t (by rw [hthreads]; simp) (by rw [hthreads]; simp) hmem

/-- What the last thread has told is what was raised of it and what is still
in the queue. -/
theorem Ok.log (h : s.Ok) {l : List Ev} (hthreads : s.net_.threads = init ++ [t])
    (hraised : s.net_.raised = init.flatMap RecvThread.log ++ l) :
    t.log = l ++ s.net_.queue_ := by
  have hfifo := h.net.fifo
  rw [hraised, hthreads, List.flatMap_append, List.append_assoc] at hfifo
  simpa using (List.append_cancel_left hfifo).symm

theorem Ok.ended (h : s.Ok) (hthreads : s.net_.threads = init ++ [t]) (hfin : t.pc = .finished) :
    ∀ u ∈ s.net_.threads, u.pc = .finished := by
  intro u hu
  obtain ⟨i, hi⟩ := List.getElem?_of_mem hu
  by_contra hne
  have hlast := h.net.last i u hi hne
  rw [hthreads, List.length_append, List.length_singleton] at hlast
  rw [hthreads, List.getElem?_append_right (by omega), show i - init.length = 0 by omega] at hi
  obtain rfl : t = u := by simpa using hi
  exact hne hfin

theorem Ok.story (h : s.Ok) (hthreads : s.net_.threads = init ++ [t]) :
    s.net_.Sound init.length t :=
  h.net.sound init.length t (by rw [hthreads]; simp)

/-- What the session does while it talks. -/
theorem Ok.talk (h : s.Ok) (hlive : s.session_.state.live = true)
    (hr : GameSession.Plain s.session_ r) : (s.act r).Ok := by
  have hne : s.session_.state ≠ .disconnected ∧ s.session_.state ≠ .connecting := by
    simpa [SessionState.live] using hlive
  cases h.phase with
  | away hstate => exact absurd hstate hne.1
  | dialling hstate => exact absurd hstate hne.2
  | talking hstate init t hthreads ms hraised htalk =>
      have hstream := h.stream hthreads (by rw [h.log hthreads hraised]; simp)
      have hlen : s.net_.threads.length = init.length + 1 := by rw [hthreads]; simp
      have hgrown := htalk.append hr.plain
      have hledger := (hlen ▸ h.ledger).send rfl hr.counts hgrown
      rw [GameClient.act, send_eq (s := { s with session_ := r.1 }) hstream h.told.closed]
      refine ⟨h.net, h.told, h.wired, .talking hr.live init t hthreads ms hraised ?_,
        hlen ▸ hledger, h.drop, fun hp hc => absurd (h.panel hp hc).1 hne.1⟩
      rw [sentOn_append, if_pos rfl]
      exact hgrown

theorem Ok.act (h : s.Ok) (hr : GameSession.Polite s.session_ r) : (s.act r).Ok := by
  cases hlive : s.session_.state.live with
  | true => exact h.talk hlive (hr.awake hlive)
  | false =>
      rw [hr.asleep hlive]
      unfold GameClient.act
      rw [send_nil]
      exact h

theorem Ok.connect (h : s.Ok) (hstate : s.session_.state = .disconnected)
    (hpanel : s.loginPanel = true → s.clicked = true) : s.connect.Ok := by
  cases h.phase with
  | dialling hstate' => rw [hstate] at hstate'; cases hstate'
  | talking hstate' => rw [hstate] at hstate'; cases hstate'
  | away _ hqueue hover =>
      have hlen : (s.net_.step .connect).threads.length = s.net_.threads.length + 1 :=
        List.length_append ..
      refine ⟨h.net.connected hover, h.told.step (a := .connect) nofun, ?_, ?_,
        h.ledger.mono (hlen ▸ Nat.le_succ _), h.drop,
        fun hp hc => absurd ((hpanel hp).symm.trans hc) (by decide)⟩
      · intro i t ht hi hmem
        have ht' : (s.net_.threads ++ [({} : RecvThread)])[i]? = some t := ht
        have hi' : i + 1 = (s.net_.step .connect).threads.length := hi
        obtain rfl : i = s.net_.threads.length := by omega
        rw [List.getElem?_concat_length] at ht'
        obtain rfl := Option.some.inj ht'
        cases hmem
      · refine .dialling rfl s.net_.threads {} rfl ?_ h.ledger.silent
        have hfifo := h.net.fifo
        rwa [hqueue, List.append_nil] at hfifo

/-- The session hears of the end of the connection as the last event. -/
theorem Ok.disconnected (h : s.Ok) {e : Ev} (hqueue : s.net_.queue_ = [e])
    (hthreads : s.net_.threads = init ++ [t]) (hfin : t.pc = .finished) (n : ℕ) :
    { s with
      net_ := s.net_.pump 1
      pumping := some n
      session_ := s.session_.transportDisconnected }.Ok := by
  have hempty : (s.net_.pump 1).queue_ = [] := by simp [NetworkClient.pump, hqueue]
  refine ⟨h.net.pump 1, h.told.step (a := .pump 1) nofun, h.wired,
    .away rfl hempty (h.ended hthreads hfin), h.ledger, h.drop, fun hp hc => ⟨rfl, ?_⟩⟩
  exact (h.panel hp hc).2

theorem conversation_request (account : String) (s : GameSession) :
    Conversation [(s.request account : ClientMsg F)] := by
  refine ⟨_, [], rfl, ?_, nofun⟩
  unfold GameSession.request
  split <;> rfl

theorem counts_request (account : String) (s : GameSession) :
    s.Counts (s.transportConnected (F := F) account) := by
  refine .inl ⟨?_, rfl⟩
  simp only [GameSession.transportConnected, GameSession.request]
  split <;> rfl

theorem Ok.connected (h : s.Ok) (hstate : s.session_.state = .connecting) {q : List Ev}
    (hthreads : s.net_.threads = init ++ [t])
    (hraised : s.net_.raised = init.flatMap RecvThread.log) (hlog : t.log = .connected :: q)
    (hqueue : s.net_.queue_ = .connected :: q) (hsilent : sentOn init.length s.sent = []) (n : ℕ) :
    ({ s with net_ := s.net_.pump 1, pumping := some n }.act
      (s.session_.transportConnected s.account)).Ok := by
  have hstream := h.stream hthreads (by rw [hlog]; exact List.mem_cons_self ..)
  have hlen : s.net_.threads.length = init.length + 1 := by rw [hthreads]; simp
  have hopened : Conversation (sentOn init.length s.sent ++
      (s.session_.transportConnected (F := F) s.account).2) := by
    rw [hsilent]
    exact conversation_request s.account s.session_
  have hledger := (hlen ▸ h.ledger).send rfl (counts_request s.account s.session_) hopened
  rw [GameClient.act, send_eq (s := { s with
    net_ := s.net_.pump 1, pumping := some n,
    session_ := (s.session_.transportConnected (F := F) s.account).1 }) hstream h.told.closed]
  refine ⟨h.net.pump 1, h.told.step (a := .pump 1) nofun, h.wired,
    .talking rfl init t hthreads [] ?_ ?_, ?_, h.drop, fun hp hc => ?_⟩
  · show s.net_.raised ++ s.net_.queue_.take 1 = _
    rw [hraised, hqueue]
    rfl
  · rw [sentOn_append, if_pos rfl]
    exact hopened
  · show Ledger _ s.net_.threads.length _
    rw [hlen]
    exact hledger
  · have hstate' := (h.panel hp hc).1
    rw [hstate] at hstate'
    cases hstate'

theorem Ok.pumpOne (h : s.Ok) (parsers : Parsers F) : (s.pumpOne parsers).Ok := by
  unfold GameClient.pumpOne
  split
  · next n _ =>
      split
      · next e q hqueue =>
          cases h.phase with
          | away _ hempty => rw [hempty] at hqueue; cases hqueue
          | dialling hstate init t hthreads hraised hsilent =>
              have hlog := h.log (l := []) hthreads (by rw [hraised, List.append_nil])
              rw [List.nil_append, hqueue] at hlog
              have hsound := h.story hthreads
              rcases (hlog ▸ hsound.story).first with rfl | ⟨reason, rfl, rfl⟩
              · exact h.connected hstate hthreads hraised hlog hqueue hsilent n
              · exact h.disconnected hqueue hthreads
                  (hsound.finished (hlog ▸ List.mem_cons_self ..)) n
          | talking hstate init t hthreads ms hraised htalk =>
              have hlog := h.log hthreads hraised
              rw [hqueue] at hlog
              have hsound := h.story hthreads
              rcases (hlog ▸ hsound.story).next with ⟨m, rfl⟩ | ⟨reason, rfl, rfl⟩
              · have hpumped : { s with net_ := s.net_.pump 1, pumping := some n }.Ok := by
                  refine ⟨h.net.pump 1, h.told.step (a := .pump 1) nofun, h.wired,
                    .talking hstate init t hthreads (ms ++ [m]) ?_ htalk, h.ledger, h.drop,
                    h.panel⟩
                  show s.net_.raised ++ s.net_.queue_.take 1 = _
                  rw [hraised, hqueue]
                  simp
                have htalked := hpumped.talk hstate
                  (GameSession.plain_handleRaw parsers s.autoMatch m hstate)
                simp only [raise]
                split
                · exact htalked
                · exact htalked.congr rfl rfl rfl rfl htalked.panel
              · exact h.disconnected hqueue hthreads
                  (hsound.finished (hlog ▸ List.mem_append_right _ (List.mem_cons_self ..))) n
      · exact h.congr rfl rfl rfl rfl h.panel
  · exact h

theorem Ok.thread (h : s.Ok) {a : NetAct} (ha : a.isThread = true) :
    { s with net_ := s.net_.step a }.Ok := by
  have hconnect : a ≠ .connect := by rintro rfl; cases ha
  have hclose : a ≠ .close := by rintro rfl; cases ha
  obtain ⟨hraised', hmove⟩ := NetworkClient.step_thread h.net ha
  -- only the last thread has moved
  have hlast : ∀ init t, s.net_.threads = init ++ [t] →
      ∃ t', (s.net_.step a).threads = init ++ [t'] := by
    intro init t hthreads
    rcases hmove with hsame | ⟨i, -, t', -, -, hi, hset⟩
    · exact ⟨t, by rw [hsame, hthreads]⟩
    · rw [hthreads, List.length_append, List.length_singleton] at hi
      refine ⟨t', hset.trans ?_⟩
      rw [hthreads, List.set_append_right _ _ (by omega), show i - init.length = 0 by omega]
      rfl
  have hlen := NetworkClient.length_step a hconnect s.net_
  refine ⟨h.net.step a fun hc => absurd hc hconnect, h.told.step hclose, h.wired.step h.net ha, ?_,
    hlen ▸ h.ledger, h.drop, h.panel⟩
  cases h.phase with
  | away hstate hqueue hover =>
      have hsame := NetworkClient.step_over h.net hover ha
      exact .away hstate (by rw [hsame]; exact hqueue) (by rw [hsame]; exact hover)
  | dialling hstate init t hthreads hraised hsilent =>
      obtain ⟨t', hthreads'⟩ := hlast init t hthreads
      exact .dialling hstate init t' hthreads' (hraised'.trans hraised) hsilent
  | talking hstate init t hthreads ms hraised htalk =>
      obtain ⟨t', hthreads'⟩ := hlast init t hthreads
      exact .talking hstate init t' hthreads' ms (hraised'.trans hraised) htalk

theorem Ok.ui (h : s.Ok) : s.ui.Ok := by
  refine h.congr rfl rfl rfl rfl fun hp _ => ?_
  simpa [GameClient.ui] using hp

theorem Ok.onClick (h : s.Ok) (hclicked : s.clicked = false) (c : Click) : (s.onClick c).Ok := by
  have hnow : { s with clicked := true }.Ok := h.congr rfl rfl rfl rfl nofun
  cases c with
  | connect account =>
      simp only [GameClient.onClick]
      split
      · next hp =>
          exact Ok.connect (h.congr rfl rfl rfl rfl nofun) (h.panel hp hclicked).1 fun _ => rfl
      · exact hnow
  | requestMatch =>
      simp only [GameClient.onClick]
      split
      · exact hnow.act (GameSession.polite_requestMatch _)
      · exact hnow
  | backToLobby =>
      simp only [GameClient.onClick]
      split
      · exact hnow.act (GameSession.polite_backToLobby _ _)
      · exact hnow

variable [Scalar F]

theorem Ok.update (h : s.Ok) (now : F) :
    { (s.forceDrop.reconnect now) with pumping := some 64 }.Ok := by
  have hdrop : s.forceDrop = s := by rw [forceDrop, h.drop]; rfl
  rw [hdrop]
  have hreconnect : (s.reconnect now).Ok := by
    unfold reconnect
    split_ifs with hlost
    · exact h.congr rfl rfl rfl rfl h.panel
    · refine Ok.connect (h.congr rfl rfl rfl rfl h.panel) hlost.2.1 fun hp => ?_
      cases hc : s.clicked with
      | true => rfl
      | false =>
          have hcannot := (h.panel hp hc).2
          rw [hlost.2.2] at hcannot
          cases hcannot
    · exact h
    · exact h.congr rfl rfl rfl rfl h.panel
  exact hreconnect.congr rfl rfl rfl rfl hreconnect.panel

theorem Ok.sampleInput (h : s.Ok) (now : F) (kb : Keyboard) : (s.sampleInput now kb).Ok := by
  unfold GameClient.sampleInput
  dsimp only
  split_ifs
  · exact h.congr rfl rfl rfl rfl h.panel
  · exact h.congr rfl rfl rfl rfl h.panel
  · have hsent := Ok.act
      (s := { s with attackLatch_ := s.attackLatch_ || kb.spacePressed, lastInputSentAt_ := now })
      (h.congr rfl rfl rfl rfl h.panel)
      (GameSession.polite_sendInput (moveOf kb).1 (moveOf kb).2
        (s.attackLatch_ || kb.spacePressed) s.session_)
    exact hsent.congr rfl rfl rfl rfl hsent.panel

theorem Ok.finish (h : s.Ok) (nowMs : ℤ) (now : F) (kb : Option Keyboard) :
    (s.finish nowMs now kb).Ok := by
  have hticked := Ok.act (s := { s with pumping := none }) (h.congr rfl rfl rfl rfl h.panel)
    (GameSession.polite_tick nowMs s.session_)
  unfold GameClient.finish
  cases kb with
  | none => exact hticked
  | some kb => exact hticked.sampleInput now kb

theorem Ok.step (h : s.Ok) (parsers : Parsers F) (a : GameAct F) (hcivil : s.Civil a) :
    (s.step parsers a).Ok := by
  cases a with
  | net a =>
      simp only [GameClient.step]
      split
      · next ha => exact h.thread ha
      · exact h
  | update now =>
      simp only [GameClient.step]
      split
      · exact h.update now
      · exact h
  | pump => exact h.pumpOne parsers
  | finish nowMs now kb =>
      simp only [GameClient.step]
      split
      · exact h.finish nowMs now kb
      · exact h
  | click c =>
      simp only [GameClient.step]
      split
      · exact h.onClick hcivil c
      · exact h
  | ui =>
      simp only [GameClient.step]
      split
      · exact h.ui
      · exact h
  | drop => exact hcivil.elim

theorem ok_start (account : String) (autoConnect autoMatch autoReconnect : Bool) :
    (start (F := F) account autoConnect autoMatch autoReconnect).Ok := by
  have hawake : (start (F := F) account false autoMatch autoReconnect).Ok :=
    ⟨NetworkClient.inv_init, ⟨rfl, nofun⟩, nofun, .away rfl rfl nofun,
      ⟨fun _ => .inl rfl, nofun, .nil, 0, rfl, rfl⟩, rfl, nofun⟩
  cases autoConnect with
  | false => exact hawake
  | true => exact hawake.connect rfl nofun

theorem ok_run {parsers : Parsers F} {account : String} {autoConnect autoMatch autoReconnect : Bool}
    {acts : List (GameAct F)}
    (hcivil : Along (step parsers) Civil (start account autoConnect autoMatch autoReconnect) acts) :
    (acts.foldl (step parsers) (start account autoConnect autoMatch autoReconnect)).Ok :=
  invariant_run (fun _ a h hok => h.step parsers a hok) (ok_start ..) hcivil

omit [Scalar F] in
/-- The session is where the transport has taken it: it is disconnected
exactly when everything has been told and no thread is left. -/
theorem Ok.disconnected_iff (h : s.Ok) :
    s.session_.state = .disconnected ↔
      s.net_.queue_ = [] ∧ ∀ t ∈ s.net_.threads, t.pc = .finished := by
  -- a last thread that has ended leaves its last word in the queue
  have hlastWord : ∀ {init : List RecvThread} {t : RecvThread} {es : List Ev},
      s.net_.threads = init ++ [t] → t.log = es ++ s.net_.queue_ →
      (∀ reason, .disconnected reason ∉ es) →
      ¬(s.net_.queue_ = [] ∧ ∀ u ∈ s.net_.threads, u.pc = .finished) := by
    rintro init t es hthreads hlog hes ⟨hempty, hover⟩
    have ht : t ∈ s.net_.threads := by rw [hthreads]; simp
    obtain ⟨before, reason, hend⟩ := h.told.ended t ht (hover t ht)
    rw [hend, hempty, List.append_nil] at hlog
    exact hes reason (hlog ▸ by simp)
  cases h.phase with
  | away hstate hqueue hover => exact ⟨fun _ => ⟨hqueue, hover⟩, fun _ => hstate⟩
  | dialling hstate init t hthreads hraised =>
      have hlog := h.log (l := []) hthreads (by rw [hraised, List.append_nil])
      rw [hstate]
      exact ⟨nofun, fun hover => absurd hover (hlastWord hthreads hlog nofun)⟩
  | talking hstate init t hthreads ms hraised =>
      have hlog := h.log hthreads hraised
      refine ⟨fun hstate' => ?_, fun hover => absurd hover (hlastWord hthreads hlog (by simp))⟩
      rw [hstate'] at hstate
      cases hstate

/-- Whatever the network does, in a civil run at most one connection is at
work, the callbacks are told one story after the other, and the session is
disconnected exactly when the last one is over. -/
theorem one_connection_at_a_time (parsers : Parsers F) (account : String)
    (autoConnect autoMatch autoReconnect : Bool) {acts : List (GameAct F)}
    (hcivil : Along (step parsers) Civil (start account autoConnect autoMatch autoReconnect) acts) :
    let s := acts.foldl (step parsers) (start account autoConnect autoMatch autoReconnect)
    s.net_.raised ++ s.net_.queue_ = s.net_.threads.flatMap RecvThread.log ∧
      (∀ i t, s.net_.threads[i]? = some t → NetworkClient.Story (s.net_.streams i) t.log ∧
        (i + 1 < s.net_.threads.length →
          t.pc = .finished ∧ ∃ init reason, t.log = init ++ [.disconnected reason])) ∧
      (s.session_.state = .disconnected ↔
        s.net_.queue_ = [] ∧ ∀ t ∈ s.net_.threads, t.pc = .finished) := by
  intro s
  have h : s.Ok := ok_run hcivil
  refine ⟨h.net.fifo, fun i t ht => ⟨(h.net.sound i t ht).story, fun hi => ?_⟩, h.disconnected_iff⟩
  have hfin : t.pc = .finished := by
    by_contra hne
    have := h.net.last i t ht hne
    omega
  exact ⟨hfin, h.told.ended t (List.mem_of_getElem? ht) hfin⟩

/-- A peer that answers the login with player `7` and hangs up later; the
client comes back by itself. -/
def lostOnce : List (GameAct (Ext ℚ)) :=
  [.net (.create 0), .net (.established 0 true), .update (.fin 0), .pump, .pump,
    .finish 0 (.fin 0) none, .net (.check 0), .net (.read 0 (some [0, 0, 0, 3, 0, 4, 7])),
    .update (.fin 1), .pump, .pump, .finish 1000 (.fin 1) none, .net (.check 0),
    .net (.read 0 (some [])), .update (.fin 2), .pump, .pump, .finish 2000 (.fin 2) none,
    .update (.fin 3), .pump, .finish 3000 (.fin 3) none, .update (.fin 5), .net (.create 1),
    .net (.established 1 true), .pump]

/-- A parser for bodies of one byte. -/
def byteParsers : Parsers (Ext ℚ) where
  loginResp body := body.head?.map fun b => (0, b.toNat, "t")
  enterRoom body := body.head?.map fun b => (b.toNat, [])
  stateSnapshot _ := none
  battleEnd body := body.head?.map UInt8.toNat
  leaderboardResp _ := none

theorem lostOnce_civil :
    Along (step byteParsers) Civil (start "unity" true true true) lostOnce := by decide +kernel

theorem one_connection_at_a_time_lostOnce :
    let s := lostOnce.foldl (step byteParsers) (start "unity" true true true)
    s.net_.raised = [.connected, .message ⟨4, [7]⟩, .disconnected .peerClosed, .connected] ∧
      (s.session_.state = .disconnected ↔
        s.net_.queue_ = [] ∧ ∀ t ∈ s.net_.threads, t.pc = .finished) := by
  have h := one_connection_at_a_time byteParsers "unity" true true true lostOnce_civil
  exact ⟨by decide +kernel, h.2.2⟩

/-- When the cable is pulled, an answer that is still in the queue makes the
session leave `disconnected`, and nothing will ever reconnect it. -/
example :
    let acts : List (GameAct (Ext ℚ)) :=
      [.net (.create 0), .net (.established 0 true), .update (.fin 0), .pump, .pump,
        .finish 0 (.fin 0) none, .net (.check 0), .net (.read 0 (some [0, 0, 0, 3, 0, 4, 7])),
        .drop, .update (.fin 1), .pump, .pump, .finish 1000 (.fin 1) none, .net (.check 0)]
    let s := acts.foldl (step byteParsers) (start "unity" true true true)
    s.session_.state = .matching ∧ s.net_.queue_ = [] ∧
      s.net_.threads.map RecvThread.pc = [.finished] := by
  decide +kernel

/-- On each connection of a civil run the client introduces itself once, before
everything else, it never turns back to an older connection, and its inputs
are numbered through from one connection to the next. -/
theorem one_handshake_per_connection (parsers : Parsers F) (account : String)
    (autoConnect autoMatch autoReconnect : Bool) {acts : List (GameAct F)}
    (hcivil : Along (step parsers) Civil (start account autoConnect autoMatch autoReconnect) acts) :
    let s := acts.foldl (step parsers) (start account autoConnect autoMatch autoReconnect)
    (∀ i, sentOn i s.sent = [] ∨ Conversation (sentOn i s.sent)) ∧
      (s.sent.map Prod.fst).Pairwise (· ≤ ·) ∧
      ∃ n, inputsOf (s.sent.map Prod.snd) = (List.range n).map fun k => (k + 1) % 2 ^ 32 := by
  intro s
  have h : s.Ok := ok_run hcivil
  obtain ⟨n, -, hinputs⟩ := h.ledger.numbered
  exact ⟨h.ledger.talks, h.ledger.order, n, hinputs⟩

theorem one_handshake_per_connection_lostOnce :
    let s := lostOnce.foldl (step byteParsers) (start "unity" true true true)
    s.sent = [(0, .loginReq "unity"), (0, .matchReq 7), (0, .heartbeat 1000),
        (1, .reconnectReq 7 "t")] ∧
      ∀ i, sentOn i s.sent = [] ∨ Conversation (sentOn i s.sent) := by
  have h := one_handshake_per_connection byteParsers "unity" true true true lostOnce_civil
  exact ⟨by decide +kernel, h.1⟩

end GameClient

end GameServer.Client
