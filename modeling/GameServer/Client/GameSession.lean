import GameServer.Proto.Messages
import Mathlib.Algebra.Group.Int.Defs
import Mathlib.Algebra.Group.Nat.Defs
import Mathlib.Data.List.Basic
import Mathlib.Tactic.Common

/-!
The session state machine of the client, from
`client/Assets/Scripts/Game/GameSession.cs`.

A method returns the new state and the messages it passes to `send_`. The
events it raises for the user interface are left out: no method depends on
them. `none` stands for a token that is `null`.

The second half says which messages of the server matter to the battle state:
some do nothing at all, and apart from `LoginResp` none touches what the
client needs to reconnect.
-/

namespace GameServer.Client

open GameServer.Proto

def longMinValue : ℤ := -2 ^ 63

inductive SessionState where
  | disconnected
  | connecting
  | loggingIn
  | lobby
  | matching
  | inBattle
  | battleEnded
deriving DecidableEq

structure GameSession where
  inputSeq : ℕ := 0
  lastHeartbeatMs : ℤ := longMinValue
  wasInBattle : Bool := false
  state : SessionState := .disconnected
  playerId : ℕ := 0
  token : Option String := none
  roomId : ℕ := 0
  account : String := ""

namespace GameSession

variable {F : Type}

def heartbeatIntervalMs : ℤ := 2000

/-- The token is neither null nor empty, and there is a player id. -/
def canReconnect (s : GameSession) : Bool :=
  s.playerId ≠ 0 && s.token.any (· ≠ "")

def transportConnecting (s : GameSession) : GameSession := { s with state := .connecting }

/-- The request that a new connection begins with. -/
def request (account : String) (s : GameSession) : ClientMsg F :=
  if s.canReconnect then .reconnectReq s.playerId (s.token.getD "") else .loginReq account

def transportConnected (account : String) (s : GameSession) : GameSession × List (ClientMsg F) :=
  ({ s with account := account, state := .loggingIn }, [s.request account])

def transportDisconnected (s : GameSession) : GameSession :=
  { s with
    wasInBattle := s.state = .inBattle
    lastHeartbeatMs := longMinValue
    state := .disconnected }

def backToLobby (s : GameSession) : GameSession :=
  if s.state = .battleEnded then { s with state := .lobby } else s

def requestMatch (s : GameSession) : GameSession × List (ClientMsg F) :=
  if s.state ≠ .lobby ∧ s.state ≠ .battleEnded then (s, [])
  else ({ s with state := .matching }, [.matchReq s.playerId])

def requestLeaderboard (topN : ℕ) (s : GameSession) : GameSession × List (ClientMsg F) :=
  if s.state = .disconnected ∨ s.state = .connecting then (s, [])
  else (s, [.leaderboardReq topN])

/-- The counter is a `uint`. -/
def sendInput (moveX moveY : F) (attack : Bool) (s : GameSession) :
    GameSession × List (ClientMsg F) :=
  if s.state ≠ .inBattle then (s, [])
  else
    let seq := (s.inputSeq + 1) % 2 ^ 32
    ({ s with inputSeq := seq }, [.playerInput ⟨seq, moveX, moveY, attack⟩])

def tick (nowMs : ℤ) (s : GameSession) : GameSession × List (ClientMsg F) :=
  if s.state = .disconnected ∨ s.state = .connecting ∨ s.state = .loggingIn then (s, [])
  else if s.lastHeartbeatMs ≠ longMinValue ∧
      (nowMs - s.lastHeartbeatMs).bmod (2 ^ 64) < heartbeatIntervalMs then (s, [])
  else ({ s with lastHeartbeatMs := nowMs }, [.heartbeat nowMs])

def onLoginResp (code : ℤ) (playerId : ℕ) (token : String) (s : GameSession) : GameSession :=
  if code ≠ 0 then { s with playerId := 0, token := none, wasInBattle := false }
  else
    { s with
      playerId := playerId
      token := some token
      state := if s.wasInBattle then .inBattle else .lobby
      wasInBattle := false }

def onEnterRoom (roomId : ℕ) (s : GameSession) : GameSession :=
  if roomId = 0 then { s with state := .lobby }
  else { s with roomId := roomId, state := .inBattle }

def handleMessage (s : GameSession) : ServerMsg F → GameSession
  | .loginResp code playerId token => s.onLoginResp code playerId token
  | .enterRoom roomId _ => s.onEnterRoom roomId
  | .battleEnd _ => { s with roomId := 0, wasInBattle := false, state := .battleEnded }
  | .stateSnapshot _ | .leaderboardResp _ | .heartbeat _ => s

/-- The client when it has handled all these messages. -/
def handleAll (s : GameSession) (msgs : List (ServerMsg F)) : GameSession :=
  msgs.foldl handleMessage s

@[simp] theorem handleAll_nil (s : GameSession) : s.handleAll ([] : List (ServerMsg F)) = s := rfl

theorem handleAll_append (s : GameSession) (msgs msgs' : List (ServerMsg F)) :
    s.handleAll (msgs ++ msgs') = (s.handleAll msgs).handleAll msgs' :=
  List.foldl_append

/-! ### Battles -/

@[simp] theorem handleMessage_inert {msg : ServerMsg F} (h : msg.inert = true) (s : GameSession) :
    s.handleMessage msg = s := by
  cases msg with
  | stateSnapshot | leaderboardResp | heartbeat => rfl
  | loginResp | enterRoom | battleEnd => cases h

theorem handleAll_inert {msgs : List (ServerMsg F)} (h : ∀ msg ∈ msgs, msg.inert = true)
    (s : GameSession) : s.handleAll msgs = s := by
  induction msgs generalizing s with
  | nil => rfl
  | cons msg msgs ih =>
      have hmsg := handleMessage_inert (h msg (List.mem_cons_self ..)) s
      simp only [handleAll, List.foldl_cons, hmsg]
      exact ih (fun msg' h' => h msg' (List.mem_cons_of_mem _ h')) s

/-- A client in a battle, and one that has lost its connection there, can
reconnect. -/
def Good (s : GameSession) : Prop := s.state = .inBattle ∨ s.wasInBattle → s.canReconnect

/-- The same while these messages are handled. -/
def Safe : GameSession → List (ServerMsg F) → Prop
  | s, [] => s.Good
  | s, msg :: msgs => s.Good ∧ Safe (s.handleMessage msg) msgs

theorem Safe.good {s : GameSession} {msgs : List (ServerMsg F)} (h : s.Safe msgs) : s.Good := by
  cases msgs with
  | nil => exact h
  | cons msg msgs => exact h.1

theorem Safe.append {s : GameSession} {msgs msgs' : List (ServerMsg F)} (h : s.Safe msgs)
    (h' : (s.handleAll msgs).Safe msgs') : s.Safe (msgs ++ msgs') := by
  induction msgs generalizing s with
  | nil => exact h'
  | cons msg msgs ih => exact ⟨h.1, ih h.2 h'⟩

theorem Safe.last {s : GameSession} {msgs : List (ServerMsg F)} (h : s.Safe msgs) :
    (s.handleAll msgs).Good := by
  induction msgs generalizing s with
  | nil => exact h
  | cons msg msgs ih => exact ih h.2

theorem safe_inert {msgs : List (ServerMsg F)} (h : ∀ msg ∈ msgs, msg.inert = true)
    {s : GameSession} (hs : s.Good) : s.Safe msgs := by
  induction msgs with
  | nil => exact hs
  | cons msg msgs ih =>
      refine ⟨hs, ?_⟩
      rw [handleMessage_inert (h msg (List.mem_cons_self ..))]
      exact ih fun msg' h' => h msg' (List.mem_cons_of_mem _ h')

theorem canReconnect_handleMessage {msg : ServerMsg F} (h : msg.isLoginResp = false)
    (s : GameSession) : (s.handleMessage msg).canReconnect = s.canReconnect := by
  cases msg with
  | loginResp => cases h
  | enterRoom roomId =>
      simp only [handleMessage, onEnterRoom]
      split <;> rfl
  | battleEnd | stateSnapshot | leaderboardResp | heartbeat => rfl

theorem canReconnect_loginResp {p : ℕ} {token : String} (hp : p ≠ 0) (htoken : token ≠ "")
    (s : GameSession) :
    (s.handleMessage (.loginResp 0 p token : ServerMsg F)).canReconnect = true := by
  simp [handleMessage, onLoginResp, canReconnect, hp, htoken]

theorem inBattle_loginResp {s : GameSession} (hwas : s.wasInBattle = false) (p : ℕ)
    (token : String) :
    (s.handleMessage (.loginResp 0 p token : ServerMsg F)).state ≠ .inBattle := by
  simp [handleMessage, onLoginResp, hwas]

theorem safe_of_canReconnect {msgs : List (ServerMsg F)}
    (h : ∀ msg ∈ msgs, msg.isLoginResp = false) {s : GameSession} (hs : s.canReconnect = true) :
    s.Safe msgs ∧ (s.handleAll msgs).canReconnect = true := by
  induction msgs generalizing s with
  | nil => exact ⟨fun _ => hs, hs⟩
  | cons msg msgs ih =>
      have hmsg := canReconnect_handleMessage (h msg (List.mem_cons_self ..)) s
      have hrest := ih (fun msg' h' => h msg' (List.mem_cons_of_mem _ h')) (hmsg.trans hs)
      exact ⟨⟨fun _ => hs, hrest.1⟩, hrest.2⟩

/-- What the user can do to a client: the state may change, but not to
`inBattle`. -/
structure Follows (s' s : GameSession) : Prop where
  playerId : s'.playerId = s.playerId
  token : s'.token = s.token
  wasInBattle : s'.wasInBattle = s.wasInBattle
  inBattle : s'.state = .inBattle → s.state = .inBattle

theorem Follows.canReconnect {s' s : GameSession} (h : Follows s' s) :
    s'.canReconnect = s.canReconnect := by
  simp only [GameSession.canReconnect, h.playerId, h.token]

theorem Follows.good {s' s : GameSession} (h : Follows s' s) (hs : s.Good) : s'.Good := by
  intro hs'
  rw [h.canReconnect]
  exact hs (hs'.imp h.inBattle fun hw => h.wasInBattle ▸ hw)

theorem Follows.handleMessage {s' s : GameSession} (h : Follows s' s) (msg : ServerMsg F) :
    Follows (s'.handleMessage msg) (s.handleMessage msg) := by
  obtain ⟨hid, htoken, hwas, hbattle⟩ := h
  cases msg with
  | loginResp code playerId token =>
      simp only [GameSession.handleMessage, onLoginResp]
      split
      · exact ⟨rfl, rfl, rfl, hbattle⟩
      · exact ⟨rfl, rfl, rfl, by rw [hwas]; exact id⟩
  | enterRoom roomId =>
      simp only [GameSession.handleMessage, onEnterRoom]
      split
      · exact ⟨hid, htoken, hwas, fun hlobby => nomatch hlobby⟩
      · exact ⟨hid, htoken, hwas, fun _ => rfl⟩
  | battleEnd => exact ⟨hid, htoken, rfl, fun hended => nomatch hended⟩
  | stateSnapshot | leaderboardResp | heartbeat => exact ⟨hid, htoken, hwas, hbattle⟩

theorem Follows.handleAll {s' s : GameSession} (h : Follows s' s) (msgs : List (ServerMsg F)) :
    Follows (s'.handleAll msgs) (s.handleAll msgs) := by
  induction msgs generalizing s' s with
  | nil => exact h
  | cons msg msgs ih => exact ih (h.handleMessage msg)

theorem Follows.safe {s' s : GameSession} (h : Follows s' s) {msgs : List (ServerMsg F)}
    (hs : s.Safe msgs) : s'.Safe msgs := by
  induction msgs generalizing s' s with
  | nil => exact h.good hs
  | cons msg msgs ih => exact ⟨h.good hs.1, ih (h.handleMessage msg) hs.2⟩

/-! ### The state -/

/-- A message sets the state without looking at it, or leaves it as it is. -/
theorem state_handleMessage {a b : GameSession} (h : a.wasInBattle = b.wasInBattle)
    (msg : ServerMsg F) :
    (a.handleMessage msg).wasInBattle = (b.handleMessage msg).wasInBattle ∧
      ((a.handleMessage msg).state = (b.handleMessage msg).state ∧
          ((a.handleMessage msg).state = .lobby ∨ (a.handleMessage msg).state = .inBattle ∨
            (a.handleMessage msg).state = .battleEnded) ∨
        (a.handleMessage msg).state = a.state ∧ (b.handleMessage msg).state = b.state) := by
  cases msg with
  | loginResp code playerId token =>
      simp only [handleMessage, onLoginResp]
      split
      · exact ⟨rfl, .inr ⟨rfl, rfl⟩⟩
      · refine ⟨rfl, .inl ⟨by rw [h], ?_⟩⟩
        cases a.wasInBattle
        · exact .inl rfl
        · exact .inr (.inl rfl)
  | enterRoom roomId =>
      simp only [handleMessage, onEnterRoom]
      split
      · exact ⟨h, .inl ⟨rfl, .inl rfl⟩⟩
      · exact ⟨h, .inl ⟨rfl, .inr (.inl rfl)⟩⟩
  | battleEnd => exact ⟨rfl, .inl ⟨rfl, .inr (.inr rfl)⟩⟩
  | stateSnapshot | leaderboardResp | heartbeat => exact ⟨h, .inr ⟨rfl, rfl⟩⟩

theorem state_handleAll (msgs : List (ServerMsg F)) {a b : GameSession}
    (h : a.wasInBattle = b.wasInBattle) :
    (a.handleAll msgs).state = (b.handleAll msgs).state ∨
      (a.handleAll msgs).state = a.state ∧ (b.handleAll msgs).state = b.state := by
  induction msgs generalizing a b with
  | nil => exact .inr ⟨rfl, rfl⟩
  | cons msg msgs ih =>
      obtain ⟨hwas, hmsg⟩ := state_handleMessage h msg
      have hrest := ih hwas
      rcases hmsg with ⟨hsame, -⟩ | ⟨ha, hb⟩
      · exact .inl (hrest.elim id fun hkept => hkept.1.trans (hsame.trans hkept.2.symm))
      · exact hrest.imp_right fun hkept => ⟨hkept.1.trans ha, hkept.2.trans hb⟩

/-- Only the user makes the client wait for an opponent, and only a new
connection makes it log in. -/
theorem state_of_handleAll {msgs : List (ServerMsg F)} {s : GameSession}
    (h : (s.handleAll msgs).state = .matching ∨ (s.handleAll msgs).state = .loggingIn) :
    (s.handleAll msgs).state = s.state := by
  induction msgs generalizing s with
  | nil => rfl
  | cons msg msgs ih =>
      have hrest : (s.handleAll (msg :: msgs)).state = (s.handleMessage msg).state := ih h
      rcases (state_handleMessage (rfl : s.wasInBattle = s.wasInBattle) msg).2 with
        ⟨-, hset⟩ | ⟨hkept, -⟩
      · rw [hrest] at h
        rcases h with h | h <;> rw [h] at hset <;> simp at hset
      · exact hrest.trans hkept

end GameSession

end GameServer.Client
