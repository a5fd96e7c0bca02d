import GameServer.Lib.UnorderedMap
import GameServer.Proto.Messages
import GameServer.Proto.UntrustedStream

/-!
`src/proto/Dispatcher.h`, and the table that the constructor of `GameServer`
fills.

A handler is given by what it does, a list of effects. The closure that
`registerHandler` stores keeps the dispatcher and not a copy of its default
handler, so it falls back on the default handler of the day of the call.
`ParseFromArray` is a parameter. Bodies are below 64 KiB, so the cast of their
length to `int` loses nothing.
-/

namespace GameServer.Proto

open GameServer.Lib

/-- `κ` are the connections, `ε` what a handler can do. -/
abbrev DefaultHandler (κ ε : Type) := κ → UInt16 → List ε

abbrev RawHandler (κ ε : Type) := Option (DefaultHandler κ ε) → κ → RawMessage → List ε

structure Dispatcher (κ ε : Type) where
  handlers_ : UnorderedMap UInt16 (RawHandler κ ε) := ∅
  defaultHandler_ : Option (DefaultHandler κ ε) := none

namespace Dispatcher

variable {κ ε M : Type}

/-- What is done about a message that nobody understands. -/
def fallback (h : Option (DefaultHandler κ ε)) (conn : κ) (msgId : UInt16) : List ε :=
  match h with
  | some h => h conn msgId
  | none => []

def registerHandler (parse : List UInt8 → Option M) (msgId : UInt16) (h : κ → M → List ε)
    (d : Dispatcher κ ε) : Dispatcher κ ε :=
  { d with
    handlers_ := d.handlers_.insert msgId fun default conn m =>
      match parse m.body with
      | some msg => h conn msg
      | none => fallback default conn m.msgId }

def setDefaultHandler (h : DefaultHandler κ ε) (d : Dispatcher κ ε) : Dispatcher κ ε :=
  { d with defaultHandler_ := some h }

def onRawMessage (conn : κ) (m : RawMessage) (d : Dispatcher κ ε) : List ε :=
  match d.handlers_.lookup m.msgId with
  | some h => h d.defaultHandler_ conn m
  | none => fallback d.defaultHandler_ conn m.msgId

end Dispatcher

/-! ### A dispatcher by the calls that set it up -/

/-- A call that sets up a dispatcher. -/
inductive Setup (κ ε : Type) : Type 1 where
  | registerHandler {M : Type} (parse : List UInt8 → Option M) (msgId : UInt16)
      (h : κ → M → List ε)
  | setDefaultHandler (h : DefaultHandler κ ε)

namespace Setup

variable {κ ε : Type}

def apply (d : Dispatcher κ ε) : Setup κ ε → Dispatcher κ ε
  | .registerHandler parse msgId h => d.registerHandler parse msgId h
  | .setDefaultHandler h => d.setDefaultHandler h

/-- What the call makes of a message with this id: `none` when it is not
about the id, `some none` when the body is not understood. -/
def serves (conn : κ) (m : RawMessage) : Setup κ ε → Option (Option (List ε))
  | .registerHandler parse msgId h =>
      if msgId = m.msgId then some ((parse m.body).map (h conn)) else none
  | .setDefaultHandler _ => none

def default : Setup κ ε → Option (DefaultHandler κ ε)
  | .setDefaultHandler h => some h
  | .registerHandler _ _ _ => none

/-- What is done about a message after these calls: the last registration of
its id decides, and the last default handler serves what is left over. -/
def outcome (setups : List (Setup κ ε)) (conn : κ) (m : RawMessage) : List ε :=
  ((setups.reverse.findSome? (serves conn m)).getD none).getD
    (Dispatcher.fallback (setups.reverse.findSome? default) conn m.msgId)

end Setup

section

variable {κ ε : Type}

theorem lookup_registerHandler {M : Type} (d : Dispatcher κ ε) (parse : List UInt8 → Option M)
    (msgId : UInt16) (h : κ → M → List ε) (default : Option (DefaultHandler κ ε)) (conn : κ)
    (m : RawMessage) :
    ((d.registerHandler parse msgId h).handlers_.lookup m.msgId).map (fun f => f default conn m) =
      if msgId = m.msgId then
        some (((parse m.body).map (h conn)).getD (Dispatcher.fallback default conn m.msgId))
      else (d.handlers_.lookup m.msgId).map fun f => f default conn m := by
  simp only [Dispatcher.registerHandler, UnorderedMap.lookup_insert_eq, eq_comm (a := msgId)]
  split
  · cases hparse : parse m.body <;> simp [hparse]
  · rfl

theorem lookup_setups (setups : List (Setup κ ε)) (default : Option (DefaultHandler κ ε))
    (conn : κ) (m : RawMessage) :
    ((setups.foldl Setup.apply {}).handlers_.lookup m.msgId).map (fun f => f default conn m) =
      (setups.reverse.findSome? (Setup.serves conn m)).map
        (·.getD (Dispatcher.fallback default conn m.msgId)) := by
  induction setups using List.reverseRecOn with
  | nil => rfl
  | append_singleton setups s ih =>
      rw [List.foldl_append, List.reverse_append, List.reverse_singleton, List.singleton_append,
        List.findSome?_cons]
      cases s with
      | registerHandler parse msgId h =>
          simp only [List.foldl_cons, List.foldl_nil, Setup.apply, lookup_registerHandler,
            Setup.serves]
          split
          · rfl
          · exact ih
      | setDefaultHandler h => exact ih

theorem defaultHandler_setups (setups : List (Setup κ ε)) :
    (setups.foldl Setup.apply {}).defaultHandler_ = setups.reverse.findSome? Setup.default := by
  induction setups using List.reverseRecOn with
  | nil => rfl
  | append_singleton setups s ih =>
      rw [List.foldl_append, List.reverse_append, List.reverse_singleton, List.singleton_append,
        List.findSome?_cons]
      cases s with
      | registerHandler => exact ih
      | setDefaultHandler => rfl

theorem onRawMessage_setups (setups : List (Setup κ ε)) (conn : κ) (m : RawMessage) :
    (setups.foldl Setup.apply {}).onRawMessage conn m = Setup.outcome setups conn m := by
  have hlookup := lookup_setups setups (setups.foldl Setup.apply {}).defaultHandler_ conn m
  unfold Dispatcher.onRawMessage Setup.outcome
  rw [← defaultHandler_setups]
  cases hf : (setups.foldl Setup.apply {}).handlers_.lookup m.msgId with
  | none =>
      rw [hf, Option.map_none] at hlookup
      rw [Option.map_eq_none_iff.mp hlookup.symm]
      rfl
  | some f =>
      rw [hf, Option.map_some] at hlookup
      obtain ⟨served, hserved, heq⟩ := Option.map_eq_some_iff.mp hlookup.symm
      rw [hserved]
      exact heq.symm

/-! ### The frames of a connection -/

/-- What the handlers do about what the codec reports. -/
def CodecEvent.effects (d : Dispatcher κ ε) (conn : κ) : CodecEvent → List ε
  | .message m => d.onRawMessage conn m
  | .shutdown => []

/-- However the network cuts a legal stream, and in whatever order the
dispatcher was set up: each frame is served once, in order, by the handler
that was registered last for its id, or by the default handler that was set
last, when there is no such handler or it does not understand the body. -/
theorem dispatch_stream (setups : List (Setup κ ε)) (conn : κ) (chunks : List (List UInt8))
    (hlegal : (frames.parse chunks.flatten).2.isSome) :
    (receive true chunks).events.flatMap
        (CodecEvent.effects (setups.foldl Setup.apply {}) conn) =
      (frames.parse chunks.flatten).1.flatMap (Setup.outcome setups conn) := by
  cases hp : frames.parse chunks.flatten with
  | mk ms rest =>
      rw [hp] at hlegal
      obtain ⟨rest, rfl⟩ := Option.isSome_iff_exists.mp hlegal
      rw [(receive_eq true hp).2.2, List.flatMap_map]
      simp only [CodecEvent.effects, onRawMessage_setups]

/-- The second handler replaces the first one, and what it does not
understand goes to the default handler although that was set before. -/
theorem dispatch_stream_replaced :
    let one (bs : List UInt8) : Option UInt8 := if bs.length = 1 then bs.head? else none
    let setups : List (Setup Unit String) :=
      [.registerHandler one 7 fun _ _ => ["first"], .setDefaultHandler fun _ _ => ["default"],
        .registerHandler one 7 fun _ b => [if b = 42 then "42" else "other"]]
    (receive true [[0, 0], [0, 3, 0, 7, 42, 0, 0, 0], [2, 0, 7, 0, 0, 0, 2, 0, 9]]).events.flatMap
        (CodecEvent.effects (setups.foldl Setup.apply {}) ()) = ["42", "default", "default"] := by
  intro one setups
  rw [dispatch_stream setups () _ (by decide +kernel)]
  decide +kernel

end

/-! ### The requests of the server -/

def kHeartbeat : UInt16 := 2

def kLoginReq : UInt16 := 3

def kReconnectReq : UInt16 := 5

def kMatchReq : UInt16 := 10

def kPlayerInput : UInt16 := 20

def kLeaderboardReq : UInt16 := 30

/-- `ParseFromArray` for the messages that a client sends. -/
structure Schema (F : Type) where
  loginReq : List UInt8 → Option String
  reconnectReq : List UInt8 → Option (ℕ × String)
  matchReq : List UInt8 → Option ℕ
  playerInput : List UInt8 → Option (PlayerInput F)
  heartbeat : List UInt8 → Option ℤ
  leaderboardReq : List UInt8 → Option ℕ

/-- What the handlers of the server do on the IO thread: post a handler to the
lobby, or ask for the leaderboard. -/
inductive Hop (κ F : Type) where
  | lobby (conn : κ) (msg : ClientMsg F)
  | onLeaderboard (conn : κ) (topN : ℕ)
deriving DecidableEq

variable {κ F : Type}

/-- The constructor of `GameServer`, which sets no default handler. -/
def serverSetups (schema : Schema F) : List (Setup κ (Hop κ F)) :=
  [.registerHandler schema.loginReq kLoginReq fun c m => [.lobby c (.loginReq m)],
    .registerHandler schema.reconnectReq kReconnectReq fun c m =>
      [.lobby c (.reconnectReq m.1 m.2)],
    .registerHandler schema.matchReq kMatchReq fun c m => [.lobby c (.matchReq m)],
    .registerHandler schema.playerInput kPlayerInput fun c m => [.lobby c (.playerInput m)],
    .registerHandler schema.heartbeat kHeartbeat fun c m => [.lobby c (.heartbeat m)],
    .registerHandler schema.leaderboardReq kLeaderboardReq fun c m => [.onLeaderboard c m]]

def serverDispatcher (schema : Schema F) : Dispatcher κ (Hop κ F) :=
  (serverSetups schema).foldl Setup.apply {}

/-- The request that a frame carries. -/
def Schema.request (schema : Schema F) (m : RawMessage) : Option (ClientMsg F) :=
  if m.msgId = kLoginReq then (schema.loginReq m.body).map .loginReq
  else if m.msgId = kReconnectReq then
    (schema.reconnectReq m.body).map fun r => .reconnectReq r.1 r.2
  else if m.msgId = kMatchReq then (schema.matchReq m.body).map .matchReq
  else if m.msgId = kPlayerInput then (schema.playerInput m.body).map .playerInput
  else if m.msgId = kHeartbeat then (schema.heartbeat m.body).map .heartbeat
  else if m.msgId = kLeaderboardReq then (schema.leaderboardReq m.body).map .leaderboardReq
  else none

/-- Only the leaderboard is not the lobby's business. -/
def ClientMsg.hop (conn : κ) : ClientMsg F → Hop κ F
  | .leaderboardReq topN => .onLeaderboard conn topN
  | msg => .lobby conn msg

theorem served_eq {M : Type} (o : Option M) (conn : κ) (f : M → ClientMsg F) :
    (o.map fun msg => [(f msg).hop conn]).getD [] =
      ((o.map f).map (ClientMsg.hop conn)).toList := by
  cases o <;> rfl

theorem outcome_serverSetups (schema : Schema F) (conn : κ) (m : RawMessage) :
    Setup.outcome (serverSetups schema) conn m =
      ((schema.request m).map (ClientMsg.hop conn)).toList := by
  have hcases : m.msgId = kLoginReq ∨ m.msgId = kReconnectReq ∨ m.msgId = kMatchReq ∨
      m.msgId = kPlayerInput ∨ m.msgId = kHeartbeat ∨ m.msgId = kLeaderboardReq ∨
      ∀ id ∈ [kLoginReq, kReconnectReq, kMatchReq, kPlayerInput, kHeartbeat, kLeaderboardReq],
        m.msgId ≠ id := by
    simp only [List.mem_cons, List.not_mem_nil, or_false]
    grind
  simp only [Setup.outcome, serverSetups, List.reverse_cons, List.reverse_nil, List.nil_append,
    List.cons_append, List.findSome?_cons, List.findSome?_nil, Setup.serves, Setup.default,
    Dispatcher.fallback, Schema.request]
  rcases hcases with h | h | h | h | h | h | h
  · rw [h]
    exact served_eq (schema.loginReq m.body) conn .loginReq
  · rw [h]
    exact served_eq (schema.reconnectReq m.body) conn fun r => .reconnectReq r.1 r.2
  · rw [h]
    exact served_eq (schema.matchReq m.body) conn .matchReq
  · rw [h]
    exact served_eq (schema.playerInput m.body) conn .playerInput
  · rw [h]
    exact served_eq (schema.heartbeat m.body) conn .heartbeat
  · rw [h]
    exact served_eq (schema.leaderboardReq m.body) conn .leaderboardReq
  · simp only [List.mem_cons, List.not_mem_nil, or_false, forall_eq_or_imp, forall_eq] at h
    simp [h, Ne.symm h.1, Ne.symm h.2.1, Ne.symm h.2.2.1, Ne.symm h.2.2.2.1,
      Ne.symm h.2.2.2.2.1, Ne.symm h.2.2.2.2.2]

end GameServer.Proto
