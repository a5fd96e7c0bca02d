import GameServer.Proto.Dispatcher
import GameServer.Client.Downlink
import GameServer.Client.GameClient

/-!
The way of a request from the session of the client to the handlers of the
server: `Send` writes a frame, the network cuts the stream, the codec takes
the frames out and the dispatcher parses the bodies.

`Serialize` and `Parse` are generated code; the request that was serialized
is what is parsed. Only the main thread sends, so the bytes of a connection
are the frames of what was sent on it, as far as `Write` got.
-/

namespace GameServer.Client

open GameServer.Lib
open GameServer.Proto

variable {F κ : Type}

/-- What `Send` writes for these requests. -/
def written (serialize : ClientMsg F → RawMessage) (msgs : List (ClientMsg F)) : List UInt8 :=
  msgs.flatMap fun msg => ProtoCodec.encode (serialize msg).msgId (serialize msg).body

theorem written_eq {serialize : ClientMsg F → RawMessage} {msgs : List (ClientMsg F)}
    (hsize : ∀ msg ∈ msgs, (serialize msg).body.length ≤ 65534) :
    written serialize msgs = (msgs.map serialize).flatMap encode := by
  induction msgs with
  | nil => rfl
  | cons msg msgs ih =>
      have hmsg := hsize msg (List.mem_cons_self ..)
      rw [written, List.flatMap_cons, List.map_cons, List.flatMap_cons, encode_eq (by omega)]
      exact congrArg (encode (serialize msg) ++ ·)
        (ih fun msg' h => hsize msg' (List.mem_cons_of_mem _ h))

theorem Conversation.of_prefix {msgs heard : List (ClientMsg F)} (h : Conversation msgs)
    (hbegin : heard <+: msgs) : heard = [] ∨ Conversation heard := by
  obtain ⟨msg, rest, rfl, hmsg, hrest⟩ := h
  cases heard with
  | nil => exact .inl rfl
  | cons m heard =>
      obtain ⟨rfl, hheard⟩ := List.cons_prefix_cons.mp hbegin
      exact .inr ⟨m, heard, rfl, hmsg, fun m' hm' => hrest m' (hheard.subset hm')⟩

/-- The handlers are given the requests that their frames carry. -/
theorem effects_requests (schema : Schema F) (conn : κ) {serialize : ClientMsg F → RawMessage}
    {msgs : List (ClientMsg F)}
    (hround : ∀ msg ∈ msgs, schema.request (serialize msg) = some msg) :
    ((msgs.map serialize).map CodecEvent.message).flatMap
        (CodecEvent.effects (serverDispatcher schema) conn) = msgs.map (ClientMsg.hop conn) := by
  induction msgs with
  | nil => rfl
  | cons msg msgs ih =>
      have hmsg : (serverDispatcher schema).onRawMessage conn (serialize msg) =
          [msg.hop conn] := by
        rw [serverDispatcher, onRawMessage_setups, outcome_serverSetups,
          hround msg (List.mem_cons_self ..)]
        rfl
      rw [List.map_cons, List.map_cons, List.flatMap_cons, CodecEvent.effects, hmsg,
        ih fun msg' h => hround msg' (List.mem_cons_of_mem _ h)]
      rfl

/-- For every civil run of the client, every connection and every way the
network cuts it, if the requests can be read back and fit into frames: the
handlers are given a beginning of the requests sent on the connection, in
their order, and the connection becomes a player's at most once, by the first
of them. When all bytes have arrived nothing is missing. -/
theorem requests_arrive_in_order [Scalar F] (parsers : Parsers F) (account : String)
    (autoConnect autoMatch autoReconnect : Bool) {acts : List (GameAct F)}
    (hcivil : Along (GameClient.step parsers) GameClient.Civil
      (GameClient.start account autoConnect autoMatch autoReconnect) acts)
    (schema : Schema F) (serialize : ClientMsg F → RawMessage) (i : ℕ) (conn : κ)
    (chunks : List (List UInt8)) :
    let s := acts.foldl (GameClient.step parsers)
      (GameClient.start account autoConnect autoMatch autoReconnect)
    let msgs := sentOn i s.sent
    (∀ msg ∈ msgs, schema.request (serialize msg) = some msg ∧
      (serialize msg).body.length ≤ 65534) →
    chunks.flatten <+: written serialize msgs →
    ∃ heard, heard <+: msgs ∧
      (receive true chunks).events.flatMap
        (CodecEvent.effects (serverDispatcher schema) conn) = heard.map (ClientMsg.hop conn) ∧
      .shutdown ∉ (receive true chunks).events ∧
      (heard = [] ∨ Conversation heard) ∧
      (chunks.flatten = written serialize msgs → heard = msgs) := by
  intro s msgs hserial hsent
  have hledger := (GameClient.ok_run hcivil).ledger
  rw [written_eq fun msg h => (hserial msg h).2] at hsent ⊢
  have hsizes : ∀ m ∈ msgs.map serialize, m.body.length ≤ 65534 := by
    intro m hm
    obtain ⟨msg, hmsg, rfl⟩ := List.mem_map.mp hm
    exact (hserial msg hmsg).2
  obtain ⟨cs, hsplit⟩ := hsent
  obtain ⟨rest, hparse, -⟩ := parse_prefix hsizes hsplit
  -- the frames that are complete are those of the first requests
  obtain ⟨heard, hheard, hframes⟩ :
      ∃ heard, heard <+: msgs ∧ arrived chunks.flatten.length (msgs.map serialize) =
        heard.map serialize :=
    List.prefix_map_iff.mp (arrived_begins _ _)
  obtain ⟨-, -, hevents⟩ := receive_eq true hparse
  rw [hevents, hframes]
  refine ⟨heard, hheard, ?_, by simp, ?_, fun hall => ?_⟩
  · exact effects_requests schema conn fun msg h => (hserial msg (hheard.subset h)).1
  · rcases hledger.talks i with hnone | htalk
    · exact .inl (List.prefix_nil.mp (hnone ▸ hheard))
    · exact htalk.of_prefix hheard
  · rw [hall, arrived_all] at hframes
    have hlen := congrArg List.length hframes
    rw [List.length_map, List.length_map] at hlen
    exact hheard.eq_of_length hlen.symm

/-- Bodies of characters and small numbers. -/
def byteSerialize : ClientMsg (Ext ℚ) → RawMessage
  | .loginReq account => ⟨kLoginReq, account.toList.map fun c => UInt8.ofNat c.toNat⟩
  | .reconnectReq playerId _ => ⟨kReconnectReq, [UInt8.ofNat playerId]⟩
  | .matchReq playerId => ⟨kMatchReq, [UInt8.ofNat playerId]⟩
  | .playerInput input => ⟨kPlayerInput, [UInt8.ofNat input.seq]⟩
  | .heartbeat clientMs => ⟨kHeartbeat, toBE 2 clientMs.toNat⟩
  | .leaderboardReq topN => ⟨kLeaderboardReq, [UInt8.ofNat topN]⟩

def byteSchema : Schema (Ext ℚ) where
  loginReq body := some (String.ofList (body.map fun b => Char.ofNat b.toNat))
  reconnectReq body := body.head?.map fun b => (b.toNat, "t")
  matchReq body := body.head?.map UInt8.toNat
  playerInput _ := none
  heartbeat body := some (ofBE body)
  leaderboardReq body := body.head?.map UInt8.toNat

/-- The first connection of the client that loses it once: two and a half
frames, and the rest. -/
theorem requests_arrive_in_order_lostOnce :
    let chunks : List (List UInt8) :=
      [[0, 0, 0, 7, 0, 3, 117, 110, 105, 116, 121, 0, 0, 0, 3, 0, 10, 7, 0, 0, 0],
        [4, 0, 2, 3, 232]]
    (receive true chunks).events.flatMap
        (CodecEvent.effects (serverDispatcher byteSchema) ()) =
      [.lobby () (.loginReq "unity"), .lobby () (.matchReq 7), .lobby () (.heartbeat 1000)] := by
  intro chunks
  have hall : chunks.flatten = written byteSerialize (sentOn 0
      (GameClient.lostOnce.foldl (GameClient.step GameClient.byteParsers)
        (GameClient.start "unity" true true true)).sent) := by decide +kernel
  obtain ⟨heard, -, heffects, -, -, hheard⟩ :=
    requests_arrive_in_order GameClient.byteParsers "unity" true true true
      GameClient.lostOnce_civil byteSchema byteSerialize 0 () chunks (by decide +kernel)
      (by rw [← hall])
  rw [heffects, hheard hall]
  decide +kernel

end GameServer.Client
