import GameServer.Net.Streaming
import GameServer.Client.NetworkClient
import Mathlib.Data.List.Infix
import Mathlib.Data.List.Perm.Basic

/-!
The way of a message from the server to the session of the client: `send` on
any thread, the IO loop, the socket, the network, the receive thread, the
queue of events and `Pump`.

The socket takes what it likes and may fail, either side may close, and the
network cuts the bytes as it likes. The one thing that is asked of it is that
bytes arrive as they were sent (`Carried`). Then the session gets the
messages in the order in which they reached the connection, up to some point,
and all of them once nothing is on its way.
-/

namespace GameServer.Client

open GameServer.Lib
open GameServer.Net
open GameServer.Proto

/-- One connection. `sent` are the messages that `send` did not drop. -/
structure Downlink (σ : Type) where
  server : IoLoop σ
  client : NetworkClient
  sent : List RawMessage := []

/-- `send` is `ProtobufCodec::send` on a thread that is not the IO thread, and
`sendOnLoop` on the IO thread. `shutdownOnLoop` and `hangUp` are what a read
event may do: the codec gives the connection up, or the stream has ended. -/
inductive DownAct where
  | send (m : RawMessage)
  | sendOnLoop (m : RawMessage) (script : List WriteResult)
  | shutdown
  | shutdownOnLoop
  | hangUp
  | handleWrite (script : List WriteResult)
  | swapFunctors
  | runFunctor (script : List WriteResult)
  | client (a : NetAct)
deriving DecidableEq

namespace Downlink

variable {σ : Type}

/-- The connection is established, and the client has called `Connect`. -/
def init (user : σ) : Downlink σ :=
  { server := IoLoop.init user, client := NetworkClient.step {} .connect }

/-- `send` takes the message, if the connection is up. -/
def accept (m : RawMessage) (s : Downlink σ) : List RawMessage :=
  if s.server.conn.state = .kConnected then s.sent ++ [m] else s.sent

def step (s : Downlink σ) : DownAct → Downlink σ
  | .send m => { s with server := s.server.step (.send (encode m)), sent := s.accept m }
  | .sendOnLoop m script =>
      { s with server := s.server.step (.sendOnLoop (encode m) script), sent := s.accept m }
  | .shutdown => { s with server := s.server.step .shutdown }
  | .shutdownOnLoop => { s with server.conn := s.server.conn.call .shutdown }
  | .hangUp => { s with server.conn := s.server.conn.handleClose }
  | .handleWrite script => { s with server := s.server.step (.handleWrite script) }
  | .swapFunctors => { s with server := s.server.step .swapFunctors }
  | .runFunctor script => { s with server := s.server.step (.runFunctor script) }
  | .client a => { s with client := s.client.step a }

/-- A body fits into a frame, there is one connection, and what arrives was
sent before. -/
def Carried (s : Downlink σ) : DownAct → Prop
  | .send m | .sendOnLoop m _ => m.body.length ≤ 65534
  | .client .connect => False
  | .client (.read i (some bs)) => s.client.streams i ++ bs <+: s.server.conn.wire
  | _ => True

instance (s : Downlink σ) (a : DownAct) : Decidable (s.Carried a) := by
  unfold Carried
  split <;> infer_instance

/-- Nothing is on its way. -/
structure Drained (s : Downlink σ) : Prop where
  functors : s.server.queue = []
  opened : s.server.conn.state ≠ .kDisconnected
  buffer : s.server.conn.outputBuffer.readableBytes = 0
  network : s.client.streams 0 = s.server.conn.wire
  queue : s.client.queue_ = []

end Downlink

/-- The messages among the events. -/
def arrivals (es : List Ev) : List RawMessage :=
  es.filterMap fun e =>
    match e with
    | .message m => some m
    | .connected | .disconnected _ => none

theorem arrivals_append (es es' : List Ev) : arrivals (es ++ es') = arrivals es ++ arrivals es' :=
  List.filterMap_append

theorem arrivals_map (ms : List RawMessage) : arrivals (ms.map .message) = ms := by
  induction ms with
  | nil => rfl
  | cons m ms ih => exact congrArg (m :: ·) ih

theorem NetworkClient.Story.arrivals {bs : List UInt8} {es : List Ev}
    (h : NetworkClient.Story bs es) : arrivals es = (frames.parse bs).1 := by
  have hnil : frames.parse [] = ([], some []) := Splitter.parse_more (by rfl)
  have hopened : Client.arrivals (NetworkClient.opened bs) = (frames.parse bs).1 :=
    arrivals_map _
  cases h with
  | dialling hbs => rw [hbs, hnil]; rfl
  | failed hbs => rw [hbs, hnil]; rfl
  | running => exact hopened
  | ended reason => rw [arrivals_append, hopened]; exact List.append_nil _

theorem NetworkClient.Story.corrupt {bs : List UInt8} {es : List Ev}
    (h : NetworkClient.Story bs es) (hlegal : (frames.parse bs).2.isSome) :
    .disconnected .corruptFrame ∉ es := by
  cases h with
  | dialling => nofun
  | failed => simp
  | running => simp [NetworkClient.opened]
  | ended reason hreason hcorrupt =>
      have hne : reason ≠ .corruptFrame := by
        intro heq
        rw [hcorrupt.mp heq] at hlegal
        cases hlegal
      simp [NetworkClient.opened, Ne.symm hne]

theorem arrived_begins (n : ℕ) (ms : List RawMessage) : arrived n ms <+: ms := by
  induction ms generalizing n with
  | nil => exact List.prefix_rfl
  | cons m ms ih =>
      unfold arrived
      split
      · exact List.cons_prefix_cons.mpr ⟨rfl, ih _⟩
      · exact List.nil_prefix

namespace Downlink

variable {σ : Type} {s s' : Downlink σ} {done line : List (List UInt8)} {p : Prop}

/-- `p` stands for a run in which nothing is sent on the loop itself. -/
structure Inv (p : Prop) (s : Downlink σ) (done line : List (List UInt8)) : Prop where
  ordered : s.server.Ordered done line
  sent : s.server.accepted = s.sent.map encode
  sizes : ∀ m ∈ s.sent, m.body.length ≤ 65534
  fifo : p → line = s.server.accepted
  client : s.client.Inv
  single : s.client.threads.length = 1
  arrived : s.client.streams 0 <+: done.flatten

/-- The rule for a step of the server. -/
theorem Inv.server (h : s.Inv p done line) {a : LoopAct} (hclient : s'.client = s.client)
    (hserver : s'.server = s.server.step a) (hsent : s'.server.accepted = s'.sent.map encode)
    (hsizes : ∀ m ∈ s'.sent, m.body.length ≤ 65534)
    (hpost : p → ∀ msg script, a ≠ .sendOnLoop msg script) :
    ∃ done' line', s'.Inv p done' line' := by
  obtain ⟨done', line', hordered, hmore, hfifo⟩ := h.ordered.step a
  refine ⟨done', line', hserver ▸ hordered, hsent, hsizes, fun hp => ?_, hclient ▸ h.client,
    hclient ▸ h.single, ?_⟩
  · rw [hserver]
    exact hfifo (hpost hp) (h.fifo hp)
  · rw [hclient]
    exact h.arrived.trans hmore.flatten

/-- What the loop does to the connection besides. -/
theorem Inv.withConn {conn : TcpConnection σ} (h : s.Inv p done line)
    (hconn : TcpConnection.Streaming conn done) :
    { s with server.conn := conn }.Inv p done line :=
  ⟨h.ordered.withConn hconn, h.sent, h.sizes, h.fifo, h.client, h.single, h.arrived⟩

theorem Inv.accepts (h : s.Inv p done line) (m : RawMessage) :
    (if s.server.conn.state = .kConnected then s.server.accepted ++ [encode m]
      else s.server.accepted) = (s.accept m).map encode := by
  unfold accept
  split
  · rw [h.sent, List.map_append]
    rfl
  · exact h.sent

theorem Inv.sizes_accept (h : s.Inv p done line) {m : RawMessage}
    (hm : m.body.length ≤ 65534) : ∀ m' ∈ s.accept m, m'.body.length ≤ 65534 := by
  intro m' hm'
  unfold accept at hm'
  split at hm'
  · rcases List.mem_append.mp hm' with hm' | hm'
    · exact h.sizes m' hm'
    · rwa [List.mem_singleton.mp hm']
  · exact h.sizes m' hm'

/-- A step of the client. -/
theorem Inv.receives (h : s.Inv p done line) {a : NetAct} (hok : s.Carried (.client a)) :
    (s.step (.client a)).Inv p done line := by
  have hconnect : a ≠ .connect := by
    rintro rfl
    exact hok
  refine ⟨h.ordered, h.sent, h.sizes, h.fifo, h.client.step a fun hc => absurd hc hconnect, ?_, ?_⟩
  · show (s.client.step a).threads.length = 1
    rw [NetworkClient.length_step a hconnect, h.single]
  · rcases NetworkClient.streams_step h.client a 0 with hsame | ⟨bs, rfl, hmore⟩
    · exact (hsame ▸ h.arrived : (s.client.step a).streams 0 <+: done.flatten)
    · show (s.client.step _).streams 0 <+: done.flatten
      rw [hmore]
      exact hok.trans h.ordered.streaming.wire_prefix

theorem Inv.step (h : s.Inv p done line) {a : DownAct} (hok : s.Carried a)
    (hpost : p → ∀ m script, a ≠ .sendOnLoop m script) :
    ∃ done' line', (s.step a).Inv p done' line' := by
  cases a with
  | send m =>
      refine h.server (a := .send (encode m)) rfl rfl ?_ (h.sizes_accept hok) (by simp)
      rw [← show _ = ((s.step (.send m)).sent).map encode from h.accepts m]
      simp only [Downlink.step, IoLoop.step]
      split <;> rfl
  | sendOnLoop m script =>
      refine h.server (a := .sendOnLoop (encode m) script) rfl rfl ?_ (h.sizes_accept hok)
        fun hp => absurd rfl (hpost hp m script)
      rw [← show _ = ((s.step (.sendOnLoop m script)).sent).map encode from h.accepts m]
      simp only [Downlink.step, IoLoop.step]
      split <;> rfl
  | shutdown =>
      refine h.server (a := .shutdown) rfl rfl ?_ h.sizes (by simp)
      simp only [Downlink.step, IoLoop.step]
      split <;> exact h.sent
  | shutdownOnLoop =>
      refine ⟨done, line, h.withConn ?_⟩
      simp only [TcpConnection.call]
      split
      · next hconn =>
          refine TcpConnection.Streaming.shutdownInLoop (h.ordered.streaming.congr ?_ rfl rfl rfl)
          simp [hconn]
      · exact h.ordered.streaming
  | hangUp => exact ⟨done, line, h.withConn h.ordered.streaming.handleClose⟩
  | handleWrite script =>
      refine h.server (a := .handleWrite script) rfl rfl ?_ h.sizes (by simp)
      simp only [Downlink.step, IoLoop.step]
      split <;> exact h.sent
  | swapFunctors =>
      refine h.server (a := .swapFunctors) rfl rfl ?_ h.sizes (by simp)
      simp only [Downlink.step, IoLoop.step]
      split <;> exact h.sent
  | runFunctor script =>
      refine h.server (a := .runFunctor script) rfl rfl ?_ h.sizes (by simp)
      simp only [Downlink.step, IoLoop.step]
      split <;> exact h.sent
  | client a => exact ⟨done, line, h.receives hok⟩

theorem inv_init (user : σ) : (init user).Inv p [] [] where
  ordered := IoLoop.ordered_init user
  sent := rfl
  sizes := nofun
  fifo _ := rfl
  client := NetworkClient.inv_init.step .connect fun _ => nofun
  single := rfl
  arrived := List.prefix_rfl

theorem Inv.log (h : s.Inv p done line) :
    NetworkClient.Story (s.client.streams 0) (s.client.raised ++ s.client.queue_) := by
  obtain ⟨t, ht⟩ := List.length_eq_one_iff.mp h.single
  have hfifo := h.client.fifo
  rw [ht, List.flatMap_cons, List.flatMap_nil, List.append_nil] at hfifo
  rw [hfifo]
  exact (h.client.sound 0 t (by rw [ht]; rfl)).story

end Downlink

end GameServer.Client
