import GameServer.Net.GracefulShutdown

/-!
The sending side of a connection whose socket may fail at any write, and
which may be closed at any time.

`Flowing` asks for a socket that works. What is left without this is
`Streaming`: as long as the connection is open nothing is missing from the
wire but what waits in the buffer, and when it is closed the wire stays where
it is. So the wire never holds anything but the beginning of what was sent.
`Ordered` says the same of an `IoLoop` to which other threads post.
-/

namespace GameServer.Net

open GameServer.Lib
open TcpConnection

namespace TcpConnection

variable {σ : Type} {c : TcpConnection σ} {msgs : List (List UInt8)}

structure Streaming (c : TcpConnection σ) (msgs : List (List UInt8)) : Prop where
  ok : c.outputBuffer.Ok
  opened : c.state ≠ .kDisconnected → c.wire ++ c.outputBuffer.readable = msgs.flatten
  closed : c.state = .kDisconnected →
    c.channel.isWriting = false ∧ c.wire <+: msgs.flatten

theorem Streaming.wire_prefix (h : Streaming c msgs) : c.wire <+: msgs.flatten := by
  by_cases hstate : c.state = .kDisconnected
  · exact (h.closed hstate).2
  · exact ⟨_, h.opened hstate⟩

/-- The fields that it is about. -/
theorem Streaming.congr {ρ : Type} {c' : TcpConnection ρ} (h : Streaming c msgs)
    (hstate : c'.state = .kDisconnected ↔ c.state = .kDisconnected)
    (hbuffer : c'.outputBuffer = c.outputBuffer) (hwire : c'.wire = c.wire)
    (hwriting : c'.channel.isWriting = c.channel.isWriting) : Streaming c' msgs := by
  refine ⟨hbuffer ▸ h.ok, fun hs => ?_, fun hs => ?_⟩
  · rw [hwire, hbuffer]
    exact h.opened fun hc => hs (hstate.mpr hc)
  · rw [hwire, hwriting]
    exact h.closed (hstate.mp hs)

theorem Streaming.handleClose (h : Streaming c msgs) : Streaming c.handleClose msgs :=
  ⟨h.ok, fun hs => absurd rfl hs, fun _ => ⟨Channel.disableAll_writing c.channel, h.wire_prefix⟩⟩

theorem Streaming.shutdownInLoop (h : Streaming c msgs) : Streaming c.shutdownInLoop msgs := by
  unfold TcpConnection.shutdownInLoop
  split
  · exact h
  · exact h.congr Iff.rfl rfl rfl rfl

/-- More was sent than what is known here to be on its way. -/
theorem Streaming.more (h : Streaming c msgs) (hclosed : c.state = .kDisconnected)
    (msg : List UInt8) : Streaming c (msgs ++ [msg]) := by
  refine ⟨h.ok, fun hs => absurd hclosed hs, fun _ => ⟨(h.closed hclosed).1, ?_⟩⟩
  rw [List.flatten_append]
  exact (h.closed hclosed).2.trans (List.prefix_append _ _)

theorem Streaming.appendRest {rest : List UInt8} (hok : c.outputBuffer.Ok)
    (hopen : c.state ≠ .kDisconnected)
    (hstream : c.wire ++ c.outputBuffer.readable ++ rest = msgs.flatten) :
    Streaming (c.appendRest rest) msgs := by
  unfold TcpConnection.appendRest
  split
  · obtain ⟨hok', hread⟩ := Buffer.append_spec hok rest
    refine ⟨hok', fun _ => ?_, fun hs => absurd hs hopen⟩
    show c.wire ++ Buffer.readable _ = _
    rw [hread, ← List.append_assoc, hstream]
  · next hpos =>
      obtain rfl : rest = [] := List.length_eq_zero_iff.mp (by omega)
      exact ⟨hok, fun _ => by rw [← hstream, List.append_nil], fun hs => absurd hs hopen⟩

/-- What a `write` of `data` puts on the wire is what it says it took. -/
theorem write_spec (data : List UInt8) (c : TcpConnection σ) :
    OnlyOutput c (c.write data).2 ∧ (c.write data).2.outputBuffer = c.outputBuffer ∧
      (c.write data).2.wire = c.wire ++ data.take ((c.write data).1.getD 0) := by
  refine ⟨onlyOutput_write data c, ?_⟩
  unfold write
  split
  · exact ⟨rfl, by simp⟩
  · exact ⟨rfl, by simp⟩
  · next n ws _ => exact ⟨rfl, by rw [Option.getD_some, ← List.take_eq_take_min]⟩

theorem Streaming.sendInLoop (h : Streaming c msgs) (msg : List UInt8) :
    Streaming (c.sendInLoop msg) (msgs ++ [msg]) := by
  unfold TcpConnection.sendInLoop
  split
  · next hclosed => exact h.more hclosed msg
  · next hopen =>
      have hsent : c.wire ++ c.outputBuffer.readable ++ msg = (msgs ++ [msg]).flatten := by
        rw [h.opened hopen]
        simp
      split
      · next hidle =>
          have hnone : c.outputBuffer.readable = [] :=
            List.length_eq_zero_iff.mp (by rw [h.ok.length_readable, hidle.2])
          obtain ⟨hrest, hbuffer, hwire⟩ := write_spec msg c
          have hopen' : (c.write msg).2.state ≠ .kDisconnected := by rwa [hrest.state]
          have hok : (c.write msg).2.outputBuffer.Ok := by rw [hbuffer]; exact h.ok
          dsimp only
          split
          · next n hn =>
              refine Streaming.appendRest hok hopen' ?_
              rw [hwire, hbuffer, hn, Option.getD_some, ← hsent, hnone]
              simp
          · next hn =>
              have hsame : (c.write msg).2.wire = c.wire := by rw [hwire, hn]; simp
              split
              · -- the write has failed for good
                refine Streaming.handleClose
                  ⟨hok, fun _ => ?_, fun hs => absurd hs hopen'⟩ |>.more ?_ msg
                · rw [hsame, hbuffer, h.opened hopen]
                · rfl
              · refine Streaming.appendRest hok hopen' ?_
                rw [hsame, hbuffer]
                exact hsent
      · exact Streaming.appendRest h.ok hopen hsent

theorem Streaming.writeLoop (h : Streaming c msgs) (hopen : c.state ≠ .kDisconnected) (fuel : ℕ) :
    Streaming (writeLoop fuel c).2 msgs := by
  induction fuel generalizing c with
  | zero => exact h
  | succ fuel ih =>
      obtain ⟨hrest, hbuffer, hwire⟩ :=
        write_spec (c.outputBuffer.peek 0 c.outputBuffer.readableBytes) c
      have hopen' : (c.write (c.outputBuffer.peek 0 c.outputBuffer.readableBytes)).2.state ≠
          .kDisconnected := by rwa [hrest.state]
      have hok :
          (c.write (c.outputBuffer.peek 0 c.outputBuffer.readableBytes)).2.outputBuffer.Ok := by
        rw [hbuffer]
        exact h.ok
      have hdata : c.outputBuffer.peek 0 c.outputBuffer.readableBytes =
          c.outputBuffer.readable := rfl
      simp only [TcpConnection.writeLoop]
      split
      · split
        · refine ih (c := { (c.write (c.outputBuffer.peek 0 c.outputBuffer.readableBytes)).2 with
              outputBuffer := Buffer.retrieve _ _ })
            ⟨Buffer.ok_retrieve hok _, fun _ => ?_, fun hs => absurd hs hopen'⟩ hopen'
          show (c.write _).2.wire ++ Buffer.readable _ = _
          rw [Buffer.readable_retrieve hok, hwire, hbuffer, hdata, List.append_assoc,
            List.take_append_drop, h.opened hopen]
        · next hzero =>
            have hsame : (c.write (c.outputBuffer.peek 0 c.outputBuffer.readableBytes)).2.wire =
                c.wire := by
              rw [hwire, Nat.eq_zero_of_not_pos hzero]
              simp
            have hstill : Streaming
                (c.write (c.outputBuffer.peek 0 c.outputBuffer.readableBytes)).2 msgs :=
              ⟨hok, fun _ => by rw [hsame, hbuffer, h.opened hopen], fun hs => absurd hs hopen'⟩
            split
            · exact hstill
            · exact ih hstill hopen'
            · exact hstill
      · exact h

theorem Streaming.handleWrite (h : Streaming c msgs) : Streaming c.handleWrite msgs := by
  unfold TcpConnection.handleWrite
  split
  · next hwriting =>
      have hopen : c.state ≠ .kDisconnected := by
        intro hclosed
        rw [(h.closed hclosed).1] at hwriting
        cases hwriting
      have hloop := h.writeLoop hopen (c.kernel.writes.length + 1)
      have hrest := onlyOutput_writeLoop (c.kernel.writes.length + 1) c
      split
      · next heq => rwa [heq] at hloop
      · next heq =>
          rw [heq] at hloop
          exact hloop.handleClose
      · next c' heq =>
          rw [heq] at hloop hrest
          have hopen' : c'.state ≠ .kDisconnected := by rwa [hrest.state]
          have hoff : Streaming { c' with channel := c'.channel.disableWriting } msgs :=
            ⟨hloop.ok, fun _ => hloop.opened hopen', fun hs => absurd hs hopen'⟩
          dsimp only
          split
          · exact hoff.shutdownInLoop
          · exact hoff
  · exact h

/-- The message that a task sends. -/
def Task.message : Task → Option (List UInt8)
  | .sendInLoop msg => some msg
  | .shutdownInLoop | .connectDestroyed => none

theorem Streaming.connectDestroyed (h : Streaming c msgs) :
    Streaming c.connectDestroyed msgs := by
  unfold TcpConnection.connectDestroyed
  dsimp only
  split
  · exact ⟨h.ok, fun hs => absurd rfl hs,
      fun _ => ⟨Channel.disableAll_writing c.channel, h.wire_prefix⟩⟩
  · exact h.congr Iff.rfl rfl rfl rfl

theorem Streaming.perform (h : Streaming c msgs) (t : Task) :
    Streaming (c.perform t) (msgs ++ t.message.toList) := by
  cases t with
  | sendInLoop msg => exact h.sendInLoop msg
  | shutdownInLoop => rw [Task.message, Option.toList_none, List.append_nil]; exact h.shutdownInLoop
  | connectDestroyed =>
      rw [Task.message, Option.toList_none, List.append_nil]
      exact h.connectDestroyed

theorem streaming_established (user : σ) :
    Streaming (connectEstablished { user := user }) [] :=
  ⟨(flowing_established user).ok, fun _ => (flowing_established user).stream, nofun⟩

end TcpConnection

/-! ### A connection to which other threads post -/

namespace IoLoop

variable {σ : Type} {s : IoLoop σ} {done line : List (List UInt8)}

/-- `done` are the messages that reached the connection, and `line` has those
that still wait in the functors behind them. -/
structure Ordered (s : IoLoop σ) (done line : List (List UInt8)) : Prop where
  streaming : Streaming s.conn done
  order : done ++ s.queue.filterMap Task.message = line
  accepted : line.Perm s.accepted

theorem Ordered.wire_prefix (h : Ordered s done line) : s.conn.wire <+: line.flatten := by
  rw [← h.order, List.flatten_append]
  exact h.streaming.wire_prefix.trans (List.prefix_append _ _)

/-- What the loop does besides does not touch what was sent. -/
theorem Ordered.withConn {conn : TcpConnection σ} (h : Ordered s done line)
    (hconn : Streaming conn done) : Ordered { s with conn := conn } done line :=
  ⟨hconn, h.order, h.accepted⟩

/-- Only a message that is sent on the loop itself overtakes others. -/
theorem Ordered.step (h : Ordered s done line) (a : LoopAct) :
    ∃ done' line', Ordered (s.step a) done' line' ∧ done <+: done' ∧
      ((∀ msg script, a ≠ .sendOnLoop msg script) → line = s.accepted →
        line' = (s.step a).accepted) := by
  have hscript : Streaming { s.conn with kernel.writes := a.script } done :=
    h.streaming.congr Iff.rfl rfl rfl rfl
  have horder := h.order
  cases a with
  | send msg =>
      simp only [IoLoop.step]
      split
      · refine ⟨done, line ++ [msg], ⟨h.streaming, ?_, h.accepted.append_right [msg]⟩,
          List.prefix_rfl, fun _ hfifo => by rw [hfifo]⟩
        simp only [IoLoop.queue, List.filterMap_append] at horder ⊢
        rw [← horder]
        simp [Task.message]
      · exact ⟨done, line, h, List.prefix_rfl, fun _ hfifo => hfifo⟩
  | shutdown =>
      simp only [IoLoop.step]
      split
      · next hconn =>
          refine ⟨done, line, ⟨h.streaming.congr ?_ rfl rfl rfl, ?_, h.accepted⟩,
            List.prefix_rfl, fun _ hfifo => hfifo⟩
          · simp [hconn]
          · simp only [IoLoop.queue, List.filterMap_append] at horder ⊢
            rw [← horder]
            simp [Task.message]
      · exact ⟨done, line, h, List.prefix_rfl, fun _ hfifo => hfifo⟩
  | sendOnLoop msg script =>
      simp only [IoLoop.step]
      split
      · refine ⟨done ++ [msg], done ++ [msg] ++ s.queue.filterMap Task.message,
          ⟨hscript.sendInLoop msg, rfl, ?_⟩, List.prefix_append _ _,
          fun hpost => absurd rfl (hpost msg script)⟩
        rw [List.append_assoc]
        refine (List.perm_append_comm.append_left done).trans ?_
        rw [← List.append_assoc, horder]
        exact h.accepted.append_right [msg]
      · exact ⟨done, line, h, List.prefix_rfl, fun _ hfifo => hfifo⟩
  | handleWrite script =>
      simp only [IoLoop.step]
      split
      · exact ⟨done, line, h.withConn hscript.handleWrite, List.prefix_rfl, fun _ hfifo => hfifo⟩
      · exact ⟨done, line, h, List.prefix_rfl, fun _ hfifo => hfifo⟩
  | swapFunctors =>
      simp only [IoLoop.step]
      split
      · next hnone =>
          refine ⟨done, line, ⟨h.streaming, ?_, h.accepted⟩, List.prefix_rfl, fun _ hfifo => hfifo⟩
          simpa [IoLoop.queue, hnone] using horder
      · exact ⟨done, line, h, List.prefix_rfl, fun _ hfifo => hfifo⟩
  | runFunctor script =>
      simp only [IoLoop.step]
      split
      · exact ⟨done, line, h, List.prefix_rfl, fun _ hfifo => hfifo⟩
      · next t ts hfunctors =>
          refine ⟨done ++ t.message.toList, line, ⟨hscript.perform t, ?_, h.accepted⟩,
            List.prefix_append _ _, fun _ hfifo => hfifo⟩
          simp only [IoLoop.queue, hfunctors, List.cons_append, List.filterMap_cons] at horder
          rw [← horder, List.append_assoc]
          cases t.message <;> rfl

theorem ordered_init (user : σ) : Ordered (init user) [] [] :=
  ⟨streaming_established user, rfl, .nil⟩

end IoLoop

end GameServer.Net
