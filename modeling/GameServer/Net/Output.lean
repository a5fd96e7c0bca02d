import GameServer.Lib.Run
import GameServer.Net.TcpConnection

/-!
The sending side of a connection. A message is written directly when nothing
is waiting and queued otherwise; `handleWrite` works off the queue. Both are
free to stop after any byte.

`Flowing` says that no byte is lost, doubled or overtaken, and that bytes
wait exactly while the poller watches for writability. `sendInLoop` and
`handleWrite` keep it as long as the socket does not fail.
-/

namespace GameServer.Net

open GameServer.Lib

/-- The answers of a socket that works: a write takes at least one byte, or
is to be tried again. -/
def WriteResult.Soft : WriteResult → Prop
  | .ok n => 0 < n
  | .fail e => e ≠ .other

instance : DecidablePred WriteResult.Soft
  | .ok n => inferInstanceAs (Decidable (0 < n))
  | .fail e => inferInstanceAs (Decidable (e ≠ .other))

/-- How many bytes a script takes before it makes the writer wait. -/
def takes : List WriteResult → ℕ
  | [] => 0
  | .ok n :: ws => n + takes ws
  | .fail .intr :: ws => takes ws
  | .fail _ :: _ => 0

namespace TcpConnection

variable {σ : Type} {c : TcpConnection σ} {msgs : List (List UInt8)} {msg : List UInt8}

structure Flowing (c : TcpConnection σ) (msgs : List (List UInt8)) : Prop where
  ok : c.outputBuffer.Ok
  stream : c.wire ++ c.outputBuffer.readable = msgs.flatten
  writing : c.channel.isWriting = true ↔ 0 < c.outputBuffer.readableBytes
  watched : c.channel.Watched

def SoftScript (c : TcpConnection σ) : Prop := ∀ w ∈ c.kernel.writes, w.Soft

/-- A write to a working socket: what it takes goes from the front of the
data to the wire, and it takes something whenever it answers with a count. -/
theorem write_soft (hsoft : c.SoftScript) (data : List UInt8) :
    (∃ n ws, c.kernel.writes = .ok n :: ws ∧ 0 < n ∧
      c.write data = (some (min n data.length),
        { c with wire := c.wire ++ data.take n, kernel.writes := ws })) ∨
    (∃ e ws, (c.kernel.writes = .fail e :: ws ∨ c.kernel.writes = [] ∧ ws = [] ∧ e = .again) ∧
      e ≠ .other ∧ c.write data = (none, { c with errno := e, kernel.writes := ws })) := by
  unfold write
  split
  · next hw => exact .inr ⟨.again, [], .inr ⟨hw, rfl, rfl⟩, by decide, by rw [← hw]⟩
  · next e ws hw =>
      have he : e ≠ .other := hsoft (.fail e) (by rw [hw]; exact List.mem_cons_self ..)
      exact .inr ⟨e, ws, .inl hw, he, rfl⟩
  · next n ws hw =>
      have hn : 0 < n := hsoft (.ok n) (by rw [hw]; exact List.mem_cons_self ..)
      exact .inl ⟨n, ws, hw, hn, rfl⟩

/-- The write loop moves bytes from the buffer to the wire. It runs dry
exactly when the script takes all that is waiting. -/
theorem writeLoop_soft {fuel : ℕ} (hfuel : c.kernel.writes.length < fuel) (hsoft : c.SoftScript)
    (hok : c.outputBuffer.Ok) :
    ∃ how c', writeLoop fuel c = (how, c') ∧ c'.outputBuffer.Ok ∧ how ≠ .failed ∧
      c'.wire ++ c'.outputBuffer.readable = c.wire ++ c.outputBuffer.readable ∧
      (how = .done ↔ c'.outputBuffer.readableBytes = 0) ∧
      (how = .done ↔ c.outputBuffer.readableBytes ≤ takes c.kernel.writes) := by
  induction fuel generalizing c with
  | zero => omega
  | succ fuel ih =>
      have hlen := hok.length_readable
      by_cases hpos : c.outputBuffer.readableBytes > 0
      · have hne : c.outputBuffer.readableBytes ≠ 0 := by omega
        have hdata : c.outputBuffer.peek 0 c.outputBuffer.readableBytes =
            c.outputBuffer.readable := rfl
        have htail {w : WriteResult} {ws : List WriteResult} (hws : c.kernel.writes = w :: ws) :
            ws.length < fuel ∧ ∀ w ∈ ws, w.Soft := by
          rw [hws, List.length_cons] at hfuel
          exact ⟨by omega, fun w hw => hsoft w (by rw [hws]; exact List.mem_cons_of_mem _ hw)⟩
        simp only [writeLoop, if_pos hpos, hdata]
        rcases write_soft hsoft c.outputBuffer.readable with
          ⟨n, ws, hws, hn, hwrite⟩ | ⟨e, ws, hws, he, hwrite⟩
        · -- some bytes leave the buffer; the rest of the loop is the induction hypothesis
          obtain ⟨hfuel', hsoft'⟩ := htail hws
          rw [hwrite, if_pos (by simp only [Option.getD_some]; omega)]
          obtain ⟨how, c', heq, hok', hfail, hstream, hdry, htakes⟩ :=
            ih (c := { c with
              wire := c.wire ++ c.outputBuffer.readable.take n
              kernel.writes := ws
              outputBuffer := c.outputBuffer.retrieve (min n c.outputBuffer.readable.length) })
              hfuel' hsoft' (Buffer.ok_retrieve hok _)
          refine ⟨how, c', heq, hok', hfail, ?_, hdry, ?_⟩
          · rw [hstream]
            show c.wire ++ c.outputBuffer.readable.take n ++ Buffer.readable _ = _
            have hcut : c.outputBuffer.readable.take n =
                c.outputBuffer.readable.take (min n c.outputBuffer.readable.length) :=
              List.take_eq_take_min
            rw [Buffer.readable_retrieve hok, hcut, List.append_assoc, List.take_append_drop]
          · rw [htakes, hws, takes]
            show Buffer.readableBytes _ ≤ takes ws ↔ _
            rw [← (Buffer.ok_retrieve hok _).length_readable, Buffer.readable_retrieve hok,
              List.length_drop]
            omega
        · rw [hwrite, if_neg (by simp)]
          rcases hws with hws | ⟨hws, rfl, rfl⟩
          · cases e with
            | again =>
                exact ⟨.again, _, rfl, hok, by decide, rfl, by simpa using hne,
                  by simpa [hws, takes] using hne⟩
            | intr =>
                obtain ⟨hfuel', hsoft'⟩ := htail hws
                obtain ⟨how, c', heq, hok', hfail, hstream, hdry, htakes⟩ :=
                  ih (c := { c with errno := .intr, kernel.writes := ws }) hfuel' hsoft' hok
                refine ⟨how, c', heq, hok', hfail, hstream, hdry, ?_⟩
                rw [htakes, hws, takes]
            | other => exact absurd rfl he
          · exact ⟨.again, _, rfl, hok, by decide, rfl, by simpa using hne,
              by simpa [hws, takes] using hne⟩
      · simp only [writeLoop, if_neg hpos]
        refine ⟨.done, c, rfl, hok, by decide, rfl, ?_, ?_⟩
        · simp only [true_iff]
          omega
        · simp only [true_iff]
          omega

/-! ### Sending -/

theorem Flowing.congr {msgs' : List (List UInt8)} (h : Flowing c msgs)
    (heq : msgs.flatten = msgs'.flatten) : Flowing c msgs' :=
  ⟨h.ok, h.stream.trans heq, h.writing, h.watched⟩

theorem Flowing.appendRest (h : Flowing c msgs) (rest : List UInt8) :
    Flowing (c.appendRest rest) (msgs ++ [rest]) := by
  unfold TcpConnection.appendRest
  split
  · next hpos =>
      obtain ⟨hok, hread⟩ := Buffer.append_spec h.ok rest
      refine ⟨hok, ?_, ?_, ?_⟩
      · show c.wire ++ Buffer.readable _ = _
        rw [hread, ← List.append_assoc, h.stream]
        simp
      · have hbytes : 0 < (c.outputBuffer.append rest).readableBytes := by
          rw [← hok.length_readable, hread, List.length_append]
          omega
        have hwriting : (if c.channel.isWriting then c.channel
            else c.channel.enableWriting).isWriting = true := by
          split
          · next hw => exact hw
          · exact Channel.enableWriting_writing c.channel
        exact ⟨fun _ => hbytes, fun _ => hwriting⟩
      · dsimp only
        split
        · exact h.watched
        · exact h.watched.enableWriting
  · next hpos =>
      obtain rfl : rest = [] := List.length_eq_zero_iff.mp (by omega)
      exact h.congr (by simp)

theorem appendRest_rest (rest : List UInt8) (c : TcpConnection σ) :
    (c.appendRest rest).state = c.state ∧ (c.appendRest rest).finSent = c.finSent := by
  unfold appendRest
  split <;> exact ⟨rfl, rfl⟩

/-- A message sent joins the stream as its last part, whether it is written,
queued or cut in two. -/
theorem Flowing.sendInLoop (h : Flowing c msgs) (hopen : c.state ≠ .kDisconnected)
    (hsoft : c.SoftScript) (msg : List UInt8) :
    Flowing (c.sendInLoop msg) (msgs ++ [msg]) ∧ (c.sendInLoop msg).state = c.state ∧
      (c.sendInLoop msg).finSent = c.finSent := by
  simp only [TcpConnection.sendInLoop, if_neg hopen]
  split
  · next hidle =>
      have hnone : c.outputBuffer.readable = [] :=
        List.length_eq_zero_iff.mp (by rw [h.ok.length_readable, hidle.2])
      rcases write_soft hsoft msg with ⟨n, ws, -, -, hwrite⟩ | ⟨e, ws, -, he, hwrite⟩
      · rw [hwrite]
        have hdirect : Flowing { c with wire := c.wire ++ msg.take n, kernel.writes := ws }
            (msgs ++ [msg.take n]) := by
          refine ⟨h.ok, ?_, h.writing, h.watched⟩
          have hstream := h.stream
          rw [hnone, List.append_nil] at hstream
          show c.wire ++ msg.take n ++ c.outputBuffer.readable = _
          rw [hnone, hstream]
          simp
        refine ⟨(hdirect.appendRest _).congr ?_, appendRest_rest _ _⟩
        have hcut : msg.take n = msg.take (min n msg.length) := List.take_eq_take_min
        simp [hcut]
      · rw [hwrite]
        dsimp only
        rw [if_neg he]
        have hsame : Flowing { c with errno := e, kernel.writes := ws } msgs :=
          ⟨h.ok, h.stream, h.writing, h.watched⟩
        exact ⟨hsame.appendRest msg, appendRest_rest _ _⟩
  · exact ⟨h.appendRest msg, appendRest_rest _ _⟩

/-! ### Working off the buffer -/

/-- Nothing enters or leaves the stream when waiting bytes are written. The
write side is only closed over an empty buffer, and only on the way out. -/
theorem Flowing.handleWrite (h : Flowing c msgs) (hsoft : c.SoftScript) :
    Flowing c.handleWrite msgs ∧ c.handleWrite.state = c.state ∧
      (c.handleWrite.finSent = true ↔ c.finSent = true ∨
        c.state = .kDisconnecting ∧ c.channel.isWriting = true ∧
          c.outputBuffer.readableBytes ≤ takes c.kernel.writes) ∧
      (c.channel.isWriting = true → c.outputBuffer.readableBytes ≤ takes c.kernel.writes →
        c.handleWrite.outputBuffer.readableBytes = 0) := by
  unfold TcpConnection.handleWrite
  split
  · next hw =>
      obtain ⟨how, c', heq, hok, hfail, hstream, hdry, htakes⟩ :=
        writeLoop_soft (Nat.lt_succ_self _) hsoft h.ok
      have hrest := onlyOutput_writeLoop (c.kernel.writes.length + 1) c
      rw [heq] at hrest ⊢
      cases how with
      | again =>
          have hleft : c'.outputBuffer.readableBytes ≠ 0 := by simpa using hdry
          have hmore : ¬c.outputBuffer.readableBytes ≤ takes c.kernel.writes := by
            simpa using htakes
          refine ⟨⟨hok, hstream.trans h.stream, ?_, ?_⟩, hrest.state, ?_,
            fun _ hall => absurd hall hmore⟩
          · rw [hrest.channel]
            exact ⟨fun _ => Nat.pos_of_ne_zero hleft, fun _ => hw⟩
          · rw [hrest.channel]
            exact h.watched
          · rw [hrest.finSent]
            exact ⟨.inl, fun hor => hor.elim id fun hand => absurd hand.2.2 hmore⟩
      | failed => exact absurd rfl hfail
      | done =>
          have hdrained : c'.outputBuffer.readableBytes = 0 := hdry.mp rfl
          have hall : c.outputBuffer.readableBytes ≤ takes c.kernel.writes := htakes.mp rfl
          have hoff : c'.channel.disableWriting.isWriting = false :=
            Channel.disableWriting_writing c'.channel
          have hflow : Flowing { c' with channel := c'.channel.disableWriting } msgs := by
            have hwatched : c'.channel.Watched := by
              rw [show c'.channel = c.channel from hrest.channel]
              exact h.watched
            refine ⟨hok, hstream.trans h.stream, ?_, hwatched.disableWriting⟩
            show c'.channel.disableWriting.isWriting = true ↔ 0 < c'.outputBuffer.readableBytes
            rw [hoff, hdrained]
            simp
          have hstate : c'.state = c.state := hrest.state
          have hfin : c'.finSent = c.finSent := hrest.finSent
          dsimp only
          split
          · next hclosing =>
              simp only [shutdownInLoop, hoff, Bool.false_eq_true, if_false]
              refine ⟨⟨hflow.ok, hflow.stream, hflow.writing, hflow.watched⟩, hstate, ?_,
                fun _ _ => hdrained⟩
              simp only [true_iff]
              exact .inr ⟨hstate ▸ hclosing, hw, hall⟩
          · next hclosing =>
              refine ⟨hflow, hstate, ?_, fun _ _ => hdrained⟩
              rw [hfin]
              exact ⟨.inl, fun hor => hor.elim id fun hand =>
                absurd (hstate.trans hand.1) hclosing⟩
  · next hw =>
      exact ⟨h, rfl, ⟨.inl, fun hor => hor.elim id fun hand => absurd hand.2.1 hw⟩,
        fun hw' => absurd hw' hw⟩

theorem flowing_established (user : σ) :
    Flowing (connectEstablished { user := user }) [] := by
  refine ⟨Buffer.ok_init, ?_, ?_, Channel.watched_enableReading _ (by simp)⟩
  · show [] ++ Buffer.readable {} = _
    simp
  · show Channel.writing _ = true ↔ _
    simp [connectEstablished, connectionCb, invoke, Buffer.readableBytes]

/-! ### A connection's output -/

/-- Something that makes an established connection write, with the answers
its system calls get. -/
inductive OutputAct where
  | sendInLoop (msg : List UInt8) (script : List WriteResult)
  | handleWrite (script : List WriteResult)
deriving DecidableEq

def OutputAct.script : OutputAct → List WriteResult
  | .sendInLoop _ script => script
  | .handleWrite script => script

def OutputAct.message : OutputAct → Option (List UInt8)
  | .sendInLoop msg _ => some msg
  | .handleWrite _ => none

def output (c : TcpConnection σ) (a : OutputAct) : TcpConnection σ :=
  let c := { c with kernel.writes := a.script }
  match a with
  | .sendInLoop msg _ => c.sendInLoop msg
  | .handleWrite _ => c.handleWrite

theorem Flowing.output (h : Flowing c msgs) (hopen : c.state = .kConnected) {a : OutputAct}
    (hsoft : ∀ w ∈ a.script, w.Soft) :
    Flowing (c.output a) (msgs ++ a.message.toList) ∧ (c.output a).state = .kConnected := by
  have hscript : Flowing { c with kernel.writes := a.script } msgs :=
    ⟨h.ok, h.stream, h.writing, h.watched⟩
  cases a with
  | sendInLoop msg script =>
      have hstep := hscript.sendInLoop (by simp [hopen]) hsoft msg
      exact ⟨hstep.1, hstep.2.1.trans hopen⟩
  | handleWrite script =>
      have hstep := hscript.handleWrite hsoft
      exact ⟨(hstep.1).congr (by simp [OutputAct.message]), hstep.2.1.trans hopen⟩

/-- However the socket cuts its writes, the wire and the waiting bytes
together are the messages in the order they were sent, and the poller watches
for writability exactly while bytes are waiting. -/
theorem output_stream_intact (user : σ) (acts : List OutputAct)
    (hsoft : ∀ a ∈ acts, ∀ w ∈ a.script, w.Soft) :
    let c := acts.foldl output (connectEstablished { user := user })
    c.wire ++ c.outputBuffer.readable = (acts.filterMap OutputAct.message).flatten ∧
      (c.channel.isWriting = true ↔ 0 < c.outputBuffer.readableBytes) ∧
      c.channel.index = .kAdded := by
  suffices h : ∀ c : TcpConnection σ, ∀ msgs, Flowing c msgs → c.state = .kConnected →
      Flowing (acts.foldl output c) (msgs ++ acts.filterMap OutputAct.message) by
    have hend := h _ [] (flowing_established user) rfl
    exact ⟨hend.stream, hend.writing, hend.watched.2⟩
  induction acts with
  | nil =>
      intro c msgs hflow _
      simpa using hflow
  | cons a acts ih =>
      intro c msgs hflow hopen
      obtain ⟨hflow', hopen'⟩ := hflow.output hopen (hsoft a (List.mem_cons_self ..))
      have hrest := ih (fun a' ha' => hsoft a' (List.mem_cons_of_mem _ ha')) _ _ hflow' hopen'
      refine hrest.congr ?_
      cases hm : a.message <;> simp [hm]

/-- Back-pressure: a direct write of two bytes, an interrupted and a partial
write, and a message queued behind the rest. -/
theorem output_stream_intact_partial :
    let c := [OutputAct.sendInLoop [1, 2, 3, 4] [.ok 2], .sendInLoop [5, 6] [],
      .handleWrite [.fail .intr, .ok 1, .fail .again]].foldl output
        (connectEstablished { user := () })
    c.wire ++ c.outputBuffer.readable = [1, 2, 3, 4, 5, 6] ∧ c.wire = [1, 2, 3] :=
  ⟨(output_stream_intact () [.sendInLoop [1, 2, 3, 4] [.ok 2], .sendInLoop [5, 6] [],
      .handleWrite [.fail .intr, .ok 1, .fail .again]] (by decide)).1, by decide +kernel⟩

end TcpConnection

end GameServer.Net
