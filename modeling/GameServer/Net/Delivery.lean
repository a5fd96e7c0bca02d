import GameServer.Net.Lifecycle

/-!
Whether received bytes are delivered before the connection ends.

A pass of `handleRead` reads until the socket has no more, the stream ends or
the socket fails. `received` are the bytes it takes and `ending` is how it
stops, both read off the script of system calls. To see what the message
callback is offered, it is wrapped into one that also keeps the bytes it
finds in the input buffer (`offering`); forgetting them gives back the pass
of the connection (`mapUser_pass`).

The end of the stream is announced after the delivery. A hard error closes
the connection at once, and what was read in the same pass is never offered.
-/

namespace GameServer.Net

open GameServer.Lib

/-! ### What a pass reads -/

def received : List ReadResult → List UInt8
  | .ok bytes :: rest => if bytes.length > 0 then bytes ++ received rest else []
  | .fail .intr :: rest => received rest
  | _ => []

def ending : List ReadResult → TcpConnection.LoopEnd
  | .ok bytes :: rest => if bytes.length > 0 then ending rest else .done
  | .fail .intr :: rest => ending rest
  | .fail .other :: _ => .failed
  | _ => .again

namespace TcpConnection

variable {σ ρ : Type} {c : TcpConnection σ}

/-- The loop stores what it receives behind what was left in the buffer. -/
theorem readLoop_spec (reads : List ReadResult) {buf : Buffer} (h : buf.Ok) :
    (readLoop reads buf).1 = ending reads ∧ (readLoop reads buf).2.Ok ∧
      (readLoop reads buf).2.readable = buf.readable ++ received reads := by
  induction reads generalizing buf with
  | nil => exact ⟨rfl, h, (List.append_nil _).symm⟩
  | cons result rest ih =>
      cases result with
      | ok bytes =>
          simp only [readLoop, ending, received]
          split
          · obtain ⟨hok, hread⟩ := Buffer.readFd_spec h bytes
            obtain ⟨hend, hok', hrest⟩ := ih hok
            exact ⟨hend, hok', by rw [hrest, hread, List.append_assoc]⟩
          · exact ⟨rfl, h, (List.append_nil _).symm⟩
      | fail e =>
          cases e with
          | again => exact ⟨rfl, h, (List.append_nil _).symm⟩
          | intr => exact ih h
          | other => exact ⟨rfl, h, (List.append_nil _).symm⟩

/-! ### Watching the message callback -/

/-- The same connection with another user. -/
def mapUser (f : σ → ρ) (c : TcpConnection σ) : TcpConnection ρ where
  state := c.state
  channel := c.channel
  inputBuffer := c.inputBuffer
  outputBuffer := c.outputBuffer
  user := f c.user
  kernel := c.kernel
  errno := c.errno
  wire := c.wire
  finSent := c.finSent
  callbacks := c.callbacks

/-- The user also keeps the bytes that each call of the callback finds. -/
def offering (messageCb : MessageCallback σ) : MessageCallback (σ × List (List UInt8)) :=
  fun user buf =>
    let (user', buf', calls) := messageCb user.1 buf
    ((user', user.2 ++ [buf.readable]), buf', calls)

/-- A pass of `handleRead` in which the offers are kept. -/
def pass (messageCb : MessageCallback σ) (c : TcpConnection σ) :
    TcpConnection (σ × List (List UInt8)) :=
  (c.mapUser fun user => (user, [])).handleRead (offering messageCb)

theorem mapUser_write (f : σ → ρ) (data : List UInt8) (c : TcpConnection σ) :
    (c.mapUser f).write data = ((c.write data).1, (c.write data).2.mapUser f) := by
  unfold write
  rw [show (c.mapUser f).kernel = c.kernel from rfl]
  cases c.kernel.writes with
  | nil => rfl
  | cons w ws => cases w <;> rfl

theorem mapUser_appendRest (f : σ → ρ) (rest : List UInt8) (c : TcpConnection σ) :
    (c.mapUser f).appendRest rest = (c.appendRest rest).mapUser f := by
  unfold appendRest
  split <;> rfl

theorem mapUser_shutdownInLoop (f : σ → ρ) (c : TcpConnection σ) :
    (c.mapUser f).shutdownInLoop = c.shutdownInLoop.mapUser f := by
  unfold shutdownInLoop
  rw [show (c.mapUser f).channel = c.channel from rfl]
  split <;> rfl

theorem mapUser_sendInLoop (f : σ → ρ) (msg : List UInt8) (c : TcpConnection σ) :
    (c.mapUser f).sendInLoop msg = (c.sendInLoop msg).mapUser f := by
  simp only [sendInLoop, mapUser_write]
  rw [show (c.mapUser f).state = c.state from rfl, show (c.mapUser f).channel = c.channel from rfl,
    show (c.mapUser f).outputBuffer = c.outputBuffer from rfl]
  split
  · rfl
  · split
    · cases (c.write msg).1 with
      | some nwrote => exact mapUser_appendRest f _ _
      | none =>
          dsimp only
          rw [show ((c.write msg).2.mapUser f).errno = (c.write msg).2.errno from rfl]
          split
          · rfl
          · exact mapUser_appendRest f _ _
    · exact mapUser_appendRest f _ _

theorem mapUser_call (f : σ → ρ) (x : Call) (c : TcpConnection σ) :
    (c.mapUser f).call x = (c.call x).mapUser f := by
  cases x with
  | send msg =>
      simp only [call]
      rw [show (c.mapUser f).state = c.state from rfl, mapUser_sendInLoop]
      split <;> rfl
  | shutdown =>
      simp only [call]
      rw [show (c.mapUser f).state = c.state from rfl]
      split
      · exact mapUser_shutdownInLoop f { c with state := .kDisconnecting }
      · rfl

theorem mapUser_calls (f : σ → ρ) (calls : List Call) (c : TcpConnection σ) :
    calls.foldl (fun c x => c.call x) (c.mapUser f) =
      (calls.foldl (fun c x => c.call x) c).mapUser f := by
  induction calls generalizing c with
  | nil => rfl
  | cons x calls ih => rw [List.foldl_cons, List.foldl_cons, mapUser_call, ih]

/-- Calls on a connection do not reach its user. -/
theorem user_calls (calls : List Call) (c : TcpConnection σ) :
    (calls.foldl (fun c x => c.call x) c).user = c.user := by
  have hsame : c.mapUser (fun _ => c.user) = c := rfl
  have hcalls := mapUser_calls (fun _ => c.user) calls c
  rw [hsame] at hcalls
  rw [hcalls]
  rfl

theorem mapUser_invokeMessageCb (messageCb : MessageCallback σ)
    (c : TcpConnection (σ × List (List UInt8))) :
    (c.invokeMessageCb (offering messageCb)).mapUser Prod.fst =
      (c.mapUser Prod.fst).invokeMessageCb messageCb := by
  unfold invokeMessageCb
  exact (mapUser_calls Prod.fst _ _).symm

/-- The connection when its read loop has ended. -/
def withInput (buf : Buffer) (c : TcpConnection σ) : TcpConnection σ :=
  { c with inputBuffer := buf }

theorem handleRead_eq (messageCb : MessageCallback σ) {how : LoopEnd} {buf : Buffer}
    (h : readLoop c.kernel.reads c.inputBuffer = (how, buf)) :
    c.handleRead messageCb =
      if how = .failed then (c.withInput buf).handleClose
      else
        let c' := if buf.readableBytes > 0 then (c.withInput buf).invokeMessageCb messageCb
          else c.withInput buf
        if how = .done then c'.handleClose else c' := by
  unfold TcpConnection.handleRead
  rw [h]
  rfl

/-- Keeping the offers does not change the pass. -/
theorem mapUser_pass (messageCb : MessageCallback σ) (c : TcpConnection σ) :
    (c.pass messageCb).mapUser Prod.fst = c.handleRead messageCb := by
  rcases hloop : readLoop c.kernel.reads c.inputBuffer with ⟨how, buf⟩
  have hloop' : readLoop (c.mapUser fun user => (user, ([] : List (List UInt8)))).kernel.reads
      (c.mapUser fun user => (user, ([] : List (List UInt8)))).inputBuffer = (how, buf) := hloop
  have hmessage := mapUser_invokeMessageCb messageCb
    ((c.mapUser fun user => (user, ([] : List (List UInt8)))).withInput buf)
  rw [pass, handleRead_eq messageCb hloop, handleRead_eq (offering messageCb) hloop']
  dsimp only
  by_cases hfail : how = .failed
  · rw [if_pos hfail, if_pos hfail]
    rfl
  · rw [if_neg hfail, if_neg hfail]
    by_cases hpos : buf.readableBytes > 0
    · rw [if_pos hpos, if_pos hpos]
      by_cases hdone : how = .done
      · rw [if_pos hdone, if_pos hdone]
        exact congrArg handleClose hmessage
      · rw [if_neg hdone, if_neg hdone]
        exact hmessage
    · rw [if_neg hpos, if_neg hpos]
      split <;> rfl

/-! ### Offered before the end -/

/-- The bytes received in the pass are offered in the pass, and before the end
of the connection is announced: the message callback is called with them at
the end of the input buffer, and before every such announcement of the whole
log it has been called so. The offers belong to the `messageCb` entries the
pass has added, in the same order. -/
def Delivers (messageCb : MessageCallback σ) (c : TcpConnection σ) : Prop :=
  let c' := c.pass messageCb
  received c.kernel.reads ≠ [] →
    (∃ offer ∈ c'.user.2, received c.kernel.reads <:+ offer) ∧
    ∀ before after, c'.callbacks = before ++ .connectionCb false :: after →
      ∃ offer ∈ c'.user.2.take ((before.drop c.callbacks.length).count .messageCb),
        received c.kernel.reads <:+ offer

/-- The message is the first thing the user sees, and what it is offered is
the whole input buffer. -/
theorem invokeMessageCb_spec (messageCb : MessageCallback σ)
    (c : TcpConnection (σ × List (List UInt8))) :
    (∃ more, (c.invokeMessageCb (offering messageCb)).callbacks =
      c.callbacks ++ .messageCb :: more) ∧
    (c.invokeMessageCb (offering messageCb)).user.2 = c.user.2 ++ [c.inputBuffer.readable] := by
  unfold invokeMessageCb
  generalize hr : offering messageCb c.user c.inputBuffer = r
  obtain ⟨user, buf, calls⟩ := r
  have huser : user.2 = c.user.2 ++ [c.inputBuffer.readable] := by
    rw [← show (offering messageCb c.user c.inputBuffer).1 = user by rw [hr]]
    rfl
  dsimp only
  rw [user_calls]
  refine ⟨?_, huser⟩
  obtain ⟨more, hmore⟩ :=
    prefix_calls calls (invoke .messageCb { c with user := user, inputBuffer := buf })
  refine ⟨more, hmore.symm.trans ?_⟩
  exact List.append_assoc c.callbacks [.messageCb] more

/-- What the pass adds to the log, and what it offers: nothing but the close
after a hard error, and otherwise the message first. -/
theorem pass_spec (messageCb : MessageCallback σ) (hok : c.inputBuffer.Ok)
    (hbytes : received c.kernel.reads ≠ []) :
    (ending c.kernel.reads = .failed ∧
      (c.pass messageCb).callbacks = c.callbacks ++ [.connectionCb false, .closeCb] ∧
      (c.pass messageCb).user.2 = []) ∨
    (ending c.kernel.reads ≠ .failed ∧ ∃ more,
      (c.pass messageCb).callbacks = c.callbacks ++ .messageCb :: more ∧
      (c.pass messageCb).user.2 = [c.inputBuffer.readable ++ received c.kernel.reads]) := by
  obtain ⟨hend, hok', hread⟩ := readLoop_spec c.kernel.reads hok
  rcases hloop : readLoop c.kernel.reads c.inputBuffer with ⟨how, buf⟩
  rw [hloop] at hend hok' hread
  dsimp only at hend hok' hread
  set watched := c.mapUser fun user => (user, ([] : List (List UInt8)))
  have hloop' : readLoop watched.kernel.reads watched.inputBuffer = (how, buf) := hloop
  rw [pass, handleRead_eq (offering messageCb) hloop']
  dsimp only
  by_cases hfail : how = .failed
  · left
    rw [if_pos hfail]
    exact ⟨hend.symm.trans hfail, callbacks_handleClose _, rfl⟩
  · right
    have hpos : buf.readableBytes > 0 := by
      rw [← hok'.length_readable, hread, List.length_append]
      have := List.length_pos_of_ne_nil hbytes
      omega
    rw [if_neg hfail, if_pos hpos]
    refine ⟨fun h => hfail (hend.trans h), ?_⟩
    obtain ⟨⟨more, hmore⟩, hoffer⟩ := invokeMessageCb_spec messageCb (watched.withInput buf)
    rw [← hread]
    by_cases hdone : how = .done
    · rw [if_pos hdone]
      refine ⟨more ++ [.connectionCb false, .closeCb], ?_, hoffer⟩
      rw [callbacks_handleClose, hmore, List.append_assoc, List.cons_append]
      rfl
    · rw [if_neg hdone]
      exact ⟨more, hmore, hoffer⟩

/-- The bytes received in a pass are delivered, and before the connection's end
is announced, exactly if there are none, or the pass does not end in a hard
error and the end was not announced before it. -/
theorem delivers_iff (messageCb : MessageCallback σ) (c : TcpConnection σ)
    (hok : c.inputBuffer.Ok) :
    c.Delivers messageCb ↔ received c.kernel.reads = [] ∨
      ending c.kernel.reads ≠ .failed ∧ .connectionCb false ∉ c.callbacks := by
  by_cases hbytes : received c.kernel.reads = []
  · exact ⟨fun _ => .inl hbytes, fun _ hne => absurd hbytes hne⟩
  · rw [or_iff_right hbytes]
    rcases pass_spec messageCb hok hbytes with ⟨hfail, hlog, hoffers⟩ | ⟨hend, more, hlog, hoffers⟩
    · refine iff_of_false (fun hdelivers => ?_) fun h => h.1 hfail
      obtain ⟨⟨offer, hoffer, -⟩, -⟩ := hdelivers hbytes
      rw [hoffers] at hoffer
      exact List.not_mem_nil hoffer
    · refine ⟨fun hdelivers => ⟨hend, fun hover => ?_⟩, fun ⟨_, hrunning⟩ => ?_⟩
      · -- the end was announced before anything of this pass was offered
        obtain ⟨before, after, hcbs⟩ := List.append_of_mem hover
        obtain ⟨offer, hoffer, -⟩ := (hdelivers hbytes).2 before (after ++ .messageCb :: more)
          (by rw [hlog, hcbs, List.append_assoc, List.cons_append])
        have hdrop : before.drop c.callbacks.length = [] := by
          rw [List.drop_eq_nil_iff, hcbs, List.length_append]
          omega
        rw [hdrop, List.count_nil, List.take_zero] at hoffer
        exact List.not_mem_nil hoffer
      · have hsuffix : received c.kernel.reads <:+
            c.inputBuffer.readable ++ received c.kernel.reads := List.suffix_append _ _
        refine fun _ => ⟨⟨_, by rw [hoffers]; exact List.mem_cons_self .., hsuffix⟩, ?_⟩
        intro before after hcbs
        -- what precedes the announcement includes the message
        obtain ⟨mid, hmid⟩ :=
          exists_eq_append_cons (hlog.symm.trans hcbs) (by decide) hrunning
        refine ⟨_, ?_, hsuffix⟩
        rw [hmid, List.drop_left, List.count_cons_self, hoffers]
        exact List.mem_cons_self ..

/-- A user that takes all there is. -/
def takeAll : MessageCallback Unit := fun _ buf => ((), buf.retrieveAll, [])

/-- An established connection, and what its next reads will find. -/
def reading (reads : List ReadResult) : TcpConnection Unit :=
  { connectEstablished { user := () } with kernel := { reads := reads } }

/-- Two chunks and an interrupted read before the end of the stream. -/
theorem delivers_iff_last_words :
    let c := reading [.ok [1, 2], .fail .intr, .ok [3], .ok []]
    c.inputBuffer.Ok ∧ c.Delivers takeAll := by
  intro c
  have hok : c.inputBuffer.Ok := Buffer.ok_init
  exact ⟨hok, (delivers_iff takeAll c hok).mpr (.inr ⟨by decide, by decide⟩)⟩

/-- Three bytes and a reset: the user hears of the end and not of the bytes. -/
theorem reset_loses_bytes : ¬(reading [.ok [1, 2, 3], .fail .other]).Delivers takeAll := by
  intro hdelivers
  obtain ⟨⟨offer, hoffer, -⟩, -⟩ := hdelivers (by simp [reading, received])
  exact absurd hoffer List.not_mem_nil

end TcpConnection

end GameServer.Net
