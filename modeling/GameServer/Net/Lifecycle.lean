import GameServer.Lib.Run
import GameServer.Net.TcpConnection

/-!
The callbacks of one connection over its life.

`handleClose` is not guarded: whoever reaches it announces the end of the
connection. A run in which it is reached once keeps to the protocol the user
code relies on, `Lawful`. It is reached twice when one ready mask runs the
error callback and then the read callback with something to report, when a
send made inside the message callback is refused by the socket during a read
that also met the end of the stream, and when an event is handled for a
connection that is closed already. `Clean` excludes exactly these three.
-/

namespace GameServer.Net

open GameServer.Lib

namespace TcpConnection

variable {σ : Type} {c : TcpConnection σ} {cbs : List Callback}

/-! ### What the user relies on -/

/-- The end is announced at most once, and no message follows it. -/
structure Lawful (cbs : List Callback) : Prop where
  disconnected : cbs.count (.connectionCb false) ≤ 1
  closed : cbs.count .closeCb ≤ 1
  silent : ∀ pre post, cbs = pre ++ .connectionCb false :: post → .messageCb ∉ post

theorem Lawful.of_append {more : List Callback} (h : Lawful (cbs ++ more)) : Lawful cbs := by
  have h₁ := h.disconnected
  have h₂ := h.closed
  rw [List.count_append] at h₁ h₂
  refine ⟨by omega, by omega, fun pre post heq hmem => ?_⟩
  exact h.silent pre (post ++ more) (by rw [heq]; simp) (List.mem_append_left _ hmem)

/-- Nothing announced the end yet. -/
def Running (cbs : List Callback) : Prop := .connectionCb false ∉ cbs ∧ .closeCb ∉ cbs

/-- The end was announced, once and last. -/
def Over (cbs : List Callback) : Prop :=
  ∃ pre, Running pre ∧
    (cbs = pre ++ [.connectionCb false] ∨ cbs = pre ++ [.connectionCb false, .closeCb])

theorem Running.lawful (h : Running cbs) : Lawful cbs := by
  refine ⟨by rw [List.count_eq_zero_of_not_mem h.1]; omega,
    by rw [List.count_eq_zero_of_not_mem h.2]; omega, fun pre post heq => ?_⟩
  exact absurd (heq ▸ List.mem_append_right _ (List.mem_cons_self ..)) h.1

theorem Running.messageCb (h : Running cbs) : Running (cbs ++ [.messageCb]) := by
  simpa [Running] using h

theorem Over.lawful (h : Over cbs) : Lawful cbs := by
  obtain ⟨pre, ⟨hd, hc⟩, hcbs⟩ := h
  have hcount : pre.count (.connectionCb false) = 0 := List.count_eq_zero_of_not_mem hd
  have hcount' : pre.count .closeCb = 0 := List.count_eq_zero_of_not_mem hc
  have hpost : ∀ pre' post, cbs = pre' ++ .connectionCb false :: post →
      post = [] ∨ post = [.closeCb] := by
    intro pre' post heq
    rcases hcbs with rfl | rfl
    · obtain ⟨-, -, rfl⟩ := occurs_unique (p := (· = Callback.connectionCb false)) heq rfl rfl
        (fun e he => by rintro rfl; exact hd he) (by simp)
      exact .inl rfl
    · obtain ⟨-, -, rfl⟩ := occurs_unique (p := (· = Callback.connectionCb false)) heq rfl rfl
        (fun e he => by rintro rfl; exact hd he) (by simp)
      exact .inr rfl
  refine ⟨?_, ?_, fun pre' post heq => ?_⟩
  · rcases hcbs with rfl | rfl <;> simp [hcount]
  · rcases hcbs with rfl | rfl <;> simp [hcount']
  · rcases hpost pre' post heq with rfl | rfl <;> simp

theorem Over.mem (h : Over cbs) : .connectionCb false ∈ cbs := by
  obtain ⟨pre, -, rfl | rfl⟩ := h <;> simp

/-- A second announcement breaks the protocol. -/
theorem Over.not_lawful_again (h : Over cbs) (more : List Callback) :
    ¬Lawful (cbs ++ .connectionCb false :: more) := by
  intro hlawful
  have hcount := hlawful.disconnected
  have hpos := List.count_pos_iff.mpr h.mem
  rw [List.count_append, List.count_cons_self] at hcount
  omega

/-- So does a message after the end. -/
theorem Over.not_lawful_message (h : Over cbs) (more : List Callback) :
    ¬Lawful (cbs ++ .messageCb :: more) := by
  intro hlawful
  obtain ⟨pre, post, heq⟩ := List.append_of_mem h.mem
  refine hlawful.silent pre (post ++ .messageCb :: more) (by rw [heq]; simp) ?_
  exact List.mem_append_right _ (List.mem_cons_self ..)

/-! ### Open and closed -/

def IsOpen (c : TcpConnection σ) : Prop := c.state ≠ .kDisconnected ∧ Running c.callbacks

def IsClosed (c : TcpConnection σ) : Prop :=
  c.state = .kDisconnected ∧ Over c.callbacks ∧ c.channel.isWriting = false

def Alive (c : TcpConnection σ) : Prop := c.IsOpen ∨ c.IsClosed

theorem Alive.lawful (h : c.Alive) : Lawful c.callbacks :=
  h.elim (fun h => h.2.lawful) (fun h => h.2.1.lawful)

theorem Alive.isClosed (h : c.Alive) (hstate : c.state = .kDisconnected) : c.IsClosed :=
  h.elim (fun h => absurd hstate h.1) id

theorem Alive.isOpen (h : c.Alive) (hstate : c.state ≠ .kDisconnected) : c.IsOpen :=
  h.elim id (fun h => absurd h.1 hstate)

theorem IsOpen.congr {c' : TcpConnection σ} (h : c.IsOpen) (hstate : c'.state = c.state)
    (hcbs : c'.callbacks = c.callbacks) : c'.IsOpen := by
  simpa only [IsOpen, hstate, hcbs] using h

theorem callbacks_handleClose (c : TcpConnection σ) :
    c.handleClose.callbacks = c.callbacks ++ [.connectionCb false, .closeCb] := by
  simp [handleClose, connectionCb, invoke, connected]

theorem IsOpen.handleClose (h : c.IsOpen) : c.handleClose.IsClosed :=
  ⟨rfl, ⟨c.callbacks, h.2, .inr (callbacks_handleClose c)⟩, Channel.disableAll_writing _⟩

theorem IsOpen.appendRest (h : c.IsOpen) (rest : List UInt8) : (c.appendRest rest).IsOpen := by
  unfold TcpConnection.appendRest
  split
  · exact h.congr rfl rfl
  · exact h

theorem IsOpen.write (h : c.IsOpen) (data : List UInt8) : (c.write data).2.IsOpen :=
  h.congr (onlyOutput_write data c).state (onlyOutput_write data c).callbacks

theorem IsOpen.sendInLoop (h : c.IsOpen) (msg : List UInt8) : (c.sendInLoop msg).Alive := by
  simp only [TcpConnection.sendInLoop, if_neg h.1]
  split
  · split
    · exact .inl ((h.write msg).appendRest _)
    · split
      · exact .inr (h.write msg).handleClose
      · exact .inl ((h.write msg).appendRest _)
  · exact .inl (h.appendRest _)

theorem IsClosed.sendInLoop (h : c.IsClosed) (msg : List UInt8) : c.sendInLoop msg = c := by
  simp only [TcpConnection.sendInLoop, if_pos h.1]

theorem alive_sendInLoop (h : c.Alive) (msg : List UInt8) : (c.sendInLoop msg).Alive := by
  rcases h with h | h
  · exact h.sendInLoop msg
  · rw [h.sendInLoop msg]
    exact .inr h

theorem IsOpen.shutdownInLoop (h : c.IsOpen) : c.shutdownInLoop.IsOpen := by
  unfold TcpConnection.shutdownInLoop
  split
  · exact h
  · exact h.congr rfl rfl

theorem alive_shutdownInLoop (h : c.Alive) : c.shutdownInLoop.Alive := by
  unfold TcpConnection.shutdownInLoop
  split
  · exact h
  · exact h

theorem IsOpen.handleWrite (h : c.IsOpen) : c.handleWrite.Alive := by
  unfold TcpConnection.handleWrite
  split
  · have hrest := onlyOutput_writeLoop (c.kernel.writes.length + 1) c
    have hopen := h.congr hrest.state hrest.callbacks
    split
    · next heq => exact .inl (by rw [heq] at hopen; exact hopen)
    · next heq => exact .inr (by rw [heq] at hopen; exact hopen.handleClose)
    · next c' heq =>
        rw [heq] at hopen
        have hoff : IsOpen { c' with channel := c'.channel.disableWriting } := hopen.congr rfl rfl
        dsimp only
        split
        · exact .inl hoff.shutdownInLoop
        · exact .inl hoff
  · exact .inl h

theorem IsClosed.handleWrite (h : c.IsClosed) : c.handleWrite = c := by
  simp [TcpConnection.handleWrite, h.2.2]

theorem alive_handleWrite (h : c.Alive) : c.handleWrite.Alive := by
  rcases h with h | h
  · exact h.handleWrite
  · rw [h.handleWrite]
    exact .inr h

/-! ### Calls made inside a callback -/

/-- The next message would go straight to the socket. -/
def Idle (c : TcpConnection σ) : Prop :=
  c.state = .kConnected ∧ c.channel.isWriting = false ∧ c.outputBuffer.readableBytes = 0

/-- On an idle connection, one of the calls is a send that the socket refuses
for good. A message that is not taken completely makes the later ones wait
behind it, and after a shutdown nothing is sent. -/
def refused : List Call → List WriteResult → Bool
  | .send msg :: calls, w :: ws =>
      match w with
      | .fail .other => true
      | .fail _ => msg.isEmpty && refused calls ws
      | .ok n => decide (msg.length ≤ n) && refused calls ws
  | _, _ => false

@[simp] theorem refused_nil (calls : List Call) : refused calls [] = false := by
  cases calls with
  | nil => rfl
  | cons x calls => cases x <;> rfl

theorem alive_call (h : c.Alive) (x : Call) : (c.call x).Alive := by
  cases x with
  | send msg =>
      simp only [call]
      split
      · exact alive_sendInLoop h msg
      · exact h
  | shutdown =>
      simp only [call]
      split
      · next hconn =>
          have hopen := h.isOpen (by simp [hconn])
          have hclosing : IsOpen { c with state := .kDisconnecting } := ⟨by simp, hopen.2⟩
          exact .inl hclosing.shutdownInLoop
      · exact h

theorem alive_calls (h : c.Alive) (calls : List Call) :
    (calls.foldl (fun c x => c.call x) c).Alive :=
  invariant_run_of_step (I := Alive) (fun _ x h => alive_call h x) h calls

theorem IsClosed.calls (h : c.IsClosed) (calls : List Call) :
    calls.foldl (fun c x => c.call x) c = c := by
  induction calls with
  | nil => rfl
  | cons x calls ih =>
      have hx : c.call x = c := by
        cases x <;> simp [call, h.1]
      rw [List.foldl_cons, hx, ih]

/-- Nothing is written directly any more. -/
theorem busy_call (hopen : c.state ≠ .kDisconnected) (hbusy : ¬c.Idle) (x : Call) :
    (c.call x).state ≠ .kDisconnected ∧ ¬(c.call x).Idle := by
  cases x with
  | send msg =>
      simp only [call]
      split
      · next hconn =>
          have hwait : ¬(c.channel.isWriting = false ∧ c.outputBuffer.readableBytes = 0) :=
            fun h => hbusy ⟨hconn, h⟩
          simp only [sendInLoop, if_neg hopen, if_neg hwait, appendRest]
          split
          · refine ⟨hopen, fun hidle => ?_⟩
            have hwriting := hidle.2.1
            dsimp only at hwriting
            split at hwriting
            · next hw => exact absurd (hw.symm.trans hwriting) (by simp)
            · exact absurd ((Channel.enableWriting_writing c.channel).symm.trans hwriting)
                (by simp)
          · exact ⟨hopen, hbusy⟩
      · exact ⟨hopen, hbusy⟩
  | shutdown =>
      simp only [call]
      split
      · simp only [shutdownInLoop]
        split <;> simp [Idle]
      · exact ⟨hopen, hbusy⟩

theorem busy_calls (hopen : c.state ≠ .kDisconnected) (hbusy : ¬c.Idle) (calls : List Call) :
    (calls.foldl (fun c x => c.call x) c).state ≠ .kDisconnected :=
  (invariant_run_of_step (I := fun c : TcpConnection σ => c.state ≠ .kDisconnected ∧ ¬c.Idle)
    (fun _ x h => busy_call h.1 h.2 x) ⟨hopen, hbusy⟩ calls).1

/-- What is left to send after a direct write makes the connection busy. -/
theorem appendRest_idle (hidle : c.Idle) (rest : List UInt8) :
    (rest = [] ∧ c.appendRest rest = c) ∨
      (rest ≠ [] ∧ (c.appendRest rest).state ≠ .kDisconnected ∧ ¬(c.appendRest rest).Idle) := by
  by_cases hrest : rest = []
  · exact .inl ⟨hrest, by simp [appendRest, hrest]⟩
  · have hpos : rest.length > 0 := List.length_pos_iff.mpr hrest
    refine .inr ⟨hrest, ?_, ?_⟩
    · simp [appendRest, hpos, hidle.1]
    · have hwriting : c.channel.writing = false := hidle.2.1
      simp [appendRest, hpos, Idle, hwriting, Channel.isWriting]

theorem call_send_some {msg : List UInt8} {nwrote : ℕ} {c' : TcpConnection σ} (hidle : c.Idle)
    (hwrite : c.write msg = (some nwrote, c')) :
    c.call (.send msg) = c'.appendRest (msg.drop nwrote) := by
  have hopen : c.state ≠ .kDisconnected := by simp [hidle.1]
  simp only [call, if_pos hidle.1, sendInLoop, if_neg hopen, if_pos hidle.2, hwrite]

theorem call_send_none {msg : List UInt8} {c' : TcpConnection σ} (hidle : c.Idle)
    (hwrite : c.write msg = (none, c')) :
    c.call (.send msg) =
      if c'.errno = .other then c'.handleError else c'.appendRest msg := by
  have hopen : c.state ≠ .kDisconnected := by simp [hidle.1]
  simp only [call, if_pos hidle.1, sendInLoop, if_neg hopen, if_pos hidle.2, hwrite]

/-- An idle connection is closed by its callback exactly when a send is
refused. -/
theorem idle_calls (hidle : c.Idle) (hopen : c.IsOpen) (calls : List Call) :
    (calls.foldl (fun c x => c.call x) c).state = .kDisconnected ↔
      refused calls c.kernel.writes = true := by
  induction calls generalizing c with
  | nil => simp [hopen.1, refused]
  | cons x calls ih =>
      rw [List.foldl_cons]
      cases x with
      | shutdown =>
          have hbusy : ¬(c.call .shutdown).Idle ∧ (c.call .shutdown).state ≠ .kDisconnected := by
            simp only [call, if_pos hidle.1, shutdownInLoop]
            split <;> simp [Idle]
          simpa [refused] using busy_calls hbusy.2 hbusy.1 calls
      | send msg =>
          -- after the direct write the connection is idle again, or what is
          -- left of the message keeps it busy
          have hrest {c' : TcpConnection σ} (rest : List UInt8) (hidle' : c'.Idle)
              (hopen' : c'.IsOpen) :
              (calls.foldl (fun c x => c.call x) (c'.appendRest rest)).state = .kDisconnected ↔
                rest = [] ∧ refused calls c'.kernel.writes = true := by
            rcases appendRest_idle hidle' rest with ⟨hnil, heq⟩ | ⟨hne, hstate, hbusy⟩
            · rw [heq, ih hidle' hopen']
              simp [hnil]
            · simpa [hne] using busy_calls hstate hbusy calls
          cases hws : c.kernel.writes with
          | nil =>
              have hwrite : c.write msg = (none, { c with errno := .again }) := by
                simp [write, hws]
              rw [call_send_none hidle hwrite, if_neg (by simp)]
              refine (hrest msg ?_ ?_).trans ?_
              · exact hidle
              · exact hopen
              · simp [hws]
          | cons w ws =>
              cases w with
              | ok n =>
                  have hwrite : c.write msg = (some (min n msg.length),
                      { c with wire := c.wire ++ msg.take n, kernel.writes := ws }) := by
                    simp [write, hws]
                  have hall : msg.drop (min n msg.length) = [] ↔ msg.length ≤ n := by
                    rw [List.drop_eq_nil_iff]
                    omega
                  rw [call_send_some hidle hwrite]
                  refine (hrest _ ?_ ?_).trans ?_
                  · exact hidle
                  · exact hopen
                  · simp [refused, hall]
              | fail e =>
                  have hwrite : c.write msg =
                      (none, { c with errno := e, kernel.writes := ws }) := by
                    simp [write, hws]
                  rw [call_send_none hidle hwrite]
                  cases e with
                  | other =>
                      have hclosed : IsClosed (handleError
                          { c with errno := .other, kernel.writes := ws }) :=
                        IsOpen.handleClose (hopen.congr rfl rfl)
                      rw [if_pos rfl, hclosed.calls]
                      simp [refused, hclosed.1]
                  | again | intr =>
                      rw [if_neg (by simp)]
                      refine (hrest msg ?_ ?_).trans ?_
                      · exact hidle
                      · exact hopen
                      · simp [refused]

/-! ### Reading -/

variable (messageCb : MessageCallback σ)

/-- The callback runs on an open connection: it may close it, by a refused
send and in no other way. -/
theorem IsOpen.invokeMessageCb (h : c.IsOpen) :
    (c.invokeMessageCb messageCb).Alive ∧
      ((c.invokeMessageCb messageCb).state = .kDisconnected ↔
        c.Idle ∧ refused (messageCb c.user c.inputBuffer).2.2 c.kernel.writes = true) := by
  unfold TcpConnection.invokeMessageCb
  generalize messageCb c.user c.inputBuffer = r
  obtain ⟨user, buf, calls⟩ := r
  set c₁ : TcpConnection σ := invoke .messageCb { c with user := user, inputBuffer := buf }
    with hc₁
  have hopen : c₁.IsOpen := ⟨h.1, h.2.messageCb⟩
  refine ⟨alive_calls (.inl hopen) calls, ?_⟩
  by_cases hidle : c.Idle
  · have hidle₁ : c₁.Idle := hidle
    exact (idle_calls hidle₁ hopen calls).trans ⟨fun href => ⟨hidle, href⟩, fun href => href.2⟩
  · have hbusy : ¬c₁.Idle := hidle
    exact iff_of_false (busy_calls hopen.1 hbusy calls) fun href => hidle href.1

theorem IsClosed.invokeMessageCb (h : c.IsClosed) :
    (c.invokeMessageCb messageCb).callbacks = c.callbacks ++ [.messageCb] := by
  unfold TcpConnection.invokeMessageCb
  generalize messageCb c.user c.inputBuffer = r
  obtain ⟨user, buf, calls⟩ := r
  dsimp only
  generalize hc₁ : invoke .messageCb { c with user := user, inputBuffer := buf } = c₁
  have hstate : c₁.state = .kDisconnected := by rw [← hc₁]; exact h.1
  have hcalls : calls.foldl (fun c x => c.call x) c₁ = c₁ := by
    induction calls with
    | nil => rfl
    | cons x calls ih =>
        have hx : c₁.call x = c₁ := by cases x <;> simp [call, hstate]
        rw [List.foldl_cons, hx, ih]
  rw [hcalls, ← hc₁]
  rfl

/-- On a closed connection a read event must find nothing at all. -/
theorem IsClosed.handleRead (h : c.IsClosed) :
    let r := readLoop c.kernel.reads c.inputBuffer
    (r.1 = .again ∧ r.2.readableBytes = 0 → (c.handleRead messageCb).IsClosed) ∧
      (¬(r.1 = .again ∧ r.2.readableBytes = 0) →
        ¬Lawful (c.handleRead messageCb).callbacks) := by
  unfold TcpConnection.handleRead
  generalize readLoop c.kernel.reads c.inputBuffer = r
  obtain ⟨how, buf⟩ := r
  have hclosed : IsClosed { c with inputBuffer := buf } := h
  have hagain {cbs more : List Callback} (hover : Over c.callbacks)
      (heq : cbs = c.callbacks ++ .connectionCb false :: more) : ¬Lawful cbs :=
    heq ▸ hover.not_lawful_again more
  by_cases hbytes : buf.readableBytes > 0
  · -- a message after the end
    have hmessage := hclosed.invokeMessageCb messageCb
    refine ⟨fun hquiet => absurd hquiet.2 (by dsimp only; omega), fun _ => ?_⟩
    cases how with
    | failed =>
        simp only [if_true]
        exact hagain h.2.1 (callbacks_handleClose _)
    | again =>
        simp only [if_pos hbytes, reduceCtorEq, if_false]
        rw [hmessage]
        exact h.2.1.not_lawful_message []
    | done =>
        simp only [if_pos hbytes, reduceCtorEq, if_false, if_true]
        rw [callbacks_handleClose, hmessage, List.append_assoc]
        exact h.2.1.not_lawful_message _
  · have hempty : buf.readableBytes = 0 := by omega
    cases how with
    | failed =>
        simp only [reduceCtorEq, false_and, false_implies, true_and, if_true]
        exact fun _ => hagain h.2.1 (callbacks_handleClose _)
    | again =>
        simp only [if_neg hbytes, reduceCtorEq, if_false]
        exact ⟨fun _ => hclosed, fun hloud => absurd ⟨trivial, hempty⟩ hloud⟩
    | done =>
        simp only [if_neg hbytes, reduceCtorEq, false_and, false_implies, true_and, if_false,
          if_true]
        exact fun _ => hagain h.2.1 (callbacks_handleClose _)

/-- On an open connection a read event may close it once. -/
theorem IsOpen.handleRead (h : c.IsOpen) :
    let r := readLoop c.kernel.reads c.inputBuffer
    let twice := r.1 = .done ∧ 0 < r.2.readableBytes ∧ c.Idle ∧
      refused (messageCb c.user r.2).2.2 c.kernel.writes = true
    (¬twice → (c.handleRead messageCb).Alive) ∧
      (twice → ¬Lawful (c.handleRead messageCb).callbacks) := by
  unfold TcpConnection.handleRead
  generalize readLoop c.kernel.reads c.inputBuffer = r
  obtain ⟨how, buf⟩ := r
  have hopen : IsOpen { c with inputBuffer := buf } := h
  obtain ⟨halive, hstate⟩ := hopen.invokeMessageCb messageCb
  have hidle : Idle { c with inputBuffer := buf } ↔ c.Idle := Iff.rfl
  rw [hidle] at hstate
  dsimp only at hstate ⊢
  cases how with
  | failed =>
      simp only [reduceCtorEq, false_and, not_false_eq_true, true_implies, false_implies,
        and_true, if_true]
      exact .inr hopen.handleClose
  | again =>
      simp only [reduceCtorEq, false_and, not_false_eq_true, true_implies, false_implies,
        and_true, if_false]
      split
      · exact halive
      · exact .inl hopen
  | done =>
      simp only [reduceCtorEq, true_and, if_false, if_true]
      by_cases hbytes : buf.readableBytes > 0
      · simp only [if_pos hbytes, gt_iff_lt]
        constructor
        · intro hkept
          exact .inr (halive.isOpen fun hclosed => hkept ⟨hbytes, hstate.mp hclosed⟩).handleClose
        · intro htwice
          have hover := (halive.isClosed (hstate.mpr htwice.2)).2.1
          rw [callbacks_handleClose]
          exact hover.not_lawful_again _
      · simp only [if_neg hbytes]
        exact ⟨fun _ => .inr hopen.handleClose, fun htwice => absurd htwice.1 hbytes⟩

/-! ### The record only grows -/

omit messageCb in
theorem Lawful.of_prefix {more : List Callback} (h : Lawful more) (hpre : cbs <+: more) :
    Lawful cbs := by
  obtain ⟨rest, rfl⟩ := hpre
  exact h.of_append

theorem prefix_handleClose (c : TcpConnection σ) : c.callbacks <+: c.handleClose.callbacks :=
  ⟨_, (callbacks_handleClose c).symm⟩

theorem prefix_of_eq {c c' : TcpConnection σ} (h : c'.callbacks = c.callbacks) :
    c.callbacks <+: c'.callbacks :=
  ⟨[], by rw [h, List.append_nil]⟩

theorem prefix_appendRest (rest : List UInt8) (c : TcpConnection σ) :
    c.callbacks <+: (c.appendRest rest).callbacks := by
  apply prefix_of_eq
  unfold appendRest
  split <;> rfl

theorem prefix_shutdownInLoop (c : TcpConnection σ) :
    c.callbacks <+: c.shutdownInLoop.callbacks := by
  apply prefix_of_eq
  unfold shutdownInLoop
  split <;> rfl

theorem prefix_sendInLoop (msg : List UInt8) (c : TcpConnection σ) :
    c.callbacks <+: (c.sendInLoop msg).callbacks := by
  have hwrite := prefix_of_eq (onlyOutput_write msg c).callbacks
  simp only [sendInLoop]
  split
  · exact List.prefix_refl _
  · split
    · split
      · exact hwrite.trans (prefix_appendRest _ _)
      · split
        · exact hwrite.trans (prefix_handleClose _)
        · exact hwrite.trans (prefix_appendRest _ _)
    · exact prefix_appendRest _ _

theorem prefix_calls (calls : List Call) (c : TcpConnection σ) :
    c.callbacks <+: (calls.foldl (fun c x => c.call x) c).callbacks := by
  induction calls generalizing c with
  | nil => exact List.prefix_refl _
  | cons x calls ih =>
      have hcall : c.callbacks <+: (c.call x).callbacks := by
        cases x with
        | send msg =>
            simp only [call]
            split
            · exact prefix_sendInLoop msg c
            · exact List.prefix_refl _
        | shutdown =>
            simp only [call]
            split
            · exact prefix_shutdownInLoop { c with state := .kDisconnecting }
            · exact List.prefix_refl _
      exact hcall.trans (ih _)

theorem prefix_handleRead (c : TcpConnection σ) :
    c.callbacks <+: (c.handleRead messageCb).callbacks := by
  unfold TcpConnection.handleRead
  generalize readLoop c.kernel.reads c.inputBuffer = r
  obtain ⟨how, buf⟩ := r
  have hmessage : c.callbacks <+:
      (TcpConnection.invokeMessageCb messageCb { c with inputBuffer := buf }).callbacks := by
    simp only [TcpConnection.invokeMessageCb]
    generalize (messageCb c.user buf).2.2 = calls
    refine List.IsPrefix.trans ?_ (prefix_calls calls _)
    exact ⟨[.messageCb], rfl⟩
  dsimp only
  split
  · exact prefix_handleClose _
  · split <;> split
    · exact hmessage.trans (prefix_handleClose _)
    · exact prefix_handleClose _
    · exact hmessage
    · exact List.prefix_refl _

theorem prefix_handleWrite (c : TcpConnection σ) : c.callbacks <+: c.handleWrite.callbacks := by
  unfold TcpConnection.handleWrite
  split
  · have hrest := prefix_of_eq (onlyOutput_writeLoop (c.kernel.writes.length + 1) c).callbacks
    split
    · next heq =>
        rw [heq] at hrest
        exact hrest
    · next c' heq =>
        rw [heq] at hrest
        exact hrest.trans (prefix_handleClose c')
    · next c' heq =>
        rw [heq] at hrest
        dsimp only
        split
        · exact hrest.trans
            (prefix_shutdownInLoop { c' with channel := c'.channel.disableWriting })
        · exact hrest
  · exact List.prefix_refl _

/-! ### Whole events -/

def Revents.readable (r : Revents) : Bool := r.inp || r.pri || r.rdhup

/-- What a read event may find. Once the end was announced, nothing; before
that, not the end of the stream together with a refused send. -/
def CleanRead (ended : Bool) (c : TcpConnection σ) : Prop :=
  let r := readLoop c.kernel.reads c.inputBuffer
  if ended = true then r.1 = .again ∧ r.2.readableBytes = 0
  else ¬(r.1 = .done ∧ 0 < r.2.readableBytes ∧ c.Idle ∧
    refused (messageCb c.user r.2).2.2 c.kernel.writes = true)

/-- The event announces the end of the connection at most once, and not
again. -/
def CleanEvent (r : Revents) (c : TcpConnection σ) : Prop :=
  if r.hup = true ∧ ¬r.inp = true then c.state ≠ .kDisconnected
  else
    (r.err = true → c.state ≠ .kDisconnected) ∧
      (Revents.readable r = true → c.CleanRead messageCb (c.state = .kDisconnected || r.err))

/-- The part of `handleEvent` behind the error callback. -/
def readThenWrite (r : Revents) (c : TcpConnection σ) : TcpConnection σ :=
  let c := if r.inp ∨ r.pri ∨ r.rdhup then c.handleRead messageCb else c
  if r.out then c.handleWrite else c

theorem prefix_readThenWrite (r : Revents) (c : TcpConnection σ) :
    c.callbacks <+: (c.readThenWrite messageCb r).callbacks := by
  unfold readThenWrite
  dsimp only
  split <;> split
  · exact (prefix_handleRead messageCb c).trans (prefix_handleWrite _)
  · exact prefix_handleWrite c
  · exact prefix_handleRead messageCb c
  · exact List.prefix_refl _

theorem Alive.readThenWrite (h : c.Alive) (r : Revents) :
    let clean := Revents.readable r = true → c.CleanRead messageCb (c.state = .kDisconnected)
    (clean → (c.readThenWrite messageCb r).Alive) ∧
      (¬clean → ¬Lawful (c.readThenWrite messageCb r).callbacks) := by
  intro clean
  have hread : Revents.readable r = true ↔ r.inp = true ∨ r.pri = true ∨ r.rdhup = true := by
    simp [Revents.readable, or_assoc]
  simp only [TcpConnection.readThenWrite]
  suffices hstep : (clean → Alive (if r.inp ∨ r.pri ∨ r.rdhup then c.handleRead messageCb else c)) ∧
      (¬clean → ¬Lawful (if r.inp ∨ r.pri ∨ r.rdhup then c.handleRead messageCb else c).callbacks) by
    split
    · exact ⟨fun hclean => alive_handleWrite (hstep.1 hclean),
        fun hbad hlawful => hstep.2 hbad (hlawful.of_prefix (prefix_handleWrite _))⟩
    · exact hstep
  split
  · next hr =>
      have hclean : clean ↔ c.CleanRead messageCb (c.state = .kDisconnected) :=
        ⟨fun h => h (hread.mpr hr), fun h _ => h⟩
      rw [hclean, CleanRead]
      rcases h with h | h
      · have hstep := h.handleRead messageCb
        simp only [h.1, decide_false, Bool.false_eq_true, if_false]
        exact ⟨hstep.1, fun hbad => hstep.2 (not_not.mp hbad)⟩
      · have hstep := h.handleRead messageCb
        simp only [h.1, decide_true, if_true]
        exact ⟨fun hquiet => .inr (hstep.1 hquiet), hstep.2⟩
  · next hr =>
      have hclean : clean := fun h => absurd (hread.mp h) hr
      exact ⟨fun _ => h, fun hbad => absurd hclean hbad⟩

theorem Alive.handleEvent (h : c.Alive) (r : Revents) :
    (c.CleanEvent messageCb r → (c.handleEvent messageCb r).Alive) ∧
      (¬c.CleanEvent messageCb r → ¬Lawful (c.handleEvent messageCb r).callbacks) := by
  unfold TcpConnection.handleEvent CleanEvent
  split
  · constructor
    · intro hopen
      exact .inr (h.isOpen hopen).handleClose
    · intro hclosed
      rw [callbacks_handleClose]
      exact (h.isClosed (not_not.mp hclosed)).2.1.not_lawful_again _
  · by_cases herr : r.err = true
    · have hsplit : (if r.err then c.handleError else c) = c.handleClose := if_pos herr
      rw [hsplit]
      change _ ∧ (_ → ¬Lawful (c.handleClose.readThenWrite messageCb r).callbacks)
      by_cases hstate : c.state = .kDisconnected
      · -- closed a second time
        refine ⟨fun hclean => absurd hstate (hclean.1 herr), fun _ hlawful => ?_⟩
        have hover := (h.isClosed hstate).2.1
        refine hover.not_lawful_again [.closeCb] ?_
        rw [← callbacks_handleClose]
        exact hlawful.of_prefix (prefix_readThenWrite messageCb r _)
      · have hclosed : c.handleClose.Alive := .inr (h.isOpen hstate).handleClose
        have hrest := hclosed.readThenWrite messageCb r
        have hsame : c.handleClose.CleanRead messageCb (c.handleClose.state = .kDisconnected) ↔
            c.CleanRead messageCb (c.state = .kDisconnected || r.err) := by
          have hover : c.handleClose.state = .kDisconnected := rfl
          simp only [hover, herr, decide_true, Bool.or_true]
          exact Iff.rfl
        rw [hsame] at hrest
        exact ⟨fun hclean => hrest.1 hclean.2,
          fun hbad => hrest.2 fun hclean => hbad ⟨fun _ => hstate, hclean⟩⟩
    · have hsplit : (if r.err then c.handleError else c) = c := if_neg herr
      rw [hsplit]
      have hrest := h.readThenWrite messageCb r
      have hflag : (decide (c.state = .kDisconnected) || r.err) =
          decide (c.state = .kDisconnected) := by simp [herr]
      rw [hflag]
      exact ⟨fun hclean => hrest.1 hclean.2,
        fun hbad => hrest.2 fun hclean => hbad ⟨fun h => absurd h herr, hclean⟩⟩

/-! ### A connection's life -/

/-- What can happen to a connection, with the answers of the system calls: a
ready mask, a task of its loop, a call made on the loop thread, or a
`shutdown` on another thread, of which only the new state is visible yet. -/
inductive ConnAct where
  | event (revents : Revents) (kernel : Kernel)
  | task (t : Task) (script : List WriteResult)
  | call (x : Call) (script : List WriteResult)
  | shutdown
deriving DecidableEq

def step (c : TcpConnection σ) : ConnAct → TcpConnection σ
  | .event revents kernel => { c with kernel := kernel }.handleEvent messageCb revents
  | .task t script => { c with kernel.writes := script }.perform t
  | .call x script => { c with kernel.writes := script }.call x
  | .shutdown => if c.state = .kConnected then { c with state := .kDisconnecting } else c

def Clean (c : TcpConnection σ) : ConnAct → Prop
  | .event revents kernel => CleanEvent messageCb revents { c with kernel := kernel }
  | _ => True

theorem alive_connectDestroyed (h : c.Alive) : c.connectDestroyed.Alive := by
  simp only [connectDestroyed]
  split
  · next hconn =>
      have hopen := h.isOpen (by simp [hconn])
      exact .inr ⟨rfl, ⟨c.callbacks, hopen.2, .inl rfl⟩, Channel.disableAll_writing _⟩
  · rcases h with h | h
    · exact .inl (h.congr rfl rfl)
    · exact .inr ⟨h.1, h.2.1, h.2.2⟩

theorem alive_perform (h : c.Alive) (t : Task) : (c.perform t).Alive := by
  cases t with
  | sendInLoop msg => exact alive_sendInLoop h msg
  | shutdownInLoop => exact alive_shutdownInLoop h
  | connectDestroyed => exact alive_connectDestroyed h

theorem Alive.step (h : c.Alive) (a : ConnAct) :
    (c.Clean messageCb a → (c.step messageCb a).Alive) ∧
      (¬c.Clean messageCb a → ¬Lawful (c.step messageCb a).callbacks) := by
  cases a with
  | event revents kernel =>
      have hkernel : Alive { c with kernel := kernel } := h
      exact hkernel.handleEvent messageCb revents
  | task t script =>
      have hscript : Alive { c with kernel.writes := script } := h
      exact ⟨fun _ => alive_perform hscript t, fun hbad => absurd trivial hbad⟩
  | call x script =>
      have hscript : Alive { c with kernel.writes := script } := h
      exact ⟨fun _ => alive_call hscript x, fun hbad => absurd trivial hbad⟩
  | shutdown =>
      refine ⟨fun _ => ?_, fun hbad => absurd trivial hbad⟩
      simp only [TcpConnection.step]
      split
      · next hconn =>
          have hopen := h.isOpen (by simp [hconn])
          exact .inl ⟨by simp, hopen.2⟩
      · exact h

theorem alive_established (user : σ) : (connectEstablished { user := user }).Alive :=
  .inl ⟨by simp [connectEstablished, connectionCb, invoke],
    by simp [Running, connectEstablished, connectionCb, invoke, connected]⟩

/-- Whatever happens to a connection after it was established, and whatever
its message callback does: the user sees a lawful sequence of callbacks, up
to every moment, if and only if every ready mask is handled cleanly. -/
theorem callbacks_lawful (user : σ) (acts : List ConnAct) :
    Visits (step messageCb) (fun c => Lawful c.callbacks)
        (connectEstablished { user := user }) acts ↔
      Along (step messageCb) (Clean messageCb) (connectEstablished { user := user }) acts := by
  refine visits_iff_along (fun c halive => halive.lawful) (fun c a halive hclean => ?_)
    (fun c a halive hdirty => ?_) (alive_established user) acts
  · exact (halive.step messageCb a).1 hclean
  · exact (halive.step messageCb a).2 hdirty

/-- A reset while data is waiting: one mask announces the end, delivers a
message after it and announces the end again. -/
theorem error_and_data_in_one_mask :
    let messageCb : MessageCallback Unit := fun _ buf => ((), buf.retrieveAll, [])
    let c := step messageCb (connectEstablished { user := () })
      (.event { hup := true, err := true, inp := true, rdhup := true }
        { reads := [.ok [7], .ok []] })
    c.callbacks = [.connectionCb true, .connectionCb false, .closeCb, .messageCb,
      .connectionCb false, .closeCb] ∧ ¬Lawful c.callbacks := by
  intro messageCb c
  have hrun : c.callbacks = [.connectionCb true, .connectionCb false, .closeCb, .messageCb,
      .connectionCb false, .closeCb] := by
    decide +kernel
  refine ⟨hrun, fun hlawful => ?_⟩
  have hcount := hlawful.disconnected
  rw [hrun] at hcount
  exact absurd hcount (by decide)

end TcpConnection

end GameServer.Net
