import GameServer.Net.Buffer

/-!
One TCP connection: `src/net/Channel.{h,cc}`, the registration part of
`src/net/EPollPoller.cc`, and `src/net/TcpConnection.{h,cc}`.

Everything runs on the connection's IO loop; the system calls are answered
from a script, the two lists of a `Kernel`. A script that has run out
answers `EAGAIN`, which a non-blocking socket may do at any time. The user's
message callback is a parameter: given its own state and the input buffer it
consumes bytes and makes calls on the connection.
-/

namespace GameServer.Net

/-! ### The channel and its registration -/

/-- What the poller remembers about a channel. -/
inductive Index where
  | kNew
  | kAdded
  | kDeleted
deriving DecidableEq

/-- The interest set. Reading stands for `EPOLLIN | EPOLLPRI | EPOLLET`,
which are only ever set together. -/
structure Channel where
  reading : Bool := false
  writing : Bool := false
  index : Index := .kNew
deriving DecidableEq

namespace Channel

def isNoneEvent (ch : Channel) : Bool := !ch.reading && !ch.writing

def isWriting (ch : Channel) : Bool := ch.writing

/-- `EPollPoller::updateChannel`. A channel that was deleted is added again,
whatever its interest set. -/
def update (ch : Channel) : Channel :=
  match ch.index with
  | .kNew | .kDeleted => { ch with index := .kAdded }
  | .kAdded => if ch.isNoneEvent then { ch with index := .kDeleted } else ch

def enableReading (ch : Channel) : Channel := { ch with reading := true }.update

def enableWriting (ch : Channel) : Channel := { ch with writing := true }.update

def disableWriting (ch : Channel) : Channel := { ch with writing := false }.update

def disableAll (ch : Channel) : Channel := { ch with reading := false, writing := false }.update

/-- `EPollPoller::removeChannel`. -/
def remove (ch : Channel) : Channel := { ch with index := .kNew }

@[simp] theorem update_writing (ch : Channel) : ch.update.writing = ch.writing := by
  unfold update
  split
  · rfl
  · rfl
  · split <;> rfl

@[simp] theorem enableReading_writing (ch : Channel) :
    ch.enableReading.writing = ch.writing := by
  simp [enableReading]

@[simp] theorem enableWriting_writing (ch : Channel) : ch.enableWriting.writing = true := by
  simp [enableWriting]

@[simp] theorem disableWriting_writing (ch : Channel) : ch.disableWriting.writing = false := by
  simp [disableWriting]

@[simp] theorem disableAll_writing (ch : Channel) : ch.disableAll.writing = false := by
  simp [disableAll]

/-- The poller reports the channel's events. -/
def Watched (ch : Channel) : Prop := ch.reading = true ∧ ch.index = .kAdded

theorem watched_enableReading (ch : Channel) (h : ch.index ≠ .kAdded) :
    ch.enableReading.Watched := by
  cases hi : ch.index <;> simp_all [enableReading, update, Watched]

theorem Watched.enableWriting {ch : Channel} (h : ch.Watched) : ch.enableWriting.Watched := by
  obtain ⟨hr, hi⟩ := h
  simp [Watched, Channel.enableWriting, update, isNoneEvent, hr, hi]

theorem Watched.disableWriting {ch : Channel} (h : ch.Watched) : ch.disableWriting.Watched := by
  obtain ⟨hr, hi⟩ := h
  simp [Watched, Channel.disableWriting, update, isNoneEvent, hr, hi]

end Channel

/-- A ready-event mask, `revents_`. -/
structure Revents where
  hup : Bool := false
  err : Bool := false
  inp : Bool := false
  pri : Bool := false
  rdhup : Bool := false
  out : Bool := false
deriving DecidableEq

/-! ### System calls -/

inductive Errno where
  | again
  | intr
  | other
deriving DecidableEq

/-- The outcome of a read: the bytes delivered, none of them at the end of
the stream. -/
inductive ReadResult where
  | ok (bytes : List UInt8)
  | fail (e : Errno)
deriving DecidableEq

/-- The outcome of a write: how much the socket is ready to take. -/
inductive WriteResult where
  | ok (n : ℕ)
  | fail (e : Errno)
deriving DecidableEq

structure Kernel where
  reads : List ReadResult := []
  writes : List WriteResult := []
deriving DecidableEq

/-! ### The connection -/

inductive ConnState where
  | kConnecting
  | kConnected
  | kDisconnecting
  | kDisconnected
deriving DecidableEq

/-- A callback invocation, with what `connected()` answers inside it. -/
inductive Callback where
  | connectionCb (connected : Bool)
  | messageCb
  | closeCb
deriving DecidableEq

/-- What user code may do with a connection from inside a callback. -/
inductive Call where
  | send (msg : List UInt8)
  | shutdown
deriving DecidableEq

/-- The message callback: the user's state and the input buffer, as they are
left behind, and the calls made meanwhile. -/
abbrev MessageCallback (σ : Type) := σ → Buffer → σ × Buffer × List Call

/-- `wire` are the bytes handed to the socket, `finSent` tells whether the
write side was shut down and `callbacks` records the invocations. -/
structure TcpConnection (σ : Type) where
  state : ConnState := .kConnecting
  channel : Channel := {}
  inputBuffer : Buffer := {}
  outputBuffer : Buffer := {}
  user : σ
  kernel : Kernel := {}
  errno : Errno := .other
  wire : List UInt8 := []
  finSent : Bool := false
  callbacks : List Callback := []

namespace TcpConnection

variable {σ : Type}

def connected (c : TcpConnection σ) : Bool := c.state = .kConnected

def invoke (cb : Callback) (c : TcpConnection σ) : TcpConnection σ :=
  { c with callbacks := c.callbacks ++ [cb] }

def connectionCb (c : TcpConnection σ) : TcpConnection σ :=
  c.invoke (.connectionCb c.connected)

def connectEstablished (c : TcpConnection σ) : TcpConnection σ :=
  { c with state := .kConnected, channel := c.channel.enableReading }.connectionCb

def connectDestroyed (c : TcpConnection σ) : TcpConnection σ :=
  let c :=
    if c.state = .kConnected then
      { c with state := .kDisconnected, channel := c.channel.disableAll }.connectionCb
    else c
  { c with channel := c.channel.remove }

def handleClose (c : TcpConnection σ) : TcpConnection σ :=
  let c := { c with state := .kDisconnected, channel := c.channel.disableAll }
  c.connectionCb.invoke .closeCb

/-- The pending socket error is fetched and ignored. -/
def handleError (c : TcpConnection σ) : TcpConnection σ := c.handleClose

/-- `::write` of `data`: what it returns, `none` for a failure. The count
never exceeds what was offered, and `errno` is only set by a failure. -/
def write (data : List UInt8) (c : TcpConnection σ) : Option ℕ × TcpConnection σ :=
  match c.kernel.writes with
  | [] => (none, { c with errno := .again })
  | .fail e :: ws => (none, { c with errno := e, kernel.writes := ws })
  | .ok n :: ws =>
      (some (min n data.length),
        { c with wire := c.wire ++ data.take n, kernel.writes := ws })

def shutdownInLoop (c : TcpConnection σ) : TcpConnection σ :=
  if c.channel.isWriting then c else { c with finSent := true }

/-- How a loop over system calls ended. -/
inductive LoopEnd where
  | done
  | again
  | failed
deriving DecidableEq

/-- The loop of `handleWrite`. Every round takes an answer off the script,
so `fuel` beyond the script's length is never used up. -/
def writeLoop : ℕ → TcpConnection σ → LoopEnd × TcpConnection σ
  | 0, c => (.again, c)
  | fuel + 1, c =>
      if c.outputBuffer.readableBytes > 0 then
        let r := c.write (c.outputBuffer.peek 0 c.outputBuffer.readableBytes)
        let n := r.1.getD 0
        if n > 0 then
          writeLoop fuel { r.2 with outputBuffer := r.2.outputBuffer.retrieve n }
        else
          match r.2.errno with
          | .again => (.again, r.2)
          | .intr => writeLoop fuel r.2
          | .other => (.failed, r.2)
      else (.done, c)

def handleWrite (c : TcpConnection σ) : TcpConnection σ :=
  if c.channel.isWriting then
    match writeLoop (c.kernel.writes.length + 1) c with
    | (.again, c) => c
    | (.failed, c) => c.handleError
    | (.done, c) =>
        let c := { c with channel := c.channel.disableWriting }
        if c.state = .kDisconnecting then c.shutdownInLoop else c
  else c

/-- The tail of `sendInLoop`: what was not written waits in the buffer. -/
def appendRest (rest : List UInt8) (c : TcpConnection σ) : TcpConnection σ :=
  if rest.length > 0 then
    { c with
      outputBuffer := c.outputBuffer.append rest
      channel := if c.channel.isWriting then c.channel else c.channel.enableWriting }
  else c

def sendInLoop (msg : List UInt8) (c : TcpConnection σ) : TcpConnection σ :=
  if c.state = .kDisconnected then c
  else if c.channel.isWriting = false ∧ c.outputBuffer.readableBytes = 0 then
    let r := c.write msg
    match r.1 with
    | some nwrote => r.2.appendRest (msg.drop nwrote)
    | none => if r.2.errno = .other then r.2.handleError else r.2.appendRest msg
  else c.appendRest msg

/-- `send` and `shutdown` on the loop thread run their tasks inline. -/
def call : Call → TcpConnection σ → TcpConnection σ
  | .send msg, c => if c.state = .kConnected then c.sendInLoop msg else c
  | .shutdown, c =>
      if c.state = .kConnected then { c with state := .kDisconnecting }.shutdownInLoop else c

/-- The loop of `handleRead`: `done` is the end of the stream. -/
def readLoop : List ReadResult → Buffer → LoopEnd × Buffer
  | [], buf => (.again, buf)
  | .ok bytes :: rest, buf =>
      if bytes.length > 0 then readLoop rest (buf.readFd bytes) else (.done, buf)
  | .fail e :: rest, buf =>
      match e with
      | .again => (.again, buf)
      | .intr => readLoop rest buf
      | .other => (.failed, buf)

def invokeMessageCb (messageCb : MessageCallback σ) (c : TcpConnection σ) : TcpConnection σ :=
  let (user, buf, calls) := messageCb c.user c.inputBuffer
  calls.foldl (fun c x => c.call x)
    ({ c with user := user, inputBuffer := buf }.invoke .messageCb)

def handleRead (messageCb : MessageCallback σ) (c : TcpConnection σ) : TcpConnection σ :=
  let (how, buf) := readLoop c.kernel.reads c.inputBuffer
  let c := { c with inputBuffer := buf }
  if how = .failed then c.handleError
  else
    let c := if c.inputBuffer.readableBytes > 0 then c.invokeMessageCb messageCb else c
    if how = .done then c.handleClose else c

/-- `Channel::handleEvent`. One mask can run several of the callbacks. -/
def handleEvent (messageCb : MessageCallback σ) (revents : Revents) (c : TcpConnection σ) :
    TcpConnection σ :=
  if revents.hup ∧ ¬revents.inp then c.handleClose
  else
    let c := if revents.err then c.handleError else c
    let c := if revents.inp ∨ revents.pri ∨ revents.rdhup then c.handleRead messageCb else c
    if revents.out then c.handleWrite else c

/-- The tasks other code posts to the connection's loop. -/
inductive Task where
  | sendInLoop (msg : List UInt8)
  | shutdownInLoop
  | connectDestroyed
deriving DecidableEq

def perform : Task → TcpConnection σ → TcpConnection σ
  | .sendInLoop msg, c => c.sendInLoop msg
  | .shutdownInLoop, c => c.shutdownInLoop
  | .connectDestroyed, c => c.connectDestroyed

/-! ### What writing leaves alone -/

/-- Only the output, the wire and the system calls' state may differ. -/
structure OnlyOutput (c c' : TcpConnection σ) : Prop where
  state : c'.state = c.state
  channel : c'.channel = c.channel
  inputBuffer : c'.inputBuffer = c.inputBuffer
  user : c'.user = c.user
  finSent : c'.finSent = c.finSent
  callbacks : c'.callbacks = c.callbacks

theorem OnlyOutput.refl (c : TcpConnection σ) : OnlyOutput c c :=
  ⟨rfl, rfl, rfl, rfl, rfl, rfl⟩

theorem OnlyOutput.trans {c₁ c₂ c₃ : TcpConnection σ} (h₁ : OnlyOutput c₁ c₂)
    (h₂ : OnlyOutput c₂ c₃) : OnlyOutput c₁ c₃ where
  state := h₂.state.trans h₁.state
  channel := h₂.channel.trans h₁.channel
  inputBuffer := h₂.inputBuffer.trans h₁.inputBuffer
  user := h₂.user.trans h₁.user
  finSent := h₂.finSent.trans h₁.finSent
  callbacks := h₂.callbacks.trans h₁.callbacks

theorem onlyOutput_write (data : List UInt8) (c : TcpConnection σ) :
    OnlyOutput c (c.write data).2 := by
  unfold write
  split <;> exact ⟨rfl, rfl, rfl, rfl, rfl, rfl⟩

theorem onlyOutput_writeLoop (fuel : ℕ) (c : TcpConnection σ) :
    OnlyOutput c (writeLoop fuel c).2 := by
  induction fuel generalizing c with
  | zero => exact .refl c
  | succ fuel ih =>
      have hwrite := onlyOutput_write (c.outputBuffer.peek 0 c.outputBuffer.readableBytes) c
      simp only [writeLoop]
      split
      · split
        · have htaken (c₁ : TcpConnection σ) (n : ℕ) :
              OnlyOutput c₁ { c₁ with outputBuffer := c₁.outputBuffer.retrieve n } :=
            ⟨rfl, rfl, rfl, rfl, rfl, rfl⟩
          exact (hwrite.trans (htaken _ _)).trans (ih _)
        · split
          · exact hwrite
          · exact hwrite.trans (ih _)
          · exact hwrite
      · exact .refl c

end TcpConnection

end GameServer.Net
