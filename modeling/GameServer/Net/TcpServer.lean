import GameServer.Lib.Reactor
import GameServer.Lib.UnorderedMap
import GameServer.Net.Lifecycle

/-!
The server that owns the connections: `src/net/TcpServer.cc` and
`src/net/EventLoopThreadPool.cc`, over the loops of `src/net/EventLoop.cc`.

Loop 0 is the base loop, where connections are accepted and the table
`connections_` is kept; the others are the IO loops of the pool. Every loop
polls, runs the handlers of the channels that were reported and then the
functors that were queued, and the loops take turns in any order. A
connection is an object under `shared_ptr`: after every step the objects that
nobody owns any more are destroyed. Channels and pollers hold plain pointers
instead, so `fault` records what must not happen: a handler or a functor that
touches a destroyed object, and an object that is destroyed while a poller
still knows its channel.
-/

namespace GameServer.Net

open GameServer.Lib

/-! ### The pool -/

/-- `loops_` are the loops of the pool's threads, `next_` the one to use next. -/
structure EventLoopThreadPool where
  loops_ : List ℕ := []
  next_ : ℕ := 0

namespace EventLoopThreadPool

def start (pool : EventLoopThreadPool) (numThreads : ℕ) : EventLoopThreadPool :=
  { pool with loops_ := pool.loops_ ++ (List.range numThreads).map (· + 1) }

def getNextLoop (pool : EventLoopThreadPool) : ℕ × EventLoopThreadPool :=
  match pool.loops_[pool.next_]? with
  | none => (0, pool)
  | some loop => (loop, { pool with next_ := (pool.next_ + 1) % pool.loops_.length })

/-- `i` connections were dealt to the loops, in turn. -/
structure Turn (pool : EventLoopThreadPool) (i : ℕ) : Prop where
  loops : pool.loops_ = (List.range pool.loops_.length).map (· + 1)
  next : pool.loops_ ≠ [] → pool.next_ = i % pool.loops_.length

/-- The loop of the `i`-th connection, counted from 0. -/
def loopOf (pool : EventLoopThreadPool) (i : ℕ) : ℕ :=
  if pool.loops_.length = 0 then 0 else i % pool.loops_.length + 1

theorem loopOf_le (pool : EventLoopThreadPool) (i : ℕ) : pool.loopOf i ≤ pool.loops_.length := by
  unfold loopOf
  split
  · omega
  · next hne => exact Nat.mod_lt i (by omega)

theorem Turn.start (n : ℕ) : (EventLoopThreadPool.start {} n).Turn 0 :=
  ⟨by simp [EventLoopThreadPool.start], fun _ => by simp [EventLoopThreadPool.start]⟩

theorem Turn.getNextLoop {pool : EventLoopThreadPool} {i : ℕ} (h : pool.Turn i) :
    pool.getNextLoop.1 = pool.loopOf i ∧ pool.getNextLoop.2.Turn (i + 1) ∧
      pool.getNextLoop.2.loops_ = pool.loops_ := by
  by_cases hnil : pool.loops_ = []
  · have hget : pool.getNextLoop = (0, pool) := by simp [EventLoopThreadPool.getNextLoop, hnil]
    rw [hget]
    exact ⟨by simp [loopOf, hnil], ⟨h.loops, fun hne => absurd hnil hne⟩, rfl⟩
  · have hpos : 0 < pool.loops_.length := List.length_pos_iff.mpr hnil
    have hlt : i % pool.loops_.length < pool.loops_.length := Nat.mod_lt i hpos
    have hnth : pool.loops_[pool.next_]? = some (i % pool.loops_.length + 1) := by
      rw [h.next hnil, h.loops]
      simp [hlt]
    have hget : pool.getNextLoop = (i % pool.loops_.length + 1,
        { pool with next_ := (pool.next_ + 1) % pool.loops_.length }) := by
      simp [EventLoopThreadPool.getNextLoop, hnth]
    rw [hget]
    refine ⟨by simp [loopOf, hpos.ne'], ⟨h.loops, fun hne => ?_⟩, rfl⟩
    dsimp only
    rw [h.next hnil, Nat.mod_add_mod]

end EventLoopThreadPool

/-! ### Loops and connections -/

/-- A queued functor. It owns the connection it captured. -/
inductive Functor where
  | connectEstablished (k : ℕ)
  | removeConnection (k : ℕ)
  | task (k : ℕ) (t : TcpConnection.Task)
deriving DecidableEq

/-- The connection a functor captured. -/
def Functor.conn : Functor → ℕ
  | .connectEstablished k | .removeConnection k | .task k _ => k

/-- A channel that `poll` reports. -/
inductive Ready where
  | acceptor
  | channel (k : ℕ) (revents : Revents)
deriving DecidableEq

abbrev Loop := Reactor Functor Ready

/-- A connection object: its name, the loop it is bound to for life, and what
`TcpConnection` keeps. -/
structure Connection (σ : Type) where
  name : String
  loop : ℕ
  tcp : TcpConnection σ

/-- `objects` are the live objects, numbered in the order of creation, `users`
the references that user code keeps. -/
structure TcpServer (σ : Type) where
  name_ : String
  threadPool_ : EventLoopThreadPool := {}
  nextConnId_ : ℕ := 1
  connections_ : UnorderedMap String ℕ := ∅
  objects : ℕ → Option (Connection σ) := fun _ => none
  loops : ℕ → Loop := fun _ => {}
  users : List ℕ := []
  fault : Bool := false

/-- `copy` and `drop` are user code's handling of its references. `queue` and
`disconnecting` come from other threads than the connection's: the second half
of `send` and of `shutdown`, and the store of `shutdown`, each of which follows
a test of `state_` made at some earlier moment. `call` is a call made on the
connection's own thread. -/
inductive ServerAct (σ : Type) where
  | poll (l : ℕ) (ready : List Ready)
  | handleEvent (l : ℕ) (kernel : Kernel) (accepted : List σ)
  | swapFunctors (l : ℕ)
  | functor (l : ℕ) (script : List WriteResult)
  | copy (k : ℕ)
  | drop (k : ℕ)
  | queue (k : ℕ) (t : TcpConnection.Task)
  | disconnecting (k : ℕ)
  | call (k : ℕ) (x : Call) (script : List WriteResult)

namespace TcpServer

variable {σ : Type}

/-- `name_ + "-" + std::to_string(nextConnId_)`. -/
def connName (name : String) (k : ℕ) : String := name ++ "-" ++ Nat.repr k

def setLoop (l : ℕ) (loop : Loop) (s : TcpServer σ) : TcpServer σ :=
  { s with loops := Function.update s.loops l loop }

def setObject (k : ℕ) (c : Connection σ) (s : TcpServer σ) : TcpServer σ :=
  { s with objects := Function.update s.objects k (some c) }

def queueInLoop (l : ℕ) (f : Functor) (s : TcpServer σ) : TcpServer σ :=
  { s with loops := Reactor.queue s.loops l f }

/-- A task for connection `k` is queued on its loop. -/
def post (k : ℕ) (t : TcpConnection.Task) (s : TcpServer σ) : TcpServer σ :=
  match s.objects k with
  | none => { s with fault := true }
  | some c => s.queueInLoop c.loop (.task k t)

/-- The lambda of `removeConnection`, on the base loop. -/
def eraseConnection (k : ℕ) (s : TcpServer σ) : TcpServer σ :=
  match s.objects k with
  | none => { s with fault := true }
  | some c => { s with connections_ := s.connections_.erase c.name }.post k .connectDestroyed

/-- `removeConnection`, the close callback, on the connection's loop `l`. -/
def removeConnection (l k : ℕ) (s : TcpServer σ) : TcpServer σ :=
  if l = 0 then s.eraseConnection k else s.queueInLoop 0 (.removeConnection k)

/-- What the server does at the callbacks a connection made. -/
def onCallback (l k : ℕ) (s : TcpServer σ) : Callback → TcpServer σ
  | .closeCb => s.removeConnection l k
  | _ => s

/-- Run code of connection `k` on its loop. -/
def onConnection (k : ℕ) (act : TcpConnection σ → TcpConnection σ) (s : TcpServer σ) :
    TcpServer σ :=
  match s.objects k with
  | none => { s with fault := true }
  | some c =>
      let tcp := act c.tcp
      (tcp.callbacks.drop c.tcp.callbacks.length).foldl (onCallback c.loop k)
        (s.setObject k { c with tcp := tcp })

/-- `user` is the state of the new connection's callback. -/
def newConnection (s : TcpServer σ) (user : σ) : TcpServer σ :=
  let (ioLoop, pool) := s.threadPool_.getNextLoop
  let k := s.nextConnId_
  let name := connName s.name_ k
  let s :=
    { s with
      threadPool_ := pool
      nextConnId_ := k + 1
      connections_ := s.connections_.insert name k }.setObject k
        { name := name, loop := ioLoop, tcp := { user := user } }
  if ioLoop = 0 then s.onConnection k TcpConnection.connectEstablished
  else s.queueInLoop ioLoop (.connectEstablished k)

/-- The poller of loop `l` reports events of the channel of `k`. -/
def registered (s : TcpServer σ) (l k : ℕ) : Bool :=
  (s.objects k).any fun c => c.loop = l && c.tcp.channel.index = .kAdded

def reported (s : TcpServer σ) (l : ℕ) : Ready → Bool
  | .acceptor => l = 0
  | .channel k _ => s.registered l k

/-- Somebody owns connection `k`. -/
def Owned (s : TcpServer σ) (k : ℕ) : Prop :=
  (∃ e ∈ s.connections_.entries, e.2 = k) ∨ k ∈ s.users ∨
    ∃ l ≤ s.threadPool_.loops_.length, ∃ f ∈ (s.loops l).held, f.conn = k

instance (s : TcpServer σ) (k : ℕ) : Decidable (s.Owned k) :=
  inferInstanceAs (Decidable (_ ∨ _ ∨ _))

/-- A poller still knows the channel of `k`. -/
def known (s : TcpServer σ) (k : ℕ) : Bool :=
  (s.objects k).any fun c => c.tcp.channel.index ≠ .kNew

/-- The objects without an owner are destroyed. -/
def collect (s : TcpServer σ) : TcpServer σ :=
  { s with
    objects := fun k => if s.Owned k then s.objects k else none
    fault := s.fault || decide (∃ k < s.nextConnId_, ¬s.Owned k ∧ s.known k) }

section

variable (messageCb : MessageCallback σ)

def perform (script : List WriteResult) (s : TcpServer σ) : Functor → TcpServer σ
  | .connectEstablished k => s.onConnection k TcpConnection.connectEstablished
  | .removeConnection k => s.eraseConnection k
  | .task k t => s.onConnection k (TcpConnection.step messageCb · (.task t script))

/-- One step of the loop over `activeChannels_`. -/
def handleEvent (l : ℕ) (kernel : Kernel) (accepted : List σ) (s : TcpServer σ) : TcpServer σ :=
  match (s.loops l).takeEvent with
  | some (.acceptor, loop) => accepted.foldl newConnection (s.setLoop l loop)
  | some (.channel k revents, loop) =>
      (s.setLoop l loop).onConnection k (TcpConnection.step messageCb · (.event revents kernel))
  | none => s

/-- One step of the loop over the functors in `doPendingFunctors`, or its end. -/
def runFunctor (l : ℕ) (script : List WriteResult) (s : TcpServer σ) : TcpServer σ :=
  match (s.loops l).takeFunctor with
  | some (f, loop) => (s.setLoop l loop).perform messageCb script f
  | none => s.setLoop l (s.loops l).finish

def poll (l : ℕ) (ready : List Ready) (s : TcpServer σ) : TcpServer σ :=
  s.setLoop l ((s.loops l).poll (ready.filter (s.reported l)))

def swapFunctors (l : ℕ) (s : TcpServer σ) : TcpServer σ :=
  s.setLoop l (s.loops l).swapFunctors

/-- User code is handed a connection by its callbacks, from the first on. -/
def copy (k : ℕ) (s : TcpServer σ) : TcpServer σ :=
  if s.Owned k ∧ (s.objects k).any (·.tcp.state ≠ .kConnecting) then
    { s with users := k :: s.users }
  else s

def act (s : TcpServer σ) : ServerAct σ → TcpServer σ
  | .poll l ready => s.poll l ready
  | .handleEvent l kernel accepted => s.handleEvent messageCb l kernel accepted
  | .swapFunctors l => s.swapFunctors l
  | .functor l script => s.runFunctor messageCb l script
  | .copy k => s.copy k
  | .drop k => { s with users := s.users.erase k }
  | .queue k t => if k ∈ s.users ∧ t ≠ .connectDestroyed then s.post k t else s
  | .disconnecting k =>
      if k ∈ s.users then s.onConnection k ({ · with state := .kDisconnecting }) else s
  | .call k x script =>
      if k ∈ s.users then s.onConnection k (TcpConnection.step messageCb · (.call x script)) else s

def step (s : TcpServer σ) (a : ServerAct σ) : TcpServer σ := (s.act messageCb a).collect

/-- The server after `start` with `threadNum` threads. -/
def start (name : String) (threadNum : ℕ) : TcpServer σ where
  name_ := name
  threadPool_ := EventLoopThreadPool.start {} threadNum

/-- No other thread announces a shutdown on a connection that was closed after
the thread had found it connected. -/
def InTime (s : TcpServer σ) : ServerAct σ → Prop
  | .disconnecting k => (s.objects k).all (·.tcp.state ≠ .kDisconnected)
  | _ => True

instance (s : TcpServer σ) (a : ServerAct σ) : Decidable (s.InTime a) := by
  cases a <;> unfold InTime <;> infer_instance

end

end TcpServer

end GameServer.Net
