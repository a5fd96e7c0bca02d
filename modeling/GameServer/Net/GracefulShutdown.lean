import GameServer.Net.Output
import Mathlib.Data.List.Perm.Basic

/-!
A connection whose IO loop is driven together with another thread.

The other thread's `send` and `shutdown` look at the state and queue a
functor; the loop runs the functors in order, a batch at a time, and handles
ready events between the batches (`src/net/EventLoop.cc`). `shutdown` makes
its new state visible at once, ahead of the functors it was queued behind.
A write event that empties the buffer meanwhile therefore closes the write
side over messages that are still queued. This is the only way to lose them:
`shutdown_flushes_first`.
-/

namespace GameServer.Net

open GameServer.Lib
open TcpConnection

/-- `functors` is what is left of the batch that `doPendingFunctors` took
out, `accepted` the messages that passed the test in `send`. -/
structure IoLoop (σ : Type) where
  conn : TcpConnection σ
  pendingFunctors : List Task := []
  functors : List Task := []
  accepted : List (List UInt8) := []

/-- One step of either thread, with the answers its writes get. -/
inductive LoopAct where
  | send (msg : List UInt8)
  | shutdown
  | sendOnLoop (msg : List UInt8) (script : List WriteResult)
  | handleWrite (script : List WriteResult)
  | swapFunctors
  | runFunctor (script : List WriteResult)
deriving DecidableEq

def LoopAct.script : LoopAct → List WriteResult
  | .sendOnLoop _ script | .handleWrite script | .runFunctor script => script
  | _ => []

namespace IoLoop

variable {σ : Type}

def init (user : σ) : IoLoop σ := { conn := connectEstablished { user := user } }

def step (s : IoLoop σ) (a : LoopAct) : IoLoop σ :=
  let conn := { s.conn with kernel.writes := a.script }
  match a with
  | .send msg =>
      if s.conn.state = .kConnected then
        { s with
          pendingFunctors := s.pendingFunctors ++ [.sendInLoop msg]
          accepted := s.accepted ++ [msg] }
      else s
  | .shutdown =>
      if s.conn.state = .kConnected then
        { s with
          conn := { s.conn with state := .kDisconnecting }
          pendingFunctors := s.pendingFunctors ++ [.shutdownInLoop] }
      else s
  | .sendOnLoop msg _ =>
      if s.conn.state = .kConnected then
        { s with conn := conn.sendInLoop msg, accepted := s.accepted ++ [msg] }
      else s
  | .handleWrite _ => if s.functors = [] then { s with conn := conn.handleWrite } else s
  | .swapFunctors =>
      if s.functors = [] then { s with functors := s.pendingFunctors, pendingFunctors := [] }
      else s
  | .runFunctor _ =>
      match s.functors with
      | [] => s
      | t :: ts => { s with conn := conn.perform t, functors := ts }

def queue (s : IoLoop σ) : List Task := s.functors ++ s.pendingFunctors

/-- The bytes of all accepted messages were handed to the socket. -/
def OnWire (s : IoLoop σ) : Prop :=
  ∃ order : List (List UInt8), order.Perm s.accepted ∧ s.conn.wire = order.flatten

def FlushedFirst (s : IoLoop σ) : Prop := s.conn.finSent = true → s.OnWire

/-- A write event that empties the buffer of a closing connection comes when
no bytes are waiting in the functors any more. -/
def InTime (s : IoLoop σ) : LoopAct → Prop
  | .handleWrite script =>
      s.functors = [] ∧ s.conn.state = .kDisconnecting ∧ s.conn.channel.isWriting = true ∧
          s.conn.outputBuffer.readableBytes ≤ takes script →
        ∀ t ∈ s.pendingFunctors, ∀ msg, t = .sendInLoop msg → msg = []
  | _ => True

/-! ### What is where -/

/-- `done` are the messages that reached the connection, `sends` those that
still wait in the functors. The task of `shutdown` is behind all of them. -/
structure Placed (s : IoLoop σ) (done sends : List (List UInt8)) (tail : List Task) :
    Prop where
  flowing : Flowing s.conn done
  queue : s.queue = sends.map Task.sendInLoop ++ tail
  accepted : (done ++ sends).Perm s.accepted
  phase : s.conn.state = .kConnected ∧ tail = [] ∧ s.conn.finSent = false ∨
    s.conn.state = .kDisconnecting ∧ (tail = [] ∨ tail = [.shutdownInLoop])

variable {s : IoLoop σ} {done sends : List (List UInt8)} {tail : List Task}

theorem Placed.isOpen (h : Placed s done sends tail) : s.conn.state ≠ .kDisconnected := by
  rcases h.phase with ⟨hstate, -⟩ | ⟨hstate, -⟩ <;> simp [hstate]

theorem Placed.finSent_of_connected (h : Placed s done sends tail)
    (hconn : s.conn.state = .kConnected) : tail = [] ∧ s.conn.finSent = false := by
  rcases h.phase with ⟨-, h⟩ | ⟨hstate, -⟩
  · exact h
  · rw [hconn] at hstate
    cases hstate

/-- Everything accepted is on the wire exactly when nothing waits, neither in
the buffer nor in the functors. -/
theorem Placed.on_wire_iff (h : Placed s done sends tail) :
    s.OnWire ↔ s.conn.outputBuffer.readableBytes = 0 ∧ ∀ msg ∈ sends, msg = [] := by
  have hbytes := congrArg List.length h.flowing.stream
  rw [List.length_append, h.flowing.ok.length_readable] at hbytes
  constructor
  · rintro ⟨order, hperm, hwire⟩
    have hlen := ((hperm.trans h.accepted.symm).flatten).length_eq
    rw [← hwire, List.flatten_append, List.length_append] at hlen
    have hempty : sends.flatten.length = 0 := by omega
    refine ⟨by omega, fun msg hmsg => ?_⟩
    exact List.flatten_eq_nil_iff.mp (List.length_eq_zero_iff.mp hempty) msg hmsg
  · rintro ⟨hdry, hsends⟩
    have hnone : s.conn.outputBuffer.readable = [] :=
      List.length_eq_zero_iff.mp (by rw [h.flowing.ok.length_readable, hdry])
    have hstream := h.flowing.stream
    rw [hnone, List.append_nil] at hstream
    refine ⟨done ++ sends, h.accepted, ?_⟩
    rw [List.flatten_append, List.flatten_eq_nil_iff.mpr hsends, List.append_nil, hstream]

/-! ### The steps -/

theorem Placed.scripted (h : Placed s done sends tail) (script : List WriteResult) :
    Flowing { s.conn with kernel.writes := script } done :=
  ⟨h.flowing.ok, h.flowing.stream, h.flowing.writing, h.flowing.watched⟩

/-- While the connection is open nothing was shut down yet. -/
theorem flushedFirst_of_finSent (h : s.conn.finSent = false) : s.FlushedFirst := by
  intro hfin
  rw [h] at hfin
  cases hfin

theorem Placed.step_send (h : Placed s done sends tail) (msg : List UInt8) :
    (∃ done sends tail, Placed (s.step (.send msg)) done sends tail) ∧
      (s.FlushedFirst → (s.step (.send msg)).FlushedFirst) := by
  simp only [step]
  split
  · next hconn =>
      obtain ⟨rfl, hfin⟩ := h.finSent_of_connected hconn
      refine ⟨⟨done, sends ++ [msg], [], h.flowing, ?_, ?_, .inl ⟨hconn, rfl, hfin⟩⟩,
        fun _ => flushedFirst_of_finSent hfin⟩
      · have hqueue := h.queue
        simp only [IoLoop.queue, List.append_nil] at hqueue ⊢
        rw [← List.append_assoc, hqueue]
        simp
      · rw [← List.append_assoc]
        exact h.accepted.append_right [msg]
  · exact ⟨⟨done, sends, tail, h⟩, id⟩

theorem Placed.step_shutdown (h : Placed s done sends tail) :
    (∃ done sends tail, Placed (s.step .shutdown) done sends tail) ∧
      (s.FlushedFirst → (s.step .shutdown).FlushedFirst) := by
  simp only [step]
  split
  · next hconn =>
      obtain ⟨rfl, hfin⟩ := h.finSent_of_connected hconn
      refine ⟨⟨done, sends, [.shutdownInLoop], ?_, ?_, h.accepted, .inr ⟨rfl, .inr rfl⟩⟩,
        fun _ => flushedFirst_of_finSent hfin⟩
      · exact ⟨h.flowing.ok, h.flowing.stream, h.flowing.writing, h.flowing.watched⟩
      · have hqueue := h.queue
        simp only [IoLoop.queue, List.append_nil] at hqueue ⊢
        rw [← List.append_assoc, hqueue]
  · exact ⟨⟨done, sends, tail, h⟩, id⟩

theorem Placed.step_sendOnLoop (h : Placed s done sends tail) (msg : List UInt8)
    {script : List WriteResult} (hsoft : ∀ w ∈ script, w.Soft) :
    (∃ done sends tail, Placed (s.step (.sendOnLoop msg script)) done sends tail) ∧
      (s.FlushedFirst → (s.step (.sendOnLoop msg script)).FlushedFirst) := by
  simp only [step]
  split
  · next hconn =>
      obtain ⟨rfl, hfin⟩ := h.finSent_of_connected hconn
      obtain ⟨hflow, hstate, hfin'⟩ := (h.scripted script).sendInLoop h.isOpen hsoft msg
      refine ⟨⟨done ++ [msg], sends, [], hflow, h.queue, ?_,
        .inl ⟨hstate.trans hconn, rfl, hfin'.trans hfin⟩⟩,
        fun _ => flushedFirst_of_finSent (hfin'.trans hfin)⟩
      have hswap : (done ++ [msg] ++ sends).Perm (done ++ sends ++ [msg]) := by
        rw [List.append_assoc, List.append_assoc]
        exact List.perm_append_comm.append_left done
      exact hswap.trans (h.accepted.append_right [msg])
  · exact ⟨⟨done, sends, tail, h⟩, id⟩

theorem Placed.step_swapFunctors (h : Placed s done sends tail) :
    (∃ done sends tail, Placed (s.step .swapFunctors) done sends tail) ∧
      (s.FlushedFirst → (s.step .swapFunctors).FlushedFirst) := by
  simp only [step]
  split
  · next hnone =>
      refine ⟨⟨done, sends, tail, h.flowing, ?_, h.accepted, h.phase⟩, id⟩
      have hqueue := h.queue
      simpa [IoLoop.queue, hnone] using hqueue
  · exact ⟨⟨done, sends, tail, h⟩, id⟩

/-- Nothing is written for an empty message. -/
theorem wire_sendInLoop_nil {c : TcpConnection σ} (hsoft : c.SoftScript) :
    (c.sendInLoop []).wire = c.wire := by
  simp only [TcpConnection.sendInLoop]
  split
  · rfl
  · split
    · rcases write_soft hsoft [] with ⟨n, ws, -, -, hwrite⟩ | ⟨e, ws, -, he, hwrite⟩
      · simp [hwrite, appendRest]
      · simp [hwrite, appendRest, he]
    · simp [appendRest]

theorem Placed.step_runFunctor (h : Placed s done sends tail) {script : List WriteResult}
    (hsoft : ∀ w ∈ script, w.Soft) :
    (∃ done sends tail, Placed (s.step (.runFunctor script)) done sends tail) ∧
      (s.FlushedFirst → (s.step (.runFunctor script)).FlushedFirst) := by
  cases hf : s.functors with
  | nil =>
      simp only [step, hf]
      exact ⟨⟨done, sends, tail, h⟩, id⟩
  | cons t ts =>
      have hqueue := h.queue
      simp only [IoLoop.queue, hf, List.cons_append] at hqueue
      simp only [step, hf]
      cases sends with
      | cons msg sends =>
          -- the oldest message leaves the functors for the connection
          obtain ⟨rfl, hrest⟩ := List.cons.inj hqueue
          obtain ⟨hflow, hstate, hfin⟩ := (h.scripted script).sendInLoop h.isOpen hsoft msg
          have hplaced : Placed { s with
              conn := TcpConnection.perform (.sendInLoop msg)
                { s.conn with kernel.writes := script }
              functors := ts } (done ++ [msg]) sends tail := by
            refine ⟨hflow, hrest, by simpa using h.accepted, ?_⟩
            simpa only [perform, hstate, hfin] using h.phase
          refine ⟨⟨_, _, _, hplaced⟩, fun hflushed hfin' => ?_⟩
          obtain ⟨order, hperm, hwire⟩ := hflushed (hfin.symm.trans hfin')
          have hempty := (h.on_wire_iff.mp ⟨order, hperm, hwire⟩).2 msg (List.mem_cons_self ..)
          subst hempty
          have hsame := wire_sendInLoop_nil (c := { s.conn with kernel.writes := script }) hsoft
          exact ⟨order, hperm, hsame.trans hwire⟩
      | nil =>
          -- only the task of `shutdown` is left
          rcases h.phase with ⟨-, rfl, -⟩ | ⟨hstate, rfl | rfl⟩
          · cases hqueue
          · cases hqueue
          · obtain ⟨rfl, hrest⟩ := List.cons.inj hqueue
            have hflow := h.scripted script
            simp only [perform, TcpConnection.shutdownInLoop]
            split
            · next hw =>
                refine ⟨⟨done, [], [], hflow, hrest, h.accepted, .inr ⟨hstate, .inl rfl⟩⟩,
                  fun hflushed hfin => hflushed hfin⟩
            · next hw =>
                have hdry : s.conn.outputBuffer.readableBytes = 0 := by
                  have hiff := h.flowing.writing
                  by_contra hne
                  exact hw (hiff.mpr (Nat.pos_of_ne_zero hne))
                have hwire : s.OnWire := h.on_wire_iff.mpr ⟨hdry, by simp⟩
                exact ⟨⟨done, [], [], ⟨hflow.ok, hflow.stream, hflow.writing, hflow.watched⟩,
                  hrest, h.accepted, .inr ⟨hstate, .inl rfl⟩⟩, fun _ _ => hwire⟩

/-- Between two batches of functors the messages that wait are those of the
queue. -/
theorem Placed.waiting_iff (h : Placed s done sends tail) (hf : s.functors = []) :
    (∀ t ∈ s.pendingFunctors, ∀ msg, t = .sendInLoop msg → msg = []) ↔
      ∀ msg ∈ sends, msg = [] := by
  have hqueue := h.queue
  simp only [IoLoop.queue, hf, List.nil_append] at hqueue
  rw [hqueue]
  have htail : ∀ msg, Task.sendInLoop msg ∉ tail := by
    rcases h.phase with ⟨-, rfl, -⟩ | ⟨-, rfl | rfl⟩ <;> simp
  constructor
  · intro hall msg hmsg
    exact hall _ (List.mem_append_left _ (List.mem_map_of_mem hmsg)) msg rfl
  · rintro hall t ht msg rfl
    rcases List.mem_append.mp ht with hmem | hmem
    · obtain ⟨msg', hmsg', heq⟩ := List.mem_map.mp hmem
      cases heq
      exact hall msg hmsg'
    · exact absurd hmem (htail msg)

/-- The write event that closes the write side. Whether it does so too early
is what `InTime` tells. -/
theorem Placed.step_handleWrite (h : Placed s done sends tail) {script : List WriteResult}
    (hsoft : ∀ w ∈ script, w.Soft) :
    (∃ done sends tail, Placed (s.step (.handleWrite script)) done sends tail) ∧
      (s.FlushedFirst →
        (s.InTime (.handleWrite script) ↔ (s.step (.handleWrite script)).FlushedFirst)) := by
  by_cases hf : s.functors = []
  · obtain ⟨hflow, hstate, hfin, hdry⟩ := (h.scripted script).handleWrite hsoft
    have hplaced : Placed (s.step (.handleWrite script)) done sends tail := by
      simp only [step, if_pos hf]
      refine ⟨hflow, h.queue, h.accepted, ?_⟩
      rcases h.phase with ⟨hconn, htail, hnot⟩ | ⟨hclosing, htail⟩
      · refine .inl ⟨hstate.trans hconn, htail, ?_⟩
        by_contra hsent
        rcases hfin.mp (eq_true_of_ne_false hsent) with hsent | ⟨hclosing, -⟩
        · exact absurd hsent (by simp [hnot])
        · exact absurd (hconn.symm.trans hclosing) (by simp)
      · exact .inr ⟨hstate.trans hclosing, htail⟩
    refine ⟨⟨_, _, _, hplaced⟩, fun hflushed => ?_⟩
    have hwaiting := h.waiting_iff hf
    by_cases hclose : s.conn.state = .kDisconnecting ∧ s.conn.channel.isWriting = true ∧
        s.conn.outputBuffer.readableBytes ≤ takes script
    · -- the write side is closed now, over an empty buffer
      have hsent : (s.step (.handleWrite script)).conn.finSent = true := by
        simp only [step, if_pos hf]
        exact hfin.mpr (.inr hclose)
      have hempty : (s.step (.handleWrite script)).conn.outputBuffer.readableBytes = 0 := by
        simp only [step, if_pos hf]
        exact hdry hclose.2.1 hclose.2.2
      constructor
      · intro htime _
        exact hplaced.on_wire_iff.mpr ⟨hempty, hwaiting.mp (htime ⟨hf, hclose⟩)⟩
      · intro hafter _
        exact hwaiting.mpr (hplaced.on_wire_iff.mp (hafter hsent)).2
    · have htime : s.InTime (.handleWrite script) := fun hearly => absurd hearly.2 hclose
      refine ⟨fun _ hsent => ?_, fun _ => htime⟩
      simp only [step, if_pos hf] at hsent
      rcases hfin.mp hsent with hsent | hnow
      · -- it was closed before; then nothing waits and nothing is written
        have hwire := h.on_wire_iff.mp (hflushed hsent)
        refine hplaced.on_wire_iff.mpr ⟨?_, hwire.2⟩
        have hidle : s.conn.channel.isWriting = false := by
          by_contra hw
          have := h.flowing.writing.mp (by simpa using hw)
          omega
        simp only [step, if_pos hf, TcpConnection.handleWrite, hidle]
        exact hwire.1
      · exact absurd hnow hclose
  · simp only [step, if_neg hf]
    exact ⟨⟨done, sends, tail, h⟩, fun hflushed => ⟨fun _ => hflushed, fun _ hearly =>
      absurd hearly.1 hf⟩⟩

theorem Placed.step (h : Placed s done sends tail) (a : LoopAct)
    (hsoft : ∀ w ∈ a.script, w.Soft) :
    (∃ done sends tail, Placed (s.step a) done sends tail) ∧
      (s.FlushedFirst → (s.InTime a ↔ (s.step a).FlushedFirst)) := by
  have htrue {a : LoopAct} (htime : s.InTime a)
      (hstep : (∃ done sends tail, Placed (s.step a) done sends tail) ∧
        (s.FlushedFirst → (s.step a).FlushedFirst)) :
      (∃ done sends tail, Placed (s.step a) done sends tail) ∧
        (s.FlushedFirst → (s.InTime a ↔ (s.step a).FlushedFirst)) :=
    ⟨hstep.1, fun hflushed => ⟨fun _ => hstep.2 hflushed, fun _ => htime⟩⟩
  cases a with
  | send msg => exact htrue trivial (h.step_send msg)
  | shutdown => exact htrue trivial h.step_shutdown
  | sendOnLoop msg script => exact htrue trivial (h.step_sendOnLoop msg hsoft)
  | handleWrite script => exact h.step_handleWrite hsoft
  | swapFunctors => exact htrue trivial h.step_swapFunctors
  | runFunctor script => exact htrue trivial (h.step_runFunctor hsoft)

theorem placed_init (user : σ) : Placed (init user) [] [] [] :=
  ⟨flowing_established user, rfl, .refl _, .inl ⟨rfl, rfl, rfl⟩⟩

/-- In every interleaving of the two threads, the write side is closed only
after everything accepted was written, up to any moment, if and only if no
write event empties the buffer of the closing connection while bytes are
still waiting in the functors. -/
theorem shutdown_flushes_first (user : σ) (acts : List LoopAct)
    (hsoft : ∀ a ∈ acts, ∀ w ∈ a.script, w.Soft) :
    Visits IoLoop.step FlushedFirst (init user) acts ↔
      Along IoLoop.step InTime (init user) acts := by
  suffices h : ∀ s : IoLoop σ, (∃ done sends tail, Placed s done sends tail) → s.FlushedFirst →
      (Visits IoLoop.step FlushedFirst s acts ↔ Along IoLoop.step InTime s acts) from
    h _ ⟨_, _, _, placed_init user⟩ (flushedFirst_of_finSent rfl)
  induction acts with
  | nil =>
      intro s _ hflushed
      exact ⟨fun _ => trivial, fun _ => hflushed⟩
  | cons a acts ih =>
      rintro s ⟨done, sends, tail, hplaced⟩ hflushed
      obtain ⟨hplaced', hiff⟩ := hplaced.step a (hsoft a (List.mem_cons_self ..))
      have hrest := ih (fun a' ha' => hsoft a' (List.mem_cons_of_mem _ ha')) _ hplaced'
      constructor
      · rintro ⟨-, hvisits⟩
        have hnext : (s.step a).FlushedFirst := by
          cases acts with
          | nil => exact hvisits
          | cons a' acts => exact hvisits.1
        exact ⟨(hiff hflushed).mpr hnext, (hrest hnext).mp hvisits⟩
      · rintro ⟨htime, halong⟩
        exact ⟨hflushed, (hrest ((hiff hflushed).mp htime)).mpr halong⟩

/-- A direct write gets stuck, another thread sends and shuts down, and the
functors run before the socket is writable again. -/
theorem shutdown_flushes_first_in_turn :
    let acts : List LoopAct := [.sendOnLoop [1, 2] [.ok 1], .send [3], .shutdown,
      .swapFunctors, .runFunctor [], .runFunctor [], .handleWrite [.ok 9]]
    Visits IoLoop.step FlushedFirst (init ()) acts ∧
      (acts.foldl IoLoop.step (init ())).conn.finSent = true := by
  refine ⟨(shutdown_flushes_first () _ (by decide)).mpr ?_, by decide +kernel⟩
  refine ⟨trivial, trivial, trivial, trivial, trivial, trivial, ?_, trivial⟩
  intro _ t ht
  exact absurd (List.ne_nil_of_mem ht) (by decide +kernel)

/-- The socket becomes writable between the other thread's calls and their
functors: the write side is closed over the queued message. -/
theorem write_event_overtakes_queued_send :
    let acts : List LoopAct :=
      [.sendOnLoop [1, 2] [.ok 1], .send [3], .shutdown, .handleWrite [.ok 9]]
    let s := acts.foldl IoLoop.step (init ())
    s.conn.finSent = true ∧ s.accepted = [[1, 2], [3]] ∧ s.conn.wire = [1, 2] ∧
      s.pendingFunctors = [.sendInLoop [3], .shutdownInLoop] ∧ ¬s.OnWire := by
  intro acts s
  have hrun : s.conn.finSent = true ∧ s.accepted = [[1, 2], [3]] ∧ s.conn.wire = [1, 2] ∧
      s.pendingFunctors = [.sendInLoop [3], .shutdownInLoop] := by
    decide +kernel
  clear_value s
  refine ⟨hrun.1, hrun.2.1, hrun.2.2.1, hrun.2.2.2, ?_⟩
  rintro ⟨order, hperm, hwire⟩
  have hlen := hperm.flatten.length_eq
  rw [← hwire, hrun.2.1, hrun.2.2.1] at hlen
  exact absurd hlen (by decide)

end IoLoop

end GameServer.Net
