import GameServer.Net.Ownership

/-!
The connections of a running server, over all its runs.

The invariant of `Ownership` is kept by every step, provided that no thread
stores `kDisconnecting` into a connection that was closed after the thread had
tested its state (`InTime`). The store of such a thread revives the closed
connection: a message that is sent late is then written, and may bring the
channel back into the poller just before the connection is destroyed.
-/

namespace GameServer.Net

open GameServer.Lib Reactor

namespace TcpServer

variable {σ : Type} {s : TcpServer σ} {hand : Hand Functor} {k l : ℕ} {c : Connection σ}

section

variable {messageCb : MessageCallback σ} {n : ℕ}

/-! ### The loops -/

/-- A loop moves on. What it has still to run stays the same, but for what it
takes in its hand. -/
theorem Inv.setLoop {hand' : Hand Functor} {loop : Loop} (h : s.Inv messageCb n hand)
    (hline : ∀ l', (line (s.setLoop l loop).loops hand' l').Perm (line s.loops hand l'))
    (hheld : loop.held ⊆ (s.loops l).held)
    (hactive : ∀ k revents, .channel k revents ∈ loop.active →
      ∃ c, s.objects k = some c ∧ c.loop = l ∧ c.tcp.channel.index ≠ .kNew) :
    (s.setLoop l loop).Inv messageCb n hand' where
  fault := h.fault
  next := h.next
  size := h.size
  pool := h.pool
  made := fun k c hk =>
    have hmade := h.made k c hk
    ⟨hmade.pos, hmade.lt, hmade.name, hmade.loop, hmade.life⟩
  names := h.names
  owned := by
    rintro k (htable | huser | ⟨l', hl', f, hf, rfl⟩)
    · exact h.owned k (.inl htable)
    · exact h.owned k (.inr (.inl huser))
    · refine h.owned _ (.inr (.inr ⟨l', hl', f, ?_, rfl⟩))
      by_cases heq : l' = l
      · subst heq
        exact hheld (by simpa [TcpServer.setLoop] using hf)
      · simpa [TcpServer.setLoop, Function.update_of_ne heq] using hf
  table := h.table
  leaving := fun k c hk hclosed hin => (hline _).mem_iff.mpr (h.leaving k c hk hclosed hin)
  registered := fun k c hk hclosed hindex =>
    (h.registered k c hk hclosed hindex).imp (hline _).mem_iff.mpr (hline _).mem_iff.mpr
  waiting := fun k c hk hwait => (hline _).mem_iff.mpr (h.waiting k c hk hwait)
  due := fun l' f hf => h.due l' f ((hline l').mem_iff.mp hf)
  once := fun l' k => (hline l').count_eq _ ▸ h.once l' k
  users := h.users
  active := by
    intro l' k revents hmem
    by_cases heq : l' = l
    · subst heq
      exact hactive k revents (by simpa [TcpServer.setLoop] using hmem)
    · refine h.active l' k revents ?_
      simpa [TcpServer.setLoop, Function.update_of_ne heq] using hmem

theorem Inv.continues {loop : Loop} (h : s.Inv messageCb n [])
    (hloop : (s.loops l).Continues loop) : (s.setLoop l loop).Inv messageCb n [] :=
  h.setLoop (fun l' => .of_eq (line_update hloop.todo l')) hloop.held
    fun k revents hmem => h.active l k revents (hloop.active hmem)

theorem Inv.poll (h : s.Inv messageCb n []) (l : ℕ) (ready : List Ready) :
    (s.poll l ready).Inv messageCb n [] := by
  obtain ⟨htodo, hheld, hactive⟩ := poll_spec (s.loops l) (ready.filter (s.reported l))
  refine h.setLoop (fun l' => .of_eq (line_update htodo l')) (fun _ hf => hheld ▸ hf)
    fun k revents hmem => ?_
  rcases hactive _ hmem with hready | hold
  · have hreported := (List.mem_filter.mp hready).2
    simp only [reported, TcpServer.registered] at hreported
    cases hk : s.objects k with
    | none => simp [hk] at hreported
    | some c =>
        simp only [hk, Option.any_some, Bool.and_eq_true, decide_eq_true_eq] at hreported
        exact ⟨c, rfl, hreported.1, by simp [hreported.2]⟩
  · exact h.active l k revents hold

/-! ### Handlers and functors -/

/-- A connection that waits to be established is not known to the poller. -/
theorem Inv.established_of_index (h : s.Inv messageCb n hand) (hk : s.objects k = some c)
    (hindex : c.tcp.channel.index ≠ .kNew) : c.tcp.state ≠ .kConnecting := by
  rcases (h.made k c hk).life with ⟨user, htcp⟩ | hrun
  · exact absurd (by rw [htcp]) hindex
  · exact hrun.1

/-- The acts of the one-connection model, `connectDestroyed` apart. -/
theorem Inv.onStep (h : s.Inv messageCb n hand) (hk : s.objects k = some c)
    (hstate : c.tcp.state ≠ .kConnecting) {a : TcpConnection.ConnAct}
    (ha : ∀ script, a ≠ .task .connectDestroyed script)
    (hevent : ∀ revents kernel, a = .event revents kernel → c.tcp.channel.index ≠ .kNew) :
    (s.onConnection k (TcpConnection.step messageCb · a)).Inv messageCb n hand := by
  have hmoved := TcpConnection.moved_step messageCb c.tcp ha
  refine h.onConnection hk hstate hmoved
    ((h.made k c hk).life.step hstate (hmoved.established hstate)) (fun hclosed hindex => ?_)
  exact TcpConnection.index_step_of_closed messageCb hclosed hindex
    fun revents kernel heq => hevent revents kernel heq hindex

theorem Inv.handleEvent (h : s.Inv messageCb n []) (l : ℕ) (kernel : Kernel) (accepted : List σ) :
    (s.handleEvent messageCb l kernel accepted).Inv messageCb n [] := by
  unfold TcpServer.handleEvent
  split
  · next loop htake =>
      exact invariant_run_of_step (I := fun s : TcpServer σ => s.Inv messageCb n [])
        (fun _ user hs => hs.newConnection user) (h.continues (continues_takeEvent htake)) accepted
  · next k revents loop htake =>
      obtain ⟨c, hk, hloop, hindex⟩ := h.active l k revents (mem_active_of_takeEvent htake)
      exact (h.continues (continues_takeEvent htake)).onStep hk
        (h.established_of_index hk hindex) (fun _ => by simp) (fun _ _ _ => hindex)
  · exact h

theorem Inv.runFunctor (h : s.Inv messageCb n []) (l : ℕ) (script : List WriteResult) :
    (s.runFunctor messageCb l script).Inv messageCb n [] := by
  unfold TcpServer.runFunctor
  split
  · next f loop htake =>
      -- the functor is taken from the batch before it runs
      obtain ⟨-, hheld, hnone⟩ := takeFunctor_spec htake
      have hpop : (s.setLoop l loop).Inv messageCb n [(l, f)] :=
        h.setLoop (line_takeFunctor htake) (fun _ hf => hheld ▸ hf)
          (fun k revents hmem => absurd hmem (by simp [hnone]))
      have hactive : ((s.setLoop l loop).loops l).active = [] := by
        simpa [TcpServer.setLoop] using hnone
      cases f with
      | connectEstablished k => exact hpop.established
      | removeConnection k =>
          obtain ⟨c, -, rfl, -⟩ := hpop.due l (.removeConnection k) mem_line_head
          exact hpop.eraseConnection
      | task k t =>
          obtain ⟨c, hk, -, hstate, -⟩ := hpop.due l (.task k t) mem_line_head
          by_cases ht : t = .connectDestroyed
          · subst ht
            exact hpop.destroyed hactive script
          · exact (hpop.discard ht).onStep hk hstate (fun _ heq => ht (by simp_all))
              (fun _ _ heq => by simp at heq)
  · exact h.continues (continues_finish _)

/-! ### User code -/

theorem Inv.setUsers {users : List ℕ} (h : s.Inv messageCb n [])
    (husers : ∀ k ∈ users, ∃ c, s.objects k = some c ∧ c.tcp.state ≠ .kConnecting) :
    Inv messageCb n [] { s with users := users } where
  fault := h.fault
  next := h.next
  size := h.size
  pool := h.pool
  made := fun k c hk =>
    have hmade := h.made k c hk
    ⟨hmade.pos, hmade.lt, hmade.name, hmade.loop, hmade.life⟩
  names := h.names
  owned := by
    rintro k (htable | huser | hloop)
    · exact h.owned k (.inl htable)
    · exact (husers k huser).imp fun c hc => hc.1
    · exact h.owned k (.inr (.inr hloop))
  table := h.table
  leaving := h.leaving
  registered := h.registered
  waiting := h.waiting
  due := h.due
  once := h.once
  users := husers
  active := h.active

theorem Inv.copy (h : s.Inv messageCb n []) (k : ℕ) : (s.copy k).Inv messageCb n [] := by
  unfold TcpServer.copy
  split
  · next hcopy =>
      refine h.setUsers fun k' hk' => ?_
      rcases List.mem_cons.mp hk' with rfl | hk'
      · obtain ⟨c, hk⟩ := h.owned k' hcopy.1
        exact ⟨c, hk, by simpa [hk] using hcopy.2⟩
      · exact h.users k' hk'
  · exact h

theorem Inv.post {t : TcpConnection.Task} (h : s.Inv messageCb n []) (hk : k ∈ s.users)
    (ht : t ≠ .connectDestroyed) : (s.post k t).Inv messageCb n [] := by
  obtain ⟨c, hc, hstate⟩ := h.users k hk
  have htake := h.take (l := c.loop) (f := .task k t) hc ⟨rfl, hstate, fun heq => absurd heq ht⟩
    (fun _ heq => by simp at heq)
  simp only [TcpServer.post, hc]
  exact htake.enqueue

/-- On an open connection the store of `shutdown` is the act `shutdown` of the
one-connection model. -/
theorem disconnecting_eq (messageCb : MessageCallback σ) {tcp : TcpConnection σ}
    (hstate : tcp.state ≠ .kConnecting) (hopen : tcp.state ≠ .kDisconnected) :
    { tcp with state := .kDisconnecting } = tcp.step messageCb .shutdown := by
  cases hs : tcp.state with
  | kConnecting => exact absurd hs hstate
  | kConnected => simp [TcpConnection.step, hs]
  | kDisconnecting =>
      simp only [TcpConnection.step, hs]
      rw [if_neg (by simp), ← hs]
  | kDisconnected => exact absurd hs hopen

theorem Inv.disconnecting (h : s.Inv messageCb n []) (hk : k ∈ s.users)
    (hintime : (s.objects k).all (·.tcp.state ≠ .kDisconnected)) :
    (s.onConnection k ({ · with state := .kDisconnecting })).Inv messageCb n [] := by
  obtain ⟨c, hc, hstate⟩ := h.users k hk
  have hopen : c.tcp.state ≠ .kDisconnected := by simpa [hc] using hintime
  have heq := disconnecting_eq messageCb hstate hopen
  refine h.onConnection hc hstate (TcpConnection.moved_disconnecting hopen) ?_
    (fun hclosed => absurd hclosed hopen)
  rw [heq]
  exact (h.made k c hc).life.step hstate (by rw [← heq]; simp)

theorem Inv.act (h : s.Inv messageCb n []) {a : ServerAct σ} (ha : s.InTime a) :
    (s.act messageCb a).Inv messageCb n [] := by
  cases a with
  | poll l ready => exact h.poll l ready
  | handleEvent l kernel accepted => exact h.handleEvent l kernel accepted
  | swapFunctors l => exact h.continues (continues_swapFunctors _)
  | functor l script => exact h.runFunctor l script
  | copy k => exact h.copy k
  | drop k => exact h.setUsers fun k' hk' => h.users k' (List.mem_of_mem_erase hk')
  | queue k t =>
      simp only [TcpServer.act]
      split
      · next hq => exact h.post hq.1 hq.2
      · exact h
  | disconnecting k =>
      simp only [TcpServer.act]
      split
      · next hk => exact h.disconnecting hk ha
      · exact h
  | call k x script =>
      simp only [TcpServer.act]
      split
      · next hk =>
          obtain ⟨c, hc, hstate⟩ := h.users k hk
          exact h.onStep hc hstate (fun _ => by simp) (fun _ _ heq => by simp at heq)
      · exact h

/-! ### Destruction -/

theorem Inv.owned_of_todo (h : s.Inv messageCb n []) {f : Functor} (hf : f ∈ (s.loops l).todo) :
    s.Owned f.conn := by
  have hl : l ≤ s.threadPool_.loops_.length := by
    obtain ⟨c, hc, hdue⟩ := h.due l f hf
    cases f with
    | connectEstablished k => exact hdue.1 ▸ h.loop_le hc
    | removeConnection k => exact hdue.1 ▸ Nat.zero_le _
    | task k t => exact hdue.1 ▸ h.loop_le hc
  exact .inr (.inr ⟨l, hl, f, todo_subset_held _ hf, rfl⟩)

/-- As long as a poller knows its channel, a connection has an owner. -/
theorem Inv.owned_of_known (h : s.Inv messageCb n []) (hk : s.objects k = some c)
    (hindex : c.tcp.channel.index ≠ .kNew) : s.Owned k := by
  by_cases hclosed : c.tcp.state = .kDisconnected
  · rcases h.registered k c hk hclosed hindex with hmem | hmem
    · exact h.owned_of_todo hmem
    · exact h.owned_of_todo hmem
  · exact .inl ((inTable_iff h.names).mpr (h.table k c hk hclosed))

theorem objects_collect {c : Connection σ} :
    s.collect.objects k = some c ↔ s.Owned k ∧ s.objects k = some c := by
  simp [collect]

theorem Inv.collect (h : s.Inv messageCb n []) : s.collect.Inv messageCb n [] where
  fault := by
    have hnone : ¬∃ k < s.nextConnId_, ¬s.Owned k ∧ s.known k = true := by
      rintro ⟨k, -, howned, hknown⟩
      cases hk : s.objects k with
      | none => simp [known, hk] at hknown
      | some c => exact howned (h.owned_of_known hk (by simpa [known, hk] using hknown))
    simp [TcpServer.collect, h.fault, hnone]
  next := h.next
  size := h.size
  pool := h.pool
  made := fun k c hk =>
    have hmade := h.made k c (objects_collect.mp hk).2
    ⟨hmade.pos, hmade.lt, hmade.name, hmade.loop, hmade.life⟩
  names := h.names
  owned := fun k hk => (h.owned k hk).imp fun c hc => objects_collect.mpr ⟨hk, hc⟩
  table := fun k c hk => h.table k c (objects_collect.mp hk).2
  leaving := fun k c hk => h.leaving k c (objects_collect.mp hk).2
  registered := fun k c hk => h.registered k c (objects_collect.mp hk).2
  waiting := fun k c hk => h.waiting k c (objects_collect.mp hk).2
  due := fun l f hf =>
    (h.due l f hf).imp fun c hc => ⟨objects_collect.mpr ⟨h.owned_of_todo hf, hc.1⟩, hc.2⟩
  once := h.once
  users := fun k hk =>
    (h.users k hk).imp fun c hc => ⟨objects_collect.mpr ⟨.inr (.inl hk), hc.1⟩, hc.2⟩
  active := fun l k revents hmem =>
    (h.active l k revents hmem).imp fun c hc =>
      ⟨objects_collect.mpr ⟨h.owned_of_known hc.1 hc.2.2, hc.1⟩, hc.2⟩

end

/-! ### Runs -/

section

variable (messageCb : MessageCallback σ)

theorem inv_start (name : String) (threadNum : ℕ) :
    (start name threadNum : TcpServer σ).Inv messageCb threadNum [] where
  fault := rfl
  next := Nat.one_pos
  size := by simp [start, EventLoopThreadPool.start]
  pool := EventLoopThreadPool.Turn.start threadNum
  made := fun _ _ hk => absurd hk (by simp [start])
  names := fun _ _ hk => absurd hk (by simp [start])
  owned := by
    rintro k (⟨e, he, -⟩ | huser | ⟨l, -, f, hf, -⟩)
    · simp [start] at he
    · simp [start] at huser
    · simp [start, Reactor.held] at hf
  table := fun _ _ hk => absurd hk (by simp [start])
  leaving := fun _ _ hk => absurd hk (by simp [start])
  registered := fun _ _ hk => absurd hk (by simp [start])
  waiting := fun _ _ hk => absurd hk (by simp [start])
  due := fun _ _ hf => absurd hf (by simp [start, Reactor.todo])
  once := fun _ _ => by simp [start, Reactor.todo]
  users := fun _ hk => absurd hk (by simp [start])
  active := fun _ _ _ hmem => absurd hmem (by simp [start, Reactor.active])

theorem inv_run {name : String} {threadNum : ℕ} {acts : List (ServerAct σ)}
    (h : Along (step messageCb) InTime (start name threadNum) acts) :
    (acts.foldl (step messageCb) (start name threadNum)).Inv messageCb threadNum [] :=
  invariant_run (I := fun s : TcpServer σ => s.Inv messageCb threadNum [])
    (fun _ _ hs ha => (hs.act ha).collect) (inv_start messageCb name threadNum) h

/-- As long as no other thread announces a shutdown too late, no handler and no
functor touches a destroyed connection, and none is destroyed while a poller
knows its channel. -/
theorem no_fault (name : String) (threadNum : ℕ) (acts : List (ServerAct σ))
    (h : Along (step messageCb) InTime (start name threadNum) acts) :
    (acts.foldl (step messageCb) (start name threadNum)).fault = false :=
  (inv_run messageCb h).fault

end

/-- Accepted, established, closed by its peer twice over, removed and freed. -/
def oneConnection : List (ServerAct Unit) :=
  [.poll 0 [.acceptor], .handleEvent 0 {} [()],
    .poll 1 [], .swapFunctors 1, .functor 1 [], .functor 1 [],
    .poll 1 [.channel 1 { err := true, inp := true }], .handleEvent 1 { reads := [.ok []] } [],
    .swapFunctors 1, .functor 1 [],
    .swapFunctors 0, .functor 0 [], .functor 0 [], .functor 0 [],
    .poll 1 [.channel 1 {}], .handleEvent 1 {} [], .swapFunctors 1, .functor 1 [], .functor 1 [],
    .functor 1 []]

def discardAll : MessageCallback Unit := fun _ buf => ((), buf.retrieveAll, [])

theorem no_fault_oneConnection :
    (oneConnection.foldl (step discardAll) (start "gameserver" 1)).fault = false :=
  no_fault discardAll "gameserver" 1 oneConnection (by decide +kernel)

/-- Without the condition a poller is left with the channel of a destroyed
connection. One thread finds the connection connected and is about to shut it
down, another is about to queue a message, when the peer closes it. -/
theorem fault_of_late_store :
    let acts : List (ServerAct Unit) :=
      [.poll 0 [.acceptor], .handleEvent 0 {} [()], .copy 1, .copy 1, .swapFunctors 0,
        .functor 0 [], .poll 0 [.channel 1 { hup := true }], .handleEvent 0 {} [],
        .swapFunctors 0, .functor 0 [], .functor 0 [],
        .disconnecting 1, .queue 1 (.sendInLoop [7]),
        .poll 0 [], .swapFunctors 0, .functor 0 [.fail .again], .functor 0 [], .drop 1, .drop 1]
    (acts.foldl (step discardAll) (start "gameserver" 0)).fault = true := by
  decide +kernel

section

variable (messageCb : MessageCallback σ)

/-- No loop has anything to do. -/
def AtRest (s : TcpServer σ) : Prop :=
  ∀ l, (s.loops l).phase = .polling ∧ (s.loops l).pendingFunctors = []

theorem AtRest.todo (h : s.AtRest) (l : ℕ) : (s.loops l).todo = [] := by
  obtain ⟨hphase, hpending⟩ := h l
  simp [Reactor.todo, hphase, hpending]

theorem AtRest.held (h : s.AtRest) (l : ℕ) : (s.loops l).held = [] := by
  obtain ⟨hphase, hpending⟩ := h l
  simp [Reactor.held, hphase, hpending]

/-- What is left has an owner. -/
theorem owned_run {name : String} {threadNum : ℕ} (acts : List (ServerAct σ)) {k : ℕ}
    {c : Connection σ}
    (hk : (acts.foldl (step messageCb) (start name threadNum)).objects k = some c) :
    (acts.foldl (step messageCb) (start name threadNum)).Owned k := by
  rcases List.eq_nil_or_concat acts with rfl | ⟨acts, a, rfl⟩
  · simp [start] at hk
  · rw [List.concat_eq_append, List.foldl_concat] at hk ⊢
    exact (objects_collect.mp hk).1

/-- Once the loops have come to rest, and if no other thread has announced a
shutdown too late, the table holds the open connections, all of them
established, and a closed one is left only if user code keeps it: no poller
knows it. -/
theorem table_at_rest (name : String) (threadNum : ℕ) (acts : List (ServerAct σ))
    (h : Along (step messageCb) InTime (start name threadNum) acts)
    (hrest : (acts.foldl (step messageCb) (start name threadNum)).AtRest) :
    let s := acts.foldl (step messageCb) (start name threadNum)
    (∀ n k, s.connections_.lookup n = some k ↔
      ∃ c, s.objects k = some c ∧ c.name = n ∧ c.tcp.state ≠ .kDisconnected) ∧
    ∀ k c, s.objects k = some c → c.tcp.state ≠ .kConnecting ∧
      (c.tcp.state = .kDisconnected → c.tcp.channel.index = .kNew ∧ k ∈ s.users) := by
  intro s
  have hinv : s.Inv messageCb threadNum [] := inv_run messageCb h
  have hline : ∀ l, line s.loops [] l = [] := fun l => AtRest.todo hrest l
  have hopen : ∀ {k c}, s.objects k = some c → s.InTable k → c.tcp.state ≠ .kDisconnected := by
    intro k c hk hin hclosed
    have hmem := hinv.leaving k c hk hclosed hin
    simp [hline] at hmem
  refine ⟨fun n k => ⟨fun hlookup => ?_, ?_⟩, fun k c hk => ⟨fun hwait => ?_, fun hclosed => ?_⟩⟩
  · have hname := hinv.names n k hlookup
    have hin : s.InTable k := by
      rw [hname] at hlookup
      exact hlookup
    obtain ⟨c, hk⟩ := hinv.owned k (.inl ((inTable_iff hinv.names).mpr hin))
    exact ⟨c, hk, (hinv.made k c hk).name.trans hname.symm, hopen hk hin⟩
  · rintro ⟨c, hk, rfl, hstate⟩
    rw [(hinv.made k c hk).name]
    exact hinv.table k c hk hstate
  · have hmem := hinv.waiting k c hk hwait
    simp [hline] at hmem
  · constructor
    · by_contra hindex
      have hmem := hinv.registered k c hk hclosed hindex
      simp [hline] at hmem
    · rcases owned_run messageCb acts hk with htable | huser | ⟨l, -, f, hf, -⟩
      · exact absurd hclosed (hopen hk ((inTable_iff hinv.names).mp htable))
      · exact huser
      · rw [AtRest.held hrest l] at hf
        exact absurd hf (by simp)

end

/-- A second connection is accepted and established after the first is gone. -/
def secondConnection : List (ServerAct Unit) :=
  oneConnection ++
    [.poll 0 [.acceptor], .handleEvent 0 {} [()], .swapFunctors 0, .functor 0 [],
      .poll 1 [], .swapFunctors 1, .functor 1 [], .functor 1 []]

theorem secondConnection_atRest :
    (secondConnection.foldl (step discardAll) (start "gameserver" 1)).AtRest := by
  intro l
  match l with
  | 0 => decide +kernel
  | 1 => decide +kernel
  | l + 2 => exact ⟨rfl, rfl⟩

/-- The table is left with the second one. -/
theorem table_at_rest_secondConnection :
    let s := secondConnection.foldl (step discardAll) (start "gameserver" 1)
    (s.objects 1).isNone ∧ s.connections_.lookup "gameserver-2" = some 2 ∧
      ∃ c, s.objects 2 = some c ∧ c.name = "gameserver-2" ∧ c.tcp.state = .kConnected := by
  intro s
  have hgone : (s.objects 1).isNone := by decide +kernel
  have hopen : (s.objects 2).map (·.tcp.state) = some .kConnected := by decide +kernel
  have htable : s.connections_.lookup "gameserver-2" = some 2 := by decide +kernel
  have h := (table_at_rest discardAll "gameserver" 1 secondConnection (by decide +kernel)
    secondConnection_atRest).1 "gameserver-2" 2
  obtain ⟨c, hc, hname, -⟩ := h.mp htable
  refine ⟨hgone, htable, c, hc, hname, ?_⟩
  rw [hc] at hopen
  exact Option.some.inj hopen

section

variable (messageCb : MessageCallback σ)

/-- As long as no other thread announces a shutdown too late, every connection
lives the life of the one-connection model, on the loop that its number gives
it in turn; its functors and its events are on no other loop. -/
theorem one_loop_for_life (name : String) (threadNum : ℕ) (acts : List (ServerAct σ))
    (h : Along (step messageCb) InTime (start name threadNum) acts) :
    let s := acts.foldl (step messageCb) (start name threadNum)
    (∀ k c, s.objects k = some c →
      c.loop = (if threadNum = 0 then 0 else (k - 1) % threadNum + 1) ∧ c.tcp.Life messageCb) ∧
    (∀ l k t, .task k t ∈ (s.loops l).todo →
      ∃ c, s.objects k = some c ∧ c.loop = l ∧ c.tcp.state ≠ .kConnecting) ∧
    ∀ l k revents, .channel k revents ∈ (s.loops l).active →
      ∃ c, s.objects k = some c ∧ c.loop = l ∧ c.tcp.state ≠ .kConnecting := by
  intro s
  have hinv : s.Inv messageCb threadNum [] := inv_run messageCb h
  refine ⟨fun k c hk => ⟨?_, (hinv.made k c hk).life⟩, fun l k t hmem => ?_,
    fun l k revents hmem => ?_⟩
  · rw [(hinv.made k c hk).loop, EventLoopThreadPool.loopOf, hinv.size]
  · obtain ⟨c, hk, hloop, hstate, -⟩ := hinv.due l (.task k t) hmem
    exact ⟨c, hk, hloop.symm, hstate⟩
  · obtain ⟨c, hk, hloop, hindex⟩ := hinv.active l k revents hmem
    exact ⟨c, hk, hloop, hinv.established_of_index hk hindex⟩

end

/-- In the middle of the run the connection is open. -/
theorem one_loop_for_life_oneConnection :
    ∃ c, ((oneConnection.take 7).foldl (step discardAll) (start "gameserver" 1)).objects 1 =
      some c ∧ c.loop = 1 ∧ c.tcp.Life discardAll := by
  have hlife := one_loop_for_life discardAll "gameserver" 1 (oneConnection.take 7)
    (by decide +kernel)
  have hsome : (((oneConnection.take 7).foldl (step discardAll)
      (start "gameserver" 1)).objects 1).isSome := by
    decide +kernel
  obtain ⟨c, hc⟩ := Option.isSome_iff_exists.mp hsome
  exact ⟨c, hc, hlife.1 1 c hc⟩

end TcpServer

end GameServer.Net
