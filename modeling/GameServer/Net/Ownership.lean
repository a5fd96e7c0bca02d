import GameServer.Net.TcpServer
import Mathlib

/-!
Who owns a connection, and until when.

A connection is in the table from its creation on. When it closes, a request
to remove it is queued on the base loop, and the base loop queues
`connectDestroyed` on the connection's own loop, which takes the channel out
of the poller. Each of these functors owns the connection, so at any time one
of them, the table or user code does.
-/

namespace GameServer.Net

open GameServer.Lib Reactor

namespace TcpConnection

variable {σ : Type} {c c₁ c₂ : TcpConnection σ}

/-! ### What one act does to a connection -/

/-- The connection was not taken out of the poller, a closed one stayed
closed, and the server was told exactly if it was closed. -/
structure Moved (c c' : TcpConnection σ) : Prop where
  callbacks : c.callbacks <+: c'.callbacks
  closed : c.state = .kDisconnected → c'.state = .kDisconnected
  established : c.state ≠ .kConnecting → c'.state ≠ .kConnecting
  index : c.channel.index ≠ .kNew → c'.channel.index ≠ .kNew
  told : c.state ≠ .kDisconnected → c'.state = .kDisconnected →
    .closeCb ∈ c'.callbacks.drop c.callbacks.length
  gone : .closeCb ∈ c'.callbacks.drop c.callbacks.length → c'.state = .kDisconnected

/-- The callbacks of two acts after another are made one after another. -/
theorem mem_drop_iff (h₁ : c.callbacks <+: c₁.callbacks) (h₂ : c₁.callbacks <+: c₂.callbacks)
    (cb : Callback) :
    cb ∈ c₂.callbacks.drop c.callbacks.length ↔
      cb ∈ c₁.callbacks.drop c.callbacks.length ∨ cb ∈ c₂.callbacks.drop c₁.callbacks.length := by
  obtain ⟨new₁, h₁⟩ := h₁
  obtain ⟨new₂, h₂⟩ := h₂
  have hall : c₂.callbacks.drop c.callbacks.length = new₁ ++ new₂ := by
    rw [← h₂, ← h₁, List.append_assoc, List.drop_left]
  have hfirst : c₁.callbacks.drop c.callbacks.length = new₁ := by rw [← h₁, List.drop_left]
  have hlast : c₂.callbacks.drop c₁.callbacks.length = new₂ := by rw [← h₂, List.drop_left]
  rw [hall, hfirst, hlast, List.mem_append]

theorem Moved.trans (h₁ : Moved c c₁) (h₂ : Moved c₁ c₂) : Moved c c₂ where
  callbacks := h₁.callbacks.trans h₂.callbacks
  closed := fun h => h₂.closed (h₁.closed h)
  established := fun h => h₂.established (h₁.established h)
  index := fun h => h₂.index (h₁.index h)
  told := by
    intro hopen hclosed
    rw [mem_drop_iff h₁.callbacks h₂.callbacks]
    by_cases hmid : c₁.state = .kDisconnected
    · exact .inl (h₁.told hopen hmid)
    · exact .inr (h₂.told hmid hclosed)
  gone := by
    rw [mem_drop_iff h₁.callbacks h₂.callbacks]
    exact fun h => h.elim (fun h => h₂.closed (h₁.gone h)) h₂.gone

/-- The state is left alone, the channel stays known and nothing is said about
the end. -/
theorem Moved.of_quiet (new : List Callback) (hstate : c₁.state = c.state)
    (hcbs : c₁.callbacks = c.callbacks ++ new) (hnew : .closeCb ∉ new)
    (hindex : c.channel.index ≠ .kNew → c₁.channel.index ≠ .kNew) : Moved c c₁ where
  callbacks := hcbs ▸ List.prefix_append _ _
  closed := fun h => hstate.trans h
  established := fun h => by rwa [hstate]
  index := hindex
  told := fun h h' => absurd (hstate.symm.trans h') h
  gone := fun h => by
    rw [hcbs, List.drop_left] at h
    exact absurd h hnew

theorem Moved.of_eq (hstate : c₁.state = c.state) (hcbs : c₁.callbacks = c.callbacks)
    (hindex : c.channel.index ≠ .kNew → c₁.channel.index ≠ .kNew) : Moved c c₁ :=
  .of_quiet [] hstate (by simp [hcbs]) (by simp) hindex

theorem Moved.refl (c : TcpConnection σ) : Moved c c := .of_eq rfl rfl id

theorem index_update_ne (ch : Channel) : ch.update.index ≠ .kNew := by
  unfold Channel.update
  cases hi : ch.index with
  | kNew => simp
  | kDeleted => simp
  | kAdded =>
      dsimp only
      split <;> simp [hi]

theorem moved_handleClose (c : TcpConnection σ) : Moved c c.handleClose where
  callbacks := prefix_handleClose c
  closed := fun _ => rfl
  established := fun _ => by simp [handleClose, connectionCb, invoke]
  index := fun _ => index_update_ne _
  told := fun _ _ => by
    rw [callbacks_handleClose, List.drop_left]
    simp
  gone := fun _ => rfl

theorem moved_onlyOutput (h : OnlyOutput c c₁) : Moved c c₁ :=
  .of_eq h.state h.callbacks fun hi => by rwa [h.channel]

theorem moved_appendRest (rest : List UInt8) (c : TcpConnection σ) :
    Moved c (c.appendRest rest) := by
  unfold appendRest
  split
  · refine .of_eq rfl rfl fun hi => ?_
    dsimp only
    split
    · exact hi
    · exact index_update_ne _
  · exact .refl c

theorem moved_sendInLoop (msg : List UInt8) (c : TcpConnection σ) :
    Moved c (c.sendInLoop msg) := by
  have hwrite := moved_onlyOutput (onlyOutput_write msg c)
  unfold sendInLoop
  split
  · exact .refl c
  · split
    · dsimp only
      split
      · exact hwrite.trans (moved_appendRest _ _)
      · split
        · exact hwrite.trans (moved_handleClose _)
        · exact hwrite.trans (moved_appendRest _ _)
    · exact moved_appendRest msg c

theorem moved_shutdownInLoop (c : TcpConnection σ) : Moved c c.shutdownInLoop := by
  unfold shutdownInLoop
  split
  · exact .refl c
  · exact .of_eq rfl rfl id

theorem moved_disconnecting (hopen : c.state ≠ .kDisconnected) :
    Moved c { c with state := .kDisconnecting } where
  callbacks := List.prefix_refl _
  closed := fun h => absurd h hopen
  established := fun _ => by simp
  index := id
  told := fun _ h => by simp at h
  gone := fun h => by simp at h

theorem moved_call (x : Call) (c : TcpConnection σ) : Moved c (c.call x) := by
  cases x with
  | send msg =>
      simp only [call]
      split
      · exact moved_sendInLoop msg c
      · exact .refl c
  | shutdown =>
      simp only [call]
      split
      · next hconn =>
          exact (moved_disconnecting (by simp [hconn])).trans (moved_shutdownInLoop _)
      · exact .refl c

theorem moved_calls (calls : List Call) (c : TcpConnection σ) :
    Moved c (calls.foldl (fun c x => c.call x) c) :=
  invariant_run_of_step (I := Moved c) (fun c' x h => h.trans (moved_call x c')) (.refl c) calls

theorem moved_handleWrite (c : TcpConnection σ) : Moved c c.handleWrite := by
  have hloop := moved_onlyOutput (onlyOutput_writeLoop (c.kernel.writes.length + 1) c)
  unfold handleWrite
  split
  · split
    · next c₁ heq => rwa [heq] at hloop
    · next c₁ heq =>
        rw [heq] at hloop
        exact hloop.trans (moved_handleClose c₁)
    · next c₁ heq =>
        rw [heq] at hloop
        have hoff : Moved c { c₁ with channel := c₁.channel.disableWriting } :=
          hloop.trans (.of_eq rfl rfl fun _ => index_update_ne _)
        dsimp only
        split
        · exact hoff.trans (moved_shutdownInLoop _)
        · exact hoff
  · exact .refl c

section

variable (messageCb : MessageCallback σ)

theorem moved_handleRead (c : TcpConnection σ) : Moved c (c.handleRead messageCb) := by
  unfold handleRead
  rcases readLoop c.kernel.reads c.inputBuffer with ⟨how, buf⟩
  have hbuf : Moved c { c with inputBuffer := buf } := .of_eq rfl rfl id
  have hcb : Moved c (if buf.readableBytes > 0 then
      { c with inputBuffer := buf }.invokeMessageCb messageCb
      else { c with inputBuffer := buf }) := by
    split
    · have hinvoke (user : σ) (buf : Buffer) :
          Moved c ({ c with user := user, inputBuffer := buf }.invoke .messageCb) :=
        .of_quiet [.messageCb] rfl rfl (by simp) id
      exact (hinvoke _ _).trans (moved_calls _ _)
    · exact hbuf
  dsimp only
  split
  · exact hbuf.trans (moved_handleClose _)
  · split
    · exact hcb.trans (moved_handleClose _)
    · exact hcb

theorem moved_handleEvent (revents : Revents) (c : TcpConnection σ) :
    Moved c (c.handleEvent messageCb revents) := by
  have herr : Moved c (if revents.err then c.handleError else c) := by
    split
    · exact moved_handleClose c
    · exact .refl c
  have hread (c' : TcpConnection σ) :
      Moved c' (if revents.inp ∨ revents.pri ∨ revents.rdhup then c'.handleRead messageCb
        else c') := by
    split
    · exact moved_handleRead messageCb c'
    · exact .refl c'
  unfold handleEvent
  split
  · exact moved_handleClose c
  · dsimp only
    split
    · exact (herr.trans (hread _)).trans (moved_handleWrite _)
    · exact herr.trans (hread _)

/-- Everything but `connectDestroyed`. -/
theorem moved_step (c : TcpConnection σ) {a : ConnAct}
    (h : ∀ script, a ≠ .task .connectDestroyed script) : Moved c (c.step messageCb a) := by
  cases a with
  | event revents kernel =>
      have hkernel : Moved c { c with kernel := kernel } := .of_eq rfl rfl id
      exact hkernel.trans (moved_handleEvent messageCb revents _)
  | task t script =>
      have hscript : Moved c { c with kernel.writes := script } := .of_eq rfl rfl id
      cases t with
      | sendInLoop msg => exact hscript.trans (moved_sendInLoop msg _)
      | shutdownInLoop => exact hscript.trans (moved_shutdownInLoop _)
      | connectDestroyed => exact absurd rfl (h script)
  | call x script =>
      have hscript : Moved c { c with kernel.writes := script } := .of_eq rfl rfl id
      exact hscript.trans (moved_call x _)
  | shutdown =>
      simp only [step]
      split
      · next hconn => exact moved_disconnecting (by simp [hconn])
      · exact .refl c

/-- Once closed a connection is not given to the poller again, unless it has
an event. -/
theorem index_step_of_closed (hclosed : c.state = .kDisconnected)
    (hindex : c.channel.index = .kNew) {a : ConnAct}
    (h : ∀ revents kernel, a ≠ .event revents kernel) :
    (c.step messageCb a).channel.index = .kNew := by
  cases a with
  | event revents kernel => exact absurd rfl (h revents kernel)
  | task t script =>
      cases t with
      | sendInLoop msg => simp [step, perform, sendInLoop, hclosed, hindex]
      | shutdownInLoop =>
          simp only [step, perform, shutdownInLoop]
          split <;> exact hindex
      | connectDestroyed => rfl
  | call x script => cases x <;> simp [step, call, hclosed, hindex]
  | shutdown => simp [step, hclosed, hindex]

/-- A connection that waits to be established, or the outcome of some acts
after that. -/
def Life (c : TcpConnection σ) : Prop :=
  (∃ user, c = { user := user }) ∨
    (c.state ≠ .kConnecting ∧
      ∃ user acts, c = List.foldl (step messageCb) (connectEstablished { user := user }) acts)

theorem Life.step {messageCb : MessageCallback σ} (h : c.Life messageCb)
    (hstate : c.state ≠ .kConnecting) {a : ConnAct}
    (hnext : (c.step messageCb a).state ≠ .kConnecting) : (c.step messageCb a).Life messageCb := by
  rcases h with ⟨user, rfl⟩ | ⟨-, user, acts, rfl⟩
  · exact absurd rfl hstate
  · exact .inr ⟨hnext, user, acts ++ [a], by rw [List.foldl_concat]⟩

end

end TcpConnection

namespace TcpServer

variable {σ : Type} {s : TcpServer σ} {hand : Hand Functor} {k l : ℕ} {c : Connection σ}

/-! ### Requests under way -/

theorem connName_inj {name : String} {k k' : ℕ} (h : connName name k = connName name k') :
    k = k' := by
  have hrepr : Nat.repr k = Nat.repr k' := by
    simpa [connName, String.append_assoc] using h
  exact Nat.repr_injective hrepr

/-! ### The invariant -/

/-- Connection `k` is in the table, under its name. -/
def InTable (s : TcpServer σ) (k : ℕ) : Prop :=
  s.connections_.lookup (connName s.name_ k) = some k

/-- What holds of the connection of a functor that loop `l` has to run. -/
def Due (l : ℕ) (c : Connection σ) : Functor → Prop
  | .connectEstablished _ => l = c.loop ∧ c.tcp.state = .kConnecting
  | .removeConnection _ => l = 0 ∧ c.tcp.state = .kDisconnected
  | .task _ t =>
      l = c.loop ∧ c.tcp.state ≠ .kConnecting ∧
        (t = .connectDestroyed → c.tcp.state = .kDisconnected)

/-- What a connection keeps from its creation. -/
structure Made (messageCb : MessageCallback σ) (s : TcpServer σ) (k : ℕ) (c : Connection σ) :
    Prop where
  pos : 0 < k
  lt : k < s.nextConnId_
  name : c.name = connName s.name_ k
  loop : c.loop = s.threadPool_.loopOf (k - 1)
  life : c.tcp.Life messageCb

/-- What holds of the server between two steps, with the requests `hand` under
way. -/
structure Inv (messageCb : MessageCallback σ) (n : ℕ) (hand : Hand Functor)
    (s : TcpServer σ) : Prop where
  fault : s.fault = false
  next : 0 < s.nextConnId_
  size : s.threadPool_.loops_.length = n
  pool : s.threadPool_.Turn (s.nextConnId_ - 1)
  made : ∀ k c, s.objects k = some c → s.Made messageCb k c
  names : ∀ n k, s.connections_.lookup n = some k → n = connName s.name_ k
  owned : ∀ k, s.Owned k → ∃ c, s.objects k = some c
  table : ∀ k c, s.objects k = some c → c.tcp.state ≠ .kDisconnected → s.InTable k
  leaving : ∀ k c, s.objects k = some c → c.tcp.state = .kDisconnected → s.InTable k →
    .removeConnection k ∈ line s.loops hand 0
  registered : ∀ k c, s.objects k = some c → c.tcp.state = .kDisconnected →
    c.tcp.channel.index ≠ .kNew →
    .removeConnection k ∈ line s.loops hand 0 ∨ .task k .connectDestroyed ∈ line s.loops hand c.loop
  waiting : ∀ k c, s.objects k = some c → c.tcp.state = .kConnecting →
    .connectEstablished k ∈ line s.loops hand c.loop
  due : ∀ l f, f ∈ line s.loops hand l → ∃ c, s.objects f.conn = some c ∧ Due l c f
  once : ∀ l k, (line s.loops hand l).count (.connectEstablished k) ≤ 1
  users : ∀ k ∈ s.users, ∃ c, s.objects k = some c ∧ c.tcp.state ≠ .kConnecting
  active : ∀ l k revents, .channel k revents ∈ (s.loops l).active →
    ∃ c, s.objects k = some c ∧ c.loop = l ∧ c.tcp.channel.index ≠ .kNew

theorem inTable_iff (hnames : ∀ n k, s.connections_.lookup n = some k → n = connName s.name_ k) :
    (∃ e ∈ s.connections_.entries, e.2 = k) ↔ s.InTable k := by
  constructor
  · rintro ⟨⟨n, k⟩, he, rfl⟩
    have hlookup := UnorderedMap.mem_entries_iff.mp he
    rwa [hnames n k hlookup] at hlookup
  · exact fun h => ⟨_, UnorderedMap.mem_entries_iff.mpr h, rfl⟩

section

variable {messageCb : MessageCallback σ} {n : ℕ} {f : Functor}

theorem Inv.loop_le (h : s.Inv messageCb n hand) (hk : s.objects k = some c) :
    c.loop ≤ s.threadPool_.loops_.length := by
  rw [(h.made k c hk).loop]
  exact s.threadPool_.loopOf_le _

/-- A functor is taken up, or is about to be queued. -/
theorem Inv.take (h : s.Inv messageCb n hand) (hk : s.objects f.conn = some c) (hdue : Due l c f)
    (hnew : ∀ k, f = .connectEstablished k → f ∉ line s.loops hand l) :
    s.Inv messageCb n ((l, f) :: hand) where
  __ := h
  leaving := fun k c hk hstate htable => mem_line_of_mem (h.leaving k c hk hstate htable)
  registered := fun k c hk hstate hindex =>
    (h.registered k c hk hstate hindex).imp mem_line_of_mem mem_line_of_mem
  waiting := fun k c hk hstate => mem_line_of_mem (h.waiting k c hk hstate)
  due := by
    intro l' g hg
    rcases mem_line_cons.mp hg with ⟨rfl, rfl⟩ | hg
    · exact ⟨c, hk, hdue⟩
    · exact h.due l' g hg
  once := by
    intro l' k'
    rw [line_cons]
    split
    · next heq =>
        subst heq
        by_cases hf : f = .connectEstablished k'
        · subst hf
          rw [List.count_cons_self, List.count_eq_zero_of_not_mem (hnew k' rfl)]
        · rw [List.count_cons_of_ne hf]
          exact h.once l k'
    · exact h.once l' k'

/-- The request is queued. -/
theorem Inv.enqueue (h : s.Inv messageCb n ((l, f) :: hand)) :
    (s.queueInLoop l f).Inv messageCb n hand := by
  have hmem : ∀ l' g, g ∈ line (s.queueInLoop l f).loops hand l' ↔
      g ∈ line s.loops ((l, f) :: hand) l' :=
    fun l' g => (line_queue_perm s.loops hand l l' f).mem_iff
  have hf : f ∈ line s.loops ((l, f) :: hand) l := mem_line_head
  exact
    { fault := h.fault
      next := h.next
      size := h.size
      pool := h.pool
      made := fun k c hk =>
        have hmade := h.made k c hk
        ⟨hmade.pos, hmade.lt, hmade.name, hmade.loop, hmade.life⟩
      names := h.names
      owned := by
        rintro k (htable | huser | ⟨l', hl', g, hg, rfl⟩)
        · exact h.owned k (.inl htable)
        · exact h.owned k (.inr (.inl huser))
        · rcases mem_held_queue.mp hg with hg | ⟨-, rfl⟩
          · exact h.owned _ (.inr (.inr ⟨l', hl', g, hg, rfl⟩))
          · exact (h.due l _ hf).imp fun c hc => hc.1
      table := h.table
      leaving := fun k c hk hstate htable => (hmem _ _).mpr (h.leaving k c hk hstate htable)
      registered := fun k c hk hstate hindex =>
        (h.registered k c hk hstate hindex).imp (hmem _ _).mpr (hmem _ _).mpr
      waiting := fun k c hk hstate => (hmem _ _).mpr (h.waiting k c hk hstate)
      due := fun l' g hg => h.due l' g ((hmem _ _).mp hg)
      once := fun l' k => (line_queue_perm s.loops hand l l' f).count_eq _ ▸ h.once l' k
      users := h.users
      active := fun l' k revents hmem => by
        rw [queueInLoop, active_queue] at hmem
        exact h.active l' k revents hmem }

/-! ### Acts of a connection -/

theorem objects_setObject {c' c₁ : Connection σ} {k' : ℕ}
    (h : (s.setObject k c').objects k' = some c₁) :
    (k' = k ∧ c₁ = c') ∨ (k' ≠ k ∧ s.objects k' = some c₁) := by
  by_cases hk : k' = k
  · subst hk
    left
    exact ⟨rfl, by simpa [setObject] using h.symm⟩
  · right
    exact ⟨hk, by simpa [setObject, Function.update_of_ne hk] using h⟩

theorem setObject_self (s : TcpServer σ) (k : ℕ) (c' : Connection σ) :
    (s.setObject k c').objects k = some c' := by
  simp [setObject]

theorem setObject_of_ne (c' : Connection σ) {k' : ℕ} (hne : k' ≠ k) :
    (s.setObject k c').objects k' = s.objects k' := by
  simp [setObject, Function.update_of_ne hne]

/-- Connection `k` changes, and with it the requests that concern it. -/
theorem Inv.replace {hand' : Hand Functor} {tcp : TcpConnection σ}
    (h : s.Inv messageCb n hand) (hk : s.objects k = some c) (hlife : tcp.Life messageCb)
    (hline : ∀ l g, g.conn ≠ k → (g ∈ line s.loops hand' l ↔ g ∈ line s.loops hand l))
    (honce : ∀ l k', (line s.loops hand' l).count (.connectEstablished k') ≤ 1)
    (htable : tcp.state ≠ .kDisconnected → s.InTable k)
    (hleaving : tcp.state = .kDisconnected → s.InTable k →
      .removeConnection k ∈ line s.loops hand' 0)
    (hregistered : tcp.state = .kDisconnected → tcp.channel.index ≠ .kNew →
      .removeConnection k ∈ line s.loops hand' 0 ∨
        .task k .connectDestroyed ∈ line s.loops hand' c.loop)
    (hwaiting : tcp.state = .kConnecting → .connectEstablished k ∈ line s.loops hand' c.loop)
    (hdue : ∀ l g, g ∈ line s.loops hand' l → g.conn = k → Due l { c with tcp := tcp } g)
    (husers : k ∈ s.users → tcp.state ≠ .kConnecting)
    (hactive : ∀ l revents, .channel k revents ∈ (s.loops l).active →
      c.loop = l ∧ tcp.channel.index ≠ .kNew) :
    (s.setObject k { c with tcp := tcp }).Inv messageCb n hand' := by
  have hself := setObject_self s k { c with tcp := tcp }
  refine
    { fault := h.fault
      next := h.next
      size := h.size
      pool := h.pool
      made := fun k' c' hc' => ?_
      names := h.names
      owned := fun k' hk' => ?_
      table := fun k' c' hc' hopen => ?_
      leaving := fun k' c' hc' hclosed hin => ?_
      registered := fun k' c' hc' hclosed hindex => ?_
      waiting := fun k' c' hc' hwait => ?_
      due := fun l g hg => ?_
      once := honce
      users := fun k' hk' => ?_
      active := fun l k' revents hmem => ?_ }
  · rcases objects_setObject hc' with ⟨rfl, rfl⟩ | ⟨-, hc'⟩
    · have hmade := h.made k' c hk
      exact ⟨hmade.pos, hmade.lt, hmade.name, hmade.loop, hlife⟩
    · have hmade := h.made k' c' hc'
      exact ⟨hmade.pos, hmade.lt, hmade.name, hmade.loop, hmade.life⟩
  · obtain ⟨c', hc'⟩ := h.owned k' hk'
    by_cases hne : k' = k
    · subst hne
      exact ⟨_, hself⟩
    · exact ⟨c', by rw [setObject_of_ne _ hne, hc']⟩
  · rcases objects_setObject hc' with ⟨rfl, rfl⟩ | ⟨-, hc'⟩
    · exact htable hopen
    · exact h.table k' c' hc' hopen
  · rcases objects_setObject hc' with ⟨rfl, rfl⟩ | ⟨hne, hc'⟩
    · exact hleaving hclosed hin
    · exact (hline 0 (.removeConnection k') hne).mpr (h.leaving k' c' hc' hclosed hin)
  · rcases objects_setObject hc' with ⟨rfl, rfl⟩ | ⟨hne, hc'⟩
    · exact hregistered hclosed hindex
    · exact (h.registered k' c' hc' hclosed hindex).imp
        (hline 0 (.removeConnection k') hne).mpr (hline _ (.task k' .connectDestroyed) hne).mpr
  · rcases objects_setObject hc' with ⟨rfl, rfl⟩ | ⟨hne, hc'⟩
    · exact hwaiting hwait
    · exact (hline _ (.connectEstablished k') hne).mpr (h.waiting k' c' hc' hwait)
  · by_cases hne : g.conn = k
    · exact ⟨_, by rw [hne]; exact hself, hdue l g hg hne⟩
    · obtain ⟨c', hc', hdue'⟩ := h.due l g ((hline l g hne).mp hg)
      exact ⟨c', by rw [setObject_of_ne _ hne, hc'], hdue'⟩
  · by_cases hne : k' = k
    · subst hne
      exact ⟨_, hself, husers hk'⟩
    · obtain ⟨c', hc', hstate⟩ := h.users k' hk'
      exact ⟨c', by rw [setObject_of_ne _ hne, hc'], hstate⟩
  · by_cases hne : k' = k
    · subst hne
      exact ⟨_, hself, hactive l revents hmem⟩
    · obtain ⟨c', hc', hrest⟩ := h.active l k' revents hmem
      exact ⟨c', by rw [setObject_of_ne _ hne, hc'], hrest⟩

/-- What the invariant says of the requests for a connection that is found in
`objects`. -/
theorem Inv.due_of (h : s.Inv messageCb n hand) (hk : s.objects k = some c) {g : Functor}
    (hg : g ∈ line s.loops hand l) (hconn : g.conn = k) : Due l c g := by
  subst hconn
  obtain ⟨c', hc', hdue⟩ := h.due l g hg
  obtain rfl : c' = c := Option.some.inj (hc'.symm.trans hk)
  exact hdue

theorem Inv.active_of (h : s.Inv messageCb n hand) (hk : s.objects k = some c) {revents : Revents}
    (hmem : .channel k revents ∈ (s.loops l).active) :
    c.loop = l ∧ c.tcp.channel.index ≠ .kNew := by
  obtain ⟨c', hc', hrest⟩ := h.active l k revents hmem
  obtain rfl : c' = c := Option.some.inj (hc'.symm.trans hk)
  exact hrest

theorem Inv.users_of (h : s.Inv messageCb n hand) (hk : s.objects k = some c) (hmem : k ∈ s.users) :
    c.tcp.state ≠ .kConnecting := by
  obtain ⟨c', hc', hstate⟩ := h.users k hmem
  obtain rfl : c' = c := Option.some.inj (hc'.symm.trans hk)
  exact hstate

/-- The connection moves on. `hand'` has the requests of `hand` and, if it was
closed by that, the one to remove it. -/
theorem Inv.setObject {hand' : Hand Functor} {tcp : TcpConnection σ}
    (h : s.Inv messageCb n hand) (hk : s.objects k = some c) (hstate : c.tcp.state ≠ .kConnecting)
    (hmoved : c.tcp.Moved tcp) (hlife : tcp.Life messageCb)
    (hidle : c.tcp.state = .kDisconnected → c.tcp.channel.index = .kNew →
      tcp.channel.index = .kNew)
    (hhand : (hand' = hand ∧ (tcp.state = .kDisconnected → c.tcp.state = .kDisconnected)) ∨
      (hand' = (0, .removeConnection k) :: hand ∧ tcp.state = .kDisconnected)) :
    (s.setObject k { c with tcp := tcp }).Inv messageCb n hand' := by
  have hsub : ∀ {l g}, g ∈ line s.loops hand l → g ∈ line s.loops hand' l := by
    rcases hhand with ⟨rfl, -⟩ | ⟨rfl, -⟩
    · exact id
    · exact mem_line_of_mem
  have hask : tcp.state = .kDisconnected → c.tcp.state = .kDisconnected ∨
      .removeConnection k ∈ line s.loops hand' 0 := by
    rcases hhand with ⟨-, hold⟩ | ⟨rfl, -⟩
    · exact fun hnow => .inl (hold hnow)
    · exact fun _ => .inr mem_line_head
  refine h.replace hk hlife (fun l g hne => ⟨?_, hsub⟩) (fun l k' => ?_) (fun hopen => ?_)
    (fun hnow hin => ?_) (fun hnow hindex => ?_) (fun hwait => ?_) (fun l g hg hconn => ?_)
    (fun _ => hmoved.established hstate) (fun l revents hmem => ?_)
  · rcases hhand with ⟨rfl, -⟩ | ⟨rfl, -⟩
    · exact id
    · exact fun hg => mem_line_of_ne hg fun heq => hne (heq ▸ rfl)
  · rcases hhand with ⟨rfl, -⟩ | ⟨rfl, -⟩
    · exact h.once l k'
    · rw [line_cons]
      split
      · rw [List.count_cons_of_ne (by simp)]
        exact h.once l k'
      · exact h.once l k'
  · exact h.table k c hk fun hclosed => hopen (hmoved.closed hclosed)
  · exact (hask hnow).elim (fun hold => hsub (h.leaving k c hk hold hin)) id
  · rcases hask hnow with hold | hnew
    · have hindex' : c.tcp.channel.index ≠ .kNew := fun hnew => hindex (hidle hold hnew)
      exact (h.registered k c hk hold hindex').imp hsub hsub
    · exact .inl hnew
  · exact absurd hwait (hmoved.established hstate)
  · have hkeep : g ∈ line s.loops hand l → Due l { c with tcp := tcp } g := by
      intro hg
      have hdue := h.due_of hk hg hconn
      cases g with
      | connectEstablished k' => exact absurd hdue.2 hstate
      | removeConnection k' => exact ⟨hdue.1, hmoved.closed hdue.2⟩
      | task k' t =>
          exact ⟨hdue.1, hmoved.established hstate, fun ht => hmoved.closed (hdue.2.2 ht)⟩
    rcases hhand with ⟨rfl, -⟩ | ⟨rfl, hnow⟩
    · exact hkeep hg
    · rcases mem_line_cons.mp hg with ⟨rfl, rfl⟩ | hg
      · exact ⟨rfl, hnow⟩
      · exact hkeep hg
  · exact (h.active_of hk hmem).imp id hmoved.index

/-! ### Removal -/

theorem lookup_erase_of_ne {k' : ℕ} (hne : k' ≠ k) :
    (s.connections_.erase (connName s.name_ k)).lookup (connName s.name_ k') =
      s.connections_.lookup (connName s.name_ k') :=
  AList.lookup_erase_ne fun heq => hne (connName_inj heq)

/-- The base loop takes the connection out of the table and asks for the end
of its registration. -/
theorem Inv.eraseConnection (h : s.Inv messageCb n ((0, .removeConnection k) :: hand)) :
    (s.eraseConnection k).Inv messageCb n hand := by
  obtain ⟨c, hk, -, hclosed⟩ := h.due 0 (.removeConnection k) mem_line_head
  have hk : s.objects k = some c := hk
  have hname := (h.made k c hk).name
  let s₁ : TcpServer σ := { s with connections_ := s.connections_.erase c.name }
  have herase : s.eraseConnection k = s₁.queueInLoop c.loop (.task k .connectDestroyed) := by
    simp only [TcpServer.eraseConnection, post, hk, s₁]
  have hout : ¬s₁.InTable k := by
    simp [s₁, InTable, hname]
  have hold : ∀ {k'}, s₁.InTable k' → k' ≠ k ∧ s.InTable k' := by
    intro k' htable
    have hne : k' ≠ k := by
      rintro rfl
      exact hout htable
    refine ⟨hne, ?_⟩
    have hlookup := lookup_erase_of_ne (s := s) hne
    rw [← hname] at hlookup
    exact hlookup.symm.trans htable
  have hmem : ∀ {k' l g}, k' ≠ k → Functor.conn g = k' →
      g ∈ line s.loops ((0, .removeConnection k) :: hand) l →
      g ∈ line s₁.loops ((c.loop, .task k .connectDestroyed) :: hand) l := by
    rintro k' l g hne rfl hg
    exact mem_line_of_mem (mem_line_of_ne hg fun heq => hne (heq ▸ rfl))
  rw [herase]
  refine Inv.enqueue
    { fault := h.fault
      next := h.next
      size := h.size
      pool := h.pool
      made := fun k' c' hc' => ?_
      names := fun n k' hlookup => ?_
      owned := fun k' hk' => ?_
      table := fun k' c' hc' hopen => ?_
      leaving := fun k' c' hc' hstate htable => ?_
      registered := fun k' c' hc' hstate hindex => ?_
      waiting := fun k' c' hc' hwait => ?_
      due := fun l g hg => ?_
      once := fun l k' => ?_
      users := h.users
      active := h.active }
  · have hmade' := h.made k' c' hc'
    exact ⟨hmade'.pos, hmade'.lt, hmade'.name, hmade'.loop, hmade'.life⟩
  · rw [UnorderedMap.lookup_erase_eq] at hlookup
    split at hlookup
    · exact absurd hlookup (by simp)
    · exact h.names n k' hlookup
  · rcases hk' with ⟨e, he, rfl⟩ | hrest
    · exact h.owned _ (.inl ⟨e, (List.kerase_sublist _ _).subset he, rfl⟩)
    · exact h.owned k' (.inr hrest)
  · have hne : k' ≠ k := by
      rintro rfl
      obtain rfl : c' = c := Option.some.inj (hc'.symm.trans hk)
      exact hopen hclosed
    have hlookup := lookup_erase_of_ne (s := s) hne
    rw [← hname] at hlookup
    exact hlookup.trans (h.table k' c' hc' hopen)
  · obtain ⟨hne, htable⟩ := hold htable
    exact hmem hne rfl (h.leaving k' c' hc' hstate htable)
  · by_cases hne : k' = k
    · subst hne
      obtain rfl : c' = c := Option.some.inj (hc'.symm.trans hk)
      exact .inr mem_line_head
    · exact (h.registered k' c' hc' hstate hindex).imp (hmem hne rfl) (hmem hne rfl)
  · by_cases hne : k' = k
    · subst hne
      obtain rfl : c' = c := Option.some.inj (hc'.symm.trans hk)
      exact absurd (hclosed.symm.trans hwait) (by simp)
    · exact hmem hne rfl (h.waiting k' c' hc' hwait)
  · rcases mem_line_cons.mp hg with ⟨rfl, rfl⟩ | hg
    · exact ⟨c, hk, rfl, by simp [hclosed], fun _ => hclosed⟩
    · exact h.due l g (mem_line_of_mem hg)
  · rw [line_cons]
    have honce := h.once l k'
    rw [line_cons] at honce
    have hcount : (line s₁.loops hand l).count (.connectEstablished k') ≤ 1 := by
      split at honce
      · rwa [List.count_cons_of_ne (by simp)] at honce
      · exact honce
    split
    · rwa [List.count_cons_of_ne (by simp)]
    · exact hcount

theorem Inv.removeConnection (h : s.Inv messageCb n ((0, .removeConnection k) :: hand)) (l : ℕ) :
    (s.removeConnection l k).Inv messageCb n hand := by
  unfold TcpServer.removeConnection
  split
  · exact h.eraseConnection
  · exact h.enqueue

theorem objects_removeConnection (s : TcpServer σ) (l k : ℕ) :
    (s.removeConnection l k).objects = s.objects := by
  unfold TcpServer.removeConnection
  split
  · cases hk : s.objects k with
    | none => simp [TcpServer.eraseConnection, hk]
    | some c => simp [TcpServer.eraseConnection, post, hk, queueInLoop]
  · rfl

/-- Whatever a closed connection announces is answered. -/
theorem Inv.callbacks (h : s.Inv messageCb n hand) (hk : s.objects k = some c)
    (hclosed : c.tcp.state = .kDisconnected) (l : ℕ) (cbs : List Callback) :
    (cbs.foldl (onCallback l k) s).Inv messageCb n hand := by
  induction cbs generalizing s with
  | nil => exact h
  | cons cb cbs ih =>
      cases cb with
      | connectionCb up => exact ih h hk
      | messageCb => exact ih h hk
      | closeCb =>
          have hask := (h.take (l := 0) (f := .removeConnection k) hk ⟨rfl, hclosed⟩
            (fun _ heq => by simp at heq)).removeConnection l
          exact ih hask ((congrFun (objects_removeConnection s l k) k).trans hk)

/-- The connection that has just been closed is removed. -/
theorem Inv.answer (h : s.Inv messageCb n ((0, .removeConnection k) :: hand))
    (hk : s.objects k = some c) (hclosed : c.tcp.state = .kDisconnected) (l : ℕ)
    {cbs : List Callback} (hcbs : .closeCb ∈ cbs) :
    (cbs.foldl (onCallback l k) s).Inv messageCb n hand := by
  induction cbs with
  | nil => simp at hcbs
  | cons cb cbs ih =>
      cases cb with
      | connectionCb up => exact ih (by simpa using hcbs)
      | messageCb => exact ih (by simpa using hcbs)
      | closeCb =>
          exact (h.removeConnection l).callbacks
            ((congrFun (objects_removeConnection s l k) k).trans hk) hclosed l cbs

theorem foldl_onCallback {cbs : List Callback} (h : .closeCb ∉ cbs) (s : TcpServer σ) (l k : ℕ) :
    cbs.foldl (onCallback l k) s = s := by
  induction cbs with
  | nil => rfl
  | cons cb cbs ih =>
      rw [List.mem_cons, not_or] at h
      cases cb with
      | connectionCb up => exact ih h.2
      | messageCb => exact ih h.2
      | closeCb => exact absurd rfl h.1

theorem onConnection_eq {act : TcpConnection σ → TcpConnection σ} (hk : s.objects k = some c) :
    s.onConnection k act =
      ((act c.tcp).callbacks.drop c.tcp.callbacks.length).foldl (onCallback c.loop k)
        (s.setObject k { c with tcp := act c.tcp }) := by
  simp only [onConnection, hk]

/-- The connection runs, and the server hears of it if it closes. -/
theorem Inv.onConnection {act : TcpConnection σ → TcpConnection σ} (h : s.Inv messageCb n hand)
    (hk : s.objects k = some c) (hstate : c.tcp.state ≠ .kConnecting)
    (hmoved : c.tcp.Moved (act c.tcp)) (hlife : (act c.tcp).Life messageCb)
    (hidle : c.tcp.state = .kDisconnected → c.tcp.channel.index = .kNew →
      (act c.tcp).channel.index = .kNew) :
    (s.onConnection k act).Inv messageCb n hand := by
  have hself := setObject_self s k { c with tcp := act c.tcp }
  rw [onConnection_eq hk]
  by_cases hnow : (act c.tcp).state = .kDisconnected
  · by_cases hclosed : c.tcp.state = .kDisconnected
    · have hset := h.setObject hk hstate hmoved hlife hidle (.inl ⟨rfl, fun _ => hclosed⟩)
      exact hset.callbacks hself hnow _ _
    · have hset := h.setObject hk hstate hmoved hlife hidle (.inr ⟨rfl, hnow⟩)
      exact hset.answer hself hnow _ (hmoved.told hclosed hnow)
  · have hset := h.setObject hk hstate hmoved hlife hidle (.inl ⟨rfl, fun hc => absurd hc hnow⟩)
    rw [foldl_onCallback fun hcb => hnow (hmoved.gone hcb)]
    exact hset

/-! ### Functors -/

/-- A task that only writes or shuts down may be dropped. -/
theorem Inv.discard {t : TcpConnection.Task} (h : s.Inv messageCb n ((l, .task k t) :: hand))
    (ht : t ≠ .connectDestroyed) : s.Inv messageCb n hand where
  __ := h
  leaving := fun k' c hk hstate htable =>
    mem_line_of_ne (h.leaving k' c hk hstate htable) (by simp)
  registered := fun k' c hk hstate hindex =>
    (h.registered k' c hk hstate hindex).imp (fun hmem => mem_line_of_ne hmem (by simp))
      (fun hmem => mem_line_of_ne hmem fun heq => ht (Functor.task.inj heq).2.symm)
  waiting := fun k' c hk hstate => mem_line_of_ne (h.waiting k' c hk hstate) (by simp)
  due := fun l' g hg => h.due l' g (mem_line_of_mem hg)
  once := fun l' k' => by
    have honce := h.once l' k'
    rw [line_cons] at honce
    split at honce
    · rwa [List.count_cons_of_ne (by simp)] at honce
    · exact honce

/-- The channel is registered, and the first callback is made. -/
theorem Inv.established (h : s.Inv messageCb n ((l, .connectEstablished k) :: hand)) :
    (s.onConnection k TcpConnection.connectEstablished).Inv messageCb n hand := by
  have hf : Functor.connectEstablished k ∈ line s.loops ((l, .connectEstablished k) :: hand) l :=
    mem_line_head
  obtain ⟨c, hk, hloop, hwait⟩ := h.due l _ hf
  have hk : s.objects k = some c := hk
  have hmade := h.made k c hk
  obtain ⟨user, htcp⟩ : ∃ user, c.tcp = { user := user } :=
    hmade.life.resolve_right fun hrun => hrun.1 hwait
  let tcp := c.tcp.connectEstablished
  have hstate : tcp.state = .kConnected := rfl
  have hrun : s.onConnection k TcpConnection.connectEstablished =
      s.setObject k { c with tcp := tcp } := by
    rw [onConnection_eq hk, foldl_onCallback]
    rw [htcp]
    simp [TcpConnection.connectEstablished, TcpConnection.connectionCb, TcpConnection.invoke]
  have hlife : tcp.Life messageCb :=
    .inr ⟨by simp [hstate], user, [], by simp only [tcp, htcp, List.foldl_nil]⟩
  -- the functor was the only request for this connection
  have honly : ∀ l' g, g ∈ line s.loops hand l' → g.conn ≠ k := by
    intro l' g hg hconn
    have hdue := h.due_of hk (mem_line_of_mem hg) hconn
    cases g with
    | connectEstablished k' =>
        have hsame : l' = l := hdue.1.trans hloop.symm
        have hpos := List.count_pos_iff.mpr (hsame ▸ hg)
        have honce := h.once l k'
        rw [line_cons, if_pos rfl, ← show k' = k from hconn, List.count_cons_self] at honce
        omega
    | removeConnection k' => exact absurd (hwait.symm.trans hdue.2) (by simp)
    | task k' t => exact hdue.2.1 hwait
  rw [hrun]
  refine h.replace hk hlife (fun l' g hne => ⟨mem_line_of_mem, ?_⟩) (fun l' k' => ?_)
    (fun _ => h.table k c hk (by simp [hwait])) (fun hnow => ?_) (fun hnow => ?_)
    (fun hnow => ?_) (fun l' g hg hconn => absurd hconn (honly l' g hg))
    (fun hmem => absurd hwait (h.users_of hk hmem)) (fun l' revents hmem => ?_)
  · exact fun hg => mem_line_of_ne hg fun heq => hne (heq ▸ rfl)
  · have honce := h.once l' k'
    rw [line_cons] at honce
    split at honce
    · exact List.count_le_count_cons.trans honce
    · exact honce
  · exact absurd (hstate.symm.trans hnow) (by simp)
  · exact absurd (hstate.symm.trans hnow) (by simp)
  · exact absurd (hstate.symm.trans hnow) (by simp)
  · exact absurd (by rw [htcp]) (h.active_of hk hmem).2

/-- The channel leaves the poller. No event of this loop is waiting then. -/
theorem Inv.destroyed (h : s.Inv messageCb n ((l, .task k .connectDestroyed) :: hand))
    (hactive : (s.loops l).active = []) (script : List WriteResult) :
    (s.onConnection k (TcpConnection.step messageCb · (.task .connectDestroyed script))).Inv
      messageCb n hand := by
  obtain ⟨c, hk, hloop, hstate, hclosed⟩ := h.due l (.task k .connectDestroyed)
    mem_line_head
  have hk : s.objects k = some c := hk
  have hclosed := hclosed rfl
  have hmade := h.made k c hk
  let tcp := c.tcp.step messageCb (.task .connectDestroyed script)
  have hout : tcp =
      { c.tcp with kernel.writes := script, channel := c.tcp.channel.remove } := by
    simp [tcp, TcpConnection.step, TcpConnection.perform, TcpConnection.connectDestroyed, hclosed]
  have hstate' : tcp.state = .kDisconnected := by
    rw [hout]
    exact hclosed
  have hrun : s.onConnection k (TcpConnection.step messageCb · (.task .connectDestroyed script)) =
      s.setObject k { c with tcp := tcp } := by
    rw [onConnection_eq hk, foldl_onCallback]
    change .closeCb ∉ tcp.callbacks.drop _
    simp [hout]
  rw [hrun]
  refine h.replace hk (hmade.life.step hstate (by simp [tcp, hstate']))
    (fun l' g hne => ⟨mem_line_of_mem, ?_⟩) (fun l' k' => ?_) (fun hopen => absurd hstate' hopen)
    (fun _ hin => mem_line_of_ne (h.leaving k c hk hclosed hin) (by simp))
    (fun _ hindex => absurd (by rw [hout]; rfl) hindex)
    (fun hwait => absurd (hstate'.symm.trans hwait) (by simp)) (fun l' g hg hconn => ?_)
    (fun _ => by simp [hstate']) (fun l' revents hmem => ?_)
  · exact fun hg => mem_line_of_ne hg fun heq => hne (heq ▸ rfl)
  · have honce := h.once l' k'
    rw [line_cons] at honce
    split at honce
    · exact List.count_le_count_cons.trans honce
    · exact honce
  · have hdue := h.due_of hk (mem_line_of_mem hg) hconn
    cases g with
    | connectEstablished k' => exact absurd hdue.2 hstate
    | removeConnection k' => exact ⟨hdue.1, hstate'⟩
    | task k' t => exact ⟨hdue.1, by simp [hstate'], fun _ => hstate'⟩
  · have hsame : l' = l := (h.active_of hk hmem).1.symm.trans hloop.symm
    rw [hsame, hactive] at hmem
    simp at hmem

/-! ### New connections -/

theorem Inv.newConnection (h : s.Inv messageCb n hand) (user : σ) :
    (s.newConnection user).Inv messageCb n hand := by
  obtain ⟨hloop, hturn, hloops⟩ := h.pool.getNextLoop
  rcases hget : s.threadPool_.getNextLoop with ⟨ioLoop, pool⟩
  rw [hget] at hloop hturn hloops
  dsimp only at hloop hturn hloops
  have hpool : ∀ i, pool.loopOf i = s.threadPool_.loopOf i := fun i => by
    simp only [EventLoopThreadPool.loopOf, hloops]
  let k := s.nextConnId_
  let c : Connection σ :=
    { name := connName s.name_ k, loop := ioLoop, tcp := { user := user } }
  let s₁ : TcpServer σ :=
    { s with
      threadPool_ := pool
      nextConnId_ := k + 1
      connections_ := s.connections_.insert (connName s.name_ k) k }
  have hnone : s.objects k = none := by
    by_contra hsome
    obtain ⟨c', hc'⟩ := Option.ne_none_iff_exists'.mp hsome
    exact absurd (h.made k c' hc').lt (lt_irrefl _)
  have hne : ∀ {k' c'}, s.objects k' = some c' → k' ≠ k := by
    rintro k' c' hc' rfl
    exact absurd (hnone.symm.trans hc') (by simp)
  have hlookup : ∀ n, s₁.connections_.lookup n =
      if n = connName s.name_ k then some k else s.connections_.lookup n :=
    fun n => UnorderedMap.lookup_insert_eq _ _ _ _
  have hin : ∀ {k'}, k' ≠ k → (s₁.InTable k' ↔ s.InTable k') := by
    intro k' hne
    have hname : connName s.name_ k' ≠ connName s.name_ k := fun heq => hne (connName_inj heq)
    change s₁.connections_.lookup _ = _ ↔ _
    rw [hlookup, if_neg hname]
    rfl
  have hself : s₁.InTable k := by
    change s₁.connections_.lookup _ = _
    rw [hlookup, if_pos rfl]
  have hnames : ∀ n k', s₁.connections_.lookup n = some k' → n = connName s.name_ k' := by
    intro n k' hn
    rw [hlookup] at hn
    split at hn
    · next heq => rw [heq, Option.some.inj hn]
    · exact h.names n k' hn
  have hcreated : (s₁.setObject k c).Inv messageCb n ((ioLoop, .connectEstablished k) :: hand) := by
    refine
      { fault := h.fault
        next := Nat.succ_pos _
        size := hloops ▸ h.size
        pool := ?_
        made := fun k' c' hc' => ?_
        names := hnames
        owned := fun k' hk' => ?_
        table := fun k' c' hc' hopen => ?_
        leaving := fun k' c' hc' hclosed htable => ?_
        registered := fun k' c' hc' hclosed hindex => ?_
        waiting := fun k' c' hc' hwait => ?_
        due := fun l' g hg => ?_
        once := fun l' k' => ?_
        users := fun k' hk' => ?_
        active := fun l' k' revents hmem => ?_ }
    · have hpos := h.next
      change pool.Turn (s.nextConnId_ + 1 - 1)
      rwa [show s.nextConnId_ + 1 - 1 = s.nextConnId_ - 1 + 1 by omega]
    · rcases objects_setObject hc' with ⟨rfl, rfl⟩ | ⟨-, hc'⟩
      · exact ⟨h.next, Nat.lt_succ_self _, rfl, hloop.trans (hpool _).symm, .inl ⟨user, rfl⟩⟩
      · have hmade := h.made k' c' hc'
        exact ⟨hmade.pos, hmade.lt.trans (Nat.lt_succ_self _), hmade.name,
          hmade.loop.trans (hpool _).symm, hmade.life⟩
    · by_cases heq : k' = k
      · subst heq
        exact ⟨c, setObject_self _ _ _⟩
      · have hold : s.Owned k' := by
          rcases hk' with htable | huser | ⟨l', hl', hrefs⟩
          · have htable' := (inTable_iff (s := s₁) hnames).mp htable
            exact .inl ((inTable_iff h.names).mpr ((hin heq).mp htable'))
          · exact .inr (.inl huser)
          · exact .inr (.inr ⟨l', hloops ▸ hl', hrefs⟩)
        obtain ⟨c', hc'⟩ := h.owned k' hold
        exact ⟨c', by rw [setObject_of_ne _ heq]; exact hc'⟩
    · rcases objects_setObject hc' with ⟨rfl, rfl⟩ | ⟨heq, hc'⟩
      · exact hself
      · exact (hin heq).mpr (h.table k' c' hc' hopen)
    · rcases objects_setObject hc' with ⟨rfl, rfl⟩ | ⟨heq, hc'⟩
      · exact absurd hclosed (by simp [c])
      · exact mem_line_of_mem (h.leaving k' c' hc' hclosed ((hin heq).mp htable))
    · rcases objects_setObject hc' with ⟨rfl, rfl⟩ | ⟨-, hc'⟩
      · exact absurd hclosed (by simp [c])
      · exact (h.registered k' c' hc' hclosed hindex).imp mem_line_of_mem mem_line_of_mem
    · rcases objects_setObject hc' with ⟨rfl, rfl⟩ | ⟨-, hc'⟩
      · exact mem_line_head
      · exact mem_line_of_mem (h.waiting k' c' hc' hwait)
    · rcases mem_line_cons.mp hg with ⟨rfl, rfl⟩ | hg
      · exact ⟨c, setObject_self _ _ _, rfl, rfl⟩
      · obtain ⟨c', hc', hdue⟩ := h.due l' g hg
        exact ⟨c', by rw [setObject_of_ne _ (hne hc')]; exact hc', hdue⟩
    · have honce := h.once l' k'
      have hzero : (line s.loops hand l').count (.connectEstablished k) = 0 := by
        refine List.count_eq_zero_of_not_mem fun hg => ?_
        obtain ⟨c', hc', -⟩ := h.due l' _ hg
        exact hne hc' rfl
      rw [line_cons]
      split
      · by_cases heq : k' = k
        · subst heq
          rw [List.count_cons_self]
          exact (congrArg (· + 1) hzero).le
        · rw [List.count_cons_of_ne fun hf => heq (Functor.connectEstablished.inj hf).symm]
          exact honce
      · exact honce
    · obtain ⟨c', hc', hstate⟩ := h.users k' hk'
      exact ⟨c', by rw [setObject_of_ne _ (hne hc')]; exact hc', hstate⟩
    · obtain ⟨c', hc', hrest⟩ := h.active l' k' revents hmem
      exact ⟨c', by rw [setObject_of_ne _ (hne hc')]; exact hc', hrest⟩
  unfold TcpServer.newConnection
  rw [hget]
  dsimp only
  split
  · next heq =>
      subst heq
      exact hcreated.established
  · exact hcreated.enqueue

end

end TcpServer

end GameServer.Net
