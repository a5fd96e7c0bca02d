import GameServer.Lib.Run
import GameServer.Net.TcpServer

/-!
Who owns a room and its ticker: `tryMatch` and `onRoomEnd` of
`src/game/GameServer.cc`, `start`, `forceEnd`, `onTick` and `endBattle` of
`src/game/Room.cc`, and the lifetime of `PeriodicTimer`.

Loop 0 is the lobby's, the others are the game loops. A room is under
`shared_ptr`: the lobby's table owns it, and so does every functor that
captured it, except `onRoomEnd`, which knows only its number. The ticker is
owned by the room, while the poller and the ticker's callbacks have plain
pointers to it and to the room. `fault` records a use of a destroyed room or
ticker, a ticker that is destroyed while its loop has its event in hand, and a
room that is destroyed with its ticker running.

Who wins, and when, is left open: a tick may decide the battle at any time.
The server is not being destroyed here, so nobody calls `stop`.
-/

namespace GameServer.Game

open GameServer.Lib GameServer.Net Reactor

/-- What the lobby asks of a room. `touch` stands for `onInput`, `rebind` and
`dropConn`, which leave the ticker alone. -/
inductive RoomCall where
  | touch
  | forceEnd
deriving DecidableEq

inductive RoomFunctor where
  | start (r : ℕ)
  | call (r : ℕ) (op : RoomCall)
  | resetTicker (r : ℕ)
  | onRoomEnd (r : ℕ)
deriving DecidableEq

/-- The number of the room that a functor is about. -/
def RoomFunctor.room : RoomFunctor → ℕ
  | .start r | .call r _ | .resetTicker r | .onRoomEnd r => r

/-- The room that a functor owns. -/
def RoomFunctor.owns : RoomFunctor → Option ℕ
  | .start r | .call r _ | .resetTicker r => some r
  | .onRoomEnd _ => none

/-- `ticker` tells whether `ticker_` is set, `started` whether `start` has run. -/
structure RoomObject where
  loop : ℕ
  started : Bool := false
  ended : Bool := false
  ticker : Bool := false

/-- `rooms_` are the keys of the table, `objects` the rooms that exist. An
event of a loop is that of a room's ticker. -/
structure RoomServer where
  gamePool_ : EventLoopThreadPool := {}
  nextRoomId_ : ℕ := 1
  rooms_ : List ℕ := []
  objects : ℕ → Option RoomObject := fun _ => none
  loops : ℕ → Reactor RoomFunctor ℕ := fun _ => {}
  fault : Bool := false

/-- `decided` tells whether the tick leaves one player standing. -/
inductive RoomServerAct where
  | tryMatch
  | post (r : ℕ) (op : RoomCall)
  | poll (l : ℕ) (ready : List ℕ)
  | handleEvent (l : ℕ) (decided : Bool)
  | swapFunctors (l : ℕ)
  | functor (l : ℕ)
deriving DecidableEq

namespace RoomServer

def queueInLoop (l : ℕ) (f : RoomFunctor) (s : RoomServer) : RoomServer :=
  { s with loops := Reactor.queue s.loops l f }

def setLoop (l : ℕ) (loop : Reactor RoomFunctor ℕ) (s : RoomServer) : RoomServer :=
  { s with loops := Function.update s.loops l loop }

def setRoom (r : ℕ) (o : RoomObject) (s : RoomServer) : RoomServer :=
  { s with objects := Function.update s.objects r (some o) }

/-- Run code of room `r`. -/
def onRoom (r : ℕ) (code : RoomObject → RoomServer → RoomServer) (s : RoomServer) : RoomServer :=
  match s.objects r with
  | none => { s with fault := true }
  | some o => code o s

def onRoomEnd (r : ℕ) (s : RoomServer) : RoomServer :=
  { s with rooms_ := s.rooms_.filter (· ≠ r) }

/-- `onEnd_`: on the lobby's own loop the call is made at once. -/
def onEnd (r l : ℕ) (s : RoomServer) : RoomServer :=
  if l = 0 then s.onRoomEnd r else s.queueInLoop 0 (.onRoomEnd r)

def endBattle (r : ℕ) (o : RoomObject) (s : RoomServer) : RoomServer :=
  ((s.setRoom r { o with ended := true }).queueInLoop o.loop (.resetTicker r)).onEnd r o.loop

def startRoom (r : ℕ) (o : RoomObject) (s : RoomServer) : RoomServer :=
  s.setRoom r { o with started := true, ticker := true }

def call (r : ℕ) : RoomCall → RoomObject → RoomServer → RoomServer
  | .touch, _, s => s
  | .forceEnd, o, s => if o.ended then s else s.endBattle r o

/-- The ticker's destructor takes its channel out of the poller. -/
def resetTicker (r : ℕ) (o : RoomObject) (s : RoomServer) : RoomServer :=
  if r ∈ (s.loops o.loop).active then { s with fault := true }
  else s.setRoom r { o with ticker := false }

/-- `PeriodicTimer::handleRead`, which calls `onTick`. -/
def onTick (r : ℕ) (decided : Bool) (o : RoomObject) (s : RoomServer) : RoomServer :=
  if o.ticker then if !o.ended && decided then s.endBattle r o else s
  else { s with fault := true }

def perform (s : RoomServer) : RoomFunctor → RoomServer
  | .start r => s.onRoom r (startRoom r)
  | .call r op => s.onRoom r (call r op)
  | .resetTicker r => s.onRoom r (resetTicker r)
  | .onRoomEnd r => s.onRoomEnd r

/-- Two players have been paired. -/
def tryMatch (s : RoomServer) : RoomServer :=
  let (loop, pool) := s.gamePool_.getNextLoop
  let r := s.nextRoomId_
  let s := { s with gamePool_ := pool, nextRoomId_ := r + 1, rooms_ := r :: s.rooms_ }.setRoom r
    { loop := loop }
  if loop = 0 then s.onRoom r (startRoom r) else s.queueInLoop loop (.start r)

/-- A handler of the lobby looks up the room and has it called on its loop. -/
def post (r : ℕ) (op : RoomCall) (s : RoomServer) : RoomServer :=
  if r ∈ s.rooms_ then
    s.onRoom r fun o s => if o.loop = 0 then s.call r op o else s.queueInLoop o.loop (.call r op)
  else s

def registered (s : RoomServer) (l r : ℕ) : Bool :=
  (s.objects r).any fun o => o.loop = l && o.ticker

def Owned (s : RoomServer) (r : ℕ) : Prop :=
  r ∈ s.rooms_ ∨ ∃ l ≤ s.gamePool_.loops_.length, ∃ f ∈ (s.loops l).held, f.owns = some r

instance (s : RoomServer) (r : ℕ) : Decidable (s.Owned r) := inferInstanceAs (Decidable (_ ∨ _))

/-- The rooms without an owner are destroyed. -/
def collect (s : RoomServer) : RoomServer :=
  { s with
    objects := fun r => if s.Owned r then s.objects r else none
    fault := s.fault ||
      decide (∃ r < s.nextRoomId_, ¬s.Owned r ∧ (s.objects r).any (·.ticker) = true) }

def act (s : RoomServer) : RoomServerAct → RoomServer
  | .tryMatch => s.tryMatch
  | .post r op => s.post r op
  | .poll l ready => s.setLoop l ((s.loops l).poll (ready.filter (s.registered l)))
  | .handleEvent l decided =>
      match (s.loops l).takeEvent with
      | some (r, loop) => (s.setLoop l loop).onRoom r (onTick r decided)
      | none => s
  | .swapFunctors l => s.setLoop l (s.loops l).swapFunctors
  | .functor l =>
      match (s.loops l).takeFunctor with
      | some (f, loop) => (s.setLoop l loop).perform f
      | none => s.setLoop l (s.loops l).finish

def step (s : RoomServer) (a : RoomServerAct) : RoomServer := (s.act a).collect

/-- The lobby with `gameThreads` game loops. -/
def start (gameThreads : ℕ) : RoomServer where
  gamePool_ := EventLoopThreadPool.start {} gameThreads

/-! ### The invariant -/

variable {s : RoomServer} {n r l : ℕ} {o : RoomObject} {hand : Hand RoomFunctor} {f : RoomFunctor}

/-- What holds when loop `l` has functor `f` to run. -/
def Due (s : RoomServer) (l : ℕ) : RoomFunctor → Prop
  | .start r => ∃ o, s.objects r = some o ∧ o.loop = l ∧ o.started = false
  | .call r _ => ∃ o, s.objects r = some o ∧ o.loop = l
  | .resetTicker r => ∃ o, s.objects r = some o ∧ o.loop = l ∧ o.ended = true
  | .onRoomEnd r => l = 0 ∧ r < s.nextRoomId_ ∧ ∀ o, s.objects r = some o → o.ended = true

/-- A room is not asked for anything before it starts. -/
def InOrder (f g : RoomFunctor) : Prop := ∀ r op, f = .call r op → g ≠ .start r

/-- What a room keeps from its creation. -/
structure Made (s : RoomServer) (r : ℕ) (o : RoomObject) : Prop where
  pos : 0 < r
  lt : r < s.nextRoomId_
  loop : o.loop = s.gamePool_.loopOf (r - 1)

/-- What holds between two steps, with the requests `hand` under way. -/
structure Inv (n : ℕ) (hand : Hand RoomFunctor) (s : RoomServer) : Prop where
  fault : s.fault = false
  next : 0 < s.nextRoomId_
  size : s.gamePool_.loops_.length = n
  pool : s.gamePool_.Turn (s.nextRoomId_ - 1)
  made : ∀ r o, s.objects r = some o → s.Made r o
  table : ∀ r o, s.objects r = some o → o.ended = false → r ∈ s.rooms_
  leaving : ∀ r o, s.objects r = some o → o.ended = true → r ∈ s.rooms_ →
    .onRoomEnd r ∈ line s.loops hand 0
  ticking : ∀ r o, s.objects r = some o → o.ended = true → o.ticker = true →
    .resetTicker r ∈ line s.loops hand o.loop
  waiting : ∀ r o, s.objects r = some o → o.started = false →
    .start r ∈ line s.loops hand o.loop ∧ o.ticker = false ∧ o.ended = false
  running : ∀ r o, s.objects r = some o → o.started = true → o.ended = false → o.ticker = true
  due : ∀ l, ∀ f ∈ line s.loops hand l, s.Due l f
  owned : ∀ r, s.Owned r → ∃ o, s.objects r = some o
  once : ∀ l r, (line s.loops hand l).count (.start r) ≤ 1
  order : ∀ l, (s.loops l).todo.Pairwise InOrder
  inline : ∀ r, .start r ∉ (s.loops 0).todo
  active : ∀ l, ∀ r ∈ (s.loops l).active, ∃ o, s.objects r = some o ∧ o.loop = l ∧ o.ticker = true

theorem Inv.loop_le (h : s.Inv n hand) (ho : s.objects r = some o) :
    o.loop ≤ s.gamePool_.loops_.length := by
  rw [(h.made r o ho).loop]
  exact s.gamePool_.loopOf_le _

/-- The room of a functor that has still to run exists, if the functor owns it. -/
theorem Due.exists_room (h : s.Due l f) (hf : f.owns = some r) : ∃ o, s.objects r = some o := by
  cases f with
  | start r' => exact Option.some.inj hf ▸ h.imp fun o ho => ho.1
  | call r' op => exact Option.some.inj hf ▸ h.imp fun o ho => ho.1
  | resetTicker r' => exact Option.some.inj hf ▸ h.imp fun o ho => ho.1
  | onRoomEnd r' => cases hf

/-! ### Requests -/

theorem Inv.enqueue (h : s.Inv n ((l, f) :: hand))
    (hstart : ∀ r, f = .start r → l ≠ 0 ∧ ∀ op, .call r op ∉ (s.loops l).todo) :
    (s.queueInLoop l f).Inv n hand := by
  have hperm := line_queue_perm s.loops hand l
  have hmem : ∀ l' g, g ∈ line (s.queueInLoop l f).loops hand l' ↔
      g ∈ line s.loops ((l, f) :: hand) l' := fun l' g => (hperm l' f).mem_iff
  have htodo : ∀ l', ((s.queueInLoop l f).loops l').todo =
      if l' = l then (s.loops l).todo ++ [f] else (s.loops l').todo := by
    intro l'
    by_cases heq : l' = l
    · subst heq
      simp [queueInLoop, queue]
    · simp [queueInLoop, queue, heq]
  exact
    { fault := h.fault
      next := h.next
      size := h.size
      pool := h.pool
      made := fun r o ho => ⟨(h.made r o ho).pos, (h.made r o ho).lt, (h.made r o ho).loop⟩
      table := h.table
      leaving := fun r o ho hended hr => (hmem _ _).mpr (h.leaving r o ho hended hr)
      ticking := fun r o ho hended hticker => (hmem _ _).mpr (h.ticking r o ho hended hticker)
      waiting := fun r o ho hs => (h.waiting r o ho hs).imp (hmem _ _).mpr id
      running := h.running
      due := fun l' g hg => by
        have hdue := h.due l' g ((hmem _ _).mp hg)
        cases g with
        | start r => exact hdue
        | call r op => exact hdue
        | resetTicker r => exact hdue
        | onRoomEnd r => exact hdue
      owned := by
        rintro r (hr | ⟨l', hl', g, hg, hr⟩)
        · exact h.owned r (.inl hr)
        · rcases mem_held_queue.mp hg with hg | ⟨-, rfl⟩
          · exact h.owned r (.inr ⟨l', hl', g, hg, hr⟩)
          · exact (h.due l _ mem_line_head).exists_room hr
      once := fun l' r => (hperm l' f).count_eq _ ▸ h.once l' r
      order := fun l' => by
        rw [htodo]
        split
        · refine List.pairwise_append.mpr ⟨h.order l, by simp, fun g hg g' hg' r op heq => ?_⟩
          rw [List.mem_singleton.mp hg']
          rintro rfl
          exact (hstart r rfl).2 op (heq ▸ hg)
        · exact h.order l'
      inline := fun r hr => by
        rw [htodo] at hr
        split at hr
        · next heq =>
            subst heq
            rcases List.mem_append.mp hr with hr | hr
            · exact h.inline r hr
            · exact (hstart r (List.mem_singleton.mp hr).symm).1 rfl
        · exact h.inline r hr
      active := fun l' r hr => by
        rw [queueInLoop, active_queue] at hr
        exact h.active l' r hr }

/-- A request that nothing waits for is made. -/
theorem Inv.take {op : RoomCall} (h : s.Inv n []) (ho : s.objects r = some o) (hl : o.loop = l) :
    s.Inv n [(l, .call r op)] where
  __ := h
  leaving := fun r' o ho hended hr => mem_line_of_mem (h.leaving r' o ho hended hr)
  ticking := fun r' o ho hended ht => mem_line_of_mem (h.ticking r' o ho hended ht)
  waiting := fun r' o ho hs => (h.waiting r' o ho hs).imp mem_line_of_mem id
  due := fun l' g hg => by
    rcases mem_line_cons.mp hg with ⟨rfl, rfl⟩ | hg
    · exact ⟨o, ho, hl⟩
    · exact h.due l' g hg
  once := fun l' r' => by
    rw [count_line_of_ne (by simp)]
    exact h.once l' r'

/-- A request that nothing waits for is dropped. -/
theorem Inv.discard {op : RoomCall} (h : s.Inv n ((l, .call r op) :: hand)) : s.Inv n hand where
  __ := h
  leaving := fun r' o ho hended hr => mem_line_of_ne (h.leaving r' o ho hended hr) (by simp)
  ticking := fun r' o ho hended ht => mem_line_of_ne (h.ticking r' o ho hended ht) (by simp)
  waiting := fun r' o ho hs =>
    (h.waiting r' o ho hs).imp (fun hmem => mem_line_of_ne hmem (by simp)) id
  due := fun l' g hg => h.due l' g (mem_line_of_mem hg)
  once := fun l' r' => count_line_le.trans (h.once l' r')

/-! ### A room changes -/

theorem objects_setRoom {o' o₁ : RoomObject} {r' : ℕ}
    (h : (s.setRoom r o').objects r' = some o₁) :
    (r' = r ∧ o₁ = o') ∨ (r' ≠ r ∧ s.objects r' = some o₁) := by
  by_cases hr : r' = r
  · subst hr
    exact .inl ⟨rfl, by simpa [setRoom] using h.symm⟩
  · exact .inr ⟨hr, by simpa [setRoom, Function.update_of_ne hr] using h⟩

theorem setRoom_self (s : RoomServer) (r : ℕ) (o' : RoomObject) :
    (s.setRoom r o').objects r = some o' := by
  simp [setRoom]

theorem setRoom_of_ne (o' : RoomObject) {r' : ℕ} (hne : r' ≠ r) :
    (s.setRoom r o').objects r' = s.objects r' := by
  simp [setRoom, Function.update_of_ne hne]

theorem exists_setRoom {o' : RoomObject} {r' : ℕ} (h : ∃ o, s.objects r' = some o) :
    ∃ o, (s.setRoom r o').objects r' = some o := by
  by_cases hne : r' = r
  · subst hne
    exact ⟨_, setRoom_self s r' o'⟩
  · rwa [setRoom_of_ne o' hne]

/-- Room `r` changes, and with it the requests that concern it. -/
theorem Inv.replace {hand' : Hand RoomFunctor} {o' : RoomObject} (h : s.Inv n hand)
    (ho : s.objects r = some o) (hloop : o'.loop = o.loop)
    (hline : ∀ l g, g.room ≠ r → (g ∈ line s.loops hand' l ↔ g ∈ line s.loops hand l))
    (honce : ∀ l r', (line s.loops hand' l).count (.start r') ≤ 1)
    (htable : o'.ended = false → r ∈ s.rooms_)
    (hleaving : o'.ended = true → r ∈ s.rooms_ → .onRoomEnd r ∈ line s.loops hand' 0)
    (hticking : o'.ended = true → o'.ticker = true →
      .resetTicker r ∈ line s.loops hand' o'.loop)
    (hwaiting : o'.started = false →
      .start r ∈ line s.loops hand' o'.loop ∧ o'.ticker = false ∧ o'.ended = false)
    (hrunning : o'.started = true → o'.ended = false → o'.ticker = true)
    (hdue : ∀ l g, g ∈ line s.loops hand' l → g.room = r → (s.setRoom r o').Due l g)
    (hactive : ∀ l, r ∈ (s.loops l).active → o'.ticker = true) :
    (s.setRoom r o').Inv n hand' := by
  have hself := setRoom_self s r o'
  refine
    { fault := h.fault
      next := h.next
      size := h.size
      pool := h.pool
      made := fun r' o₁ ho₁ => ?_
      table := fun r' o₁ ho₁ hended => ?_
      leaving := fun r' o₁ ho₁ hended hr' => ?_
      ticking := fun r' o₁ ho₁ hended hticker => ?_
      waiting := fun r' o₁ ho₁ hstarted => ?_
      running := fun r' o₁ ho₁ hstarted hended => ?_
      due := fun l g hg => ?_
      owned := fun r' hr' => exists_setRoom (h.owned r' hr')
      once := honce
      order := h.order
      inline := h.inline
      active := fun l r' hr' => ?_ }
  · rcases objects_setRoom ho₁ with ⟨rfl, rfl⟩ | ⟨-, ho₁⟩
    · have hmade := h.made r' o ho
      exact ⟨hmade.pos, hmade.lt, hloop.trans hmade.loop⟩
    · have hmade := h.made r' o₁ ho₁
      exact ⟨hmade.pos, hmade.lt, hmade.loop⟩
  · rcases objects_setRoom ho₁ with ⟨rfl, rfl⟩ | ⟨-, ho₁⟩
    · exact htable hended
    · exact h.table r' o₁ ho₁ hended
  · rcases objects_setRoom ho₁ with ⟨rfl, rfl⟩ | ⟨hne, ho₁⟩
    · exact hleaving hended hr'
    · exact (hline 0 (.onRoomEnd r') hne).mpr (h.leaving r' o₁ ho₁ hended hr')
  · rcases objects_setRoom ho₁ with ⟨rfl, rfl⟩ | ⟨hne, ho₁⟩
    · exact hticking hended hticker
    · exact (hline _ (.resetTicker r') hne).mpr (h.ticking r' o₁ ho₁ hended hticker)
  · rcases objects_setRoom ho₁ with ⟨rfl, rfl⟩ | ⟨hne, ho₁⟩
    · exact hwaiting hstarted
    · exact (h.waiting r' o₁ ho₁ hstarted).imp (hline _ (.start r') hne).mpr id
  · rcases objects_setRoom ho₁ with ⟨rfl, rfl⟩ | ⟨-, ho₁⟩
    · exact hrunning hstarted hended
    · exact h.running r' o₁ ho₁ hstarted hended
  · by_cases hne : g.room = r
    · exact hdue l g hg hne
    · have hold := h.due l g ((hline l g hne).mp hg)
      have heq := setRoom_of_ne (s := s) o' hne
      cases g with
      | start r' => exact hold.imp fun o₁ ho₁ => ⟨heq.trans ho₁.1, ho₁.2⟩
      | call r' op => exact hold.imp fun o₁ ho₁ => ⟨heq.trans ho₁.1, ho₁.2⟩
      | resetTicker r' => exact hold.imp fun o₁ ho₁ => ⟨heq.trans ho₁.1, ho₁.2⟩
      | onRoomEnd r' =>
          exact ⟨hold.1, hold.2.1, fun o₁ ho₁ => hold.2.2 o₁ (heq.symm.trans ho₁)⟩
  · obtain ⟨o₁, ho₁, hloop₁, hticker⟩ := h.active l r' hr'
    by_cases hne : r' = r
    · subst hne
      obtain rfl : o₁ = o := Option.some.inj (ho₁.symm.trans ho)
      exact ⟨o', hself, hloop.trans hloop₁, hactive l hr'⟩
    · exact ⟨o₁, by rw [setRoom_of_ne _ hne, ho₁], hloop₁, hticker⟩

/-- What a functor that waits for a change of room `r` can still rely on. -/
theorem Inv.due_setRoom (h : s.Inv n hand) (ho : s.objects r = some o) (o' : RoomObject)
    (hloop : o'.loop = o.loop) (hended : o.ended = true → o'.ended = true)
    (hstarted : o.started = false → o'.started = false) {g : RoomFunctor}
    (hg : g ∈ line s.loops hand l) (hroom : g.room = r) : (s.setRoom r o').Due l g := by
  have hold := h.due l g hg
  have hself := setRoom_self s r o'
  have hinj : ∀ {o₁}, s.objects r = some o₁ → o₁ = o := fun ho₁ =>
    Option.some.inj (ho₁.symm.trans ho)
  subst hroom
  cases g with
  | start r' =>
      obtain ⟨o₁, ho₁, rfl, hs⟩ := hold
      obtain rfl := hinj ho₁
      exact ⟨o', hself, hloop, hstarted hs⟩
  | call r' op =>
      obtain ⟨o₁, ho₁, rfl⟩ := hold
      obtain rfl := hinj ho₁
      exact ⟨o', hself, hloop⟩
  | resetTicker r' =>
      obtain ⟨o₁, ho₁, rfl, he⟩ := hold
      obtain rfl := hinj ho₁
      exact ⟨o', hself, hloop, hended he⟩
  | onRoomEnd r' =>
      refine ⟨hold.1, hold.2.1, fun o₁ ho₁ => ?_⟩
      obtain rfl : o₁ = o' := Option.some.inj (ho₁.symm.trans hself)
      exact hended (hold.2.2 o ho)

/-! ### The end of a battle -/

theorem Inv.onRoomEnd (h : s.Inv n ((0, .onRoomEnd r) :: hand)) : (s.onRoomEnd r).Inv n hand := by
  obtain ⟨-, -, hall⟩ := h.due 0 (.onRoomEnd r) mem_line_head
  have hkeep : ∀ {r'}, r' ∈ (s.onRoomEnd r).rooms_ → r' ∈ s.rooms_ ∧ r' ≠ r := by
    intro r' hr'
    simpa [RoomServer.onRoomEnd] using hr'
  exact
    { fault := h.fault
      next := h.next
      size := h.size
      pool := h.pool
      made := fun r' o ho => ⟨(h.made r' o ho).pos, (h.made r' o ho).lt, (h.made r' o ho).loop⟩
      table := fun r' o ho hended => by
        have hne : r' ≠ r := by
          rintro rfl
          exact absurd ((hall o ho).symm.trans hended) (by simp)
        simpa [RoomServer.onRoomEnd, hne] using h.table r' o ho hended
      leaving := fun r' o ho hended hr' =>
        mem_line_of_ne (h.leaving r' o ho hended (hkeep hr').1)
          fun heq => (hkeep hr').2 (RoomFunctor.onRoomEnd.inj heq)
      ticking := fun r' o ho hended ht => mem_line_of_ne (h.ticking r' o ho hended ht) (by simp)
      waiting := fun r' o ho hs =>
        (h.waiting r' o ho hs).imp (fun hmem => mem_line_of_ne hmem (by simp)) id
      running := h.running
      due := fun l g hg => by
        have hdue := h.due l g (mem_line_of_mem hg)
        cases g with
        | start r => exact hdue
        | call r op => exact hdue
        | resetTicker r => exact hdue
        | onRoomEnd r => exact hdue
      owned := fun r' hr' => h.owned r' (hr'.imp (fun hr' => (hkeep hr').1) id)
      once := fun l r' => count_line_le.trans (h.once l r')
      order := h.order
      inline := h.inline
      active := h.active }

/-- A battle that is going on is ended: the ticker will be reset on the room's
loop and the lobby will be told. -/
theorem Inv.endBattle (h : s.Inv n []) (ho : s.objects r = some o) (hended : o.ended = false)
    (hstarted : o.started = true) : (s.endBattle r o).Inv n [] := by
  have hset : (s.setRoom r { o with ended := true }).Inv n
      [(o.loop, .resetTicker r), (0, .onRoomEnd r)] := by
    refine h.replace ho rfl (fun l g hne => ?_) (fun l r' => ?_) (by simp)
      (fun _ _ => mem_line_of_mem mem_line_head) (fun _ _ => mem_line_head)
      (fun hs => absurd (hstarted.symm.trans hs) (by simp)) (by simp) (fun l g hg hroom => ?_)
      (fun l hr => ?_)
    · refine ⟨fun hg => ?_, fun hg => mem_line_of_mem (mem_line_of_mem hg)⟩
      exact mem_line_of_ne (mem_line_of_ne hg fun heq => hne (heq ▸ rfl)) fun heq => hne (heq ▸ rfl)
    · rw [count_line_of_ne (by simp), count_line_of_ne (by simp)]
      exact h.once l r'
    · rcases mem_line_cons.mp hg with ⟨rfl, rfl⟩ | hg
      · exact ⟨_, setRoom_self s r _, rfl, rfl⟩
      · rcases mem_line_cons.mp hg with ⟨rfl, rfl⟩ | hg
        · refine ⟨rfl, (h.made r o ho).lt, fun o₁ ho₁ => ?_⟩
          rw [Option.some.inj (ho₁.symm.trans (setRoom_self s r { o with ended := true }))]
        · exact h.due_setRoom ho { o with ended := true } rfl (fun _ => rfl) id hg hroom
    · obtain ⟨o₁, ho₁, -, hticker⟩ := h.active l r hr
      obtain rfl : o₁ = o := Option.some.inj (ho₁.symm.trans ho)
      exact hticker
  have hreset := hset.enqueue (by simp)
  unfold RoomServer.endBattle onEnd
  split
  · exact hreset.onRoomEnd
  · exact hreset.enqueue (by simp)

theorem Inv.call (h : s.Inv n []) (ho : s.objects r = some o) (hstarted : o.started = true)
    (op : RoomCall) : (s.call r op o).Inv n [] := by
  cases op with
  | touch => exact h
  | forceEnd =>
      simp only [RoomServer.call]
      split
      · exact h
      · next hended => exact h.endBattle ho (by simpa using hended) hstarted

theorem onRoom_eq {code : RoomObject → RoomServer → RoomServer} (ho : s.objects r = some o) :
    s.onRoom r code = code o s := by
  simp only [onRoom, ho]

/-! ### Functors -/

theorem Inv.startRoom (h : s.Inv n ((l, .start r) :: hand)) :
    (s.onRoom r (startRoom r)).Inv n hand := by
  obtain ⟨o, ho, rfl, hstarted⟩ := h.due l (.start r) mem_line_head
  obtain ⟨-, -, hended⟩ := h.waiting r o ho hstarted
  have hdrop : ∀ {l' g}, g ∈ line s.loops ((o.loop, .start r) :: hand) l' → g ≠ .start r →
      g ∈ line s.loops hand l' := mem_line_of_ne
  have hnone : .start r ∉ line s.loops hand o.loop := by
    intro hmem
    have honce := h.once o.loop r
    have hpos := List.count_pos_iff.mpr hmem
    rw [line_cons, if_pos rfl, List.count_cons_self] at honce
    omega
  rw [onRoom_eq ho]
  refine h.replace ho rfl (fun l' g hne => ⟨mem_line_of_mem, fun hg => hdrop hg ?_⟩)
    (fun l' r' => count_line_le.trans (h.once l' r')) (fun _ => h.table r o ho hended)
    (fun he => absurd (hended.symm.trans he) (by simp))
    (fun he => absurd (hended.symm.trans he) (by simp)) (by simp) (fun _ _ => rfl)
    (fun l' g hg hroom => ?_) (fun _ _ => rfl)
  · rintro rfl
    exact hne rfl
  · by_cases hg' : g = .start r
    · subst hg'
      obtain ⟨o₁, ho₁, rfl, -⟩ := h.due l' (.start r) (mem_line_of_mem hg)
      obtain rfl : o₁ = o := Option.some.inj (ho₁.symm.trans ho)
      exact absurd hg hnone
    · have hold := h.due l' g (mem_line_of_mem hg)
      subst hroom
      cases g with
      | start r' => exact absurd rfl hg'
      | call r' op =>
          obtain ⟨o₁, ho₁, hl⟩ := hold
          obtain rfl : o₁ = o := Option.some.inj (ho₁.symm.trans ho)
          exact ⟨_, setRoom_self s _ _, hl⟩
      | resetTicker r' =>
          obtain ⟨o₁, ho₁, hl, he⟩ := hold
          obtain rfl : o₁ = o := Option.some.inj (ho₁.symm.trans ho)
          exact ⟨_, setRoom_self s _ _, hl, he⟩
      | onRoomEnd r' => exact absurd ((hold.2.2 o ho).symm.trans hended) (by simp)

theorem Inv.resetTicker (h : s.Inv n ((l, .resetTicker r) :: hand))
    (hactive : (s.loops l).active = []) : (s.onRoom r (resetTicker r)).Inv n hand := by
  obtain ⟨o, ho, rfl, hended⟩ := h.due l (.resetTicker r) mem_line_head
  have hset : (s.setRoom r { o with ticker := false }).Inv n hand := by
    refine h.replace ho rfl (fun l' g hne => ⟨mem_line_of_mem, fun hg => ?_⟩)
      (fun l' r' => count_line_le.trans (h.once l' r'))
      (fun he => absurd (hended.symm.trans he) (by simp))
      (fun he hr => mem_line_of_ne (h.leaving r o ho he hr) (by simp)) (by simp)
      (fun hs => ?_) (fun _ he => absurd (hended.symm.trans he) (by simp))
      (fun l' g hg hroom => h.due_setRoom ho { o with ticker := false } rfl id id
        (mem_line_of_mem hg) hroom) (fun l' hr => ?_)
    · exact mem_line_of_ne hg fun heq => hne (heq ▸ rfl)
    · exact absurd ((h.waiting r o ho hs).2.2.symm.trans hended) (by simp)
    · obtain ⟨o₁, ho₁, rfl, -⟩ := h.active l' r hr
      obtain rfl : o₁ = o := Option.some.inj (ho₁.symm.trans ho)
      rw [hactive] at hr
      exact absurd hr (by simp)
  rw [onRoom_eq ho, RoomServer.resetTicker, hactive, if_neg (by simp)]
  exact hset

/-- A room whose `start` is not queued has started. -/
theorem Inv.started (h : s.Inv n []) (ho : s.objects r = some o)
    (hstart : .start r ∉ (s.loops o.loop).todo) : o.started = true := by
  by_contra hs
  exact hstart (h.waiting r o ho (by simpa using hs)).1

theorem Inv.perform (h : s.Inv n [(l, f)]) (hactive : (s.loops l).active = [])
    (hfirst : ∀ g ∈ (s.loops l).todo, InOrder f g) : (s.perform f).Inv n [] := by
  cases f with
  | start r => exact h.startRoom
  | call r op =>
      obtain ⟨o, ho, rfl⟩ := h.due l (.call r op) mem_line_head
      have hstarted := h.discard.started ho fun hmem => hfirst _ hmem r op rfl rfl
      rw [RoomServer.perform, onRoom_eq ho]
      exact h.discard.call ho hstarted op
  | resetTicker r => exact h.resetTicker hactive
  | onRoomEnd r =>
      obtain ⟨rfl, -⟩ := h.due l (.onRoomEnd r) mem_line_head
      exact h.onRoomEnd

/-! ### The lobby -/

theorem Inv.post (h : s.Inv n []) (r : ℕ) (op : RoomCall) : (s.post r op).Inv n [] := by
  unfold RoomServer.post
  split
  · next hr =>
      obtain ⟨o, ho⟩ := h.owned r (.inl hr)
      rw [onRoom_eq ho]
      by_cases hloop : o.loop = 0
      · rw [if_pos hloop]
        exact h.call ho (h.started ho (hloop ▸ h.inline r)) op
      · rw [if_neg hloop]
        exact (h.take ho rfl).enqueue (by simp)
  · exact h

theorem Inv.tryMatch (h : s.Inv n []) : s.tryMatch.Inv n [] := by
  obtain ⟨hloop, hturn, hloops⟩ := h.pool.getNextLoop
  rcases hget : s.gamePool_.getNextLoop with ⟨loop, pool⟩
  rw [hget] at hloop hturn hloops
  dsimp only at hloop hturn hloops
  have hpool : ∀ i, pool.loopOf i = s.gamePool_.loopOf i := fun i => by
    simp only [EventLoopThreadPool.loopOf, hloops]
  let r := s.nextRoomId_
  let s₁ : RoomServer :=
    { s with gamePool_ := pool, nextRoomId_ := r + 1, rooms_ := r :: s.rooms_ }
  have hfresh : ∀ {r' o}, s.objects r' = some o → r' ≠ r := by
    rintro r' o ho rfl
    exact absurd (h.made _ o ho).lt (lt_irrefl _)
  have hnone : ∀ {l g}, g ∈ (s.loops l).todo → g.room ≠ r := by
    rintro l g hg heq
    have hdue := h.due l g hg
    cases g with
    | start r' => exact hdue.elim fun o ho => hfresh ho.1 heq
    | call r' op => exact hdue.elim fun o ho => hfresh ho.1 heq
    | resetTicker r' => exact hdue.elim fun o ho => hfresh ho.1 heq
    | onRoomEnd r' =>
        have hlt : r' < s.nextRoomId_ := hdue.2.1
        rw [show r' = s.nextRoomId_ from heq] at hlt
        exact lt_irrefl _ hlt
  have hcreated : (s₁.setRoom r { loop := loop }).Inv n [(loop, .start r)] := by
    refine
      { fault := h.fault
        next := Nat.succ_pos _
        size := hloops ▸ h.size
        pool := ?_
        made := fun r' o ho => ?_
        table := fun r' o ho hended => ?_
        leaving := fun r' o ho hended hr' => ?_
        ticking := fun r' o ho hended hticker => ?_
        waiting := fun r' o ho hstarted => ?_
        running := fun r' o ho hstarted hended => ?_
        due := fun l g hg => ?_
        owned := fun r' hr' => ?_
        once := fun l r' => ?_
        order := h.order
        inline := h.inline
        active := fun l r' hr' => ?_ }
    · have hpos := h.next
      change pool.Turn (s.nextRoomId_ + 1 - 1)
      rwa [show s.nextRoomId_ + 1 - 1 = s.nextRoomId_ - 1 + 1 by omega]
    · rcases objects_setRoom ho with ⟨rfl, rfl⟩ | ⟨-, ho⟩
      · exact ⟨h.next, Nat.lt_succ_self _, hloop.trans (hpool _).symm⟩
      · have hmade := h.made r' o ho
        exact ⟨hmade.pos, hmade.lt.trans (Nat.lt_succ_self _), hmade.loop.trans (hpool _).symm⟩
    · rcases objects_setRoom ho with ⟨rfl, rfl⟩ | ⟨-, ho⟩
      · exact List.mem_cons_self ..
      · exact List.mem_cons_of_mem _ (h.table r' o ho hended)
    · rcases objects_setRoom ho with ⟨rfl, rfl⟩ | ⟨hne, ho⟩
      · exact absurd hended (by simp)
      · exact mem_line_of_mem (h.leaving r' o ho hended ((List.mem_cons.mp hr').resolve_left hne))
    · rcases objects_setRoom ho with ⟨rfl, rfl⟩ | ⟨-, ho⟩
      · exact absurd hended (by simp)
      · exact mem_line_of_mem (h.ticking r' o ho hended hticker)
    · rcases objects_setRoom ho with ⟨rfl, rfl⟩ | ⟨-, ho⟩
      · exact ⟨mem_line_head, rfl, rfl⟩
      · exact (h.waiting r' o ho hstarted).imp mem_line_of_mem id
    · rcases objects_setRoom ho with ⟨rfl, rfl⟩ | ⟨-, ho⟩
      · exact absurd hstarted (by simp)
      · exact h.running r' o ho hstarted hended
    · rcases mem_line_cons.mp hg with ⟨rfl, rfl⟩ | hg
      · exact ⟨_, setRoom_self s₁ r _, rfl, rfl⟩
      · have hne := setRoom_of_ne (s := s₁) { loop := loop } (hnone hg)
        have hdue := h.due l g hg
        cases g with
        | start r' => exact hdue.imp fun o ho => ⟨hne.trans ho.1, ho.2⟩
        | call r' op => exact hdue.imp fun o ho => ⟨hne.trans ho.1, ho.2⟩
        | resetTicker r' => exact hdue.imp fun o ho => ⟨hne.trans ho.1, ho.2⟩
        | onRoomEnd r' =>
            exact ⟨hdue.1, hdue.2.1.trans (Nat.lt_succ_self _),
              fun o ho => hdue.2.2 o (hne.symm.trans ho)⟩
    · rcases hr' with hr' | ⟨l, hl, g, hg, hr'⟩
      · rcases List.mem_cons.mp hr' with rfl | hr'
        · exact ⟨_, setRoom_self s₁ r _⟩
        · exact exists_setRoom (h.owned r' (.inl hr'))
      · exact exists_setRoom (h.owned r' (.inr ⟨l, hloops ▸ hl, g, hg, hr'⟩))
    · by_cases heq : r' = r
      · subst heq
        have hzero : (line s.loops [] l).count (.start r) = 0 :=
          List.count_eq_zero_of_not_mem fun hg => hnone hg rfl
        rw [line_cons]
        split
        · rw [List.count_cons_self]
          exact (congrArg (· + 1) hzero).le
        · exact h.once l r
      · rw [count_line_of_ne fun hf => heq (RoomFunctor.start.inj hf).symm]
        exact h.once l r'
    · obtain ⟨o, ho, hrest⟩ := h.active l r' hr'
      exact ⟨o, by rw [setRoom_of_ne _ (hfresh ho)]; exact ho, hrest⟩
  unfold RoomServer.tryMatch
  rw [hget]
  dsimp only
  split
  · exact hcreated.startRoom
  · next hne =>
      refine hcreated.enqueue fun r' heq => ⟨hne, fun op hmem => ?_⟩
      exact hnone hmem (RoomFunctor.start.inj heq).symm

/-! ### The loops -/

theorem Inv.setLoop {hand' : Hand RoomFunctor} {loop : Reactor RoomFunctor ℕ} (h : s.Inv n hand)
    (hline : ∀ l', (line (s.setLoop l loop).loops hand' l').Perm (line s.loops hand l'))
    (htodo : loop.todo.Sublist (s.loops l).todo) (hheld : loop.held ⊆ (s.loops l).held)
    (hactive : ∀ r ∈ loop.active, ∃ o, s.objects r = some o ∧ o.loop = l ∧ o.ticker = true) :
    (s.setLoop l loop).Inv n hand' where
  fault := h.fault
  next := h.next
  size := h.size
  pool := h.pool
  made := fun r o ho => ⟨(h.made r o ho).pos, (h.made r o ho).lt, (h.made r o ho).loop⟩
  table := h.table
  leaving := fun r o ho hended hr => (hline _).mem_iff.mpr (h.leaving r o ho hended hr)
  ticking := fun r o ho hended ht => (hline _).mem_iff.mpr (h.ticking r o ho hended ht)
  waiting := fun r o ho hs => (h.waiting r o ho hs).imp (hline _).mem_iff.mpr id
  running := h.running
  due := fun l' f hf => by
    have hdue := h.due l' f ((hline l').mem_iff.mp hf)
    cases f with
    | start r => exact hdue
    | call r op => exact hdue
    | resetTicker r => exact hdue
    | onRoomEnd r => exact hdue
  owned := by
    rintro r (hr | ⟨l', hl', f, hf, hr⟩)
    · exact h.owned r (.inl hr)
    · refine h.owned r (.inr ⟨l', hl', f, ?_, hr⟩)
      by_cases heq : l' = l
      · subst heq
        exact hheld (by simpa [RoomServer.setLoop] using hf)
      · simpa [RoomServer.setLoop, Function.update_of_ne heq] using hf
  once := fun l' r => (hline l').count_eq _ ▸ h.once l' r
  order := fun l' => by
    by_cases heq : l' = l
    · subst heq
      simpa [RoomServer.setLoop] using (h.order l').sublist htodo
    · simpa [RoomServer.setLoop, Function.update_of_ne heq] using h.order l'
  inline := fun r hr => by
    by_cases heq : 0 = l
    · subst heq
      exact h.inline r (htodo.subset (by simpa [RoomServer.setLoop] using hr))
    · exact h.inline r (by simpa [RoomServer.setLoop, Function.update_of_ne heq] using hr)
  active := fun l' r hr => by
    by_cases heq : l' = l
    · subst heq
      exact hactive r (by simpa [RoomServer.setLoop] using hr)
    · exact h.active l' r (by simpa [RoomServer.setLoop, Function.update_of_ne heq] using hr)

theorem Inv.continues {loop : Reactor RoomFunctor ℕ} (h : s.Inv n [])
    (hloop : (s.loops l).Continues loop) : (s.setLoop l loop).Inv n [] :=
  h.setLoop (fun l' => .of_eq (line_update hloop.todo l')) (by rw [hloop.todo]) hloop.held
    fun r hr => h.active l r (hloop.active hr)

/-- `PeriodicTimer::handleRead` runs while both objects exist. -/
theorem Inv.onTick (h : s.Inv n []) (ho : s.objects r = some o) (hticker : o.ticker = true)
    (decided : Bool) : (s.onRoom r (onTick r decided)).Inv n [] := by
  rw [onRoom_eq ho, RoomServer.onTick, if_pos hticker]
  split
  · next hgo =>
      simp only [Bool.and_eq_true, Bool.not_eq_true'] at hgo
      refine h.endBattle ho hgo.1 ?_
      by_contra hs
      exact absurd (hticker.symm.trans (h.waiting r o ho (by simpa using hs)).2.1) (by simp)
  · exact h

theorem Inv.act (h : s.Inv n []) (a : RoomServerAct) : (s.act a).Inv n [] := by
  cases a with
  | tryMatch => exact h.tryMatch
  | post r op => exact h.post r op
  | poll l ready =>
      obtain ⟨htodo, hheld, hactive⟩ := poll_spec (s.loops l) (ready.filter (s.registered l))
      refine h.setLoop (fun l' => .of_eq (line_update htodo l')) (by rw [htodo])
        (fun _ hf => hheld ▸ hf) fun r hr => ?_
      rcases hactive r hr with hready | hold
      · have hreg := (List.mem_filter.mp hready).2
        simp only [registered] at hreg
        cases ho : s.objects r with
        | none => simp [ho] at hreg
        | some o =>
            simp only [ho, Option.any_some, Bool.and_eq_true, decide_eq_true_eq] at hreg
            exact ⟨o, rfl, hreg⟩
      · exact h.active l r hold
  | handleEvent l decided =>
      simp only [RoomServer.act]
      split
      · next r loop htake =>
          obtain ⟨o, ho, -, hticker⟩ := h.active l r (mem_active_of_takeEvent htake)
          exact (h.continues (continues_takeEvent htake)).onTick ho hticker decided
      · exact h
  | swapFunctors l => exact h.continues (continues_swapFunctors _)
  | functor l =>
      simp only [RoomServer.act]
      split
      · next f loop htake =>
          obtain ⟨htodo, hheld, hnone⟩ := takeFunctor_spec htake
          have hpop : (s.setLoop l loop).Inv n [(l, f)] :=
            h.setLoop (line_takeFunctor htake) (htodo ▸ List.sublist_cons_self _ _)
              (fun _ hf => hheld ▸ hf) (fun r hr => absurd hr (by simp [hnone]))
          have horder := h.order l
          rw [htodo] at horder
          refine hpop.perform (by simpa [RoomServer.setLoop] using hnone) fun g hg => ?_
          exact (List.pairwise_cons.mp horder).1 g (by simpa [RoomServer.setLoop] using hg)
      · exact h.continues (continues_finish _)

/-! ### Destruction -/

theorem Inv.owned_of_todo (h : s.Inv n []) (hf : f ∈ (s.loops l).todo) (hr : f.owns = some r) :
    s.Owned r := by
  have hl : l ≤ s.gamePool_.loops_.length := by
    have hdue := h.due l f hf
    cases f with
    | start r' => exact hdue.elim fun o ho => ho.2.1 ▸ h.loop_le ho.1
    | call r' op => exact hdue.elim fun o ho => ho.2 ▸ h.loop_le ho.1
    | resetTicker r' => exact hdue.elim fun o ho => ho.2.1 ▸ h.loop_le ho.1
    | onRoomEnd r' => cases hr
  exact .inr ⟨l, hl, f, todo_subset_held _ hf, hr⟩

/-- As long as its ticker runs a room has an owner. -/
theorem Inv.owned_of_ticker (h : s.Inv n []) (ho : s.objects r = some o)
    (hticker : o.ticker = true) : s.Owned r := by
  cases hended : o.ended with
  | false => exact .inl (h.table r o ho hended)
  | true => exact h.owned_of_todo (h.ticking r o ho hended hticker) rfl

theorem objects_collect {o : RoomObject} :
    s.collect.objects r = some o ↔ s.Owned r ∧ s.objects r = some o := by
  simp [collect]

theorem Inv.collect (h : s.Inv n []) : s.collect.Inv n [] where
  fault := by
    have hnone : ¬∃ r < s.nextRoomId_, ¬s.Owned r ∧ (s.objects r).any (·.ticker) = true := by
      rintro ⟨r, -, howned, hticker⟩
      cases ho : s.objects r with
      | none => simp [ho] at hticker
      | some o => exact howned (h.owned_of_ticker ho (by simpa [ho] using hticker))
    simp [RoomServer.collect, h.fault, hnone]
  next := h.next
  size := h.size
  pool := h.pool
  made := fun r o ho =>
    have hmade := h.made r o (objects_collect.mp ho).2
    ⟨hmade.pos, hmade.lt, hmade.loop⟩
  table := fun r o ho => h.table r o (objects_collect.mp ho).2
  leaving := fun r o ho => h.leaving r o (objects_collect.mp ho).2
  ticking := fun r o ho => h.ticking r o (objects_collect.mp ho).2
  waiting := fun r o ho => h.waiting r o (objects_collect.mp ho).2
  running := fun r o ho => h.running r o (objects_collect.mp ho).2
  due := fun l f hf => by
    have hdue := h.due l f hf
    have howned := fun r => h.owned_of_todo (r := r) hf
    cases f with
    | start r => exact hdue.imp fun o ho => ⟨objects_collect.mpr ⟨howned r rfl, ho.1⟩, ho.2⟩
    | call r op => exact hdue.imp fun o ho => ⟨objects_collect.mpr ⟨howned r rfl, ho.1⟩, ho.2⟩
    | resetTicker r =>
        exact hdue.imp fun o ho => ⟨objects_collect.mpr ⟨howned r rfl, ho.1⟩, ho.2⟩
    | onRoomEnd r => exact ⟨hdue.1, hdue.2.1, fun o ho => hdue.2.2 o (objects_collect.mp ho).2⟩
  owned := fun r hr => (h.owned r hr).imp fun o ho => objects_collect.mpr ⟨hr, ho⟩
  once := h.once
  order := h.order
  inline := h.inline
  active := fun l r hr =>
    (h.active l r hr).imp fun o ho =>
      ⟨objects_collect.mpr ⟨h.owned_of_ticker ho.1 ho.2.2, ho.1⟩, ho.2⟩

/-! ### Runs -/

theorem inv_start (gameThreads : ℕ) : (start gameThreads).Inv gameThreads [] where
  fault := rfl
  next := Nat.one_pos
  size := by simp [start, EventLoopThreadPool.start]
  pool := EventLoopThreadPool.Turn.start gameThreads
  made := fun _ _ ho => absurd ho (by simp [start])
  table := fun _ _ ho => absurd ho (by simp [start])
  leaving := fun _ _ ho => absurd ho (by simp [start])
  ticking := fun _ _ ho => absurd ho (by simp [start])
  waiting := fun _ _ ho => absurd ho (by simp [start])
  running := fun _ _ ho => absurd ho (by simp [start])
  due := fun _ _ hf => absurd hf (by simp [start, Reactor.todo])
  owned := by
    rintro r (hr | ⟨l, -, f, hf, -⟩)
    · simp [start] at hr
    · simp [start, Reactor.held] at hf
  once := fun _ _ => by simp [start, Reactor.todo]
  order := fun _ => by simp [start, Reactor.todo]
  inline := fun _ => by simp [start, Reactor.todo]
  active := fun _ _ hr => absurd hr (by simp [start, Reactor.active])

theorem inv_run (gameThreads : ℕ) (acts : List RoomServerAct) :
    (acts.foldl step (start gameThreads)).Inv gameThreads [] :=
  invariant_run_of_step (I := fun s : RoomServer => s.Inv gameThreads [])
    (fun _ a hs => (hs.act a).collect) (inv_start gameThreads) acts

/-- No handler or functor touches a room or a ticker that is gone, no ticker is
destroyed under its own event, and no room before its ticker. -/
theorem rooms_no_fault (gameThreads : ℕ) (acts : List RoomServerAct) :
    (acts.foldl step (start gameThreads)).fault = false :=
  (inv_run gameThreads acts).fault

/-- No loop has anything to do. -/
def AtRest (s : RoomServer) : Prop :=
  ∀ l, (s.loops l).phase = .polling ∧ (s.loops l).pendingFunctors = []

theorem owned_run {gameThreads : ℕ} (acts : List RoomServerAct)
    (ho : (acts.foldl step (start gameThreads)).objects r = some o) :
    (acts.foldl step (start gameThreads)).Owned r := by
  rcases List.eq_nil_or_concat acts with rfl | ⟨acts, a, rfl⟩
  · simp [start] at ho
  · rw [List.concat_eq_append, List.foldl_concat] at ho ⊢
    exact (objects_collect.mp ho).1

/-- Once the loops have come to rest, the rooms that exist are those in the
table: their battles go on and their tickers run, each on the loop that the
room's number gives it in turn. A room that has ended is gone. -/
theorem rooms_at_rest (gameThreads : ℕ) (acts : List RoomServerAct)
    (hrest : (acts.foldl step (start gameThreads)).AtRest) :
    let s := acts.foldl step (start gameThreads)
    ∀ r, (r ∈ s.rooms_ ↔ ∃ o, s.objects r = some o) ∧
      ∀ o, s.objects r = some o → o.started = true ∧ o.ended = false ∧ o.ticker = true ∧
        o.loop = if gameThreads = 0 then 0 else (r - 1) % gameThreads + 1 := by
  intro s r
  have hinv : s.Inv gameThreads [] := inv_run gameThreads acts
  have hidle : ∀ l, line s.loops [] l = [] ∧ (s.loops l).held = [] := by
    intro l
    obtain ⟨hphase, hpending⟩ := hrest l
    simp [s, Reactor.todo, Reactor.held, hphase, hpending]
  have hlisted : ∀ {o}, s.objects r = some o → r ∈ s.rooms_ := by
    intro o ho
    rcases owned_run acts ho with hr | ⟨l, -, f, hf, -⟩
    · exact hr
    · exact absurd hf (by simp [s] at hidle; simp [hidle])
  refine ⟨⟨fun hr => hinv.owned r (.inl hr), fun hex => hex.elim fun _ => hlisted⟩,
    fun o ho => ?_⟩
  have hstarted : o.started = true := by
    by_contra hs
    have hmem := (hinv.waiting r o ho (by simpa using hs)).1
    simp [hidle] at hmem
  have hended : o.ended = false := by
    by_contra he
    have hmem := hinv.leaving r o ho (by simpa using he) (hlisted ho)
    simp [hidle] at hmem
  refine ⟨hstarted, hended, hinv.running r o ho hstarted hended, ?_⟩
  rw [(hinv.made r o ho).loop, EventLoopThreadPool.loopOf, hinv.size]

/-- Three rooms on one game loop: the first ends by a tick, the second is ended
by the lobby, the third goes on. -/
def threeBattles : List RoomServerAct :=
  [.tryMatch, .tryMatch, .poll 1 [], .swapFunctors 1, .functor 1, .functor 1, .functor 1,
    .poll 1 [1, 2], .handleEvent 1 true, .post 2 .forceEnd, .handleEvent 1 false,
    .swapFunctors 1, .functor 1, .functor 1, .functor 1, .poll 1 [], .swapFunctors 1, .functor 1,
    .functor 1, .poll 0 [], .swapFunctors 0, .functor 0, .functor 0, .functor 0,
    .tryMatch, .poll 1 [], .swapFunctors 1, .functor 1, .functor 1]

theorem threeBattles_atRest : (threeBattles.foldl step (start 1)).AtRest := by
  intro l
  match l with
  | 0 => decide +kernel
  | 1 => decide +kernel
  | l + 2 => exact ⟨rfl, rfl⟩

theorem rooms_at_rest_threeBattles :
    let s := threeBattles.foldl step (start 1)
    s.objects 1 = none ∧ s.objects 2 = none ∧
      ∃ o, s.objects 3 = some o ∧ o.ended = false ∧ o.ticker = true ∧ o.loop = 1 := by
  intro s
  have h := rooms_at_rest 1 threeBattles threeBattles_atRest
  have hrooms : s.rooms_ = [3] := by decide +kernel
  have hgone : ∀ r, r ≠ 3 → s.objects r = none := by
    intro r hr
    refine Option.eq_none_iff_forall_ne_some.mpr fun o ho => ?_
    have hlisted : r ∈ s.rooms_ := (h r).1.mpr ⟨o, ho⟩
    rw [hrooms] at hlisted
    exact hr (List.mem_singleton.mp hlisted)
  have hthird : 3 ∈ s.rooms_ := by rw [hrooms]; exact List.mem_singleton_self 3
  obtain ⟨o, ho⟩ := (h 3).1.mp hthird
  obtain ⟨-, hended, hticker, hloop⟩ := (h 3).2 o ho
  exact ⟨hgone 1 (by decide), hgone 2 (by decide), o, ho, hended, hticker, hloop⟩

end RoomServer

end GameServer.Game
