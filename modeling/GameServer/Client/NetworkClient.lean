import GameServer.Lib.Run
import GameServer.Client.FrameParser

/-!
The transport of the client, `client/Assets/Scripts/Net/NetworkClient.cs`.

`Connect` starts a thread that dials, reads and parses, and puts what happens
into a queue; `Pump` takes it out on the main thread. The fields `tcp_`,
`stream_` and `closed_` are shared by all threads, so a thread that has not
noticed `Close` yet goes on with whatever a later `Connect` has put there.
A `TcpClient` is known by the number of the thread that made it; what the
network does is left open. `streams` are the bytes that were read of each.

As long as `Connect` is called when no thread is left (`Alone`), every
connection has a story of its own in the queue, and the stories are told one
after the other.
-/

namespace GameServer.Client

open GameServer.Lib
open GameServer.Proto

inductive Reason where
  | connectFailed
  | peerClosed
  | corruptFrame
  | recvError
deriving DecidableEq

inductive Ev where
  | connected
  | disconnected (reason : Reason)
  | message (m : RawMessage)
deriving DecidableEq

/-- Where a receive thread stands. `reading` is inside `Read` of a stream. -/
inductive RecvPc where
  | starting
  | dialling
  | looping
  | reading (stream : ℕ)
  | finished
deriving DecidableEq

/-- `log` is what the thread has put into the queue. -/
structure RecvThread where
  pc : RecvPc := .starting
  parser : FrameParser := {}
  log : List Ev := []

/-- `raised` is what `Pump` has raised. -/
structure NetworkClient where
  queue_ : List Ev := []
  tcp_ : Option ℕ := none
  stream_ : Option ℕ := none
  closed_ : Bool := false
  isConnected : Bool := false
  threads : List RecvThread := []
  streams : ℕ → List UInt8 := fun _ => []
  raised : List Ev := []

/-- What `Read` does: no bytes are the end of the stream, and `none` is an
exception. -/
abbrev ReadOutcome := Option (List UInt8)

inductive NetAct where
  | connect
  | create (i : ℕ)
  | established (i : ℕ) (ok : Bool)
  | check (i : ℕ)
  | read (i : ℕ) (outcome : ReadOutcome)
  | pump (maxEvents : ℕ)
  | close
deriving DecidableEq

/-- A receive thread does it. -/
def NetAct.isThread : NetAct → Bool
  | .create _ | .established _ _ | .check _ | .read _ _ => true
  | .connect | .pump _ | .close => false

/-- `new byte[8 * 1024]`. -/
def readBufferLen : ℕ := 8 * 1024

namespace NetworkClient

/-- Thread `i` moves on and puts events into the queue. -/
def move (i : ℕ) (t : RecvThread) (es : List Ev) (s : NetworkClient) : NetworkClient :=
  { s with
    queue_ := s.queue_ ++ es
    threads := s.threads.set i { t with log := t.log ++ es } }

def onException (i : ℕ) (t : RecvThread) (s : NetworkClient) : NetworkClient :=
  s.move i { t with pc := .finished } (if s.closed_ then [] else [.disconnected .recvError])

/-- The body of the loop, when `Read` of stream `k` has returned `bs`. -/
def onBytes (i k : ℕ) (t : RecvThread) (bs : List UInt8) (s : NetworkClient) : NetworkClient :=
  if bs.length = 0 then s.move i { t with pc := .finished } [.disconnected .peerClosed]
  else
    match t.parser.append bs with
    | none => s -- `Append` does not return
    | some p =>
        let r := p.takeAll (p.size.toNatClampNeg + 1)
        let s := { s with streams := Function.update s.streams k (s.streams k ++ bs) }
        if r.2.corrupt then
          s.move i { t with pc := .finished, parser := r.2 }
            (r.1.map .message ++ [.disconnected .corruptFrame])
        else s.move i { t with pc := .looping, parser := r.2 } (r.1.map .message)

/-- What the thread with number `i` does next. -/
def advance (i : ℕ) (a : NetAct) (t : RecvThread) (s : NetworkClient) : NetworkClient :=
  match t.pc, a with
  | .starting, .create _ => { s with tcp_ := some i }.move i { t with pc := .dialling } []
  | .dialling, .established _ true =>
      { s with stream_ := s.tcp_ }.move i { t with pc := .looping } [.connected]
  | .dialling, .established _ false =>
      s.move i { t with pc := .finished } [.disconnected .connectFailed]
  | .looping, .check _ =>
      if s.closed_ then s.move i { t with pc := .finished } []
      else
        match s.stream_ with
        | some k => s.move i { t with pc := .reading k } []
        | none => s
  | .reading k, .read _ (some bs) =>
      if bs.length ≤ readBufferLen then s.onBytes i k t bs else s
  | .reading _, .read _ none => s.onException i t
  | _, _ => s

def pump (maxEvents : ℕ) (s : NetworkClient) : NetworkClient :=
  let es := s.queue_.take maxEvents
  { s with
    queue_ := s.queue_.drop maxEvents
    raised := s.raised ++ es
    isConnected := es.foldl (fun b e =>
      match e with
      | .connected => true
      | .disconnected _ => false
      | .message _ => b) s.isConnected }

def step (s : NetworkClient) (a : NetAct) : NetworkClient :=
  match a with
  | .connect => { s with closed_ := false, threads := s.threads ++ [{}] }
  | .create i | .established i _ | .check i | .read i _ =>
      match s.threads[i]? with
      | some t => s.advance i a t
      | none => s
  | .pump maxEvents => s.pump maxEvents
  | .close => { s with closed_ := true, isConnected := false }

/-- `Connect` is called when no receive thread is left. -/
def Alone (s : NetworkClient) (a : NetAct) : Prop :=
  a = .connect → ∀ t ∈ s.threads, t.pc = .finished

instance (s : NetworkClient) (a : NetAct) : Decidable (s.Alone a) :=
  inferInstanceAs (Decidable (_ → _))

/-! ### Stories -/

/-- What is told about a connection that was established and on which `bs`
has been read. -/
def opened (bs : List UInt8) : List Ev := .connected :: (frames.parse bs).1.map .message

/-- What is told about a connection on which `bs` has been read. -/
inductive Story (bs : List UInt8) : List Ev → Prop where
  | dialling (hbs : bs = []) : Story bs []
  | failed (hbs : bs = []) : Story bs [.disconnected .connectFailed]
  | running (hlegal : (frames.parse bs).2.isSome) : Story bs (opened bs)
  | ended (reason : Reason) (hreason : reason ≠ .connectFailed)
      (hcorrupt : reason = .corruptFrame ↔ (frames.parse bs).2 = none) :
      Story bs (opened bs ++ [.disconnected reason])

/-- Where thread `i` stands, what it has told, and what its parser holds. -/
structure Sound (s : NetworkClient) (i : ℕ) (t : RecvThread) : Prop where
  story : Story (s.streams i) t.log
  early : t.pc = .starting ∨ t.pc = .dialling → t.log = [] ∧ t.parser = {}
  tcp : t.pc = .dialling → s.tcp_ = some i
  running : t.pc = .looping ∨ (∃ k, t.pc = .reading k) →
    t.log = opened (s.streams i) ∧ s.stream_ = some i ∧
      ∃ n, Inbox.Follows ⟨t.parser, (frames.parse (s.streams i)).1, n⟩ (s.streams i) ∧
        (frames.parse (s.streams i)).2.isSome
  stream : ∀ k, t.pc = .reading k → k = i

structure Inv (s : NetworkClient) : Prop where
  fifo : s.raised ++ s.queue_ = s.threads.flatMap RecvThread.log
  last : ∀ i t, s.threads[i]? = some t → t.pc ≠ .finished → i + 1 = s.threads.length
  sound : ∀ i t, s.threads[i]? = some t → s.Sound i t
  fresh : ∀ i, s.threads.length ≤ i → s.streams i = []

variable {s s' : NetworkClient} {i : ℕ} {t t' : RecvThread} {es : List Ev}

theorem flatMap_set_last {α β : Type} {l : List α} {f : α → List β} {x y : α}
    (hx : l[i]? = some x) (hi : i + 1 = l.length) {more : List β} (hf : f y = f x ++ more) :
    (l.set i y).flatMap f = l.flatMap f ++ more := by
  obtain ⟨init, z, rfl⟩ : ∃ init z, l = init ++ [z] := by
    rcases List.eq_nil_or_concat l with rfl | ⟨init, z, h⟩
    · simp at hi
    · exact ⟨init, z, by rw [h, List.concat_eq_append]⟩
  obtain rfl : i = init.length := by simpa using hi
  obtain rfl : z = x := by simpa using hx
  simp [hf]

theorem Story.first {bs : List UInt8} {e : Ev} {es : List Ev} (h : Story bs (e :: es)) :
    e = .connected ∨ ∃ reason, e = .disconnected reason ∧ es = [] := by
  cases h with
  | failed => exact .inr ⟨_, rfl, rfl⟩
  | running | ended => exact .inl rfl

/-- On a connection messages come until the one event that says it is gone. -/
theorem Story.next {bs : List UInt8} {ms : List RawMessage} {e : Ev} {es : List Ev}
    (h : Story bs (.connected :: ms.map .message ++ e :: es)) :
    (∃ m, e = .message m) ∨ ∃ reason, e = .disconnected reason ∧ es = [] := by
  generalize hstory : .connected :: ms.map Ev.message ++ e :: es = story at h
  cases h with
  | dialling => cases hstory
  | failed => cases hstory
  | running =>
      have hmem : e ∈ (frames.parse bs).1.map Ev.message := by
        rw [← (List.cons.inj hstory).2]
        exact List.mem_append_right _ (List.mem_cons_self ..)
      obtain ⟨m, -, rfl⟩ := List.mem_map.mp hmem
      exact .inl ⟨m, rfl⟩
  | ended reason =>
      rcases concat_eq_append_cons (List.cons.inj hstory).2.symm with
        ⟨-, heq, hnil⟩ | ⟨es', -, hopened⟩
      · exact .inr ⟨reason, heq, hnil⟩
      · have hmem : e ∈ (frames.parse bs).1.map Ev.message := by
          rw [hopened]
          exact List.mem_append_right _ (List.mem_cons_self ..)
        obtain ⟨m, -, rfl⟩ := List.mem_map.mp hmem
        exact .inl ⟨m, rfl⟩

theorem Sound.finished {reason : Reason} (h : s.Sound i t) (hmem : .disconnected reason ∈ t.log) :
    t.pc = .finished := by
  have hnot : .disconnected reason ∉ opened (s.streams i) := by simp [opened]
  cases hpc : t.pc with
  | starting =>
      rw [(h.early (.inl hpc)).1] at hmem
      cases hmem
  | dialling =>
      rw [(h.early (.inr hpc)).1] at hmem
      cases hmem
  | looping =>
      rw [(h.running (.inl hpc)).1] at hmem
      exact absurd hmem hnot
  | reading k =>
      rw [(h.running (.inr ⟨k, hpc⟩)).1] at hmem
      exact absurd hmem hnot
  | finished => rfl

/-- A thread that has ended is known by its story alone. -/
theorem sound_finished (hpc : t.pc = .finished) (hstory : Story (s.streams i) t.log) :
    s.Sound i t := by
  obtain ⟨pc, parser, log⟩ := t
  obtain rfl : pc = .finished := hpc
  exact ⟨hstory, (by rintro (h | h) <;> cases h), nofun, (by rintro (h | ⟨_, h⟩) <;> cases h),
    nofun⟩

/-- The rule for a move of the thread that is not finished. Whatever changed
besides belongs to its connection. -/
theorem Inv.move (h : s.Inv) (ht : s.threads[i]? = some t) (hpc : t.pc ≠ .finished)
    (hqueue : s'.queue_ = s.queue_ ++ es) (hraised : s'.raised = s.raised)
    (hthreads : s'.threads = s.threads.set i t') (hlog : t'.log = t.log ++ es)
    (hstreams : ∀ j ≠ i, s'.streams j = s.streams j) (hsound : s'.Sound i t') : s'.Inv := by
  have hi := h.last i t ht hpc
  have hlen : s'.threads.length = s.threads.length := by rw [hthreads, List.length_set]
  -- the other threads are finished, so all there is to know of them is their story
  have hget : ∀ j u, s'.threads[j]? = some u →
      (j = i ∧ u = t') ∨ (j ≠ i ∧ s.threads[j]? = some u ∧ u.pc = .finished) := by
    intro j u hu
    rw [hthreads] at hu
    by_cases hj : j = i
    · subst hj
      rw [List.getElem?_set_self (by omega)] at hu
      exact .inl ⟨rfl, (Option.some.inj hu).symm⟩
    · rw [List.getElem?_set_ne (Ne.symm hj)] at hu
      refine .inr ⟨hj, hu, ?_⟩
      by_contra hne
      have := h.last j u hu hne
      omega
  refine ⟨?_, fun j u hu hne => ?_, fun j u hu => ?_, fun j hj => ?_⟩
  · rw [hraised, hqueue, hthreads, flatMap_set_last ht hi hlog, ← List.append_assoc, h.fifo]
  · rcases hget j u hu with ⟨rfl, rfl⟩ | ⟨-, -, hfin⟩
    · omega
    · exact absurd hfin hne
  · rcases hget j u hu with ⟨rfl, rfl⟩ | ⟨hne, hu, hfin⟩
    · exact hsound
    · have hstory := (h.sound j u hu).story
      rw [← hstreams j hne] at hstory
      exact sound_finished hfin hstory
  · rw [hstreams j (by omega)]
    exact h.fresh j (by omega)

theorem story_ended {reason : Reason} {bs : List UInt8} (hreason : reason ≠ .connectFailed)
    (hcorrupt : reason ≠ .corruptFrame) (hlegal : (frames.parse bs).2.isSome) :
    Story bs (opened bs ++ [.disconnected reason]) := by
  refine .ended reason hreason ⟨fun h => absurd h hcorrupt, fun h => ?_⟩
  rw [h] at hlegal
  cases hlegal

theorem Inv.created (h : s.Inv) (ht : s.threads[i]? = some t) (hpc : t.pc = .starting) :
    ({ s with tcp_ := some i }.move i { t with pc := .dialling } []).Inv := by
  have hsound := h.sound i t ht
  obtain ⟨hlog, hparser⟩ := hsound.early (.inl hpc)
  refine h.move ht (by rw [hpc]; nofun) rfl rfl rfl rfl (fun _ _ => rfl) ?_
  rw [List.append_nil]
  exact ⟨hsound.story, fun _ => ⟨hlog, hparser⟩, fun _ => rfl,
    (by rintro (hp | ⟨_, hp⟩) <;> cases hp), nofun⟩

theorem Inv.established (h : s.Inv) (ht : s.threads[i]? = some t) (hpc : t.pc = .dialling) :
    ({ s with stream_ := s.tcp_ }.move i { t with pc := .looping } [.connected]).Inv := by
  have hsound := h.sound i t ht
  obtain ⟨hlog, hparser⟩ := hsound.early (.inr hpc)
  have hbytes : s.streams i = [] := by
    have hstory := hsound.story
    rw [hlog] at hstory
    cases hstory with
    | dialling hbs => exact hbs
  have hnil : frames.parse [] = ([], some []) := Splitter.parse_more (by rfl)
  have hopened : opened (s.streams i) = [.connected] := by rw [hbytes, opened, hnil]; rfl
  have hlegal : (frames.parse (s.streams i)).2.isSome := by rw [hbytes, hnil]; rfl
  refine h.move ht (by rw [hpc]; nofun) rfl rfl rfl rfl (fun _ _ => rfl) ?_
  rw [hlog, List.nil_append, ← hopened]
  refine ⟨.running hlegal, (by rintro (hp | hp) <;> cases hp), nofun,
    fun _ => ⟨rfl, hsound.tcp hpc, 0, ?_, hlegal⟩, nofun⟩
  have hfollows := Inbox.follows_init
  show Inbox.Follows ⟨t.parser, (frames.parse (s.streams i)).1, 0⟩ (s.streams i)
  rw [hparser, hbytes, hnil]
  exact hfollows

theorem Inv.refused (h : s.Inv) (ht : s.threads[i]? = some t) (hpc : t.pc = .dialling) :
    (s.move i { t with pc := .finished } [.disconnected .connectFailed]).Inv := by
  have hsound := h.sound i t ht
  obtain ⟨hlog, -⟩ := hsound.early (.inr hpc)
  refine h.move ht (by rw [hpc]; nofun) rfl rfl rfl rfl (fun _ _ => rfl) (sound_finished rfl ?_)
  have hstory := hsound.story
  rw [hlog] at hstory
  dsimp only
  rw [hlog, List.nil_append]
  cases hstory with
  | dialling hbs => exact .failed hbs

theorem Inv.check (h : s.Inv) (ht : s.threads[i]? = some t) (hpc : t.pc = .looping) :
    (s.advance i (.check i) t).Inv := by
  have hsound := h.sound i t ht
  obtain ⟨hlog, hstream, n, hfollows, hlegal⟩ := hsound.running (.inl hpc)
  simp only [advance, hpc]
  split
  · refine h.move ht (by rw [hpc]; nofun) rfl rfl rfl rfl (fun _ _ => rfl) (sound_finished rfl ?_)
    dsimp only
    rw [List.append_nil]
    exact hsound.story
  · rw [hstream]
    refine h.move ht (by rw [hpc]; nofun) rfl rfl rfl rfl (fun _ _ => rfl) ?_
    rw [List.append_nil]
    exact ⟨hsound.story, (by rintro (hp | hp) <;> cases hp), nofun,
      fun _ => ⟨hlog, hstream, n, hfollows, hlegal⟩, fun k hk => (RecvPc.reading.inj hk).symm⟩

theorem Inv.onException (h : s.Inv) (ht : s.threads[i]? = some t) {k : ℕ}
    (hpc : t.pc = .reading k) : (s.onException i t).Inv := by
  have hsound := h.sound i t ht
  obtain ⟨hlog, -, -, -, hlegal⟩ := hsound.running (.inr ⟨k, hpc⟩)
  refine h.move ht (by rw [hpc]; nofun) rfl rfl rfl rfl (fun _ _ => rfl) (sound_finished rfl ?_)
  dsimp only
  split
  · rw [List.append_nil]
    exact hsound.story
  · rw [hlog]
    exact story_ended (by decide) (by decide) hlegal

theorem Inv.onBytes (h : s.Inv) (ht : s.threads[i]? = some t) {k : ℕ}
    (hpc : t.pc = .reading k) {bs : List UInt8} (hlen : bs.length ≤ readBufferLen) :
    (s.onBytes i k t bs).Inv := by
  have hsound := h.sound i t ht
  obtain ⟨hlog, hstream, n, hfollows, hlegal⟩ := hsound.running (.inr ⟨k, hpc⟩)
  obtain rfl := hsound.stream k hpc
  have hne : t.pc ≠ .finished := by rw [hpc]; nofun
  unfold NetworkClient.onBytes
  split
  · refine h.move ht hne rfl rfl rfl rfl (fun _ _ => rfl) (sound_finished rfl ?_)
    dsimp only
    rw [hlog]
    exact story_ended (by decide) (by decide) hlegal
  · have hfits : bs.length ≤ 2 ^ 30 - 65540 := by rw [readBufferLen] at hlen; omega
    obtain ⟨inbox, hfeed, hnext⟩ := hfollows.feed hfits
    obtain ⟨p, happend, rfl⟩ := Option.map_eq_some_iff.mp hfeed
    dsimp only at happend hnext
    have hmore := Splitter.parse_append (S := frames) (s.streams k) bs
    obtain ⟨rest, hrest⟩ := Option.isSome_iff_exists.mp hlegal
    -- the frames that this round completes come behind those taken before
    have htaken := hnext.taken
    have hopened : opened (s.streams k ++ bs) = t.log ++
        (p.takeAll (p.size.toNatClampNeg + 1)).1.map .message := by
      rw [opened, ← htaken, hlog, opened, List.map_append, List.cons_append]
    have hupdate : Function.update s.streams k (s.streams k ++ bs) k = s.streams k ++ bs :=
      Function.update_self ..
    have hothers : ∀ j ≠ k, Function.update s.streams k (s.streams k ++ bs) j = s.streams j :=
      fun j hj => Function.update_of_ne hj _ _
    rw [happend]
    dsimp only
    have hverdict := hnext.rest
    split
    · next hcorrupt =>
        refine h.move ht hne rfl rfl rfl rfl hothers (sound_finished rfl ?_)
        dsimp only
        rw [← List.append_assoc, ← hopened]
        show Story (Function.update s.streams k (s.streams k ++ bs) k) _
        rw [hupdate]
        cases hparse : (frames.parse (s.streams k ++ bs)).2 with
        | none => exact .ended _ (by decide) (by simp [hparse])
        | some rest' =>
            rw [hparse] at hverdict
            rw [hverdict.1] at hcorrupt
            cases hcorrupt
    · next hclean =>
        have hlegal' : (frames.parse (s.streams k ++ bs)).2.isSome := by
          cases hparse : (frames.parse (s.streams k ++ bs)).2 with
          | none =>
              rw [hparse] at hverdict
              exact absurd hverdict.1 hclean
          | some rest' => rfl
        refine h.move ht hne rfl rfl rfl rfl hothers ?_
        dsimp only
        rw [← hopened]
        refine ⟨?_, (by rintro (hp | hp) <;> cases hp), nofun, fun _ => ?_, nofun⟩
        · show Story (Function.update s.streams k (s.streams k ++ bs) k) _
          rw [hupdate]
          exact .running hlegal'
        · show _ = opened (Function.update s.streams k (s.streams k ++ bs) k) ∧ s.stream_ = some k ∧
            ∃ n, Inbox.Follows ⟨(p.takeAll (p.size.toNatClampNeg + 1)).2,
              (frames.parse (Function.update s.streams k (s.streams k ++ bs) k)).1, n⟩
              (Function.update s.streams k (s.streams k ++ bs) k) ∧
              (frames.parse (Function.update s.streams k (s.streams k ++ bs) k)).2.isSome
          rw [hupdate]
          refine ⟨rfl, hstream, ?_⟩
          rw [← htaken]
          exact ⟨_, hnext, hlegal'⟩

/-- A thread that was just started. -/
theorem sound_started (hbytes : s.streams i = []) : s.Sound i {} := by
  have hstory : Story (s.streams i) [] := .dialling hbytes
  exact ⟨hstory, fun _ => ⟨rfl, rfl⟩, nofun, (by rintro (h | ⟨_, h⟩) <;> cases h), nofun⟩

theorem Inv.connected (h : s.Inv) (hover : ∀ t ∈ s.threads, t.pc = .finished) :
    (s.step .connect).Inv := by
  have hget : ∀ (j : ℕ) (u : RecvThread), (s.threads ++ [({} : RecvThread)])[j]? = some u →
      (s.threads[j]? = some u ∧ u.pc = .finished) ∨ (j = s.threads.length ∧ u = {}) := by
    intro j u hu
    rw [List.getElem?_append] at hu
    split at hu
    · exact .inl ⟨hu, hover u (List.mem_of_getElem? hu)⟩
    · next hj =>
        have hone := List.getElem?_eq_some_iff.mp hu
        have hj' : j - s.threads.length < 1 := hone.1
        refine .inr ⟨by omega, hone.2.symm.trans ?_⟩
        exact List.getElem_singleton _
  refine ⟨?_, fun j u hu hne => ?_, fun j u hu => ?_, fun j hj => ?_⟩
  · show s.raised ++ s.queue_ = (s.threads ++ [({} : RecvThread)]).flatMap RecvThread.log
    rw [h.fifo, List.flatMap_append]
    exact (List.append_nil _).symm
  · rcases hget j u hu with ⟨-, hfin⟩ | ⟨rfl, -⟩
    · exact absurd hfin hne
    · have hlen : (s.step .connect).threads.length = s.threads.length + 1 := List.length_append ..
      exact hlen.symm
  · rcases hget j u hu with ⟨hold, hfin⟩ | ⟨rfl, rfl⟩
    · exact sound_finished hfin (h.sound j u hold).story
    · exact sound_started (h.fresh _ le_rfl)
  · have hlen : (s.step .connect).threads.length = s.threads.length + 1 := List.length_append ..
    exact h.fresh j (by omega)

theorem Inv.advance (h : s.Inv) (ht : s.threads[i]? = some t) (a : NetAct) :
    (s.advance i a t).Inv := by
  unfold NetworkClient.advance
  split
  · next hpc => exact h.created ht hpc
  · next hpc => exact h.established ht hpc
  · next hpc => exact h.refused ht hpc
  · next hpc =>
      have hcheck := h.check ht hpc
      simp only [NetworkClient.advance, hpc] at hcheck
      exact hcheck
  · next hpc =>
      split
      · next hlen => exact h.onBytes ht hpc hlen
      · exact h
  · next hpc => exact h.onException ht hpc
  · exact h

theorem Inv.pump (h : s.Inv) (maxEvents : ℕ) : (s.pump maxEvents).Inv := by
  refine ⟨?_, h.last, fun j u hu => ?_, h.fresh⟩
  · show (s.raised ++ s.queue_.take maxEvents) ++ s.queue_.drop maxEvents = _
    rw [List.append_assoc, List.take_append_drop]
    exact h.fifo
  · have hsound := h.sound j u hu
    exact ⟨hsound.story, hsound.early, hsound.tcp, hsound.running, hsound.stream⟩

theorem Inv.step (h : s.Inv) (a : NetAct) (halone : s.Alone a) : (s.step a).Inv := by
  cases a with
  | connect => exact h.connected (halone rfl)
  | create j | established j _ | check j | read j _ =>
      simp only [NetworkClient.step]
      split
      · next ht => exact h.advance ht _
      · exact h
  | pump maxEvents => exact h.pump maxEvents
  | close =>
      refine ⟨h.fifo, h.last, fun j u hu => ?_, h.fresh⟩
      have hsound := h.sound j u hu
      exact ⟨hsound.story, hsound.early, hsound.tcp, hsound.running, hsound.stream⟩

theorem inv_init : ({} : NetworkClient).Inv := ⟨rfl, nofun, nofun, fun _ _ => rfl⟩

/-! ### How a story ends -/

/-- Nobody has called `Close`, and every thread that ended has said so. -/
structure Told (s : NetworkClient) : Prop where
  closed : s.closed_ = false
  ended : ∀ t ∈ s.threads, t.pc = .finished → ∃ init r, t.log = init ++ [.disconnected r]

theorem Told.move (h : s.Told)
    (hended : t.pc = .finished → ∃ init r, es = init ++ [.disconnected r]) :
    (s.move i t es).Told := by
  refine ⟨h.closed, fun u hu hfin => ?_⟩
  rcases List.mem_or_eq_of_mem_set hu with hu | rfl
  · exact h.ended u hu hfin
  · obtain ⟨init, r, rfl⟩ := hended hfin
    exact ⟨t.log ++ init, r, (List.append_assoc ..).symm⟩

theorem Told.advance (h : s.Told) (a : NetAct) (t : RecvThread) : (s.advance i a t).Told := by
  unfold NetworkClient.advance
  split
  · exact Told.move (s := { s with tcp_ := some i }) ⟨h.closed, h.ended⟩ nofun
  · exact Told.move (s := { s with stream_ := s.tcp_ }) ⟨h.closed, h.ended⟩ nofun
  · exact h.move fun _ => ⟨[], _, rfl⟩
  · rw [if_neg (by rw [h.closed]; decide)]
    split
    · exact h.move nofun
    · exact h
  · unfold NetworkClient.onBytes
    split_ifs
    · exact h.move fun _ => ⟨[], _, rfl⟩
    · split
      · exact h
      · dsimp only
        split
        · exact Told.move (s := { s with streams := _ }) ⟨h.closed, h.ended⟩ fun _ => ⟨_, _, rfl⟩
        · exact Told.move (s := { s with streams := _ }) ⟨h.closed, h.ended⟩ nofun
    · exact h
  · refine h.move fun _ => ?_
    rw [if_neg (by rw [h.closed]; decide)]
    exact ⟨[], _, rfl⟩
  · exact h

theorem Told.step (h : s.Told) {a : NetAct} (ha : a ≠ .close) : (s.step a).Told := by
  cases a with
  | connect =>
      refine ⟨rfl, fun t ht hfin => ?_⟩
      rcases List.mem_append.mp ht with ht | ht
      · exact h.ended t ht hfin
      · rw [List.mem_singleton.mp ht] at hfin
        cases hfin
  | create j | established j _ | check j | read j _ =>
      simp only [NetworkClient.step]
      split
      · exact h.advance _ _
      · exact h
  | pump => exact ⟨h.closed, h.ended⟩
  | close => exact absurd rfl ha

/-! ### What the main thread may rely on -/

/-- `Write` goes to the connection that was announced last. -/
def Wired (s : NetworkClient) : Prop :=
  ∀ i t, s.threads[i]? = some t → i + 1 = s.threads.length → .connected ∈ t.log →
    s.stream_ = some i

theorem Wired.move (hi : i + 1 = s.threads.length) (hthreads : s'.threads = s.threads.set i t')
    (hlog : .connected ∈ t'.log → s'.stream_ = some i) : s'.Wired := by
  intro j u hu hj hmem
  rw [hthreads, List.length_set] at hj
  obtain rfl : j = i := by omega
  rw [hthreads, List.getElem?_set_self (by omega)] at hu
  obtain rfl := Option.some.inj hu
  exact hlog hmem

theorem Wired.advance (h : s.Wired) (hinv : s.Inv) (ht : s.threads[i]? = some t) (a : NetAct) :
    (s.advance i a t).Wired := by
  by_cases hfin : t.pc = .finished
  · unfold NetworkClient.advance
    rw [hfin]
    exact h
  have hi := hinv.last i t ht hfin
  have hmore : ∀ {es : List Ev}, .connected ∉ es → .connected ∈ t.log ++ es → s.stream_ = some i :=
    fun hes hmem => h i t ht hi ((List.mem_append.mp hmem).resolve_right hes)
  unfold NetworkClient.advance
  split
  · exact Wired.move hi rfl (hmore nofun)
  · next hpc => exact Wired.move hi rfl fun _ => (hinv.sound i t ht).tcp hpc
  · exact Wired.move hi rfl (hmore (by simp))
  · split
    · exact Wired.move hi rfl (hmore nofun)
    · split
      · exact Wired.move hi rfl (hmore nofun)
      · exact h
  · unfold NetworkClient.onBytes
    split_ifs
    · exact Wired.move hi rfl (hmore (by simp))
    · split
      · exact h
      · dsimp only
        split
        · exact Wired.move hi rfl (hmore (by simp))
        · exact Wired.move hi rfl (hmore (by simp))
    · exact h
  · refine Wired.move hi rfl (hmore ?_)
    split <;> simp
  · exact h

theorem advance_streams (hinv : s.Inv) (ht : s.threads[i]? = some t) (a : NetAct) (j : ℕ) :
    (s.advance i a t).streams j = s.streams j ∨ j = i ∧
      ∃ i' bs, a = .read i' (some bs) ∧ (s.advance i a t).streams j = s.streams j ++ bs := by
  unfold NetworkClient.advance
  split
  · exact .inl rfl
  · exact .inl rfl
  · exact .inl rfl
  · split
    · exact .inl rfl
    · split <;> exact .inl rfl
  · next k i' bs hpc =>
      obtain rfl := (hinv.sound i t ht).stream k hpc
      unfold NetworkClient.onBytes
      split_ifs
      · exact .inl rfl
      · split
        · exact .inl rfl
        · have hgrown : Function.update s.streams k (s.streams k ++ bs) j = s.streams j ∨
              j = k ∧ ∃ i'' bs', NetAct.read i' (some bs) = .read i'' (some bs') ∧
                Function.update s.streams k (s.streams k ++ bs) j = s.streams j ++ bs' := by
            by_cases hj : j = k
            · subst hj
              exact .inr ⟨rfl, i', bs, rfl, Function.update_self ..⟩
            · exact .inl (Function.update_of_ne hj _ _)
          dsimp only
          split
          · exact hgrown
          · exact hgrown
      · exact .inl rfl
  · exact .inl rfl
  · exact .inl rfl

/-- Bytes reach the stream of the thread that reads them. -/
theorem streams_step (hinv : s.Inv) (a : NetAct) (j : ℕ) :
    (s.step a).streams j = s.streams j ∨
      ∃ bs, a = .read j (some bs) ∧ (s.step a).streams j = s.streams j ++ bs := by
  cases a with
  | connect | pump | close => exact .inl rfl
  | create i | established i _ | check i | read i _ =>
      simp only [NetworkClient.step]
      split
      · next t ht =>
          rcases advance_streams hinv ht _ j with hsame | ⟨rfl, i', bs, ha, hmore⟩
          · exact .inl hsame
          · cases ha <;> exact .inr ⟨bs, rfl, hmore⟩
      · exact .inl rfl

theorem advance_finished (hpc : t.pc = .finished) (a : NetAct) : s.advance i a t = s := by
  unfold NetworkClient.advance
  rw [hpc]

theorem advance_frame (s : NetworkClient) (i : ℕ) (a : NetAct) (t : RecvThread) :
    (s.advance i a t).raised = s.raised ∧ ((s.advance i a t).threads = s.threads ∨
      ∃ t', (s.advance i a t).threads = s.threads.set i t') := by
  unfold NetworkClient.advance
  split
  · exact ⟨rfl, .inr ⟨_, rfl⟩⟩
  · exact ⟨rfl, .inr ⟨_, rfl⟩⟩
  · exact ⟨rfl, .inr ⟨_, rfl⟩⟩
  · split
    · exact ⟨rfl, .inr ⟨_, rfl⟩⟩
    · split
      · exact ⟨rfl, .inr ⟨_, rfl⟩⟩
      · exact ⟨rfl, .inl rfl⟩
  · unfold NetworkClient.onBytes
    split_ifs
    · exact ⟨rfl, .inr ⟨_, rfl⟩⟩
    · split
      · exact ⟨rfl, .inl rfl⟩
      · dsimp only
        split <;> exact ⟨rfl, .inr ⟨_, rfl⟩⟩
    · exact ⟨rfl, .inl rfl⟩
  · exact ⟨rfl, .inr ⟨_, rfl⟩⟩
  · exact ⟨rfl, .inl rfl⟩

/-- Only the last thread can take a step. -/
theorem step_thread (hinv : s.Inv) {a : NetAct} (ha : a.isThread = true) :
    (s.step a).raised = s.raised ∧ ((s.step a) = s ∨
      ∃ i t t', s.threads[i]? = some t ∧ t.pc ≠ .finished ∧ i + 1 = s.threads.length ∧
        (s.step a).threads = s.threads.set i t') := by
  cases a with
  | connect | pump | close => cases ha
  | create j | established j _ | check j | read j _ =>
      simp only [NetworkClient.step]
      split
      · next t ht =>
          by_cases hfin : t.pc = .finished
          · rw [advance_finished hfin]
            exact ⟨rfl, .inl rfl⟩
          have hj := hinv.last j t ht hfin
          obtain ⟨hraised, hthreads | ⟨t', hthreads⟩⟩ := advance_frame s j _ t
          · obtain ⟨hlt, hget⟩ := List.getElem?_eq_some_iff.mp ht
            refine ⟨hraised, .inr ⟨j, t, s.threads[j], ht, hfin, hj, hthreads.trans ?_⟩⟩
            exact (List.set_getElem_self hlt).symm
          · exact ⟨hraised, .inr ⟨j, t, t', ht, hfin, hj, hthreads⟩⟩
      · exact ⟨rfl, .inl rfl⟩

theorem Wired.step (h : s.Wired) (hinv : s.Inv) {a : NetAct} (ha : a.isThread = true) :
    (s.step a).Wired := by
  cases a with
  | connect | pump | close => cases ha
  | create j | established j _ | check j | read j _ =>
      simp only [NetworkClient.step]
      split
      · next ht => exact h.advance hinv ht _
      · exact h

/-- Only `Connect` starts a thread. -/
theorem length_step (a : NetAct) (ha : a ≠ .connect) (s : NetworkClient) :
    (s.step a).threads.length = s.threads.length := by
  cases a with
  | connect => exact absurd rfl ha
  | pump | close => rfl
  | create i | established i _ | check i | read i _ =>
      simp only [NetworkClient.step]
      split
      · next t _ =>
          obtain ⟨-, hsame | ⟨t', hset⟩⟩ := advance_frame s i _ t
          · rw [hsame]
          · rw [hset, List.length_set]
      · rfl

theorem step_over (hinv : s.Inv) (hover : ∀ t ∈ s.threads, t.pc = .finished) {a : NetAct}
    (ha : a.isThread = true) : s.step a = s := by
  obtain ⟨-, hsame | ⟨i, t, -, ht, hfin, -⟩⟩ := step_thread hinv ha
  · exact hsame
  · exact absurd (hover t (List.mem_of_getElem? ht)) hfin

/-- If `Connect` is called only when no receive thread is left, then however
the threads take turns and however the network cuts the bytes, the queue tells
the story of one connection after the other, and each story is that of the
bytes that were read. Unless `Close` was called, all stories but the last end
with the news that the connection is gone. -/
theorem one_story_per_connection {acts : List NetAct} (halone : Along step Alone {} acts) :
    let s := acts.foldl step {}
    ∃ stories : List (List Ev), s.raised ++ s.queue_ = stories.flatten ∧
      stories.length = s.threads.length ∧
      (∀ i story, stories[i]? = some story → Story (s.streams i) story) ∧
      (.close ∉ acts → ∀ story ∈ stories.dropLast,
        ∃ init r, story = init ++ [.disconnected r]) := by
  intro s
  have hinv : s.Inv := invariant_run (fun s a h hok => h.step a hok) inv_init halone
  refine ⟨s.threads.map RecvThread.log, ?_, List.length_map .., fun i story hi => ?_,
    fun hclose => ?_⟩
  · rw [hinv.fifo, List.flatMap_def]
  · rw [List.getElem?_map] at hi
    obtain ⟨t, ht, rfl⟩ := Option.map_eq_some_iff.mp hi
    exact (hinv.sound i t ht).story
  · have htold : s.Told := by
      have hopen : Along step (fun _ a => a ≠ .close) {} acts :=
        along_of_forall (fun a ha _ => ne_of_mem_of_not_mem ha hclose) _
      exact invariant_run (I := Told) (fun s a h hok => h.step hok) ⟨rfl, nofun⟩ hopen
    intro story hstory
    rw [← List.map_dropLast] at hstory
    obtain ⟨t, ht, rfl⟩ := List.mem_map.mp hstory
    obtain ⟨i, hi⟩ := List.getElem?_of_mem ht
    have hlt := (List.getElem?_eq_some_iff.mp hi).1
    rw [List.getElem?_dropLast, if_pos (by rwa [List.length_dropLast] at hlt)] at hi
    -- only the last thread can still be at work
    refine htold.ended t (List.dropLast_subset _ ht) ?_
    by_contra hne
    have hlast := hinv.last i t hi hne
    rw [List.length_dropLast] at hlt
    omega

/-- A message in two pieces, a peer that closes, and a second attempt that
fails. -/
theorem one_story_per_connection_twice :
    let acts : List NetAct :=
      [.connect, .create 0, .established 0 true, .check 0, .read 0 (some [0, 0, 0, 3, 0]),
        .check 0, .read 0 (some [2, 9, 0]), .pump 64, .check 0, .read 0 (some []), .connect,
        .create 1, .established 1 false]
    let s := acts.foldl step {}
    Along step Alone {} acts ∧
      s.raised ++ s.queue_ = [.connected, .message ⟨2, [9]⟩, .disconnected .peerClosed,
        .disconnected .connectFailed] ∧
      ∃ stories : List (List Ev), s.raised ++ s.queue_ = stories.flatten ∧
        stories.length = s.threads.length ∧
        (∀ i story, stories[i]? = some story → Story (s.streams i) story) ∧
        (.close ∉ acts →
          ∀ story ∈ stories.dropLast, ∃ init r, story = init ++ [.disconnected r]) := by
  intro acts
  have halone : Along step Alone {} acts := by decide +kernel
  exact ⟨halone, by decide +kernel, one_story_per_connection halone⟩

/-- Without the condition a thread that `Close` has stopped announces the end
of the connection that was opened after it. -/
example :
    let acts : List NetAct :=
      [.connect, .create 0, .established 0 true, .check 0, .close, .connect, .create 1,
        .established 1 true, .check 1, .read 0 none]
    let s := acts.foldl step {}
    s.queue_ = [.connected, .connected, .disconnected .recvError] ∧
      s.threads.map RecvThread.pc = [.finished, .reading 1] := by
  decide +kernel

end NetworkClient

end GameServer.Client
