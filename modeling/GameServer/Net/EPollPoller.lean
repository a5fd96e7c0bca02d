import GameServer.Lib.Run
import GameServer.Lib.UnorderedMap
import GameServer.Net.TcpConnection

/-!
The registration of channels: `src/net/EPollPoller.cc` and the interest masks
of `src/net/Channel.cc`.

A channel is known by its file descriptor. The poller decides by the index of
the channel which operation it issues, the kernel builds its interest list
from the operations. The two always agree: a descriptor is in the list
exactly while its channel is `kAdded`, with the mask of the channel, and no
operation is refused (`Agrees`).

That the list mirrors the interest is another matter. `updateChannel` adds a
channel that is not registered whatever its mask, so a call that leaves the
mask of such a channel zero puts it back into the list with nothing to wait
for: a second `disableAll`, or one after `removeChannel`.
-/

namespace GameServer.Net.EPoll

open GameServer.Lib

/-! ### The kernel's interest list -/

abbrev Mask := BitVec 32

def EPOLLIN : Mask := 0x001

def EPOLLPRI : Mask := 0x002

def EPOLLOUT : Mask := 0x004

def EPOLLET : Mask := 0x80000000

inductive CtlOp where
  | EPOLL_CTL_ADD
  | EPOLL_CTL_MOD
  | EPOLL_CTL_DEL
deriving DecidableEq

/-- A call of `epoll_ctl`. -/
structure Ctl where
  op : CtlOp
  fd : ℕ
  events : Mask
deriving DecidableEq

abbrev InterestList := ℕ → Option Mask

/-- `ADD` needs a descriptor that is not registered, the others one that is. -/
def Ctl.Valid (l : InterestList) (c : Ctl) : Prop :=
  match c.op with
  | .EPOLL_CTL_ADD => l c.fd = none
  | .EPOLL_CTL_MOD | .EPOLL_CTL_DEL => l c.fd ≠ none

/-- An operation that is not valid fails and changes nothing. -/
def Ctl.apply (l : InterestList) (c : Ctl) : InterestList :=
  match c.op, l c.fd with
  | .EPOLL_CTL_ADD, none | .EPOLL_CTL_MOD, some _ => Function.update l c.fd (some c.events)
  | .EPOLL_CTL_DEL, some _ => Function.update l c.fd none
  | _, _ => l

def interest (issued : List Ctl) : InterestList := issued.foldl Ctl.apply fun _ => none

def AllValid (issued : List Ctl) : Prop := Along Ctl.apply Ctl.Valid (fun _ => none) issued

theorem interest_concat (issued : List Ctl) (c : Ctl) :
    interest (issued ++ [c]) = Ctl.apply (interest issued) c := by
  simp [interest]

theorem apply_add {l : InterestList} {fd : ℕ} (m : Mask) (h : l fd = none) :
    Ctl.apply l ⟨.EPOLL_CTL_ADD, fd, m⟩ = Function.update l fd (some m) := by
  simp only [Ctl.apply, h]

theorem apply_mod {l : InterestList} {fd : ℕ} (m : Mask) (h : l fd ≠ none) :
    Ctl.apply l ⟨.EPOLL_CTL_MOD, fd, m⟩ = Function.update l fd (some m) := by
  obtain ⟨old, hold⟩ := Option.ne_none_iff_exists'.mp h
  simp only [Ctl.apply, hold]

theorem apply_del {l : InterestList} {fd : ℕ} (m : Mask) (h : l fd ≠ none) :
    Ctl.apply l ⟨.EPOLL_CTL_DEL, fd, m⟩ = Function.update l fd none := by
  obtain ⟨old, hold⟩ := Option.ne_none_iff_exists'.mp h
  simp only [Ctl.apply, hold]

theorem allValid_concat {issued : List Ctl} {c : Ctl} (h : AllValid issued)
    (hc : c.Valid (interest issued)) : AllValid (issued ++ [c]) :=
  along_append.mpr ⟨h, hc, trivial⟩

/-! ### Channels and the poller -/

structure Channel where
  events : Mask := 0
  index : Index := .kNew
deriving DecidableEq

/-- What is called on a channel, by its descriptor. -/
inductive Call where
  | enableReading (fd : ℕ)
  | enableWriting (fd : ℕ)
  | disableWriting (fd : ℕ)
  | disableAll (fd : ℕ)
  | removeChannel (fd : ℕ)
deriving DecidableEq

def Call.fd : Call → ℕ
  | enableReading fd | enableWriting fd | disableWriting fd | disableAll fd | removeChannel fd => fd

/-- `channel` are the channels of the loop, `channels` is the table of the
poller and `issued` the calls of `epoll_ctl`. -/
structure EPollPoller where
  channel : ℕ → Channel := fun _ => {}
  channels : UnorderedMap ℕ ℕ := ∅
  issued : List Ctl := []

namespace EPollPoller

def update (op : CtlOp) (fd : ℕ) (p : EPollPoller) : EPollPoller :=
  { p with issued := p.issued ++ [{ op := op, fd := fd, events := (p.channel fd).events }] }

def setIndex (index : Index) (fd : ℕ) (p : EPollPoller) : EPollPoller :=
  { p with channel := Function.update p.channel fd { p.channel fd with index := index } }

def setEvents (events : Mask) (fd : ℕ) (p : EPollPoller) : EPollPoller :=
  { p with channel := Function.update p.channel fd { p.channel fd with events := events } }

def updateChannel (fd : ℕ) (p : EPollPoller) : EPollPoller :=
  match (p.channel fd).index with
  | .kNew | .kDeleted =>
      (setIndex .kAdded fd { p with channels := p.channels.insert fd fd }).update .EPOLL_CTL_ADD fd
  | .kAdded =>
      if (p.channel fd).events = 0 then (p.update .EPOLL_CTL_DEL fd).setIndex .kDeleted fd
      else p.update .EPOLL_CTL_MOD fd

def removeChannel (fd : ℕ) (p : EPollPoller) : EPollPoller :=
  let p := { p with channels := p.channels.erase fd }
  let p := if (p.channel fd).index = .kAdded then p.update .EPOLL_CTL_DEL fd else p
  p.setIndex .kNew fd

def enableReading (fd : ℕ) (p : EPollPoller) : EPollPoller :=
  (p.setEvents ((p.channel fd).events ||| (EPOLLIN ||| EPOLLPRI ||| EPOLLET)) fd).updateChannel fd

def enableWriting (fd : ℕ) (p : EPollPoller) : EPollPoller :=
  (p.setEvents ((p.channel fd).events ||| EPOLLOUT) fd).updateChannel fd

def disableWriting (fd : ℕ) (p : EPollPoller) : EPollPoller :=
  (p.setEvents ((p.channel fd).events &&& ~~~EPOLLOUT) fd).updateChannel fd

def disableAll (fd : ℕ) (p : EPollPoller) : EPollPoller :=
  (p.setEvents 0 fd).updateChannel fd

def call (p : EPollPoller) : Call → EPollPoller
  | .enableReading fd => p.enableReading fd
  | .enableWriting fd => p.enableWriting fd
  | .disableWriting fd => p.disableWriting fd
  | .disableAll fd => p.disableAll fd
  | .removeChannel fd => p.removeChannel fd

end EPollPoller

/-- The mask a call leaves behind; `removeChannel` does not touch it. -/
def Call.mask : Call → Mask → Mask
  | enableReading _, m => m ||| (EPOLLIN ||| EPOLLPRI ||| EPOLLET)
  | enableWriting _, m => m ||| EPOLLOUT
  | disableWriting _, m => m &&& ~~~EPOLLOUT
  | disableAll _, _ => 0
  | removeChannel _, m => m

def Call.isRemove : Call → Bool
  | removeChannel _ => true
  | _ => false

namespace EPollPoller

variable {p : EPollPoller}

/-- The four calls that change the mask do so and update the registration. -/
theorem call_eq_updateChannel (p : EPollPoller) {c : Call} (h : c.isRemove = false) :
    p.call c = (p.setEvents (c.mask (p.channel c.fd).events) c.fd).updateChannel c.fd := by
  cases c with
  | removeChannel fd => cases h
  | enableReading fd | enableWriting fd | disableWriting fd | disableAll fd => rfl

/-! ### The kernel agrees with the indices -/

/-- A descriptor is registered while its channel is `kAdded`, and with the
mask of the channel; a channel that is `kNew` is not in the table. -/
structure Agrees (p : EPollPoller) : Prop where
  interest_eq : ∀ fd, interest p.issued fd =
    if (p.channel fd).index = .kAdded then some (p.channel fd).events else none
  valid : AllValid p.issued
  table : ∀ fd, p.channels.lookup fd = if (p.channel fd).index = .kNew then none else some fd

theorem agrees_init : Agrees {} := ⟨fun _ => rfl, trivial, fun _ => rfl⟩

theorem Agrees.registered (h : p.Agrees) {fd : ℕ} (hadded : (p.channel fd).index = .kAdded) :
    interest p.issued fd ≠ none := by
  rw [h.interest_eq, if_pos hadded]
  exact Option.some_ne_none _

theorem Agrees.unregistered (h : p.Agrees) {fd : ℕ} (hadded : (p.channel fd).index ≠ .kAdded) :
    interest p.issued fd = none := by
  rw [h.interest_eq, if_neg hadded]

/-- One channel changes, and the list and the table are changed to match. -/
theorem Agrees.change (h : p.Agrees) {p' : EPollPoller} {fd : ℕ} {ch : Channel}
    (hch : p'.channel = Function.update p.channel fd ch) (hvalid : AllValid p'.issued)
    (hlist : interest p'.issued = Function.update (interest p.issued) fd
      (if ch.index = .kAdded then some ch.events else none))
    (htable : ∀ fd', p'.channels.lookup fd' =
      if fd' = fd then (if ch.index = .kNew then none else some fd) else p.channels.lookup fd') :
    p'.Agrees := by
  refine ⟨fun fd' => ?_, hvalid, fun fd' => ?_⟩
  · rw [hlist, hch]
    by_cases hfd : fd' = fd
    · subst hfd
      rw [Function.update_self, Function.update_self]
    · rw [Function.update_of_ne hfd, Function.update_of_ne hfd, h.interest_eq]
  · rw [htable, hch]
    by_cases hfd : fd' = fd
    · subst hfd
      rw [if_pos rfl, Function.update_self]
    · rw [if_neg hfd, Function.update_of_ne hfd, h.table]

theorem Agrees.table_self (h : p.Agrees) {fd : ℕ} (hold : (p.channel fd).index ≠ .kNew)
    (fd' : ℕ) : p.channels.lookup fd' = if fd' = fd then some fd else p.channels.lookup fd' := by
  by_cases hfd : fd' = fd
  · subst hfd
    rw [if_pos rfl, h.table, if_neg hold]
  · rw [if_neg hfd]

@[simp] theorem setEvents_self (m : Mask) (fd : ℕ) (p : EPollPoller) :
    (p.setEvents m fd).channel fd = { p.channel fd with events := m } :=
  Function.update_self ..

theorem setIndex_setEvents (i : Index) (m : Mask) (fd : ℕ) (p : EPollPoller) :
    ((p.setEvents m fd).setIndex i fd).channel =
      Function.update p.channel fd { events := m, index := i } := by
  simp only [setIndex, setEvents_self]
  exact Function.update_idem ..

/-- A registered channel with nothing to wait for leaves the list. -/
theorem Agrees.setEvents_zero (h : p.Agrees) {fd : ℕ} (hadded : (p.channel fd).index = .kAdded) :
    ((p.setEvents 0 fd).updateChannel fd).Agrees ∧
      ((p.setEvents 0 fd).updateChannel fd).channel =
        Function.update p.channel fd { events := 0, index := .kDeleted } := by
  have hreg := h.registered hadded
  have hold : (p.channel fd).index ≠ .kNew := by
    rw [hadded]
    decide
  have hp' : (p.setEvents 0 fd).updateChannel fd =
      ((p.setEvents 0 fd).update .EPOLL_CTL_DEL fd).setIndex .kDeleted fd := by
    simp [updateChannel, hadded]
  have hch : ((p.setEvents 0 fd).updateChannel fd).channel =
      Function.update p.channel fd { events := 0, index := .kDeleted } := by
    rw [hp']
    exact setIndex_setEvents .kDeleted 0 fd p
  have hissued : ((p.setEvents 0 fd).updateChannel fd).issued =
      p.issued ++ [⟨.EPOLL_CTL_DEL, fd, 0⟩] := by
    rw [hp']
    simp [update, setIndex, EPollPoller.setEvents]
  refine ⟨h.change hch ?_ ?_ ?_, hch⟩
  · rw [hissued]
    exact allValid_concat h.valid hreg
  · rw [hissued, interest_concat, apply_del 0 hreg]
    rfl
  · rw [hp']
    exact h.table_self hold

/-- A registered channel that still waits for something stays in the list. -/
theorem Agrees.setEvents_added (h : p.Agrees) {m : Mask} {fd : ℕ}
    (hadded : (p.channel fd).index = .kAdded) (hm : m ≠ 0) :
    ((p.setEvents m fd).updateChannel fd).Agrees ∧
      ((p.setEvents m fd).updateChannel fd).channel =
        Function.update p.channel fd { events := m, index := .kAdded } := by
  have hreg := h.registered hadded
  have hold : (p.channel fd).index ≠ .kNew := by
    rw [hadded]
    decide
  have hp' : (p.setEvents m fd).updateChannel fd =
      (p.setEvents m fd).update .EPOLL_CTL_MOD fd := by
    simp only [updateChannel, setEvents_self, hadded, if_neg hm]
  have hch : ((p.setEvents m fd).updateChannel fd).channel =
      Function.update p.channel fd { events := m, index := .kAdded } := by
    rw [hp', ← hadded]
    rfl
  have hissued : ((p.setEvents m fd).updateChannel fd).issued =
      p.issued ++ [⟨.EPOLL_CTL_MOD, fd, m⟩] := by
    rw [hp']
    simp [update, EPollPoller.setEvents]
  refine ⟨h.change hch ?_ ?_ ?_, hch⟩
  · rw [hissued]
    exact allValid_concat h.valid hreg
  · rw [hissued, interest_concat, apply_mod m hreg]
    rfl
  · rw [hp']
    exact h.table_self hold

/-- A channel that is not registered is added, whatever its mask. -/
theorem Agrees.setEvents_absent (h : p.Agrees) (m : Mask) {fd : ℕ}
    (hadded : (p.channel fd).index ≠ .kAdded) :
    ((p.setEvents m fd).updateChannel fd).Agrees ∧
      ((p.setEvents m fd).updateChannel fd).channel =
        Function.update p.channel fd { events := m, index := .kAdded } := by
  have hreg := h.unregistered hadded
  have hp' : (p.setEvents m fd).updateChannel fd =
      (setIndex .kAdded fd { p.setEvents m fd with
        channels := p.channels.insert fd fd }).update .EPOLL_CTL_ADD fd := by
    cases hindex : (p.channel fd).index with
    | kAdded => exact absurd hindex hadded
    | kNew | kDeleted =>
        simp only [updateChannel, setEvents_self, hindex]
        rfl
  have hch : ((p.setEvents m fd).updateChannel fd).channel =
      Function.update p.channel fd { events := m, index := .kAdded } := by
    rw [hp']
    exact setIndex_setEvents .kAdded m fd p
  have hissued : ((p.setEvents m fd).updateChannel fd).issued =
      p.issued ++ [⟨.EPOLL_CTL_ADD, fd, m⟩] := by
    rw [hp']
    simp [update, setIndex, EPollPoller.setEvents]
  refine ⟨h.change hch ?_ ?_ ?_, hch⟩
  · rw [hissued]
    exact allValid_concat h.valid hreg
  · rw [hissued, interest_concat, apply_add m hreg]
    rfl
  · intro fd'
    rw [hp']
    exact UnorderedMap.lookup_insert_eq fd fd' fd p.channels

/-- A call that sets the mask: the channel is registered afterwards, unless it
was before and has nothing to wait for any more. -/
theorem Agrees.setEvents (h : p.Agrees) (m : Mask) (fd : ℕ) :
    ((p.setEvents m fd).updateChannel fd).Agrees ∧
      ((p.setEvents m fd).updateChannel fd).channel = Function.update p.channel fd
        { events := m
          index := if (p.channel fd).index = .kAdded ∧ m = 0 then .kDeleted else .kAdded } := by
  by_cases hadded : (p.channel fd).index = .kAdded
  · by_cases hzero : m = 0
    · subst hzero
      rw [if_pos ⟨hadded, rfl⟩]
      exact h.setEvents_zero hadded
    · rw [if_neg fun hand => hzero hand.2]
      exact h.setEvents_added hadded hzero
  · rw [if_neg fun hand => hadded hand.1]
    exact h.setEvents_absent m hadded

/-- `removeChannel` takes the descriptor out of the list and the table. -/
theorem Agrees.removeChannel (h : p.Agrees) (fd : ℕ) :
    (p.removeChannel fd).Agrees ∧ (p.removeChannel fd).channel =
      Function.update p.channel fd { p.channel fd with index := .kNew } := by
  have htable : ∀ fd', (p.channels.erase fd).lookup fd' =
      if fd' = fd then none else p.channels.lookup fd' :=
    fun fd' => UnorderedMap.lookup_erase_eq fd fd' p.channels
  by_cases hadded : (p.channel fd).index = .kAdded
  · have hp' : p.removeChannel fd = setIndex .kNew fd
        (update .EPOLL_CTL_DEL fd { p with channels := p.channels.erase fd }) := by
      simp only [EPollPoller.removeChannel, hadded, if_true]
    have hreg := h.registered hadded
    rw [hp']
    refine ⟨h.change rfl ?_ ?_ htable, rfl⟩
    · exact allValid_concat h.valid hreg
    · refine (interest_concat p.issued _).trans ?_
      exact apply_del _ hreg
  · have hp' : p.removeChannel fd =
        setIndex .kNew fd { p with channels := p.channels.erase fd } := by
      simp only [EPollPoller.removeChannel, hadded, if_false]
    rw [hp']
    refine ⟨h.change rfl h.valid ?_ htable, rfl⟩
    have hreg := h.unregistered hadded
    exact (Function.update_eq_self_iff.mpr hreg.symm).symm

theorem Agrees.call (h : p.Agrees) (c : Call) : (p.call c).Agrees := by
  cases hremove : c.isRemove with
  | true =>
      cases c with
      | removeChannel fd => exact (h.removeChannel fd).1
      | enableReading _ | enableWriting _ | disableWriting _ | disableAll _ => cases hremove
  | false =>
      rw [call_eq_updateChannel p hremove]
      exact (h.setEvents _ _).1

/-- Whatever is called, the kernel refuses nothing and its list is the one the
poller keeps in the indices. -/
theorem agrees_run (calls : List Call) : (calls.foldl call {}).Agrees :=
  invariant_run_of_step (I := Agrees) (fun _ c h => h.call c) agrees_init calls

/-! ### The channel of a connection -/

/-- The mask an interest in reading and writing stands for. -/
def maskOf (reading writing : Bool) : Mask :=
  (if reading then EPOLLIN ||| EPOLLPRI ||| EPOLLET else 0) ||| (if writing then EPOLLOUT else 0)

/-- The channel of a connection, with its mask. -/
def ofChannel (ch : Net.Channel) : Channel where
  events := maskOf ch.reading ch.writing
  index := ch.index

/-- What a call does to the channel of a connection. -/
def onChannel : Call → Net.Channel → Net.Channel
  | .enableReading _, ch => ch.enableReading
  | .enableWriting _, ch => ch.enableWriting
  | .disableWriting _, ch => ch.disableWriting
  | .disableAll _, ch => ch.disableAll
  | .removeChannel _, ch => ch.remove

/-- The interest of a connection's channel before it is registered. -/
def interestAfter : Call → Net.Channel → Net.Channel
  | .enableReading _, ch => { ch with reading := true }
  | .enableWriting _, ch => { ch with writing := true }
  | .disableWriting _, ch => { ch with writing := false }
  | .disableAll _, ch => { ch with reading := false, writing := false }
  | .removeChannel _, ch => ch

theorem mask_ofChannel (c : Call) (ch : Net.Channel) :
    c.mask (ofChannel ch).events = (ofChannel (interestAfter c ch)).events := by
  have hread : ∀ r w, maskOf r w ||| (EPOLLIN ||| EPOLLPRI ||| EPOLLET) = maskOf true w := by
    decide
  have hwrite : ∀ r w, maskOf r w ||| EPOLLOUT = maskOf r true := by decide
  have hstop : ∀ r w, maskOf r w &&& ~~~EPOLLOUT = maskOf r false := by decide
  cases c with
  | enableReading fd => exact hread ch.reading ch.writing
  | enableWriting fd => exact hwrite ch.reading ch.writing
  | disableWriting fd => exact hstop ch.reading ch.writing
  | disableAll fd => exact (show (0 : Mask) = maskOf false false by decide)
  | removeChannel fd => rfl

theorem isNoneEvent_iff (ch : Net.Channel) :
    ch.isNoneEvent = true ↔ (ofChannel ch).events = 0 := by
  have hnone : ∀ r w, (!r && !w) = true ↔ maskOf r w = 0 := by decide
  exact hnone ch.reading ch.writing

/-- The connection's model of its channel is the poller's. -/
theorem Agrees.ofChannel (h : p.Agrees) (c : Call) {ch : Net.Channel}
    (hch : p.channel c.fd = ofChannel ch) :
    (p.call c).channel c.fd = EPollPoller.ofChannel (onChannel c ch) := by
  cases hremove : c.isRemove with
  | true =>
      cases c with
      | removeChannel fd =>
          refine (congrFun (h.removeChannel fd).2 fd).trans ?_
          rw [Function.update_self, show p.channel fd = EPollPoller.ofChannel ch from hch]
          rfl
      | enableReading _ | enableWriting _ | disableWriting _ | disableAll _ => cases hremove
  | false =>
      have hupdate : onChannel c ch = (interestAfter c ch).update := by
        cases c <;> first | rfl | cases hremove
      have hindex : (interestAfter c ch).index = ch.index := by cases c <;> rfl
      rw [call_eq_updateChannel p hremove, (h.setEvents _ _).2, Function.update_self, hch,
        mask_ofChannel, hupdate]
      unfold Net.Channel.update
      cases hi : (interestAfter c ch).index with
      | kNew | kDeleted => simp [EPollPoller.ofChannel, ← hindex, hi]
      | kAdded =>
          have hnone := isNoneEvent_iff (interestAfter c ch)
          have hadded : (EPollPoller.ofChannel ch).index = .kAdded := hindex.symm.trans hi
          dsimp only
          by_cases hzero : (interestAfter c ch).isNoneEvent = true
          · rw [if_pos hzero, if_pos ⟨hadded, hnone.mp hzero⟩]
            rfl
          · rw [if_neg hzero, if_neg fun hand => hzero (hnone.mpr hand.2), ← hi]
            rfl

end EPollPoller

/-! ### The list and the interest -/

/-- A poller, and for each descriptor whether `removeChannel` was the last
call on its channel. -/
structure Session where
  poller : EPollPoller := {}
  removed : ℕ → Bool := fun _ => false

namespace Session

variable {s : Session}

def step (s : Session) (c : Call) : Session where
  poller := s.poller.call c
  removed := Function.update s.removed c.fd c.isRemove

def events (s : Session) (fd : ℕ) : Mask := (s.poller.channel fd).events

/-- The kernel's list has the channels with an interest that were not removed
since, each with its mask, and no operation was refused. -/
structure Mirrors (s : Session) : Prop where
  interest_eq : ∀ fd, interest s.poller.issued fd =
    if s.events fd ≠ 0 ∧ s.removed fd = false then some (s.events fd) else none
  valid : AllValid s.poller.issued

/-- A call that leaves the mask zero is made while the mask is not zero and the
channel was not removed. -/
def Mindful (s : Session) (c : Call) : Prop :=
  c.isRemove = false → c.mask (s.events c.fd) = 0 →
    s.events c.fd ≠ 0 ∧ s.removed c.fd = false

instance (s : Session) (c : Call) : Decidable (s.Mindful c) :=
  inferInstanceAs (Decidable (_ → _ → _ ∧ _))

/-- The index says whether there is an interest. -/
structure Indexed (s : Session) : Prop where
  agrees : s.poller.Agrees
  index_iff : ∀ fd, (s.poller.channel fd).index = .kAdded ↔
    s.events fd ≠ 0 ∧ s.removed fd = false

theorem Indexed.mirrors (h : s.Indexed) : s.Mirrors := by
  refine ⟨fun fd => ?_, h.agrees.valid⟩
  rw [h.agrees.interest_eq]
  exact if_congr (h.index_iff fd) rfl rfl

theorem indexed_init : ({} : Session).Indexed := by
  refine ⟨EPollPoller.agrees_init, fun fd => ?_⟩
  simp [events]

/-- One channel changes, and its index with it. -/
theorem Indexed.change (h : s.Indexed) {s' : Session} {fd : ℕ} {ch : Channel} {gone : Bool}
    (hagrees : s'.poller.Agrees) (hch : s'.poller.channel = Function.update s.poller.channel fd ch)
    (hgone : s'.removed = Function.update s.removed fd gone)
    (hindex : ch.index = .kAdded ↔ ch.events ≠ 0 ∧ gone = false) : s'.Indexed := by
  refine ⟨hagrees, fun fd' => ?_⟩
  simp only [events, hch, hgone]
  by_cases hfd : fd' = fd
  · subst hfd
    rw [Function.update_self, Function.update_self]
    exact hindex
  · rw [Function.update_of_ne hfd, Function.update_of_ne hfd]
    exact h.index_iff fd'

theorem Indexed.step (h : s.Indexed) {c : Call} (hmindful : s.Mindful c) :
    (s.step c).Indexed := by
  cases hremove : c.isRemove with
  | true =>
      cases c with
      | removeChannel fd =>
          obtain ⟨hagrees, hch⟩ := h.agrees.removeChannel fd
          exact h.change hagrees hch rfl (by simp [Call.isRemove])
      | enableReading _ | enableWriting _ | disableWriting _ | disableAll _ => cases hremove
  | false =>
      obtain ⟨-, hch⟩ := h.agrees.setEvents (c.mask (s.events c.fd)) c.fd
      have hcall := EPollPoller.call_eq_updateChannel s.poller hremove
      refine h.change (h.agrees.call c) ((congrArg EPollPoller.channel hcall).trans hch) rfl ?_
      have hzero := hmindful hremove
      rw [← h.index_iff] at hzero
      by_cases hnone : c.mask (s.events c.fd) = 0
      · rw [if_pos ⟨hzero hnone, hnone⟩]
        exact iff_of_false (by simp) fun hand => hand.1 hnone
      · rw [if_neg fun hand => hnone hand.2]
        exact iff_of_true rfl ⟨hnone, hremove⟩

/-- A call that is not mindful puts a channel without interest into the list. -/
theorem Indexed.step_bad (h : s.Indexed) {c : Call} (hbad : ¬s.Mindful c) :
    ¬(s.step c).Mirrors := by
  obtain ⟨hremove, hrest⟩ := Classical.not_imp.mp hbad
  obtain ⟨hzero, hwhy⟩ := Classical.not_imp.mp hrest
  rw [← h.index_iff] at hwhy
  obtain ⟨-, hch⟩ := h.agrees.setEvents (c.mask (s.events c.fd)) c.fd
  have hcall := EPollPoller.call_eq_updateChannel s.poller hremove
  have hself : (s.step c).poller.channel c.fd = { events := 0, index := .kAdded } := by
    refine (congrFun ((congrArg EPollPoller.channel hcall).trans hch) c.fd).trans ?_
    rw [Function.update_self, hzero, if_neg fun hand => hwhy hand.1]
  intro hmirrors
  have hlist := hmirrors.interest_eq c.fd
  have hevents : (s.step c).events c.fd = 0 := congrArg Channel.events hself
  have hkept : (s.step c).poller.Agrees := h.agrees.call c
  rw [hkept.interest_eq, hself, if_pos rfl, hevents, if_neg fun hand => hand.1 rfl] at hlist
  cases hlist

/-- The registration mirrors the interest after every call, exactly if every
call that leaves a mask zero finds it non-zero, on a channel that was not
removed since its last enabling or disabling call. -/
theorem registration_mirrors_iff (calls : List Call) :
    Visits step Mirrors {} calls ↔ Along step Mindful {} calls :=
  visits_iff_along (fun _ h => h.mirrors) (fun _ _ h => h.step) (fun _ _ h => h.step_bad)
    indexed_init calls

/-- The close of a connection that is announced twice, as an error and the end
of the stream in one ready mask do: the second `disableAll` adds the
descriptor again. -/
theorem registration_second_disableAll :
    let calls := [Call.enableReading 5, .disableAll 5, .disableAll 5]
    interest (calls.foldl step {}).poller.issued 5 = some 0 ∧ ¬Visits step Mirrors {} calls := by
  intro calls
  have hadded : interest (calls.foldl step {}).poller.issued 5 = some 0 := by decide
  refine ⟨hadded, fun hvisits => ?_⟩
  have hlist := hvisits.last.interest_eq 5
  rw [hadded] at hlist
  have hevents : (calls.foldl step {}).events 5 = 0 := by decide
  rw [hevents, if_neg fun hand => hand.1 rfl] at hlist
  cases hlist

end Session

end GameServer.Net.EPoll
