import GameServer.Lib.Run
import GameServer.Net.Buffer

/-!
The buffer as a queue of bytes, over any sequence of its operations.

The checked operations do what those of the buffer do and stop where the
source would leave its vector: an unsigned difference that wraps, a copy that
reads or writes beyond the ends, or one whose destination lies in its own
source range. They never stop, so every copy stays inside `buffer_`, and the
bytes readable afterwards are those of a list that bytes join at the end and
leave at the front.
-/

namespace GameServer.Net

open GameServer.Lib

/-! ### Checked memory -/

/-- An unsigned difference. -/
def subChecked (a b : ℕ) : Option ℕ := if b ≤ a then some (a - b) else none

/-- `std::copy` into `v` from outside. -/
def storeChecked (v : List UInt8) (i : ℕ) (src : List UInt8) : Option (List UInt8) :=
  if i + src.length ≤ v.length then some (copyTo v i src) else none

/-- The bytes from `first` to `last`. -/
def loadChecked (v : List UInt8) (first last : ℕ) : Option (List UInt8) :=
  if first ≤ last ∧ last ≤ v.length then some ((v.drop first).take (last - first)) else none

/-- `std::copy` inside `v`. It goes forward, so the destination must not start
in the range that is copied. -/
def moveChecked (v : List UInt8) (first last dest : ℕ) : Option (List UInt8) :=
  if first ≤ dest ∧ dest < last then none
  else (loadChecked v first last).bind (storeChecked v dest)

theorem subChecked_eq {a b : ℕ} (h : b ≤ a) : subChecked a b = some (a - b) := if_pos h

theorem storeChecked_eq {v src : List UInt8} {i : ℕ} (h : i + src.length ≤ v.length) :
    storeChecked v i src = some (copyTo v i src) := if_pos h

theorem loadChecked_eq {v : List UInt8} {first last : ℕ} (h : first ≤ last)
    (hlast : last ≤ v.length) :
    loadChecked v first last = some ((v.drop first).take (last - first)) := if_pos ⟨h, hlast⟩

namespace Buffer

/-- The size of the area on the stack that `readFd` reads into. -/
def kExtraSize : ℕ := 65536

def ensureWritableChecked (len : ℕ) (b : Buffer) : Option Buffer := do
  let writable ← subChecked b.buffer.length b.writerIndex
  if writable ≥ len then return b
  let room ← subChecked (writable + b.readerIndex) kCheapPrepend
  if room < len then return { b with buffer := resize b.buffer (b.writerIndex + len) }
  let readable ← subChecked b.writerIndex b.readerIndex
  let buffer ← moveChecked b.buffer b.readerIndex b.writerIndex kCheapPrepend
  return { buffer := buffer
           readerIndex := kCheapPrepend
           writerIndex := kCheapPrepend + readable }

def appendChecked (data : List UInt8) (b : Buffer) : Option Buffer := do
  let b ← b.ensureWritableChecked data.length
  let buffer ← storeChecked b.buffer b.writerIndex data
  return { b with buffer := buffer, writerIndex := b.writerIndex + data.length }

def readFdChecked (bytes : List UInt8) (b : Buffer) : Option Buffer := do
  let writable ← subChecked b.buffer.length b.writerIndex
  if bytes.length ≤ writable then
    let buffer ← storeChecked b.buffer b.writerIndex bytes
    return { b with buffer := buffer, writerIndex := b.writerIndex + bytes.length }
  let buffer ← storeChecked b.buffer b.writerIndex (bytes.take writable)
  let extra ← loadChecked (bytes.drop writable) 0 (bytes.length - writable)
  if kExtraSize < extra.length then none
  appendChecked extra { b with buffer := buffer, writerIndex := b.buffer.length }

/-- The assertion is an error. -/
def retrieveChecked (len : ℕ) (b : Buffer) : Option Buffer := do
  let readable ← subChecked b.writerIndex b.readerIndex
  if len ≤ readable then some (b.retrieve len) else none

def retrieveAllAsString (b : Buffer) : List UInt8 × Buffer :=
  (b.peek 0 b.readableBytes, b.retrieveAll)

def retrieveAllAsStringChecked (b : Buffer) : Option (List UInt8 × Buffer) := do
  let s ← loadChecked b.buffer b.readerIndex b.writerIndex
  return (s, b.retrieveAll)

/-! ### No check fails -/

variable {b : Buffer}

/-- When the bytes slide to the front, something was retrieved before: they
move down, and they fit. -/
theorem ensureWritableChecked_eq (h : b.Ok) (len : ℕ) :
    b.ensureWritableChecked len = some (b.ensureWritable len) := by
  have h₁ := h.prepend_le
  have h₂ := h.reader_le
  have h₃ := h.writer_le
  have hroom : kCheapPrepend ≤ b.writableBytes + b.readerIndex := by omega
  have hlen : ((b.buffer.drop b.readerIndex).take (b.writerIndex - b.readerIndex)).length =
      b.writerIndex - b.readerIndex := h.length_readable
  simp only [ensureWritableChecked, ensureWritable, subChecked_eq h₃, Option.bind_eq_bind,
    Option.bind_some]
  rw [show b.buffer.length - b.writerIndex = b.writableBytes from rfl]
  split
  case isTrue => rfl
  case isFalse hfull =>
      rw [subChecked_eq hroom, Option.bind_some]
      split
      case isTrue => rfl
      case isFalse hslide =>
          have hdown : ¬(b.readerIndex ≤ kCheapPrepend ∧ kCheapPrepend < b.writerIndex) := by
            omega
          have hfits : kCheapPrepend +
              ((b.buffer.drop b.readerIndex).take (b.writerIndex - b.readerIndex)).length ≤
              b.buffer.length := by
            omega
          rw [subChecked_eq h₂, Option.bind_some, moveChecked, if_neg hdown,
            loadChecked_eq h₂ h₃, Option.bind_some, storeChecked_eq hfits]
          rfl

theorem appendChecked_eq (h : b.Ok) (data : List UInt8) :
    b.appendChecked data = some (b.append data) := by
  obtain ⟨-, -, hroom⟩ := ensureWritable_spec h data.length
  simp only [appendChecked, ensureWritableChecked_eq h, Option.bind_eq_bind, Option.bind_some,
    storeChecked_eq hroom]
  rfl

theorem readFdChecked_eq (h : b.Ok) {bytes : List UInt8}
    (hbytes : bytes.length ≤ b.writableBytes + kExtraSize) :
    b.readFdChecked bytes = some (b.readFd bytes) := by
  have hw := h.writer_le
  simp only [readFdChecked, readFd, subChecked_eq hw, Option.bind_eq_bind, Option.bind_some]
  rw [show b.buffer.length - b.writerIndex = b.writableBytes from rfl]
  split
  case isTrue hfits =>
      have hroom : b.writerIndex + bytes.length ≤ b.buffer.length := by
        simp only [writableBytes] at hfits
        omega
      rw [storeChecked_eq hroom]
      rfl
  case isFalse hfits =>
      have hfull : b.writerIndex + (bytes.take b.writableBytes).length = b.buffer.length := by
        rw [List.length_take]
        simp only [writableBytes] at hfits ⊢
        omega
      have hrest : (bytes.drop b.writableBytes).length = bytes.length - b.writableBytes :=
        List.length_drop
      have hextra : loadChecked (bytes.drop b.writableBytes) 0 (bytes.length - b.writableBytes) =
          some (bytes.drop b.writableBytes) := by
        rw [loadChecked_eq (Nat.zero_le _) (Nat.le_of_eq hrest.symm), List.drop_zero,
          Nat.sub_zero, ← hrest, List.take_length]
      have hshort : ¬kExtraSize < (bytes.drop b.writableBytes).length := by omega
      have hfirst := (write_spec h (Nat.le_of_eq hfull)).1
      rw [hfull] at hfirst
      rw [storeChecked_eq (Nat.le_of_eq hfull), Option.bind_some, hextra, Option.bind_some,
        if_neg hshort]
      exact appendChecked_eq hfirst _

theorem retrieveChecked_eq (h : b.Ok) {len : ℕ} (hlen : len ≤ b.readableBytes) :
    b.retrieveChecked len = some (b.retrieve len) := by
  simp only [retrieveChecked, subChecked_eq h.reader_le, Option.bind_eq_bind, Option.bind_some]
  exact if_pos hlen

theorem retrieveAllAsStringChecked_eq (h : b.Ok) :
    b.retrieveAllAsStringChecked = some b.retrieveAllAsString := by
  simp only [retrieveAllAsStringChecked, loadChecked_eq h.reader_le h.writer_le,
    Option.bind_eq_bind, Option.bind_some]
  rfl

end Buffer

/-! ### Runs -/

/-- What a user does with a buffer. `readFd` comes with the bytes the kernel
delivers. -/
inductive BufferOp where
  | append (data : List UInt8)
  | retrieve (len : ℕ)
  | retrieveAll
  | retrieveAllAsString
  | readFd (bytes : List UInt8)
deriving DecidableEq

/-- A queue of bytes, and the strings that were taken out of it. -/
structure ByteQueue where
  bytes : List UInt8 := []
  strings : List (List UInt8) := []

def ByteQueue.step (q : ByteQueue) : BufferOp → ByteQueue
  | .append data => { q with bytes := q.bytes ++ data }
  | .retrieve len => { q with bytes := q.bytes.drop len }
  | .retrieveAll => { q with bytes := [] }
  | .retrieveAllAsString => { bytes := [], strings := q.strings ++ [q.bytes] }
  | .readFd bytes => { q with bytes := q.bytes ++ bytes }

/-- A buffer, and the strings that were taken out of it. -/
structure BufferUser where
  buffer : Buffer := {}
  strings : List (List UInt8) := []

namespace BufferUser

def step (u : BufferUser) : BufferOp → BufferUser
  | .append data => { u with buffer := u.buffer.append data }
  | .retrieve len => { u with buffer := u.buffer.retrieve len }
  | .retrieveAll => { u with buffer := u.buffer.retrieveAll }
  | .retrieveAllAsString =>
      let (s, buffer) := u.buffer.retrieveAllAsString
      { buffer := buffer, strings := u.strings ++ [s] }
  | .readFd bytes => { u with buffer := u.buffer.readFd bytes }

def stepChecked (u : BufferUser) : BufferOp → Option BufferUser
  | .append data => (u.buffer.appendChecked data).map fun b => { u with buffer := b }
  | .retrieve len => (u.buffer.retrieveChecked len).map fun b => { u with buffer := b }
  | .retrieveAll => some { u with buffer := u.buffer.retrieveAll }
  | .retrieveAllAsString =>
      u.buffer.retrieveAllAsStringChecked.map fun r =>
        { buffer := r.2, strings := u.strings ++ [r.1] }
  | .readFd bytes => (u.buffer.readFdChecked bytes).map fun b => { u with buffer := b }

/-- What the caller and the kernel promise: no more is retrieved than there
is, and a read delivers no more than there is room for. -/
def Legal (u : BufferUser) : BufferOp → Prop
  | .retrieve len => len ≤ u.buffer.readableBytes
  | .readFd bytes => bytes.length ≤ u.buffer.writableBytes + Buffer.kExtraSize
  | _ => True

instance (u : BufferUser) : (op : BufferOp) → Decidable (u.Legal op)
  | .append _ | .retrieveAll | .retrieveAllAsString => .isTrue trivial
  | .retrieve len => inferInstanceAs (Decidable (len ≤ u.buffer.readableBytes))
  | .readFd bytes =>
      inferInstanceAs (Decidable (bytes.length ≤ u.buffer.writableBytes + Buffer.kExtraSize))

/-- The buffer is intact and holds the queue. -/
structure Holds (u : BufferUser) (q : ByteQueue) : Prop where
  ok : u.buffer.Ok
  bytes : u.buffer.readable = q.bytes
  strings : u.strings = q.strings

variable {u : BufferUser} {q : ByteQueue}

theorem Holds.step (h : u.Holds q) (op : BufferOp) : (u.step op).Holds (q.step op) := by
  obtain ⟨hok, hbytes, hstrings⟩ := h
  cases op with
  | append data =>
      obtain ⟨hok', hread⟩ := Buffer.append_spec hok data
      exact ⟨hok', hread.trans (congrArg (· ++ data) hbytes), hstrings⟩
  | retrieve len =>
      have hread := Buffer.readable_retrieve hok len
      exact ⟨Buffer.ok_retrieve hok len, hread.trans (congrArg (·.drop len) hbytes), hstrings⟩
  | retrieveAll =>
      exact ⟨Buffer.ok_retrieveAll hok, Buffer.readable_retrieveAll _, hstrings⟩
  | retrieveAllAsString =>
      refine ⟨Buffer.ok_retrieveAll hok, Buffer.readable_retrieveAll _, ?_⟩
      show u.strings ++ [u.buffer.readable] = q.strings ++ [q.bytes]
      rw [hstrings, hbytes]
  | readFd bytes =>
      obtain ⟨hok', hread⟩ := Buffer.readFd_spec hok bytes
      exact ⟨hok', hread.trans (congrArg (· ++ bytes) hbytes), hstrings⟩

theorem Holds.stepChecked (h : u.Holds q) {op : BufferOp} (hlegal : u.Legal op) :
    u.stepChecked op = some (u.step op) := by
  cases op with
  | append data => simp [BufferUser.stepChecked, BufferUser.step, Buffer.appendChecked_eq h.ok]
  | retrieve len =>
      simp [BufferUser.stepChecked, BufferUser.step, Buffer.retrieveChecked_eq h.ok hlegal]
  | retrieveAll => rfl
  | retrieveAllAsString =>
      simp [BufferUser.stepChecked, BufferUser.step, Buffer.retrieveAllAsStringChecked_eq h.ok]
  | readFd bytes =>
      simp [BufferUser.stepChecked, BufferUser.step, Buffer.readFdChecked_eq h.ok hlegal]

theorem holds_init : ({} : BufferUser).Holds {} :=
  ⟨Buffer.ok_init, Buffer.readable_init, rfl⟩

theorem holds_run (h : u.Holds q) {ops : List BufferOp} (hlegal : Along step Legal u ops) :
    (ops.foldl step u).Holds (ops.foldl ByteQueue.step q) ∧
      ops.foldlM stepChecked u = some (ops.foldl step u) := by
  induction ops generalizing u q with
  | nil => exact ⟨h, rfl⟩
  | cons op ops ih =>
      obtain ⟨hrun, hchecked⟩ := ih (h.step op) hlegal.2
      refine ⟨hrun, ?_⟩
      rw [List.foldlM_cons, h.stepChecked hlegal.1]
      exact hchecked

/-- The buffer is a queue of bytes. After every sequence of operations the
indices are in order, the readable bytes and the strings handed out are those
of the queue, and no operation has left the vector, copied over its own
source or taken an unsigned difference below zero. -/
theorem buffer_is_byte_queue (ops : List BufferOp) (hlegal : Along step Legal {} ops) :
    let u := ops.foldl step {}
    let q := ops.foldl ByteQueue.step {}
    kCheapPrepend ≤ u.buffer.readerIndex ∧ u.buffer.readerIndex ≤ u.buffer.writerIndex ∧
      u.buffer.writerIndex ≤ u.buffer.buffer.length ∧
      u.buffer.readable = q.bytes ∧ u.strings = q.strings ∧
      ops.foldlM stepChecked {} = some u := by
  obtain ⟨⟨hok, hbytes, hstrings⟩, hchecked⟩ := holds_run holds_init hlegal
  exact ⟨hok.prepend_le, hok.reader_le, hok.writer_le, hbytes, hstrings, hchecked⟩

/-- An append that makes the bytes slide, and a read that overflows into the
stack area. -/
theorem buffer_is_byte_queue_slide :
    let ops : List BufferOp := [.append (List.replicate 1000 1), .retrieve 990,
      .append (List.replicate 100 2), .readFd (List.replicate 950 3), .retrieve 1059,
      .retrieveAllAsString]
    let u := ops.foldl step {}
    Along step Legal {} ops ∧ u.strings = [[3]] ∧ u.buffer.buffer.length = 1068 := by
  intro ops u
  have hlegal : Along step Legal {} ops := by decide +kernel
  have hstrings := (buffer_is_byte_queue ops hlegal).2.2.2.2.1
  exact ⟨hlegal, hstrings.trans (by decide +kernel), by decide +kernel⟩

end BufferUser

end GameServer.Net
