import Mathlib.Data.List.Basic
import Mathlib.Tactic.Common

/-!
The byte buffer of `src/net/Buffer.{h,cc}`: a vector with a reader and a
writer index, laid out as `| prependable | readable | writable |`.

`readable` is the abstract content, a queue of bytes. Appending either
finds room behind the writer, or slides the readable bytes to the front, or
grows the vector; whichever it does, the queue only sees its argument
arrive at the end.
-/

namespace GameServer.Net

def kCheapPrepend : ℕ := 8

def kInitialSize : ℕ := 1024

structure Buffer where
  buffer : List UInt8 := List.replicate (kCheapPrepend + kInitialSize) 0
  readerIndex : ℕ := kCheapPrepend
  writerIndex : ℕ := kCheapPrepend

/-- `std::copy` of `src` over the bytes of `dst` that start at `i`. -/
def copyTo (dst : List UInt8) (i : ℕ) (src : List UInt8) : List UInt8 :=
  dst.take i ++ src ++ dst.drop (i + src.length)

/-- `std::vector::resize`; new bytes are zero. -/
def resize (v : List UInt8) (n : ℕ) : List UInt8 :=
  v.take n ++ List.replicate (n - v.length) 0

namespace Buffer

def readableBytes (b : Buffer) : ℕ := b.writerIndex - b.readerIndex

def writableBytes (b : Buffer) : ℕ := b.buffer.length - b.writerIndex

/-- The `n` bytes at `peek() + off`. -/
def peek (b : Buffer) (off n : ℕ) : List UInt8 :=
  (b.buffer.drop (b.readerIndex + off)).take n

def retrieveAll (b : Buffer) : Buffer :=
  { b with readerIndex := kCheapPrepend, writerIndex := kCheapPrepend }

def retrieve (len : ℕ) (b : Buffer) : Buffer :=
  if len < b.readableBytes then { b with readerIndex := b.readerIndex + len }
  else b.retrieveAll

def ensureWritable (len : ℕ) (b : Buffer) : Buffer :=
  if b.writableBytes ≥ len then b
  else if b.writableBytes + b.readerIndex - kCheapPrepend < len then
    { b with buffer := resize b.buffer (b.writerIndex + len) }
  else
    { buffer := copyTo b.buffer kCheapPrepend (b.peek 0 b.readableBytes)
      readerIndex := kCheapPrepend
      writerIndex := kCheapPrepend + b.readableBytes }

def append (data : List UInt8) (b : Buffer) : Buffer :=
  let b := b.ensureWritable data.length
  { b with
    buffer := copyTo b.buffer b.writerIndex data
    writerIndex := b.writerIndex + data.length }

/-- `readFd`, given the bytes the scattered read delivered: they fill the
space behind the writer first, and what the stack area caught is appended. -/
def readFd (bytes : List UInt8) (b : Buffer) : Buffer :=
  let writable := b.writableBytes
  if bytes.length ≤ writable then
    { b with
      buffer := copyTo b.buffer b.writerIndex bytes
      writerIndex := b.writerIndex + bytes.length }
  else
    let b := { b with
      buffer := copyTo b.buffer b.writerIndex (bytes.take writable)
      writerIndex := b.buffer.length }
    b.append (bytes.drop writable)

/-! ### The buffer is a queue of bytes -/

/-- The layout is intact. -/
structure Ok (b : Buffer) : Prop where
  prepend_le : kCheapPrepend ≤ b.readerIndex
  reader_le : b.readerIndex ≤ b.writerIndex
  writer_le : b.writerIndex ≤ b.buffer.length

/-- The bytes between the reader and the writer. -/
def readable (b : Buffer) : List UInt8 := b.peek 0 b.readableBytes

theorem ok_init : Ok {} := by
  constructor <;> simp [kCheapPrepend]

@[simp] theorem readable_init : ({} : Buffer).readable = [] := by
  simp [readable, readableBytes, peek]

theorem Ok.length_readable {b : Buffer} (h : b.Ok) : b.readable.length = b.readableBytes := by
  have h₁ := h.reader_le
  have h₂ := h.writer_le
  simp only [readable, peek, readableBytes, List.length_take, List.length_drop]
  omega

/-- Bytes peeked at inside the readable part are bytes of the queue. -/
theorem peek_eq {b : Buffer} {off n : ℕ} (h : off + n ≤ b.readableBytes) :
    b.peek off n = (b.readable.drop off).take n := by
  unfold readable peek
  rw [List.drop_take, List.take_take, List.drop_drop, Nat.add_zero]
  congr 1
  omega

theorem ok_retrieveAll {b : Buffer} (h : b.Ok) : b.retrieveAll.Ok := by
  have h₁ := h.prepend_le
  have h₂ := h.reader_le
  have h₃ := h.writer_le
  exact ⟨Nat.le_refl _, Nat.le_refl _, Nat.le_trans h₁ (Nat.le_trans h₂ h₃)⟩

@[simp] theorem readable_retrieveAll (b : Buffer) : b.retrieveAll.readable = [] := by
  simp [readable, readableBytes, retrieveAll, peek]

theorem ok_retrieve {b : Buffer} (h : b.Ok) (len : ℕ) : (b.retrieve len).Ok := by
  unfold retrieve
  split
  · next hlen =>
      have h₁ := h.prepend_le
      have h₂ := h.reader_le
      refine ⟨?_, ?_, h.writer_le⟩
      · show kCheapPrepend ≤ b.readerIndex + len
        omega
      · show b.readerIndex + len ≤ b.writerIndex
        simp only [readableBytes] at hlen
        omega
  · exact ok_retrieveAll h

theorem readableBytes_retrieve_lt {b : Buffer} {len : ℕ} (hlen : 0 < len)
    (hb : 0 < b.readableBytes) : (b.retrieve len).readableBytes < b.readableBytes := by
  unfold retrieve
  split
  · next hlt =>
      simp only [readableBytes] at *
      omega
  · simpa [retrieveAll, readableBytes] using hb

theorem readable_retrieve {b : Buffer} (h : b.Ok) (len : ℕ) :
    (b.retrieve len).readable = b.readable.drop len := by
  unfold retrieve
  split
  · next hlen =>
      simp only [readable, readableBytes, peek, Nat.add_zero]
      rw [List.drop_take, List.drop_drop]
      congr 1
      omega
  · next hlen =>
      rw [readable_retrieveAll, List.drop_eq_nil_of_le]
      rw [h.length_readable]
      omega

/-- Making room moves or pads bytes but changes neither the queue nor the
number of readable bytes. -/
theorem ensureWritable_spec {b : Buffer} (h : b.Ok) (len : ℕ) :
    (b.ensureWritable len).Ok ∧ (b.ensureWritable len).readable = b.readable ∧
      (b.ensureWritable len).writerIndex + len ≤ (b.ensureWritable len).buffer.length := by
  have h₁ := h.prepend_le
  have h₂ := h.reader_le
  have h₃ := h.writer_le
  unfold ensureWritable
  split
  · next hroom =>
      simp only [writableBytes] at hroom
      exact ⟨h, rfl, by omega⟩
  · next hroom =>
      split
      · -- grow: the old bytes stay where they are
        have hlen : b.buffer.length ≤ b.writerIndex + len := by
          simp only [writableBytes] at hroom
          omega
        have hnew : (resize b.buffer (b.writerIndex + len)).length = b.writerIndex + len := by
          simp only [resize, List.length_append, List.length_take, List.length_replicate]
          omega
        refine ⟨⟨h₁, h₂, by dsimp only; omega⟩, ?_, by dsimp only; omega⟩
        simp only [readable, peek, readableBytes, resize, Nat.add_zero]
        rw [List.take_of_length_le hlen, List.drop_append_of_le_length (by omega),
          List.take_append_of_le_length (by rw [List.length_drop]; omega)]
      · -- slide: the readable bytes move down to the prepend area
        next hfits =>
          simp only [writableBytes] at hroom hfits
          have hq : (b.peek 0 b.readableBytes).length = b.readableBytes := h.length_readable
          have hrb : b.readableBytes = b.writerIndex - b.readerIndex := rfl
          have hnew : (copyTo b.buffer kCheapPrepend (b.peek 0 b.readableBytes)).length =
              b.buffer.length := by
            simp only [copyTo, List.length_append, List.length_take, List.length_drop, hq]
            omega
          refine ⟨⟨Nat.le_refl _, Nat.le_add_right _ _, by dsimp only; omega⟩, ?_,
            by dsimp only; omega⟩
          simp only [readable, copyTo]
          unfold peek
          simp only [readableBytes, Nat.add_zero, Nat.add_sub_cancel_left]
          rw [List.append_assoc, List.drop_append_of_le_length (by
            rw [List.length_take]; omega), List.drop_eq_nil_of_le (by
            rw [List.length_take]; omega), List.nil_append, List.take_append_of_le_length (by
            rw [List.length_take, List.length_drop]; omega), List.take_take, Nat.min_self]

/-- Bytes written right behind the writer join the queue. -/
theorem write_spec {b : Buffer} (h : b.Ok) {data : List UInt8}
    (hroom : b.writerIndex + data.length ≤ b.buffer.length) :
    let b' : Buffer := { b with
      buffer := copyTo b.buffer b.writerIndex data
      writerIndex := b.writerIndex + data.length }
    b'.Ok ∧ b'.readable = b.readable ++ data := by
  have h₁ := h.prepend_le
  have h₂ := h.reader_le
  have hlen : (copyTo b.buffer b.writerIndex data).length = b.buffer.length := by
    simp only [copyTo, List.length_append, List.length_take, List.length_drop]
    omega
  refine ⟨⟨h₁, by dsimp only; omega, by dsimp only; omega⟩, ?_⟩
  simp only [readable, peek, readableBytes, copyTo, Nat.add_zero]
  rw [List.append_assoc, List.drop_append_of_le_length (by rw [List.length_take]; omega),
    List.drop_take]
  have hsplit : b.writerIndex + data.length - b.readerIndex =
      ((b.buffer.drop b.readerIndex).take (b.writerIndex - b.readerIndex)).length +
        data.length := by
    rw [List.length_take, List.length_drop]
    omega
  rw [hsplit, List.take_length_add_append, List.take_append_of_le_length (Nat.le_refl _),
    List.take_length]

theorem append_spec {b : Buffer} (h : b.Ok) (data : List UInt8) :
    (b.append data).Ok ∧ (b.append data).readable = b.readable ++ data := by
  obtain ⟨hok, hread, hroom⟩ := ensureWritable_spec h data.length
  rw [← hread]
  exact write_spec hok hroom

theorem readFd_spec {b : Buffer} (h : b.Ok) (bytes : List UInt8) :
    (b.readFd bytes).Ok ∧ (b.readFd bytes).readable = b.readable ++ bytes := by
  have hw := h.writer_le
  simp only [readFd]
  split
  · next hfits =>
      have hroom : b.writerIndex + bytes.length ≤ b.buffer.length := by
        simp only [writableBytes] at hfits
        omega
      exact write_spec h hroom
  · next hfits =>
      have hlen : (bytes.take b.writableBytes).length = b.writableBytes := by
        rw [List.length_take]
        omega
      have hfull : b.writerIndex + (bytes.take b.writableBytes).length = b.buffer.length := by
        rw [hlen]
        simp only [writableBytes]
        omega
      have hfirst := write_spec h (Nat.le_of_eq hfull)
      rw [hfull] at hfirst
      obtain ⟨hok, hread⟩ := append_spec hfirst.1 (bytes.drop b.writableBytes)
      refine ⟨hok, ?_⟩
      rw [hread, hfirst.2, List.append_assoc, List.take_append_drop]

end Buffer

end GameServer.Net
