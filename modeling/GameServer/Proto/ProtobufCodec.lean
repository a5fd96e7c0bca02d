import GameServer.Lib.ByteStream
import GameServer.Net.Buffer
import Mathlib.Data.List.Induction

/-!
The framing layer of `src/proto/ProtobufCodec.{h,cc}`. A frame is
`| len (4 bytes) | msgId (2 bytes) | body |`, both numbers big-endian and
`len` counting the id and the body.

`onMessage` is the loop of the source over the buffer's indices. It is
connected to the stream splitter `frames` once, in `onMessage_eq`; that a
stream of encoded frames is cut back into the frames it was made of, wherever
the network breaks it, is then a statement about `frames`.
-/

namespace GameServer.Proto

open GameServer.Lib
open GameServer.Net

def kHeaderLen : ℕ := 4

def kIdLen : ℕ := 2

def kMaxFrameLen : ℕ := 64 * 1024

/-- What one frame carries: the arguments of a `RawMessageCallback`. -/
structure RawMessage where
  msgId : UInt16
  body : List UInt8
deriving DecidableEq

/-- What `onMessage` does to the outside, in order. -/
inductive CodecEvent where
  | message (m : RawMessage)
  | shutdown
deriving DecidableEq

def encode (m : RawMessage) : List UInt8 :=
  toBE 4 (kIdLen + m.body.length) ++ toBE 2 m.msgId.toNat ++ m.body

/-- `conn` tells whether the connection pointer is non-null. -/
def onMessage (conn : Bool) (buf : Buffer) : List CodecEvent × Buffer :=
  if _h : buf.readableBytes ≥ kHeaderLen then
    let len := ofBE (buf.peek 0 4)
    if len < kIdLen ∨ len > kMaxFrameLen then
      (if conn then [.shutdown] else [], buf.retrieveAll)
    else if buf.readableBytes < kHeaderLen + len then ([], buf)
    else
      let msgId := UInt16.ofNat (ofBE (buf.peek kHeaderLen 2))
      let body := buf.peek (kHeaderLen + kIdLen) (len - kIdLen)
      let r := onMessage conn (buf.retrieve (kHeaderLen + len))
      (.message ⟨msgId, body⟩ :: r.1, r.2)
  else ([], buf)
termination_by buf.readableBytes
decreasing_by
  simp only [kHeaderLen] at *
  exact Buffer.readableBytes_retrieve_lt (by omega) (by omega)

/-! ### The stream of frames -/

/-- The first frame of a byte stream. -/
def nextFrame (bs : List UInt8) : Next UInt8 RawMessage :=
  if bs.length < kHeaderLen then .more
  else
    let len := ofBE (bs.take 4)
    if len < kIdLen ∨ len > kMaxFrameLen then .bad
    else if bs.length < kHeaderLen + len then .more
    else
      .item ⟨UInt16.ofNat (ofBE ((bs.drop kHeaderLen).take 2)),
        (bs.drop (kHeaderLen + kIdLen)).take (len - kIdLen)⟩ (bs.drop (kHeaderLen + len))

theorem nextFrame_item {bs rest : List UInt8} {m : RawMessage}
    (h : nextFrame bs = .item m rest) :
    kHeaderLen + ofBE (bs.take 4) ≤ bs.length ∧ kIdLen ≤ ofBE (bs.take 4) ∧
      ofBE (bs.take 4) ≤ kMaxFrameLen ∧
      m = ⟨UInt16.ofNat (ofBE ((bs.drop kHeaderLen).take 2)),
        (bs.drop (kHeaderLen + kIdLen)).take (ofBE (bs.take 4) - kIdLen)⟩ ∧
      rest = bs.drop (kHeaderLen + ofBE (bs.take 4)) := by
  unfold nextFrame at h
  split at h
  · cases h
  · dsimp only at h
    split at h
    · cases h
    · next hlegal =>
        split at h
        · cases h
        · next hfull =>
            cases h
            exact ⟨by omega, by omega, by omega, rfl, rfl⟩

theorem nextFrame_of_le {bs : List UInt8} (hfull : kHeaderLen + ofBE (bs.take 4) ≤ bs.length)
    (hmin : kIdLen ≤ ofBE (bs.take 4)) (hmax : ofBE (bs.take 4) ≤ kMaxFrameLen) :
    nextFrame bs = .item ⟨UInt16.ofNat (ofBE ((bs.drop kHeaderLen).take 2)),
        (bs.drop (kHeaderLen + kIdLen)).take (ofBE (bs.take 4) - kIdLen)⟩
      (bs.drop (kHeaderLen + ofBE (bs.take 4))) := by
  unfold nextFrame
  rw [if_neg (by omega)]
  dsimp only
  rw [if_neg (by omega), if_neg (by omega)]

theorem take_four_append {bs : List UInt8} (h : kHeaderLen ≤ bs.length) (cs : List UInt8) :
    (bs ++ cs).take 4 = bs.take 4 :=
  List.take_append_of_le_length h

/-- The bytes of a stream as frames. Reading on never changes a frame
already cut off, nor the verdict on an illegal length. -/
def frames : Splitter UInt8 RawMessage where
  next := nextFrame
  shorter := by
    intro bs m rest h
    obtain ⟨hfull, hmin, -, -, rfl⟩ := nextFrame_item h
    simp only [List.length_drop, kHeaderLen, kIdLen] at *
    omega
  item_append := by
    intro bs m rest cs h
    obtain ⟨hfull, hmin, hmax, rfl, rfl⟩ := nextFrame_item h
    have hhead : (bs ++ cs).take 4 = bs.take 4 :=
      take_four_append (by simp only [kHeaderLen] at *; omega) cs
    rw [nextFrame_of_le (by rw [hhead, List.length_append]; omega) (by rwa [hhead])
      (by rwa [hhead]), hhead]
    simp only [kHeaderLen, kIdLen] at *
    rw [List.drop_append_of_le_length (by omega), List.drop_append_of_le_length (by omega),
      List.drop_append_of_le_length (by omega),
      List.take_append_of_le_length (by rw [List.length_drop]; omega),
      List.take_append_of_le_length (by rw [List.length_drop]; omega)]
  bad_append := by
    intro bs cs h
    unfold nextFrame at h ⊢
    split at h
    · cases h
    · next hlen =>
        dsimp only at h
        rw [if_neg (by rw [List.length_append]; omega)]
        dsimp only
        rw [take_four_append (by omega)]
        split at h
        · next hbad => rw [if_pos hbad]
        · split at h <;> cases h

theorem lengthField_eq {buf : Buffer} (h : buf.readableBytes ≥ kHeaderLen) :
    ofBE (buf.peek 0 4) = ofBE (buf.readable.take 4) := by
  rw [Buffer.peek_eq (by simpa [kHeaderLen] using h), List.drop_zero]

/-- The loop over the buffer cuts the readable bytes as `frames` does. A
poisoned stream leaves the buffer empty. -/
theorem onMessage_eq {buf : Buffer} (hok : buf.Ok) (conn : Bool) :
    (onMessage conn buf).2.Ok ∧
      match frames.parse buf.readable with
      | (ms, some rest) =>
          (onMessage conn buf).1 = ms.map .message ∧ (onMessage conn buf).2.readable = rest
      | (ms, none) =>
          (onMessage conn buf).1 = ms.map .message ++ (if conn then [.shutdown] else []) ∧
            (onMessage conn buf).2.readable = [] := by
  fun_induction onMessage conn buf with
  | case1 buf hhead len hbad =>
      have hlen : len = ofBE (buf.readable.take 4) := lengthField_eq hhead
      have hnext : nextFrame buf.readable = .bad := by
        unfold nextFrame
        rw [if_neg (by rw [hok.length_readable]; omega)]
        dsimp only
        rw [← hlen, if_pos hbad]
      rw [Splitter.parse_bad (S := frames) hnext]
      exact ⟨Buffer.ok_retrieveAll hok, by simp, Buffer.readable_retrieveAll buf⟩
  | case2 buf hhead len hlegal hhalf =>
      have hlen : len = ofBE (buf.readable.take 4) := lengthField_eq hhead
      have hnext : nextFrame buf.readable = .more := by
        unfold nextFrame
        rw [if_neg (by rw [hok.length_readable]; omega)]
        dsimp only
        rw [← hlen, if_neg hlegal, if_pos (by rwa [hok.length_readable])]
      rw [Splitter.parse_more (S := frames) hnext]
      exact ⟨hok, rfl, rfl⟩
  | case3 buf hhead len hlegal hfull msgId body r ih =>
      have hlen : len = ofBE (buf.readable.take 4) := lengthField_eq hhead
      have hnext : nextFrame buf.readable =
          .item ⟨msgId, body⟩ (buf.retrieve (kHeaderLen + len)).readable := by
        have hmin : kIdLen ≤ len := by omega
        rw [nextFrame_of_le (by rw [← hlen, hok.length_readable]; omega) (by rw [← hlen]; omega)
          (by rw [← hlen]; omega), ← hlen, Buffer.readable_retrieve hok]
        simp only [kHeaderLen, kIdLen] at *
        show _ = Next.item (RawMessage.mk (UInt16.ofNat (ofBE (buf.peek 4 2)))
          (buf.peek (4 + 2) (len - 2))) _
        rw [Buffer.peek_eq (by omega), Buffer.peek_eq (by omega)]
      obtain ⟨hok', hrest⟩ := ih (Buffer.ok_retrieve hok _)
      rw [Splitter.parse_item (S := frames) hnext]
      refine ⟨hok', ?_⟩
      -- the rest of the loop only adds behind the message just dispatched
      cases hp : frames.parse (buf.retrieve (kHeaderLen + len)).readable with
      | mk ms rest =>
          rw [hp] at hrest
          cases rest with
          | none => exact ⟨by simp [r, hrest.1], hrest.2⟩
          | some rest => exact ⟨by simp [r, hrest.1], hrest.2⟩
  | case4 buf hhead =>
      have hnext : nextFrame buf.readable = .more := by
        unfold nextFrame
        rw [if_pos (by rw [hok.length_readable]; omega)]
      rw [Splitter.parse_more (S := frames) hnext]
      exact ⟨hok, rfl, rfl⟩

/-! ### One connection's input -/

/-- The receiving side of a connection: its input buffer and what the codec
has done so far. -/
structure Receiver where
  buffer : Buffer := {}
  events : List CodecEvent := []

/-- One read event: the bytes go into the buffer, then `onMessage` runs. -/
def Receiver.feed (conn : Bool) (r : Receiver) (chunk : List UInt8) : Receiver :=
  let done := onMessage conn (r.buffer.append chunk)
  { buffer := done.2, events := r.events ++ done.1 }

def receive (conn : Bool) (chunks : List (List UInt8)) : Receiver :=
  chunks.foldl (Receiver.feed conn) {}

theorem receive_concat (conn : Bool) (chunks : List (List UInt8)) (chunk : List UInt8) :
    receive conn (chunks ++ [chunk]) = (receive conn chunks).feed conn chunk := by
  simp [receive, List.foldl_append]

/-- As long as the stream so far is legal, chunk by chunk is the same as all
at once. -/
theorem receive_eq (conn : Bool) {chunks : List (List UInt8)} {ms : List RawMessage}
    {rest : List UInt8} (h : frames.parse chunks.flatten = (ms, some rest)) :
    (receive conn chunks).buffer.Ok ∧ (receive conn chunks).buffer.readable = rest ∧
      (receive conn chunks).events = ms.map .message := by
  induction chunks using List.reverseRecOn generalizing ms rest with
  | nil =>
      have hnil : frames.parse [] = ([], some []) := Splitter.parse_more (by rfl)
      rw [List.flatten_nil, hnil] at h
      cases h
      exact ⟨Buffer.ok_init, Buffer.readable_init, rfl⟩
  | append_singleton chunks chunk ih =>
      rw [List.flatten_append, List.flatten_singleton, Splitter.parse_append] at h
      cases hp : frames.parse chunks.flatten with
      | mk ms₁ rest₁ =>
          rw [hp] at h
          cases rest₁ with
          | none => cases h
          | some rest₁ =>
              obtain ⟨hok, hread, hev⟩ := ih hp
              obtain ⟨hok', hread'⟩ := Buffer.append_spec hok chunk
              have hloop := onMessage_eq hok' conn
              rw [hread', hread] at hloop
              rw [receive_concat]
              cases hq : frames.parse (rest₁ ++ chunk) with
              | mk ms₂ rest₂ =>
                  simp only [hq, Prod.mk.injEq] at h hloop
                  obtain ⟨rfl, rfl⟩ := h
                  refine ⟨hloop.1, hloop.2.2, ?_⟩
                  simp only [Receiver.feed, hev, hloop.2.1, List.map_append]

/-! ### Round trip -/

theorem length_encode (m : RawMessage) :
    (encode m).length = kHeaderLen + (kIdLen + m.body.length) := by
  simp only [encode, List.length_append, length_toBE, kHeaderLen, kIdLen]
  omega

theorem take_four_encode (m : RawMessage) (bs : List UInt8) :
    (encode m ++ bs).take 4 = toBE 4 (kIdLen + m.body.length) := by
  rw [encode, List.append_assoc, List.append_assoc,
    List.take_append_of_le_length (by simp), List.take_of_length_le (by simp)]

/-- The length field of a frame whose body fits. -/
theorem lengthField_encode {m : RawMessage} (hm : m.body.length ≤ 65534) (bs : List UInt8) :
    ofBE ((encode m ++ bs).take 4) = kIdLen + m.body.length := by
  rw [take_four_encode, ofBE_toBE, Nat.mod_eq_of_lt]
  simp only [kIdLen]
  omega

theorem nextFrame_encode {m : RawMessage} (hm : m.body.length ≤ 65534) (bs : List UInt8) :
    nextFrame (encode m ++ bs) = .item m bs := by
  have hlen := lengthField_encode hm bs
  rw [nextFrame_of_le, hlen]
  · have hid : ((encode m ++ bs).drop kHeaderLen).take 2 = toBE 2 m.msgId.toNat := by
      rw [encode, List.append_assoc, List.append_assoc,
        List.drop_left' (by simp [kHeaderLen]), List.take_left' (by simp)]
    have hbody : ((encode m ++ bs).drop (kHeaderLen + kIdLen)).take m.body.length = m.body := by
      rw [encode, List.append_assoc, List.drop_left' (by simp [kHeaderLen, kIdLen]),
        List.take_left' rfl]
    have hrest : (encode m ++ bs).drop (kHeaderLen + (kIdLen + m.body.length)) = bs :=
      List.drop_left' (length_encode m)
    have hmod : m.msgId.toNat % 256 ^ 2 = m.msgId.toNat :=
      Nat.mod_eq_of_lt m.msgId.toNat_lt
    rw [hid, ofBE_toBE, Nat.add_sub_cancel_left, hbody, hrest, hmod, UInt16.ofNat_toNat]
  · rw [hlen, List.length_append, length_encode]
    omega
  · rw [hlen]
    omega
  · rw [hlen]
    simp only [kIdLen, kMaxFrameLen]
    omega

/-- Nothing is cut off a frame that has not arrived completely. -/
theorem nextFrame_of_lt {m : RawMessage} (hm : m.body.length ≤ 65534) {bs cs : List UInt8}
    (hsplit : bs ++ cs = encode m) (hlt : bs.length < (encode m).length) :
    nextFrame bs = .more := by
  unfold nextFrame
  split
  · rfl
  · next hhead =>
      have hlen : ofBE (bs.take 4) = kIdLen + m.body.length := by
        rw [← take_four_append (by omega) cs, hsplit]
        simpa using lengthField_encode hm []
      have hfull := length_encode m
      dsimp only
      rw [hlen, if_neg (by simp only [kIdLen, kMaxFrameLen]; omega), if_pos (by omega)]

/-- The messages whose last byte is among the first `n` bytes of the
encoded stream. -/
def arrived : ℕ → List RawMessage → List RawMessage
  | _, [] => []
  | n, m :: ms => if (encode m).length ≤ n then m :: arrived (n - (encode m).length) ms else []

theorem arrived_all (ms : List RawMessage) : arrived (ms.flatMap encode).length ms = ms := by
  induction ms with
  | nil => rfl
  | cons m ms ih =>
      rw [List.flatMap_cons, List.length_append, arrived, if_pos (Nat.le_add_right _ _),
        Nat.add_sub_cancel_left, ih]

/-- A prefix of the encoded stream is cut into the messages it completes. -/
theorem parse_prefix {ms : List RawMessage} (hsize : ∀ m ∈ ms, m.body.length ≤ 65534)
    {bs cs : List UInt8} (hsplit : bs ++ cs = ms.flatMap encode) :
    ∃ rest, frames.parse bs = (arrived bs.length ms, some rest) ∧
      (cs = [] → rest = []) := by
  induction ms generalizing bs with
  | nil =>
      obtain ⟨rfl, rfl⟩ := List.append_eq_nil_iff.mp hsplit
      exact ⟨[], Splitter.parse_more (by rfl), fun _ => rfl⟩
  | cons m ms ih =>
      have hm := hsize m (by simp)
      rw [List.flatMap_cons] at hsplit
      by_cases hle : (encode m).length ≤ bs.length
      · obtain ⟨bs', rfl⟩ : ∃ bs', bs = encode m ++ bs' := by
          have hpre : encode m <+: bs ++ cs := ⟨_, hsplit.symm⟩
          obtain ⟨bs', h⟩ := List.prefix_of_prefix_length_le hpre ⟨cs, rfl⟩ hle
          exact ⟨bs', h.symm⟩
        rw [List.append_assoc] at hsplit
        obtain ⟨rest, hrest, hend⟩ :=
          ih (fun m' hm' => hsize m' (by simp [hm'])) (List.append_cancel_left hsplit)
        refine ⟨rest, ?_, hend⟩
        have hnext : frames.next (encode m ++ bs') = .item m bs' := nextFrame_encode hm bs'
        rw [Splitter.parse_item hnext, hrest]
        simp [arrived]
      · -- the first frame is still incomplete, so `bs` is a proper part of it
        obtain ⟨tail, htail⟩ : ∃ tail, bs ++ tail = encode m :=
          List.prefix_of_prefix_length_le ⟨cs, hsplit⟩ ⟨_, rfl⟩ (by omega)
        refine ⟨bs, ?_, ?_⟩
        · rw [Splitter.parse_more (S := frames) (nextFrame_of_lt hm htail (by omega))]
          simp [arrived, hle]
        · rintro rfl
          rw [List.append_nil] at hsplit
          rw [hsplit, List.length_append] at hle
          omega

/-- However the network cuts a stream of encoded messages, the callback sees
exactly these messages, each of them with the chunk that completes it; the
connection is never shut down and nothing stays in the buffer. -/
theorem receive_encoded_stream (conn : Bool) (ms : List RawMessage)
    (hsize : ∀ m ∈ ms, m.body.length ≤ 65534) (chunks : List (List UInt8))
    (hcut : chunks.flatten = ms.flatMap encode) :
    (∀ pre post, chunks = pre ++ post →
      (receive conn pre).events = (arrived pre.flatten.length ms).map .message) ∧
      (receive conn chunks).events = ms.map .message ∧
      (receive conn chunks).buffer.readableBytes = 0 := by
  refine ⟨?_, ?_⟩
  · rintro pre post rfl
    rw [List.flatten_append] at hcut
    obtain ⟨rest, hparse, -⟩ := parse_prefix hsize hcut
    exact (receive_eq conn hparse).2.2
  · rw [← List.append_nil chunks.flatten] at hcut
    obtain ⟨rest, hparse, hrest⟩ := parse_prefix hsize hcut
    obtain rfl := hrest rfl
    rw [List.append_nil] at hcut
    rw [hcut, arrived_all, ← hcut] at hparse
    obtain ⟨hok, hread, hev⟩ := receive_eq conn hparse
    exact ⟨hev, by rw [← hok.length_readable, hread, List.length_nil]⟩

/-- Two frames, the second one empty, broken inside the first length field
and inside the second frame. -/
theorem receive_encoded_stream_two_frames :
    (receive true [[0, 0], [0, 3, 0, 7, 42, 0, 0, 0], [2, 1, 0]]).events =
      [.message ⟨7, [42]⟩, .message ⟨256, []⟩] :=
  (receive_encoded_stream true [⟨7, [42]⟩, ⟨256, []⟩] (by decide)
    [[0, 0], [0, 3, 0, 7, 42, 0, 0, 0], [2, 1, 0]] (by decide)).2.1

end GameServer.Proto
