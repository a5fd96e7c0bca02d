import GameServer.Net.TcpConnection
import GameServer.Proto.ProtobufCodec

/-!
Streams that are not made of frames.

An illegal length field makes `onMessage` shut the connection down and drop
what it has buffered. Nothing else is remembered, and the shutdown closes the
sending side only: bytes that arrive later are cut into frames again,
starting wherever the chunk happened to begin. `IllegalForGood` and
`CutIndependent` are what was intended; they hold of exactly those streams
that contain no complete frame behind their first illegal field,
`illegal_stream_stays_silent`.
-/

namespace GameServer.Proto

open GameServer.Lib
open GameServer.Net

/-! ### Offsets -/

def frameSize (m : RawMessage) : ℕ := kHeaderLen + (kIdLen + m.body.length)

/-- The length of the part of a stream that carries these messages. -/
def offset (ms : List RawMessage) : ℕ := (ms.map frameSize).sum

@[simp] theorem offset_nil : offset [] = 0 := rfl

@[simp] theorem offset_cons (m : RawMessage) (ms : List RawMessage) :
    offset (m :: ms) = frameSize m + offset ms := rfl

/-- Where the first illegal length field stands. -/
def illegalAt (bs : List UInt8) : Option ℕ :=
  match frames.parse bs with
  | (ms, none) => some (offset ms)
  | (_, some _) => none

/-- The frame at the front takes `frameSize` bytes. -/
theorem nextFrame_size {bs rest : List UInt8} {m : RawMessage}
    (h : nextFrame bs = .item m rest) :
    frameSize m = kHeaderLen + ofBE (bs.take 4) ∧ frameSize m ≤ bs.length ∧
      rest = bs.drop (frameSize m) := by
  obtain ⟨hfull, hmin, -, rfl, rfl⟩ := nextFrame_item h
  have hsize : frameSize ⟨UInt16.ofNat (ofBE ((bs.drop kHeaderLen).take 2)),
      (bs.drop (kHeaderLen + kIdLen)).take (ofBE (bs.take 4) - kIdLen)⟩ =
      kHeaderLen + ofBE (bs.take 4) := by
    simp only [frameSize, List.length_take, List.length_drop]
    omega
  exact ⟨hsize, by omega, by rw [hsize]⟩

theorem nextFrame_bad {bs : List UInt8} (h : nextFrame bs = .bad) :
    kHeaderLen ≤ bs.length ∧ (ofBE (bs.take 4) < kIdLen ∨ ofBE (bs.take 4) > kMaxFrameLen) := by
  unfold nextFrame at h
  split at h
  · cases h
  · dsimp only at h
    split at h
    · next hbad => exact ⟨by omega, hbad⟩
    · split at h <;> cases h

theorem parse_cons {bs : List UInt8} {m : RawMessage} {ms : List RawMessage}
    {last : Option (List UInt8)} (h : frames.parse bs = (m :: ms, last)) :
    ∃ rest, nextFrame bs = .item m rest ∧ frames.parse rest = (ms, last) := by
  cases hnext : nextFrame bs with
  | more =>
      rw [Splitter.parse_more (S := frames) hnext] at h
      cases h
  | bad =>
      rw [Splitter.parse_bad (S := frames) hnext] at h
      cases h
  | item m' rest =>
      rw [Splitter.parse_item (S := frames) hnext] at h
      simp only [Prod.mk.injEq, List.cons.injEq] at h
      obtain ⟨⟨rfl, rfl⟩, rfl⟩ := h
      exact ⟨rest, rfl, rfl⟩

theorem parse_nil_none {bs : List UInt8} (h : frames.parse bs = ([], none)) :
    nextFrame bs = .bad := by
  cases hnext : nextFrame bs with
  | more =>
      rw [Splitter.parse_more (S := frames) hnext] at h
      cases h
  | bad => rfl
  | item m rest =>
      rw [Splitter.parse_item (S := frames) hnext] at h
      cases h

/-- The first illegal field is where the legal frames end, and it is in the
stream completely. -/
theorem parse_none {bs : List UInt8} {ms : List RawMessage} (h : frames.parse bs = (ms, none)) :
    offset ms + kHeaderLen ≤ bs.length ∧ nextFrame (bs.drop (offset ms)) = .bad := by
  induction ms generalizing bs with
  | nil =>
      have hbad := parse_nil_none h
      exact ⟨by simpa using (nextFrame_bad hbad).1, hbad⟩
  | cons m ms ih =>
      obtain ⟨rest, hnext, hrest⟩ := parse_cons h
      obtain ⟨-, hle, rfl⟩ := nextFrame_size hnext
      obtain ⟨hlen, hbad⟩ := ih hrest
      rw [List.length_drop] at hlen
      rw [List.drop_drop] at hbad
      exact ⟨by rw [offset_cons]; omega, hbad⟩

theorem parse_some {bs rest : List UInt8} {ms : List RawMessage}
    (h : frames.parse bs = (ms, some rest)) :
    bs.length = offset ms + rest.length ∧ nextFrame rest = .more := by
  induction ms generalizing bs with
  | nil =>
      cases hnext : nextFrame bs with
      | more =>
          rw [Splitter.parse_more (S := frames) hnext] at h
          cases h
          exact ⟨by simp, hnext⟩
      | bad =>
          rw [Splitter.parse_bad (S := frames) hnext] at h
          cases h
      | item m bs' =>
          rw [Splitter.parse_item (S := frames) hnext] at h
          cases h
  | cons m ms ih =>
      obtain ⟨bs', hnext, hrest⟩ := parse_cons h
      obtain ⟨-, hle, rfl⟩ := nextFrame_size hnext
      obtain ⟨hlen, hmore⟩ := ih hrest
      rw [List.length_drop] at hlen
      exact ⟨by rw [offset_cons]; omega, hmore⟩

/-- An incomplete frame is shorter than the longest frame. -/
theorem length_lt_of_more {bs : List UInt8} (h : nextFrame bs = .more) :
    bs.length < kHeaderLen + kMaxFrameLen := by
  unfold nextFrame at h
  split at h
  · next hshort => omega
  · dsimp only at h
    split at h
    · cases h
    · next hlegal =>
        split at h
        · next hhalf => omega
        · cases h

/-- The bytes of a frame alone are cut off as that frame. -/
theorem nextFrame_alone {bs rest : List UInt8} {m : RawMessage}
    (h : nextFrame bs = .item m rest) : nextFrame (bs.take (frameSize m)) = .item m [] := by
  obtain ⟨hsize, hle, -⟩ := nextFrame_size h
  obtain ⟨hfull, hmin, hmax, hm, -⟩ := nextFrame_item h
  have hlen : (bs.take (frameSize m)).length = frameSize m := by
    rw [List.length_take, Nat.min_eq_left hle]
  have hhead : (bs.take (frameSize m)).take 4 = bs.take 4 := by
    rw [List.take_take, Nat.min_eq_left (by rw [hsize]; exact Nat.le_add_right 4 _)]
  have hrest : (bs.take (frameSize m)).drop (kHeaderLen + ofBE (bs.take 4)) = [] :=
    List.drop_eq_nil_of_le (by omega)
  rw [nextFrame_of_le (by rw [hhead, hlen]; omega) (by rwa [hhead]) (by rwa [hhead]), hhead,
    hrest]
  simp only [kHeaderLen, kIdLen] at *
  rw [List.drop_take, List.drop_take, List.take_take, List.take_take,
    Nat.min_eq_left (by omega), Nat.min_eq_left (by omega), ← hm]

/-- A stream cut behind its first illegal field is illegal already. -/
theorem parse_take {bs : List UInt8} {ms : List RawMessage} {j : ℕ}
    (h : frames.parse bs = (ms, none)) (hj : offset ms + kHeaderLen ≤ j) :
    frames.parse (bs.take j) = (ms, none) := by
  induction ms generalizing bs j with
  | nil =>
      obtain ⟨hlen, hfield⟩ := nextFrame_bad (parse_nil_none h)
      apply Splitter.parse_bad (S := frames)
      show nextFrame (bs.take j) = .bad
      rw [offset_nil, Nat.zero_add] at hj
      have hhead : (bs.take j).take 4 = bs.take 4 := by
        rw [List.take_take, Nat.min_eq_left (by simpa [kHeaderLen] using hj)]
      unfold nextFrame
      rw [if_neg (by rw [List.length_take]; omega)]
      dsimp only
      rw [hhead, if_pos hfield]
  | cons m ms ih =>
      obtain ⟨rest, hnext, hrest⟩ := parse_cons h
      obtain ⟨-, -, rfl⟩ := nextFrame_size hnext
      rw [offset_cons] at hj
      have hcut : bs.take j =
          bs.take (frameSize m) ++ (bs.drop (frameSize m)).take (j - frameSize m) := by
        rw [← List.take_add]
        congr 1
        omega
      have hitem : frames.next (bs.take j) =
          .item m ((bs.drop (frameSize m)).take (j - frameSize m)) := by
        rw [hcut]
        exact frames.item_append _ (nextFrame_alone hnext)
      rw [Splitter.parse_item hitem, ih hrest (by omega)]

/-! ### Reading on after an illegal field -/

/-- No complete frame begins at `j` or later. -/
def Barren (bs : List UInt8) (k : ℕ) : Prop :=
  ∀ j, k ≤ j → ∀ m rest, nextFrame (bs.drop j) ≠ .item m rest

/-- Everything behind the first illegal length field, wherever one starts to
read, is no frame. -/
def SilentTail (bs : List UInt8) : Prop :=
  ∀ k, illegalAt bs = some k → Barren bs (k + kHeaderLen)

/-- Once the stream was found illegal, nothing is dispatched any more. -/
def IllegalForGood (bs : List UInt8) : Prop :=
  ∀ chunks : List (List UInt8), chunks.flatten = bs →
    ∀ pre post, (receive true chunks).events = pre ++ .shutdown :: post →
      ∀ m, CodecEvent.message m ∉ post

/-- The messages dispatched before the stream was found illegal. -/
def Receiver.dispatchedFirst (r : Receiver) : List RawMessage :=
  (r.events.takeWhile (· ≠ .shutdown)).filterMap fun
    | .message m => some m
    | .shutdown => none

/-- How far the loop had come when it found the stream illegal. -/
def Receiver.illegalOffset (r : Receiver) : Option ℕ :=
  if .shutdown ∈ r.events then some (offset r.dispatchedFirst) else none

def Receiver.dispatched (r : Receiver) : List RawMessage :=
  r.events.filterMap fun
    | .message m => some m
    | .shutdown => none

/-- What is dispatched does not depend on the cut. -/
def CutIndependent (bs : List UInt8) : Prop :=
  ∀ chunks chunks' : List (List UInt8), chunks.flatten = bs → chunks'.flatten = bs →
    (receive true chunks).dispatched = (receive true chunks').dispatched

theorem illegalAt_of_parse {bs : List UInt8} {ms : List RawMessage}
    (h : frames.parse bs = (ms, none)) : illegalAt bs = some (offset ms) := by
  simp only [illegalAt, h]

theorem parse_append_none {bs : List UInt8} {ms : List RawMessage}
    (h : frames.parse bs = (ms, none)) (more : List UInt8) :
    frames.parse (bs ++ more) = (ms, none) := by
  rw [Splitter.parse_append, h]

/-- The chunk that completes the illegal field empties the buffer. -/
theorem feed_illegal {r : Receiver} (hok : r.buffer.Ok) {chunk : List UInt8}
    {ms : List RawMessage} (h : frames.parse (r.buffer.readable ++ chunk) = (ms, none)) :
    (r.feed true chunk).buffer.Ok ∧ (r.feed true chunk).buffer.readable = [] ∧
      (r.feed true chunk).events = r.events ++ (ms.map .message ++ [.shutdown]) := by
  obtain ⟨hok', hread⟩ := Buffer.append_spec hok chunk
  have hloop := onMessage_eq hok' true
  rw [hread, h] at hloop
  exact ⟨hloop.1, hloop.2.2, congrArg (r.events ++ ·) hloop.2.1⟩

theorem feed_legal {r : Receiver} (hok : r.buffer.Ok) {chunk rest : List UInt8}
    {ms : List RawMessage} (h : frames.parse (r.buffer.readable ++ chunk) = (ms, some rest)) :
    (r.feed true chunk).buffer.Ok ∧ (r.feed true chunk).buffer.readable = rest ∧
      (r.feed true chunk).events = r.events ++ ms.map .message := by
  obtain ⟨hok', hread⟩ := Buffer.append_spec hok chunk
  have hloop := onMessage_eq hok' true
  rw [hread, h] at hloop
  exact ⟨hloop.1, hloop.2.2, congrArg (r.events ++ ·) hloop.2.1⟩

/-- Reading on over a silent tail: the buffer holds a part of it, and the
only thing that happens again is the shutdown. -/
theorem receive_illegal {bs : List UInt8} (hsilent : SilentTail bs)
    {chunks : List (List UInt8)} {ms : List RawMessage} {more : List UInt8}
    (hcut : chunks.flatten ++ more = bs) (h : frames.parse chunks.flatten = (ms, none)) :
    (receive true chunks).buffer.Ok ∧
      (∃ j, offset ms + kHeaderLen ≤ j ∧ j ≤ chunks.flatten.length ∧
        (receive true chunks).buffer.readable = chunks.flatten.drop j) ∧
      ∃ n, (receive true chunks).events = ms.map .message ++ List.replicate (n + 1) .shutdown := by
  have hbarren : Barren bs (offset ms + kHeaderLen) :=
    hsilent _ (illegalAt_of_parse (hcut ▸ parse_append_none h more))
  induction chunks using List.reverseRecOn generalizing more with
  | nil =>
      have hnil : frames.parse [] = ([], some []) := Splitter.parse_more (by rfl)
      rw [List.flatten_nil, hnil] at h
      cases h
  | append_singleton chunks chunk ih =>
      have hflat : (chunks ++ [chunk]).flatten = chunks.flatten ++ chunk := by simp
      rw [hflat] at h hcut ⊢
      rw [receive_concat]
      have hparse := Splitter.parse_append (S := frames) chunks.flatten chunk
      rw [h] at hparse
      cases hp : frames.parse chunks.flatten with
      | mk ms₁ rest₁ =>
          rw [hp] at hparse
          cases rest₁ with
          | some rest₁ =>
              -- the illegal field is completed by this chunk
              obtain ⟨hok, hread, hev⟩ := receive_eq true hp
              cases hq : frames.parse (rest₁ ++ chunk) with
              | mk ms₂ rest₂ =>
                  simp only [hq, Prod.mk.injEq] at hparse
                  obtain ⟨rfl, rfl⟩ := hparse
                  obtain ⟨hok', hread', hev'⟩ := feed_illegal hok (by rw [hread]; exact hq)
                  refine ⟨hok', ⟨_, (parse_none h).1, Nat.le_refl _, ?_⟩, 0, ?_⟩
                  · rw [hread', List.drop_length]
                  · rw [hev', hev]
                    simp
          | none =>
              simp only [Prod.mk.injEq, and_true] at hparse
              subst hparse
              rw [List.append_assoc] at hcut
              obtain ⟨hok, ⟨j, hj, hjlen, hread⟩, n, hev⟩ := ih hcut hp
              have hdrop : chunks.flatten.drop j ++ chunk = (chunks.flatten ++ chunk).drop j :=
                (List.drop_append_of_le_length hjlen).symm
              have hlen : j ≤ (chunks.flatten ++ chunk).length := by
                rw [List.length_append]
                omega
              -- no frame can begin here, or the tail of `bs` would contain it
              cases hnext : frames.next (chunks.flatten.drop j ++ chunk) with
              | item m rest =>
                  have hitem := frames.item_append more hnext
                  rw [List.append_assoc, ← List.drop_append_of_le_length hjlen, hcut] at hitem
                  exact absurd hitem (hbarren j hj m _)
              | more =>
                  obtain ⟨hok', hread', hev'⟩ :=
                    feed_legal hok (by rw [hread]; exact Splitter.parse_more hnext)
                  refine ⟨hok', ⟨j, hj, hlen, by rw [hread', hdrop]⟩, n, ?_⟩
                  rw [hev', hev]
                  simp
              | bad =>
                  obtain ⟨hok', hread', hev'⟩ :=
                    feed_illegal hok (by rw [hread]; exact Splitter.parse_bad hnext)
                  refine ⟨hok', ⟨_, hj.trans hlen, Nat.le_refl _, ?_⟩, n + 1, ?_⟩
                  · rw [hread', List.drop_length]
                  · rw [hev', hev, List.replicate_succ' (n := n + 1)]
                    simp

/-- Whatever follows, the events begin with the messages in front of the
illegal field and the shutdown. -/
theorem receive_until_illegal {chunks : List (List UInt8)} {ms : List RawMessage}
    (h : frames.parse chunks.flatten = (ms, none)) :
    ∃ later, (receive true chunks).events = ms.map .message ++ .shutdown :: later := by
  induction chunks using List.reverseRecOn with
  | nil =>
      have hnil : frames.parse [] = ([], some []) := Splitter.parse_more (by rfl)
      rw [List.flatten_nil, hnil] at h
      cases h
  | append_singleton chunks chunk ih =>
      have hparse := Splitter.parse_append (S := frames) chunks.flatten chunk
      rw [List.flatten_append, List.flatten_singleton, hparse] at h
      rw [receive_concat]
      cases hp : frames.parse chunks.flatten with
      | mk ms₁ rest₁ =>
          rw [hp] at h
          cases rest₁ with
          | some rest₁ =>
              obtain ⟨hok, hread, hev⟩ := receive_eq true hp
              cases hq : frames.parse (rest₁ ++ chunk) with
              | mk ms₂ rest₂ =>
                  simp only [hq, Prod.mk.injEq] at h
                  obtain ⟨rfl, rfl⟩ := h
                  obtain ⟨-, -, hev'⟩ := feed_illegal hok (by rw [hread]; exact hq)
                  exact ⟨[], by rw [hev', hev]; simp⟩
          | none =>
              simp only [Prod.mk.injEq, and_true] at h
              subst h
              obtain ⟨later, hev⟩ := ih hp
              refine ⟨later ++ (onMessage true
                ((receive true chunks).buffer.append chunk)).1, ?_⟩
              simp only [Receiver.feed, hev, List.append_assoc, List.cons_append]

/-- A stream whose tail is silent is cut into the same messages everywhere. -/
theorem receive_events {bs : List UInt8} (hsilent : SilentTail bs) {chunks : List (List UInt8)}
    (hcut : chunks.flatten = bs) :
    ∃ n, (receive true chunks).events =
      (frames.parse bs).1.map .message ++ List.replicate n .shutdown := by
  cases hp : frames.parse bs with
  | mk ms rest =>
      subst hcut
      cases rest with
      | some rest => exact ⟨0, by simpa using (receive_eq true hp).2.2⟩
      | none =>
          obtain ⟨-, -, n, hev⟩ := receive_illegal hsilent (List.append_nil _) hp
          exact ⟨n + 1, hev⟩

/-- A frame behind the illegal field is dispatched when a chunk begins with
it. -/
theorem receive_cut {bs : List UInt8} {ms : List RawMessage} {j : ℕ} {m : RawMessage}
    {rest : List UInt8} (h : frames.parse bs = (ms, none)) (hj : offset ms + kHeaderLen ≤ j)
    (hnext : nextFrame (bs.drop j) = .item m rest) :
    ∃ later, (receive true [bs.take j, bs.drop j]).events =
      ms.map .message ++ .shutdown :: .message m :: later := by
  have hpoisoned : frames.parse (({} : Receiver).buffer.readable ++ bs.take j) = (ms, none) := by
    rw [Buffer.readable_init]
    exact parse_take h hj
  obtain ⟨hok, hread, hev⟩ := feed_illegal Buffer.ok_init hpoisoned
  obtain ⟨hok', hread'⟩ := Buffer.append_spec hok (bs.drop j)
  rw [hread, List.nil_append] at hread'
  have hloop := onMessage_eq hok' true
  rw [hread', Splitter.parse_item (S := frames) hnext] at hloop
  have hrun : (receive true [bs.take j, bs.drop j]).events =
      (Receiver.feed true {} (bs.take j)).events ++ (onMessage true
        ((Receiver.feed true {} (bs.take j)).buffer.append (bs.drop j))).1 := rfl
  rw [hrun, hev]
  cases hlast : (frames.parse rest).2 with
  | none =>
      simp only [hlast] at hloop
      exact ⟨(frames.parse rest).1.map .message ++ [.shutdown], by rw [hloop.2.1]; simp⟩
  | some rest' =>
      simp only [hlast] at hloop
      exact ⟨(frames.parse rest).1.map .message, by rw [hloop.2.1]; simp⟩

theorem mem_replicate_shutdown {n : ℕ} {m : RawMessage} :
    CodecEvent.message m ∉ List.replicate n CodecEvent.shutdown := by
  intro hmem
  cases List.eq_of_mem_replicate hmem

/-- Messages first, shutdowns behind them: nothing is dispatched after the
first shutdown. -/
theorem no_message_after {ms : List RawMessage} {n : ℕ} {pre post : List CodecEvent}
    (h : ms.map .message ++ List.replicate n .shutdown = pre ++ .shutdown :: post)
    (m : RawMessage) : CodecEvent.message m ∉ post := by
  induction ms generalizing pre with
  | nil =>
      intro hmem
      apply mem_replicate_shutdown (n := n) (m := m)
      rw [List.map_nil, List.nil_append] at h
      rw [h]
      exact List.mem_append_right _ (List.mem_cons_of_mem _ hmem)
  | cons m' ms ih =>
      cases pre with
      | nil => cases h
      | cons e pre =>
          rw [List.map_cons, List.cons_append, List.cons_append] at h
          exact ih (List.cons.inj h).2

theorem dispatched_of_events {r : Receiver} {ms : List RawMessage} {n : ℕ}
    (h : r.events = ms.map .message ++ List.replicate n .shutdown) : r.dispatched = ms := by
  have hnone : (List.replicate n CodecEvent.shutdown).filterMap (fun
      | .message m => some m
      | .shutdown => none) = [] := by
    rw [List.filterMap_eq_nil_iff]
    intro e he
    rw [List.eq_of_mem_replicate he]
  rw [Receiver.dispatched, h, List.filterMap_append, hnone, List.append_nil, List.filterMap_map]
  exact List.filterMap_some

/-- Up to the first illegal field, every cut of the stream gives the messages
of the stream. -/
theorem receive_first (chunks : List (List UInt8)) :
    (receive true chunks).dispatchedFirst = (frames.parse chunks.flatten).1 ∧
      (receive true chunks).illegalOffset = illegalAt chunks.flatten := by
  have hmessages (ms : List RawMessage) : (ms.map CodecEvent.message).filterMap (fun
      | .message m => some m
      | .shutdown => none) = ms := by
    rw [List.filterMap_map]
    exact List.filterMap_some
  have hall (ms : List RawMessage) :
      ∀ e ∈ ms.map CodecEvent.message, decide (e ≠ .shutdown) = true := by
    intro e he
    obtain ⟨m, -, rfl⟩ := List.mem_map.mp he
    simp
  cases hp : frames.parse chunks.flatten with
  | mk ms rest =>
      cases rest with
      | some rest =>
          have hev := (receive_eq true hp).2.2
          have hfirst : (receive true chunks).dispatchedFirst = ms := by
            rw [Receiver.dispatchedFirst, hev, ← List.append_nil (ms.map CodecEvent.message),
              List.takeWhile_append_of_pos (hall ms), List.takeWhile_nil, List.append_nil,
              hmessages]
          have hnone : CodecEvent.shutdown ∉ (receive true chunks).events := by
            rw [hev]
            simp
          exact ⟨hfirst, by simp [Receiver.illegalOffset, hnone, illegalAt, hp]⟩
      | none =>
          obtain ⟨later, hev⟩ := receive_until_illegal hp
          have hfirst : (receive true chunks).dispatchedFirst = ms := by
            rw [Receiver.dispatchedFirst, hev, List.takeWhile_append_of_pos (hall ms),
              List.takeWhile_cons_of_neg (by simp), List.append_nil, hmessages]
          have hsome : CodecEvent.shutdown ∈ (receive true chunks).events := by
            rw [hev]
            simp
          refine ⟨hfirst, ?_⟩
          rw [Receiver.illegalOffset, if_pos hsome, hfirst, illegalAt_of_parse hp]

/-- An illegal frame ends the dispatching on its connection, and the messages
dispatched are a function of the stream, for exactly the streams that have no
complete frame behind their first illegal length field. -/
theorem illegal_stream_stays_silent (bs : List UInt8) :
    (IllegalForGood bs ↔ SilentTail bs) ∧ (CutIndependent bs ↔ SilentTail bs) := by
  -- otherwise the frame is found by a chunk that begins with it
  have hloud (hnot : ¬SilentTail bs) : ∃ chunks : List (List UInt8), chunks.flatten = bs ∧
      ∃ m later, (receive true chunks).events =
        (frames.parse bs).1.map .message ++ .shutdown :: .message m :: later := by
    simp only [SilentTail, Barren, ne_eq, not_forall, not_not] at hnot
    obtain ⟨k, hk, j, hj, m, rest, hnext⟩ := hnot
    cases hp : frames.parse bs with
    | mk ms last =>
        cases last with
        | some rest => simp [illegalAt, hp] at hk
        | none =>
            rw [illegalAt_of_parse hp, Option.some.injEq] at hk
            subst hk
            obtain ⟨later, hev⟩ := receive_cut hp hj hnext
            exact ⟨[bs.take j, bs.drop j], by simp, m, later, hev⟩
  refine ⟨⟨fun hgood => ?_, fun hsilent chunks hcut pre post hev m => ?_⟩,
    ⟨fun hindep => ?_, fun hsilent chunks chunks' hcut hcut' => ?_⟩⟩
  · by_contra hnot
    obtain ⟨chunks, hcut, m, later, hev⟩ := hloud hnot
    exact hgood chunks hcut _ _ hev m (List.mem_cons_self ..)
  · obtain ⟨n, heq⟩ := receive_events hsilent hcut
    exact no_message_after (heq.symm.trans hev) m
  · by_contra hnot
    obtain ⟨chunks, hcut, m, later, hev⟩ := hloud hnot
    have hwhole : (receive true [bs]).dispatched = (frames.parse bs).1 := by
      cases hp : frames.parse bs with
      | mk ms last =>
          have hfresh : frames.parse (({} : Receiver).buffer.readable ++ bs) = (ms, last) := by
            rw [Buffer.readable_init]
            exact hp
          cases last with
          | some rest =>
              have hfed := (feed_legal (r := {}) Buffer.ok_init hfresh).2.2
              exact dispatched_of_events (n := 0) (by simpa [receive] using hfed)
          | none =>
              have hfed := (feed_illegal (r := {}) Buffer.ok_init hfresh).2.2
              exact dispatched_of_events (n := 1) (by simpa [receive] using hfed)
    have hlen := congrArg List.length (hindep chunks [bs] hcut (by simp))
    rw [hwhole, Receiver.dispatched, hev] at hlen
    simp only [List.filterMap_append, List.filterMap_map, List.filterMap_cons,
      List.length_append, List.length_cons] at hlen
    have hself : (List.filterMap ((fun
        | .message m => some m
        | .shutdown => none) ∘ CodecEvent.message) (frames.parse bs).1).length =
        (frames.parse bs).1.length := congrArg List.length List.filterMap_some
    omega
  · obtain ⟨n, heq⟩ := receive_events hsilent hcut
    obtain ⟨n', heq'⟩ := receive_events hsilent hcut'
    rw [dispatched_of_events heq, dispatched_of_events heq']

/-- A length field of zero, and a frame behind it. Whether the frame is
dispatched depends on whether it comes in a chunk of its own. -/
theorem frame_after_illegal_length :
    let bs : List UInt8 := [0, 0, 0, 0, 0, 0, 0, 2, 0, 7]
    (receive true [bs]).events = [.shutdown] ∧
      (receive true [[0, 0, 0, 0], [0, 0, 0, 2, 0, 7]]).events =
        [.shutdown, .message ⟨7, []⟩] ∧ ¬IllegalForGood bs ∧ ¬CutIndependent bs := by
  intro bs
  have hrun : (receive true [bs]).events = [.shutdown] ∧
      (receive true [[0, 0, 0, 0], [0, 0, 0, 2, 0, 7]]).events =
        [.shutdown, .message ⟨7, []⟩] := by
    decide +kernel
  refine ⟨hrun.1, hrun.2, fun hgood => ?_, fun hindep => ?_⟩
  · exact hgood _ (by rfl) [] _ hrun.2 ⟨7, []⟩ (List.mem_cons_self ..)
  · have heq := hindep [bs] [[0, 0, 0, 0], [0, 0, 0, 2, 0, 7]] (by rfl) (by rfl)
    simp [Receiver.dispatched, hrun.1, hrun.2] at heq

/-! ### The codec behind a connection -/

/-- The message callback of the server: the codec's loop. -/
def codecCallback : MessageCallback (List CodecEvent) := fun events buf =>
  let r := onMessage true buf
  (events ++ r.1, r.2, r.1.filterMap fun
    | .shutdown => some .shutdown
    | .message _ => none)

/-- The loop only looks at the readable bytes. -/
theorem onMessage_congr {b b' : Buffer} (hok : b.Ok) (hok' : b'.Ok)
    (heq : b.readable = b'.readable) :
    (onMessage true b).1 = (onMessage true b').1 ∧
      (onMessage true b).2.readable = (onMessage true b').2.readable := by
  have h := (onMessage_eq hok true).2
  have h' := (onMessage_eq hok' true).2
  rw [heq] at h
  cases hp : frames.parse b'.readable with
  | mk ms last =>
      rw [hp] at h h'
      cases last with
      | none => exact ⟨h.1.trans h'.1.symm, h.2.trans h'.2.symm⟩
      | some rest => exact ⟨h.1.trans h'.1.symm, h.2.trans h'.2.symm⟩

theorem call_input {σ : Type} (c : TcpConnection σ) (x : Call) :
    (c.call x).user = c.user ∧ (c.call x).inputBuffer = c.inputBuffer := by
  have hrest (rest : List UInt8) (c : TcpConnection σ) :
      (c.appendRest rest).user = c.user ∧ (c.appendRest rest).inputBuffer = c.inputBuffer := by
    unfold TcpConnection.appendRest
    split <;> exact ⟨rfl, rfl⟩
  cases x with
  | send msg =>
      have hwrite := TcpConnection.onlyOutput_write msg c
      have hsame : (c.write msg).2.user = c.user ∧
          (c.write msg).2.inputBuffer = c.inputBuffer := ⟨hwrite.user, hwrite.inputBuffer⟩
      simp only [TcpConnection.call, TcpConnection.sendInLoop]
      split
      · split
        · exact ⟨rfl, rfl⟩
        · split
          · split
            · exact ⟨(hrest _ _).1.trans hsame.1, (hrest _ _).2.trans hsame.2⟩
            · split
              · exact hsame
              · exact ⟨(hrest _ _).1.trans hsame.1, (hrest _ _).2.trans hsame.2⟩
          · exact hrest msg c
      · exact ⟨rfl, rfl⟩
  | shutdown =>
      simp only [TcpConnection.call, TcpConnection.shutdownInLoop]
      split
      · split <;> exact ⟨rfl, rfl⟩
      · exact ⟨rfl, rfl⟩

theorem calls_input {σ : Type} (calls : List Call) (c : TcpConnection σ) :
    (calls.foldl (fun c x => c.call x) c).user = c.user ∧
      (calls.foldl (fun c x => c.call x) c).inputBuffer = c.inputBuffer := by
  induction calls generalizing c with
  | nil => exact ⟨rfl, rfl⟩
  | cons x calls ih =>
      exact ⟨(ih _).1.trans (call_input c x).1, (ih _).2.trans (call_input c x).2⟩

/-- A connection and a receiver that are at the same place of a stream. -/
structure Feeds (c : TcpConnection (List CodecEvent)) (r : Receiver) : Prop where
  ok : c.inputBuffer.Ok
  ok' : r.buffer.Ok
  readable : c.inputBuffer.readable = r.buffer.readable
  events : c.user = r.events

/-- A read event feeds the codec whatever state the connection is in; being
shut down does not stop it. -/
theorem Feeds.handleRead {c : TcpConnection (List CodecEvent)} {r : Receiver} (h : Feeds c r)
    {chunk : List UInt8} (hne : chunk ≠ []) :
    Feeds (TcpConnection.handleRead codecCallback
      { c with kernel := { reads := [.ok chunk] } }) (r.feed true chunk) := by
  have hpos : chunk.length > 0 := List.length_pos_iff.mpr hne
  obtain ⟨hok, hread⟩ := Buffer.readFd_spec h.ok chunk
  obtain ⟨hok', hread'⟩ := Buffer.append_spec h.ok' chunk
  have hbytes : (c.inputBuffer.readFd chunk).readableBytes > 0 := by
    rw [← hok.length_readable, hread, List.length_append]
    omega
  have hsame : (c.inputBuffer.readFd chunk).readable = (r.buffer.append chunk).readable := by
    rw [hread, hread', h.readable]
  obtain ⟨hevents, hrest⟩ := onMessage_congr hok hok' hsame
  simp only [TcpConnection.handleRead, TcpConnection.readLoop, if_pos hpos, if_pos hbytes,
    reduceCtorEq, if_false, TcpConnection.invokeMessageCb]
  obtain ⟨huser, hinput⟩ := calls_input
    (codecCallback c.user (c.inputBuffer.readFd chunk)).2.2
    (TcpConnection.invoke .messageCb { c with
      kernel := { reads := [.ok chunk] }
      user := (codecCallback c.user (c.inputBuffer.readFd chunk)).1
      inputBuffer := (codecCallback c.user (c.inputBuffer.readFd chunk)).2.1 })
  refine ⟨?_, ?_, ?_, ?_⟩
  · rw [hinput]
    exact (onMessage_eq hok true).1
  · exact (onMessage_eq hok' true).1
  · rw [hinput]
    exact hrest
  · rw [huser]
    show c.user ++ _ = r.events ++ _
    rw [h.events, hevents]

/-- The codec behind a connection sees the stream as `receive` does. -/
theorem connection_receives (c : TcpConnection (List CodecEvent))
    (hbuf : c.inputBuffer = {}) (huser : c.user = []) {chunks : List (List UInt8)}
    (hne : ∀ chunk ∈ chunks, chunk ≠ []) :
    Feeds (chunks.foldl (fun c chunk => TcpConnection.handleRead codecCallback
      { c with kernel := { reads := [.ok chunk] } }) c) (receive true chunks) := by
  induction chunks using List.reverseRecOn with
  | nil => exact ⟨hbuf ▸ Buffer.ok_init, Buffer.ok_init, by rw [List.foldl_nil, hbuf]; rfl, huser⟩
  | append_singleton chunks chunk ih =>
      rw [List.foldl_append, receive_concat]
      have hprev := ih fun chunk' hmem => hne chunk' (List.mem_append_left _ hmem)
      exact hprev.handleRead (hne chunk (by simp))

end GameServer.Proto
