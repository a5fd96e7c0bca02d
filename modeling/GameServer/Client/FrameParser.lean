import GameServer.Proto.UntrustedStream

/-!
The client's framing, `client/Assets/Scripts/Net/ProtoCodec.cs`.

`FrameParser` keeps its bytes at the front of an array and computes with
signed 32-bit numbers, `Codec.encode` writes a frame byte by byte. The parser
is connected to the same splitter `frames` as the server's loop, so that the
two are compared through the stream and never with each other directly.
-/

namespace GameServer.Client

open GameServer.Lib
open GameServer.Net
open GameServer.Proto

/-! ### `ProtoCodec` -/

def HeaderLen : Int32 := 4

def MsgIdLen : Int32 := 2

def MaxFrameLen : Int32 := 64 * 1024

/-- The conversion `(byte)`. -/
def toByte (n : Int32) : UInt8 := n.toUInt32.toUInt8

/-- The static class `ProtoCodec`; the bytes of the message are given. -/
def ProtoCodec.encode (msgId : UInt16) (body : List UInt8) : List UInt8 :=
  let len := MsgIdLen + Int32.ofNat body.length
  let id := msgId.toUInt32.toInt32
  [toByte (len >>> 24), toByte (len >>> 16), toByte (len >>> 8), toByte len,
    toByte (id >>> 8), toByte id] ++ body

/-! ### `FrameParser` -/

structure FrameParser where
  buf : List UInt8 := List.replicate (8 * 1024) 0
  size : Int32 := 0
  corrupt : Bool := false

namespace FrameParser

/-- A byte of the buffer, promoted to `int`. -/
def byte (p : FrameParser) (i : ℕ) : Int32 := (p.buf.getD i 0).toUInt32.toInt32

/-- The loop that doubles the capacity. A positive `int` is zero after 32
doublings and stays it, so the loop ends within the fuel or never. -/
def grow : ℕ → Int32 → Int32 → Option Int32
  | 0, _, _ => none
  | fuel + 1, cap, need => if cap < need then grow fuel (cap * 2) need else some cap

/-- `none` if the loop does not end. -/
def append (data : List UInt8) (p : FrameParser) : Option FrameParser :=
  if p.corrupt then some p
  else
    let len := Int32.ofNat data.length
    let length := Int32.ofNat p.buf.length
    let resized :=
      if p.size + len > length then
        (grow 33 (length * 2) (p.size + len)).map fun cap => resize p.buf cap.toNatClampNeg
      else some p.buf
    resized.map fun buf =>
      { p with buf := copyTo buf p.size.toNatClampNeg data, size := p.size + len }

def tryTake (p : FrameParser) : Option RawMessage × FrameParser :=
  if p.corrupt ∨ p.size < HeaderLen then (none, p)
  else
    let len := (p.byte 0 <<< 24) ||| (p.byte 1 <<< 16) ||| (p.byte 2 <<< 8) ||| p.byte 3
    if len < MsgIdLen ∨ len > MaxFrameLen then (none, { p with corrupt := true })
    else if p.size < HeaderLen + len then (none, p)
    else
      let msgId := ((p.byte 4 <<< 8) ||| p.byte 5).toUInt32.toUInt16
      let bodyLen := len - MsgIdLen
      let body := (p.buf.drop (HeaderLen + MsgIdLen).toNatClampNeg).take bodyLen.toNatClampNeg
      let consumed := HeaderLen + len
      let rest := (p.buf.drop consumed.toNatClampNeg).take (p.size - consumed).toNatClampNeg
      (some ⟨msgId, body⟩, { p with buf := copyTo p.buf 0 rest, size := p.size - consumed })

/-- `while (parser.TryTake(...))`. A frame has at least six bytes. -/
def takeAll : ℕ → FrameParser → List RawMessage × FrameParser
  | 0, p => ([], p)
  | fuel + 1, p =>
      match p.tryTake with
      | (some m, p') =>
          let r := takeAll fuel p'
          (m :: r.1, r.2)
      | (none, p') => ([], p')

end FrameParser

/-- The receiving side of the client. `received` counts the bytes the parser
took in. -/
structure Inbox where
  parser : FrameParser := {}
  taken : List RawMessage := []
  received : ℕ := 0

/-- One round of the receive loop. -/
def Inbox.feed (chunk : List UInt8) (i : Inbox) : Option Inbox :=
  (i.parser.append chunk).map fun p =>
    let r := p.takeAll (p.size.toNatClampNeg + 1)
    { parser := r.2
      taken := i.taken ++ r.1
      received := if i.parser.corrupt then i.received else i.received + chunk.length }

def collect : List (List UInt8) → Inbox → Option Inbox
  | [], i => some i
  | chunk :: chunks, i => (i.feed chunk).bind (collect chunks)

/-! ### Signed numbers -/

theorem ofNat_lt_iff {a b : ℕ} (ha : a < 2 ^ 31) (hb : b < 2 ^ 31) :
    Int32.ofNat a < Int32.ofNat b ↔ a < b := by
  rw [Int32.lt_iff_toInt_lt, Int32.toInt_ofNat_of_lt ha, Int32.toInt_ofNat_of_lt hb]
  omega

/-- Four bytes shifted into place are the big-endian number, as a bit
pattern. -/
theorem shifted_eq (b₀ b₁ b₂ b₃ : UInt8) :
    (b₀.toUInt32.toInt32 <<< 24) ||| (b₁.toUInt32.toInt32 <<< 16) |||
      (b₂.toUInt32.toInt32 <<< 8) ||| b₃.toUInt32.toInt32 =
      Int32.ofNat (ofBE [b₀, b₁, b₂, b₃]) := by
  have h₀ := b₀.toNat_lt
  have h₁ := b₁.toNat_lt
  have h₂ := b₂.toNat_lt
  have h₃ := b₃.toNat_lt
  have e24 : (24 : Int32).toBitVec.smod 32 = 24#32 := by decide
  have e16 : (16 : Int32).toBitVec.smod 32 = 16#32 := by decide
  have e8 : (8 : Int32).toBitVec.smod 32 = 8#32 := by decide
  have hnum : ofBE [b₀, b₁, b₂, b₃] =
      2 ^ 8 * (2 ^ 8 * (2 ^ 8 * b₀.toNat + b₁.toNat) + b₂.toNat) + b₃.toNat := by
    simp only [ofBE, List.foldl_cons, List.foldl_nil]
    omega
  -- the four shifted bytes do not overlap
  have hor : b₀.toNat <<< 24 % 4294967296 ||| b₁.toNat <<< 16 % 4294967296 |||
      b₂.toNat <<< 8 % 4294967296 ||| b₃.toNat = ofBE [b₀, b₁, b₂, b₃] := by
    simp only [Nat.shiftLeft_eq]
    rw [Nat.mod_eq_of_lt (by omega), Nat.mod_eq_of_lt (by omega), Nat.mod_eq_of_lt (by omega)]
    have step₁ := Nat.two_pow_add_eq_or_of_lt (i := 24) (b := 2 ^ 16 * b₁.toNat) (by omega)
      b₀.toNat
    have step₂ := Nat.two_pow_add_eq_or_of_lt (i := 16) (b := 2 ^ 8 * b₂.toNat) (by omega)
      (2 ^ 8 * b₀.toNat + b₁.toNat)
    have step₃ := Nat.two_pow_add_eq_or_of_lt (i := 8) (b := b₃.toNat) (by omega)
      (2 ^ 8 * (2 ^ 8 * b₀.toNat + b₁.toNat) + b₂.toNat)
    rw [Nat.mul_comm b₀.toNat, Nat.mul_comm b₁.toNat, Nat.mul_comm b₂.toNat, ← step₁,
      show 2 ^ 24 * b₀.toNat + 2 ^ 16 * b₁.toNat = 2 ^ 16 * (2 ^ 8 * b₀.toNat + b₁.toNat) by omega,
      ← step₂,
      show 2 ^ 16 * (2 ^ 8 * b₀.toNat + b₁.toNat) + 2 ^ 8 * b₂.toNat =
        2 ^ 8 * (2 ^ 8 * (2 ^ 8 * b₀.toNat + b₁.toNat) + b₂.toNat) by omega,
      ← step₃, hnum]
  apply Int32.toBitVec_inj.mp
  apply BitVec.eq_of_toNat_eq
  simp only [Int32.toBitVec_or, Int32.toBitVec_shiftLeft, e24, e16, e8]
  have hlt : ofBE [b₀, b₁, b₂, b₃] < 4294967296 := by
    rw [hnum]
    omega
  simpa [Nat.mod_eq_of_lt hlt] using hor

theorem shifted_id_eq (b₀ b₁ : UInt8) :
    ((b₀.toUInt32.toInt32 <<< 8) ||| b₁.toUInt32.toInt32).toUInt32.toUInt16 =
      UInt16.ofNat (ofBE [b₀, b₁]) := by
  have h₀ := b₀.toNat_lt
  have h₁ := b₁.toNat_lt
  have e8 : (8 : Int32).toBitVec.smod 32 = 8#32 := by decide
  have hor : b₀.toNat <<< 8 ||| b₁.toNat = ofBE [b₀, b₁] := by
    rw [Nat.shiftLeft_eq, Nat.mul_comm, ← Nat.two_pow_add_eq_or_of_lt h₁]
    simp only [ofBE, List.foldl_cons, List.foldl_nil]
    omega
  have hlt : b₀.toNat <<< 8 < 4294967296 := by
    rw [Nat.shiftLeft_eq]
    omega
  have hbits : ((b₀.toUInt32.toInt32 <<< 8) ||| b₁.toUInt32.toInt32).toUInt32.toNat =
      ofBE [b₀, b₁] := by
    show ((b₀.toUInt32.toInt32 <<< 8) ||| b₁.toUInt32.toInt32).toBitVec.toNat = _
    simp only [Int32.toBitVec_or, Int32.toBitVec_shiftLeft, e8]
    simpa [Nat.mod_eq_of_lt hlt] using hor
  apply UInt16.toNat_inj.mp
  rw [UInt32.toNat_toUInt16, hbits, UInt16.toNat_ofNat']

/-- The sign of the length does not matter: a field with the top bit set is
negative for the client and too large for the server. -/
theorem illegal_iff {n : ℕ} (hn : n < 2 ^ 32) :
    Int32.ofNat n < MsgIdLen ∨ Int32.ofNat n > MaxFrameLen ↔ n < kIdLen ∨ n > kMaxFrameLen := by
  have hmin : MsgIdLen.toInt = 2 := by decide
  have hmax : MaxFrameLen.toInt = 65536 := by decide
  rw [gt_iff_lt, Int32.lt_iff_toInt_lt, Int32.lt_iff_toInt_lt, hmin, hmax, Int32.toInt_ofNat',
    Int.bmod_def]
  simp only [kIdLen, kMaxFrameLen, Int32.size]
  split <;> omega

/-! ### The parser's content -/

namespace FrameParser

variable {p : FrameParser}

def count (p : FrameParser) : ℕ := p.size.toNatClampNeg

/-- The bytes `buf_[0..size_)`. -/
def content (p : FrameParser) : List UInt8 := p.buf.take p.count

/-- The numbers are in range: the capacity is a power of two that an `int`
can still double. -/
structure Ok (p : FrameParser) : Prop where
  size : p.size = Int32.ofNat p.count
  fits : p.count ≤ p.buf.length
  capacity : ∃ k ≤ 30, p.buf.length = 2 ^ k

theorem ok_init : Ok {} :=
  ⟨by decide, Nat.zero_le _, 13, by omega, List.length_replicate.trans (by decide)⟩

@[simp] theorem content_init : ({} : FrameParser).content = [] := rfl

theorem Ok.buf_le (h : p.Ok) : p.buf.length ≤ 2 ^ 30 := by
  obtain ⟨k, hk, hlen⟩ := h.capacity
  rw [hlen]
  exact Nat.pow_le_pow_right (by omega) hk

theorem Ok.length_content (h : p.Ok) : p.content.length = p.count := by
  rw [content, List.length_take, Nat.min_eq_left h.fits]

theorem count_of_size {n : ℕ} (hn : n < 2 ^ 31) (h : p.size = Int32.ofNat n) : p.count = n := by
  rw [count, h, Int32.toNatClampNeg_ofNat_of_lt hn]

/-- The capacity found is the first doubling that suffices. -/
theorem grow_spec (fuel need : ℕ) {k : ℕ} (hk : k ≤ 30) (hneed : need ≤ 2 ^ 30)
    (hfuel : 30 < fuel + k) :
    ∃ k' ≤ 30, k ≤ k' ∧ need ≤ 2 ^ k' ∧
      grow fuel (Int32.ofNat (2 ^ k)) (Int32.ofNat need) = some (Int32.ofNat (2 ^ k')) := by
  induction fuel generalizing k with
  | zero => omega
  | succ fuel ih =>
      have hpow : 2 ^ k ≤ 2 ^ 30 := Nat.pow_le_pow_right (by omega) hk
      rw [grow]
      by_cases hlt : 2 ^ k < need
      · have hk' : k + 1 ≤ 30 := by
          by_contra hgt
          obtain rfl : k = 30 := by omega
          omega
        obtain ⟨k', hk₁, hk₂, hneed', heq⟩ := ih hk' (by omega)
        have hdouble : Int32.ofNat (2 ^ k) * 2 = Int32.ofNat (2 ^ (k + 1)) := by
          rw [Nat.pow_succ, Int32.ofNat_mul]
          rfl
        rw [if_pos ((ofNat_lt_iff (by omega) (by omega)).mpr hlt), hdouble]
        exact ⟨k', hk₁, by omega, hneed', heq⟩
      · rw [if_neg (by rw [ofNat_lt_iff (by omega) (by omega)]; exact hlt)]
        exact ⟨k, hk, Nat.le_refl _, by omega, rfl⟩

/-- `Append` adds its bytes to the content, as long as all of it fits into
an array the parser can still double. -/
theorem append_spec (h : p.Ok) (hok : p.corrupt = false) (data : List UInt8)
    (hlen : p.count + data.length ≤ 2 ^ 30) :
    ∃ p', p.append data = some p' ∧ p'.Ok ∧ p'.corrupt = false ∧
      p'.content = p.content ++ data := by
  have hbuf := h.buf_le
  have hsum : p.size + Int32.ofNat data.length = Int32.ofNat (p.count + data.length) := by
    rw [Int32.ofNat_add, ← h.size]
  -- the bytes go behind the content of an array that is long enough
  have hcopy {buf : List UInt8} (hk : ∃ k ≤ 30, buf.length = 2 ^ k)
      (hfront : buf.take p.count = p.content) (hroom : p.count + data.length ≤ buf.length) :
      let p' : FrameParser := { p with
        buf := copyTo buf p.size.toNatClampNeg data
        size := p.size + Int32.ofNat data.length }
      p'.Ok ∧ p'.corrupt = false ∧ p'.content = p.content ++ data := by
    intro p'
    have hcount : p'.count = p.count + data.length := count_of_size (by omega) hsum
    have hbytes : p'.buf = p.content ++ data ++ buf.drop (p.count + data.length) := by
      show copyTo buf p.count data = _
      rw [copyTo, hfront]
    have hfull : (p.content ++ data).length = p.count + data.length := by
      rw [List.length_append, h.length_content]
    have hlength : p'.buf.length = buf.length := by
      rw [hbytes, List.length_append, hfull, List.length_drop]
      omega
    refine ⟨⟨?_, by omega, by rw [hlength]; exact hk⟩, hok, ?_⟩
    · rw [hcount]
      exact hsum
    · rw [content, hcount, hbytes, ← hfull, List.take_left]
  unfold append
  rw [if_neg (by simp [hok])]
  dsimp only
  rw [hsum]
  split
  · next hgrow =>
      obtain ⟨k, hk, hpow⟩ := h.capacity
      have hgrow' : p.buf.length < p.count + data.length :=
        (ofNat_lt_iff (by omega) (by omega)).mp hgrow
      have hk' : k + 1 ≤ 30 := by
        by_contra hgt
        obtain rfl : k = 30 := by omega
        omega
      obtain ⟨k', hk₁, -, hneed, heq⟩ :=
        grow_spec 33 (p.count + data.length) hk' hlen (by omega)
      have hdouble : Int32.ofNat p.buf.length * 2 = Int32.ofNat (2 ^ (k + 1)) := by
        rw [hpow, Nat.pow_succ, Int32.ofNat_mul]
        rfl
      have hcap : 2 ^ k' ≤ 2 ^ 30 := Nat.pow_le_pow_right (by omega) hk₁
      have hnew : (resize p.buf (2 ^ k')).length = 2 ^ k' := by
        simp only [resize, List.length_append, List.length_take, List.length_replicate]
        omega
      have hfront : (resize p.buf (2 ^ k')).take p.count = p.content := by
        have hall : p.buf.take (2 ^ k') = p.buf := List.take_of_length_le (by omega)
        rw [resize, hall, content, List.take_append_of_le_length h.fits]
      have hspec := hcopy ⟨k', hk₁, hnew⟩ hfront (by rw [hnew]; exact hneed)
      rw [hdouble, heq, Option.map_some, Option.map_some,
        Int32.toNatClampNeg_ofNat_of_lt (by omega)]
      rw [hsum] at hspec
      exact ⟨_, rfl, hspec⟩
  · next hfits =>
      have hroom : p.count + data.length ≤ p.buf.length := by
        by_contra hgt
        exact hfits ((ofNat_lt_iff (by omega) (by omega)).mpr (by omega))
      have hspec := hcopy h.capacity rfl hroom
      rw [hsum] at hspec
      rw [Option.map_some]
      exact ⟨_, rfl, hspec⟩

theorem ofBE_lt (b₀ b₁ b₂ b₃ : UInt8) : ofBE [b₀, b₁, b₂, b₃] < 2 ^ 32 := by
  have h₀ := b₀.toNat_lt
  have h₁ := b₁.toNat_lt
  have h₂ := b₂.toNat_lt
  have h₃ := b₃.toNat_lt
  simp only [ofBE, List.foldl_cons, List.foldl_nil]
  omega

theorem take_four {l : List UInt8} (h : 4 ≤ l.length) :
    l.take 4 = [l.getD 0 0, l.getD 1 0, l.getD 2 0, l.getD 3 0] := by
  match l, h with
  | a :: b :: c :: d :: l, _ => rfl

theorem take_two_drop_four {l : List UInt8} (h : 6 ≤ l.length) :
    (l.drop 4).take 2 = [l.getD 4 0, l.getD 5 0] := by
  match l, h with
  | a :: b :: c :: d :: e :: f :: l, _ => rfl

/-- A frame taken off the front: the rest is moved down over it. -/
theorem ok_consume (h : p.Ok) (hok : p.corrupt = false) {n : ℕ} (hn : n ≤ p.count) :
    let p' : FrameParser := { p with
      buf := copyTo p.buf 0 ((p.buf.drop n).take (p.count - n))
      size := Int32.ofNat (p.count - n) }
    p'.Ok ∧ p'.corrupt = false ∧ p'.content = p.content.drop n := by
  intro p'
  have hbuf := h.buf_le
  have hfits := h.fits
  have hcount : p'.count = p.count - n := count_of_size (by omega) rfl
  have hrest : ((p.buf.drop n).take (p.count - n)).length = p.count - n := by
    rw [List.length_take, List.length_drop]
    omega
  have hbytes : p'.buf = (p.buf.drop n).take (p.count - n) ++ p.buf.drop (p.count - n) := by
    show copyTo p.buf 0 _ = _
    simp [copyTo, hrest]
  have hlength : p'.buf.length = p.buf.length := by
    rw [hbytes, List.length_append, hrest, List.length_drop]
    omega
  refine ⟨⟨by rw [hcount], by omega, by rw [hlength]; exact h.capacity⟩, hok, ?_⟩
  rw [content, hcount, hbytes, List.take_left' hrest, content, List.drop_take]

/-- The length field, as a bit pattern. -/
theorem len_eq (h : p.Ok) (hlong : kHeaderLen ≤ p.count) :
    (p.byte 0 <<< 24) ||| (p.byte 1 <<< 16) ||| (p.byte 2 <<< 8) ||| p.byte 3 =
        Int32.ofNat (ofBE (p.content.take 4)) ∧
      ofBE (p.content.take 4) < 2 ^ 32 := by
  have hfits := h.fits
  simp only [kHeaderLen] at hlong
  have hbytes : p.content.take 4 =
      [p.buf.getD 0 0, p.buf.getD 1 0, p.buf.getD 2 0, p.buf.getD 3 0] := by
    rw [content, List.take_take, Nat.min_eq_left (by omega), take_four (by omega)]
  rw [hbytes]
  exact ⟨shifted_eq _ _ _ _, ofBE_lt _ _ _ _⟩

theorem msgId_eq (h : p.Ok) (hlong : kHeaderLen + kIdLen ≤ p.count) :
    ((p.byte 4 <<< 8) ||| p.byte 5).toUInt32.toUInt16 =
      UInt16.ofNat (ofBE ((p.content.drop kHeaderLen).take 2)) := by
  have hfits := h.fits
  simp only [kHeaderLen, kIdLen] at hlong
  have htwo : (p.content.drop kHeaderLen).take 2 = [p.buf.getD 4 0, p.buf.getD 5 0] := by
    rw [content, kHeaderLen, List.drop_take, List.take_take, Nat.min_eq_left (by omega),
      take_two_drop_four (by omega)]
  rw [htwo]
  exact shifted_id_eq _ _

theorem body_eq {len : ℕ} (hmin : kIdLen ≤ len) (hmax : len ≤ kMaxFrameLen)
    (hfull : kHeaderLen + len ≤ p.count) :
    (p.buf.drop (HeaderLen + MsgIdLen).toNatClampNeg).take
        (Int32.ofNat len - MsgIdLen).toNatClampNeg =
      (p.content.drop (kHeaderLen + kIdLen)).take (len - kIdLen) := by
  simp only [kIdLen, kMaxFrameLen, kHeaderLen] at hmin hmax hfull ⊢
  have hsub : Int32.ofNat len - MsgIdLen = Int32.ofNat (len - 2) := by
    rw [Int32.ofNat_sub _ _ hmin]
    rfl
  have hsix : (HeaderLen + MsgIdLen).toNatClampNeg = 4 + 2 := by decide
  rw [hsub, hsix, Int32.toNatClampNeg_ofNat_of_lt (by omega), content, List.drop_take,
    List.take_take, Nat.min_eq_left (by omega)]

/-- `TryTake` without machine numbers: none of them overflows. -/
theorem tryTake_eq (h : p.Ok) (hok : p.corrupt = false) :
    p.tryTake =
      if p.count < kHeaderLen then (none, p)
      else
        let len := ofBE (p.content.take 4)
        if len < kIdLen ∨ len > kMaxFrameLen then (none, { p with corrupt := true })
        else if p.count < kHeaderLen + len then (none, p)
        else
          let rest := (p.buf.drop (kHeaderLen + len)).take (p.count - (kHeaderLen + len))
          (some ⟨UInt16.ofNat (ofBE ((p.content.drop kHeaderLen).take 2)),
              (p.content.drop (kHeaderLen + kIdLen)).take (len - kIdLen)⟩,
            { p with
              buf := copyTo p.buf 0 rest
              size := Int32.ofNat (p.count - (kHeaderLen + len)) }) := by
  have hbuf := h.buf_le
  have hfits := h.fits
  have hheader : p.corrupt = true ∨ p.size < HeaderLen ↔ p.count < kHeaderLen := by
    have hlt : Int32.ofNat p.count < HeaderLen ↔ p.count < kHeaderLen :=
      ofNat_lt_iff (by omega) (by decide)
    rw [hok, h.size, hlt]
    simp
  unfold tryTake
  by_cases hshort : p.count < kHeaderLen
  · rw [if_pos (hheader.mpr hshort), if_pos hshort]
  rw [if_neg (fun hyes => hshort (hheader.mp hyes)), if_neg hshort]
  obtain ⟨hlen, hlt⟩ := len_eq h (not_lt.mp hshort)
  dsimp only
  rw [hlen]
  have hlegal := illegal_iff hlt
  generalize ofBE (p.content.take 4) = len at hlegal ⊢
  by_cases hbad : len < kIdLen ∨ len > kMaxFrameLen
  · rw [if_pos (hlegal.mpr hbad), if_pos hbad]
  rw [if_neg (fun hyes => hbad (hlegal.mp hyes)), if_neg hbad]
  obtain ⟨hmin, hmax⟩ : kIdLen ≤ len ∧ len ≤ kMaxFrameLen := by omega
  have hmax' : len ≤ 65536 := hmax
  have hconsumed : HeaderLen + Int32.ofNat len = Int32.ofNat (kHeaderLen + len) := by
    rw [Int32.ofNat_add]
    rfl
  have hhalf : p.size < Int32.ofNat (kHeaderLen + len) ↔ p.count < kHeaderLen + len := by
    rw [h.size]
    refine ofNat_lt_iff (by omega) ?_
    simp only [kHeaderLen]
    omega
  rw [hconsumed]
  by_cases hmore : p.count < kHeaderLen + len
  · rw [if_pos (hhalf.mpr hmore), if_pos hmore]
  rw [if_neg (fun hyes => hmore (hhalf.mp hyes)), if_neg hmore]
  -- a complete frame
  have hfull : kHeaderLen + len ≤ p.count := not_lt.mp hmore
  have hsize : p.size - Int32.ofNat (kHeaderLen + len) =
      Int32.ofNat (p.count - (kHeaderLen + len)) := by
    rw [Int32.ofNat_sub _ _ hfull, ← h.size]
  rw [msgId_eq h (by omega), body_eq hmin hmax hfull, hsize,
    Int32.toNatClampNeg_ofNat_of_lt (by omega), Int32.toNatClampNeg_ofNat_of_lt (by omega)]

/-- One call of `TryTake` is one look at the stream. -/
theorem tryTake_spec (h : p.Ok) (hok : p.corrupt = false) :
    match nextFrame p.content with
    | .more => p.tryTake = (none, p)
    | .bad => p.tryTake = (none, { p with corrupt := true })
    | .item m rest =>
        ∃ p', p.tryTake = (some m, p') ∧ p'.Ok ∧ p'.corrupt = false ∧ p'.content = rest := by
  rw [tryTake_eq h hok]
  unfold nextFrame
  rw [h.length_content]
  by_cases hshort : p.count < kHeaderLen
  · rw [if_pos hshort, if_pos hshort]
  rw [if_neg hshort, if_neg hshort]
  dsimp only
  by_cases hbad : ofBE (p.content.take 4) < kIdLen ∨ ofBE (p.content.take 4) > kMaxFrameLen
  · rw [if_pos hbad, if_pos hbad]
  rw [if_neg hbad, if_neg hbad]
  by_cases hmore : p.count < kHeaderLen + ofBE (p.content.take 4)
  · rw [if_pos hmore, if_pos hmore]
  rw [if_neg hmore, if_neg hmore]
  exact ⟨_, rfl, ok_consume h hok (not_lt.mp hmore)⟩

theorem takeAll_corrupt (fuel : ℕ) (h : p.corrupt = true) : p.takeAll fuel = ([], p) := by
  cases fuel with
  | zero => rfl
  | succ fuel => simp [takeAll, tryTake, h]

/-- The loop around `TryTake` cuts the content as `frames` does, and stops at
the first illegal field. -/
theorem takeAll_spec {fuel : ℕ} (h : p.Ok) (hok : p.corrupt = false) (hfuel : p.count < fuel) :
    (p.takeAll fuel).2.Ok ∧ (p.takeAll fuel).1 = (frames.parse p.content).1 ∧
      match (frames.parse p.content).2 with
      | some rest => (p.takeAll fuel).2.corrupt = false ∧ (p.takeAll fuel).2.content = rest
      | none => (p.takeAll fuel).2.corrupt = true ∧
          (p.takeAll fuel).2.content = p.content.drop (offset (p.takeAll fuel).1) := by
  induction fuel generalizing p with
  | zero => omega
  | succ fuel ih =>
      have hstep := tryTake_spec h hok
      cases hnext : nextFrame p.content with
      | more =>
          rw [hnext] at hstep
          rw [Splitter.parse_more (S := frames) hnext]
          simp only [takeAll, hstep]
          exact ⟨h, trivial, hok, trivial⟩
      | bad =>
          rw [hnext] at hstep
          rw [Splitter.parse_bad (S := frames) hnext]
          simp only [takeAll, hstep]
          exact ⟨⟨h.size, h.fits, h.capacity⟩, trivial, trivial, rfl⟩
      | item m rest =>
          rw [hnext] at hstep
          obtain ⟨p', htake, hok', hclean, rfl⟩ := hstep
          obtain ⟨-, hsize, hdrop⟩ := nextFrame_size hnext
          have hless : p'.count < fuel := by
            rw [← hok'.length_content, hdrop, List.length_drop]
            rw [h.length_content] at hsize ⊢
            simp only [frameSize, kHeaderLen] at hsize ⊢
            omega
          obtain ⟨hokr, hms, hrest⟩ := ih hok' hclean hless
          rw [Splitter.parse_item (S := frames) hnext]
          simp only [takeAll, htake]
          refine ⟨hokr, by rw [hms], ?_⟩
          cases hlast : (frames.parse p'.content).2 with
          | some rest' =>
              rw [hlast] at hrest
              exact hrest
          | none =>
              rw [hlast] at hrest
              refine ⟨hrest.1, ?_⟩
              rw [hrest.2, hdrop, List.drop_drop, offset_cons]

end FrameParser

/-! ### The client's input -/

/-- The client after the stream `bs`. Behind an illegal field nothing is
taken in any more. -/
structure Inbox.Follows (i : Inbox) (bs : List UInt8) : Prop where
  ok : i.parser.Ok
  taken : i.taken = (frames.parse bs).1
  rest : match (frames.parse bs).2 with
    | some rest => i.parser.corrupt = false ∧ i.parser.content = rest ∧ i.received = bs.length
    | none => i.parser.corrupt = true ∧ i.received = offset i.taken + i.parser.count

theorem Inbox.follows_init : Inbox.Follows {} [] := by
  have hnil : frames.parse [] = ([], some []) := Splitter.parse_more (by rfl)
  exact ⟨FrameParser.ok_init, by rw [hnil], by rw [hnil]; exact ⟨rfl, rfl, rfl⟩⟩

theorem Inbox.Follows.feed {i : Inbox} {bs chunk : List UInt8} (h : i.Follows bs)
    (hchunk : chunk.length ≤ 2 ^ 30 - 65540) :
    ∃ i', i.feed chunk = some i' ∧ i'.Follows (bs ++ chunk) := by
  have hrest := h.rest
  have htaken := h.taken
  have hparse := Splitter.parse_append (S := frames) bs chunk
  cases hp : frames.parse bs with
  | mk ms last =>
      rw [hp] at hrest htaken hparse
      cases last with
      | none =>
          -- the stream is illegal already: the parser ignores the chunk
          have hsame : i.parser.append chunk = some i.parser := by
            simp [FrameParser.append, hrest.1]
          refine ⟨i, ?_, h.ok, by rw [hparse]; exact htaken, by rw [hparse]; exact hrest⟩
          simp [Inbox.feed, hsame, FrameParser.takeAll_corrupt _ hrest.1, hrest.1]
      | some rest =>
          obtain ⟨hclean, hcontent, hreceived⟩ := hrest
          obtain ⟨hbytes, hmore⟩ := parse_some hp
          have hleft : i.parser.count < 65540 := by
            rw [← h.ok.length_content, hcontent]
            exact length_lt_of_more hmore
          obtain ⟨p, happend, hok, hclean', hall⟩ :=
            FrameParser.append_spec h.ok hclean chunk (by omega)
          obtain ⟨hok', htook, hlast⟩ :=
            FrameParser.takeAll_spec hok hclean' (Nat.lt_add_one p.count)
          rw [hall, hcontent] at htook hlast
          refine ⟨{ parser := (p.takeAll (p.count + 1)).2
                    taken := i.taken ++ (p.takeAll (p.count + 1)).1
                    received := i.received + chunk.length }, ?_, hok', ?_, ?_⟩
          · simp only [Inbox.feed, happend, Option.map_some, hclean, Bool.false_eq_true, if_false]
            rfl
          · rw [hparse, htaken, htook]
          · rw [hparse]
            dsimp only
            cases hq : (frames.parse (rest ++ chunk)).2 with
            | some rest' =>
                rw [hq] at hlast
                exact ⟨hlast.1, hlast.2, by rw [hreceived, List.length_append]⟩
            | none =>
                rw [hq] at hlast
                refine ⟨hlast.1, ?_⟩
                -- what stays behind in the buffer is all there is behind the frames
                have hbad : frames.parse (rest ++ chunk) = ((p.takeAll (p.count + 1)).1, none) := by
                  rw [htook, ← hq]
                have hend := (parse_none hbad).1
                have hkept := congrArg List.length hlast.2
                rw [hok'.length_content, List.length_drop, List.length_append] at hkept
                have hsum : offset (i.taken ++ (p.takeAll (p.count + 1)).1) =
                    offset i.taken + offset (p.takeAll (p.count + 1)).1 := by
                  simp [offset]
                rw [List.length_append] at hend
                rw [hsum, hreceived, show i.taken = ms from htaken]
                omega

theorem collect_follows {i : Inbox} {bs : List UInt8} (h : i.Follows bs)
    {chunks : List (List UInt8)} (hchunks : ∀ chunk ∈ chunks, chunk.length ≤ 2 ^ 30 - 65540) :
    ∃ i', collect chunks i = some i' ∧ i'.Follows (bs ++ chunks.flatten) := by
  induction chunks generalizing i bs with
  | nil => exact ⟨i, rfl, by simpa using h⟩
  | cons chunk chunks ih =>
      obtain ⟨i₁, hfeed, hnext⟩ := h.feed (hchunks chunk (List.mem_cons_self ..))
      obtain ⟨i₂, hrest, hend⟩ := ih hnext fun c hc => hchunks c (List.mem_cons_of_mem _ hc)
      refine ⟨i₂, by simp [collect, hfeed, hrest], ?_⟩
      simpa [List.append_assoc] using hend

/-- Where the client found the stream illegal. -/
def Inbox.illegalOffset (i : Inbox) : Option ℕ :=
  if i.parser.corrupt then some (i.received - i.parser.count) else none

theorem Inbox.Follows.illegalOffset {i : Inbox} {bs : List UInt8} (h : i.Follows bs) :
    i.illegalOffset = illegalAt bs := by
  have hrest := h.rest
  have htaken := h.taken
  cases hp : frames.parse bs with
  | mk ms last =>
      rw [hp] at hrest htaken
      cases last with
      | some rest => simp [Inbox.illegalOffset, hrest.1, illegalAt, hp]
      | none =>
          rw [Inbox.illegalOffset, if_pos hrest.1, hrest.2, Nat.add_sub_cancel, htaken,
            illegalAt_of_parse hp]

/-! ### Encoding -/

theorem toByte_ofNat (n : ℕ) : toByte (Int32.ofNat n) = UInt8.ofNat n := by
  apply UInt8.toNat_inj.mp
  simp [toByte]

theorem toByte_shiftRight {n k : ℕ} (hn : n < 2 ^ 31) (hk : k < 32) :
    toByte (Int32.ofNat n >>> Int32.ofNat k) = UInt8.ofNat (n / 2 ^ k) := by
  have hmod : (Int32.ofNat k).toBitVec.smod 32 = BitVec.ofNat 32 k := by
    revert k
    decide
  have hpos : (BitVec.ofNat 32 n).msb = false := by
    rw [BitVec.msb_eq_false_iff_two_mul_lt, BitVec.toNat_ofNat]
    omega
  have hshift : Int32.ofNat n >>> Int32.ofNat k = Int32.ofNat (n / 2 ^ k) := by
    have hle : n / 2 ^ k ≤ n := Nat.div_le_self _ _
    apply Int32.toBitVec_inj.mp
    rw [Int32.toBitVec_shiftRight, hmod]
    apply BitVec.eq_of_toNat_eq
    simp only [Int32.toBitVec_ofNat', BitVec.sshiftRight_eq',
      BitVec.sshiftRight_eq_of_msb_false hpos, BitVec.toNat_ushiftRight, BitVec.toNat_ofNat,
      Nat.shiftRight_eq_div_pow]
    rw [Nat.mod_eq_of_lt (by omega), Nat.mod_eq_of_lt (by omega), Nat.mod_eq_of_lt (by omega)]
  rw [hshift, toByte_ofNat]

theorem toBE_four (n : ℕ) :
    toBE 4 n = [UInt8.ofNat (n / 2 ^ 24), UInt8.ofNat (n / 2 ^ 16), UInt8.ofNat (n / 2 ^ 8),
      UInt8.ofNat n] := by
  simp [toBE, Nat.div_div_eq_div_mul]

theorem encode_eq {msgId : UInt16} {body : List UInt8} (h : body.length < 2 ^ 31 - 6) :
    ProtoCodec.encode msgId body = encode ⟨msgId, body⟩ := by
  have hlen : MsgIdLen + Int32.ofNat body.length = Int32.ofNat (kIdLen + body.length) := by
    rw [Int32.ofNat_add]
    rfl
  have hid : msgId.toUInt32.toInt32 = Int32.ofNat msgId.toNat := by
    apply Int32.toBitVec_inj.mp
    apply BitVec.eq_of_toNat_eq
    simp
  have hnum : kIdLen + body.length < 2 ^ 31 := by
    simp only [kIdLen]
    omega
  have hidnum : msgId.toNat < 2 ^ 31 := by
    have := msgId.toNat_lt
    omega
  simp only [ProtoCodec.encode, encode, hlen, hid]
  rw [show (24 : Int32) = Int32.ofNat 24 from rfl, show (16 : Int32) = Int32.ofNat 16 from rfl,
    show (8 : Int32) = Int32.ofNat 8 from rfl, toByte_shiftRight hnum (by omega),
    toByte_shiftRight hnum (by omega), toByte_shiftRight hnum (by omega),
    toByte_shiftRight hidnum (by omega), toByte_ofNat, toByte_ofNat, toBE_four]
  simp [toBE]

/-- The two ends speak the same language. However a stream is cut on either
side, the client takes the messages the server dispatches before it finds the
stream illegal, none for a frame that is not complete; either both find it
illegal, at the same offset, or neither does; and they encode alike. The
receive buffer of the client, 8 KiB, is far below the bound on its chunks. -/
theorem client_and_server_frame_alike :
    (∀ serverChunks clientChunks : List (List UInt8),
      serverChunks.flatten = clientChunks.flatten →
      (∀ chunk ∈ clientChunks, chunk.length ≤ 2 ^ 30 - 65540) →
      ∃ inbox, collect clientChunks {} = some inbox ∧
        inbox.taken = (receive true serverChunks).dispatchedFirst ∧
        inbox.taken = (frames.parse clientChunks.flatten).1 ∧
        (inbox.parser.corrupt = true ↔ .shutdown ∈ (receive true serverChunks).events) ∧
        inbox.illegalOffset = (receive true serverChunks).illegalOffset) ∧
    (∀ (msgId : UInt16) (body : List UInt8), body.length < 2 ^ 31 - 6 →
      ProtoCodec.encode msgId body = encode ⟨msgId, body⟩) := by
  refine ⟨fun serverChunks clientChunks hsame hchunks => ?_, fun msgId body h => encode_eq h⟩
  obtain ⟨inbox, hcollect, hfollows⟩ := collect_follows Inbox.follows_init hchunks
  rw [List.nil_append] at hfollows
  obtain ⟨hfirst, hillegal⟩ := receive_first serverChunks
  rw [hsame] at hfirst hillegal
  have hoffset : inbox.illegalOffset = (receive true serverChunks).illegalOffset :=
    hfollows.illegalOffset.trans hillegal.symm
  refine ⟨inbox, hcollect, hfollows.taken.trans hfirst.symm, hfollows.taken, ?_, hoffset⟩
  have hsome := congrArg Option.isSome hoffset
  by_cases hc : inbox.parser.corrupt = true
  · by_cases hs : CodecEvent.shutdown ∈ (receive true serverChunks).events
    · exact iff_of_true hc hs
    · simp [Inbox.illegalOffset, Receiver.illegalOffset, hc, hs] at hsome
  · by_cases hs : CodecEvent.shutdown ∈ (receive true serverChunks).events
    · simp [Inbox.illegalOffset, Receiver.illegalOffset, hc, hs] at hsome
    · exact iff_of_false hc hs

/-- A frame, then a length field with the top bit set. -/
theorem client_and_server_frame_alike_negative_length :
    (∃ inbox, collect [[0, 0, 0], [2, 0, 7, 255], [0, 0, 0, 1]] {} = some inbox ∧
        inbox.taken = (receive true [[0, 0, 0, 2, 0, 7], [255, 0, 0, 0, 1]]).dispatchedFirst ∧
        inbox.illegalOffset =
          (receive true [[0, 0, 0, 2, 0, 7], [255, 0, 0, 0, 1]]).illegalOffset) ∧
      (receive true [[0, 0, 0, 2, 0, 7], [255, 0, 0, 0, 1]]).illegalOffset = some 6 ∧
      ProtoCodec.encode 7 [42] = encode ⟨7, [42]⟩ := by
  obtain ⟨hlanguage, hencode⟩ := client_and_server_frame_alike
  obtain ⟨inbox, hcollect, htaken, -, -, hoffset⟩ :=
    hlanguage [[0, 0, 0, 2, 0, 7], [255, 0, 0, 0, 1]] [[0, 0, 0], [2, 0, 7, 255], [0, 0, 0, 1]]
      (by rfl) (by decide)
  exact ⟨⟨inbox, hcollect, htaken, hoffset⟩, by decide +kernel, hencode 7 [42] (by decide)⟩

end GameServer.Client
