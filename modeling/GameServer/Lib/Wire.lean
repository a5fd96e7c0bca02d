import Mathlib.Algebra.Group.Int.Defs
import Mathlib.Algebra.GroupWithZero.Nat
import Mathlib.Data.Int.Notation
import Mathlib.Data.Nat.Notation
import Mathlib.Tactic.Common

/-!
The wire format of protocol buffers, as far as writing goes.

A message is the concatenation of its fields. A field is a key, which holds
the field's number and the kind of what follows, and then a varint, four or
eight bytes, or a length and that many bytes. In proto3 a field that holds
its default is not written. Every writer has a lemma that bounds the number
of bytes it writes; the numbers of fields are below 16, so that a key is one
byte.
-/

namespace GameServer.Lib.Wire

/-! ### Varints -/

/-- Seven bits a byte, the lowest first; `k` is the number of bytes left. -/
def varintFrom : ℕ → ℕ → List UInt8
  | 0, _ => []
  | k + 1, n =>
      if n < 128 then [UInt8.ofNat n]
      else UInt8.ofNat (n % 128 + 128) :: varintFrom k (n / 128)

/-- The varint of a 64-bit number. -/
def varint (n : ℕ) : List UInt8 := varintFrom 10 (n % 2 ^ 64)

theorem length_varintFrom_le (k n : ℕ) : (varintFrom k n).length ≤ k := by
  induction k generalizing n with
  | zero => simp [varintFrom]
  | succ k ih =>
      simp only [varintFrom]
      split
      · simp
      · exact Nat.succ_le_succ (ih _)

/-- Numbers of `7 * w` bits take at most `w` bytes. -/
theorem length_varintFrom_of_lt {w : ℕ} (k : ℕ) {n : ℕ} (hw : 0 < w) (hn : n < 128 ^ w) :
    (varintFrom k n).length ≤ w := by
  induction w generalizing k n with
  | zero => exact absurd hw (Nat.lt_irrefl 0)
  | succ w ih =>
      cases k with
      | zero => simp [varintFrom]
      | succ k =>
          simp only [varintFrom]
          split
          · simp
          · next hbig =>
              have hpos : 0 < w := by
                rcases Nat.eq_zero_or_pos w with rfl | hpos
                · simp at hn
                  omega
                · exact hpos
              have hrest : n / 128 < 128 ^ w := by
                rw [Nat.div_lt_iff_lt_mul (by decide)]
                rwa [Nat.pow_succ] at hn
              exact Nat.succ_le_succ (ih k hpos hrest)

theorem length_varint_le (n : ℕ) : (varint n).length ≤ 10 := length_varintFrom_le _ _

theorem length_varint_pos (n : ℕ) : 0 < (varint n).length := by
  simp only [varint, varintFrom]
  split <;> simp

theorem length_varint_of_lt {w n : ℕ} (hw : 0 < w) (hn : n < 128 ^ w) :
    (varint n).length ≤ w :=
  length_varintFrom_of_lt _ hw (Nat.lt_of_le_of_lt (Nat.mod_le _ _) hn)

theorem length_varintFrom_mono (k : ℕ) {m n : ℕ} (h : m ≤ n) :
    (varintFrom k m).length ≤ (varintFrom k n).length := by
  induction k generalizing m n with
  | zero => simp [varintFrom]
  | succ k ih =>
      simp only [varintFrom]
      split
      · split <;> simp
      · rw [if_neg (by omega)]
        exact Nat.succ_le_succ (ih (Nat.div_le_div_right h))

theorem length_varint_mono {m n : ℕ} (h : m ≤ n) (hn : n < 2 ^ 64) :
    (varint m).length ≤ (varint n).length := by
  rw [varint, varint, Nat.mod_eq_of_lt hn, Nat.mod_eq_of_lt (Nat.lt_of_le_of_lt h hn)]
  exact length_varintFrom_mono 10 h

/-! ### Fields -/

/-- What follows a key: a varint, eight bytes, a length with that many bytes,
or four bytes. -/
inductive Kind where
  | varint
  | fixed64
  | len
  | fixed32

def Kind.code : Kind → ℕ
  | .varint => 0
  | .fixed64 => 1
  | .len => 2
  | .fixed32 => 5

def key (field : ℕ) (kind : Kind) : List UInt8 := varint (8 * field + kind.code)

theorem length_key {field : ℕ} (h : field < 16) (kind : Kind) : (key field kind).length = 1 := by
  have hlt : 8 * field + kind.code < 128 ^ 1 := by
    cases kind <;> simp only [Kind.code] <;> omega
  have hle := length_varint_of_lt (by decide) hlt
  have hpos := length_varint_pos (8 * field + kind.code)
  simp only [key]
  omega

def uint64Field (field n : ℕ) : List UInt8 :=
  if n % 2 ^ 64 = 0 then [] else key field .varint ++ varint n

def uint32Field (field n : ℕ) : List UInt8 := uint64Field field (n % 2 ^ 32)

/-- Negative numbers are written in two's complement of 64 bits, those of the
narrower type too. -/
def int64Field (field : ℕ) (n : ℤ) : List UInt8 := uint64Field field (n % 2 ^ 64).toNat

def boolField (field : ℕ) (b : Bool) : List UInt8 := uint64Field field b.toNat

/-- The `w` lowest bytes of `n`, the lowest of them first. -/
def toLE : ℕ → ℕ → List UInt8
  | 0, _ => []
  | w + 1, n => UInt8.ofNat n :: toLE w (n / 256)

@[simp] theorem length_toLE (w n : ℕ) : (toLE w n).length = w := by
  induction w generalizing n with
  | zero => rfl
  | succ w ih => simp [toLE, ih]

def floatField (field : ℕ) (bits : UInt32) : List UInt8 :=
  if bits = 0 then [] else key field .fixed32 ++ toLE 4 bits.toNat

def doubleField (field : ℕ) (bits : UInt64) : List UInt8 :=
  if bits = 0 then [] else key field .fixed64 ++ toLE 8 bits.toNat

/-- A message inside a message; it is written also when it is empty. -/
def messageField (field : ℕ) (body : List UInt8) : List UInt8 :=
  key field .len ++ varint body.length ++ body

def bytesField (field : ℕ) (body : List UInt8) : List UInt8 :=
  if body = [] then [] else messageField field body

def stringField (field : ℕ) (s : String) : List UInt8 := bytesField field s.toByteArray.data.toList

/-- Repeated numbers share one field. -/
def packedField (field : ℕ) (ns : List ℕ) : List UInt8 := bytesField field (ns.flatMap varint)

/-! ### How long a field is -/

variable {field : ℕ}

theorem length_uint64Field (h : field < 16) (n : ℕ) :
    (uint64Field field n).length ≤ 1 + (varint n).length := by
  unfold uint64Field
  split
  · simp
  · exact Nat.le_of_eq (by rw [List.length_append, length_key h])

theorem length_uint64Field_le (h : field < 16) (n : ℕ) : (uint64Field field n).length ≤ 11 := by
  have hfield := length_uint64Field h n
  have hvarint := length_varint_le n
  omega

theorem length_uint32Field (h : field < 16) (n : ℕ) : (uint32Field field n).length ≤ 6 := by
  have hfield := length_uint64Field h (n % 2 ^ 32)
  have hlt : n % 2 ^ 32 < 128 ^ 5 :=
    Nat.lt_trans (Nat.mod_lt _ (by decide)) (by decide)
  have hvarint := length_varint_of_lt (by decide) hlt
  rw [uint32Field]
  omega

theorem length_int64Field (h : field < 16) (n : ℤ) : (int64Field field n).length ≤ 11 :=
  length_uint64Field_le h _

theorem length_boolField (h : field < 16) (b : Bool) : (boolField field b).length ≤ 2 := by
  have hfield := length_uint64Field h b.toNat
  have hlt : b.toNat < 128 ^ 1 := by cases b <;> decide
  have hvarint := length_varint_of_lt (by decide) hlt
  rw [boolField]
  omega

theorem length_floatField (h : field < 16) (bits : UInt32) :
    (floatField field bits).length ≤ 5 := by
  unfold floatField
  split
  · simp
  · exact Nat.le_of_eq (by rw [List.length_append, length_key h, length_toLE])

theorem length_doubleField (h : field < 16) (bits : UInt64) :
    (doubleField field bits).length ≤ 9 := by
  unfold doubleField
  split
  · simp
  · exact Nat.le_of_eq (by rw [List.length_append, length_key h, length_toLE])

/-- What a message of `n` bytes takes inside another one. -/
def messageCost (n : ℕ) : ℕ := 1 + (varint n).length + n

theorem messageCost_mono {m n : ℕ} (h : m ≤ n) (hn : n < 2 ^ 64) :
    messageCost m ≤ messageCost n := by
  have hvarint := length_varint_mono h hn
  simp only [messageCost]
  omega

theorem length_messageField (h : field < 16) (body : List UInt8) :
    (messageField field body).length = messageCost body.length := by
  rw [messageField, List.length_append, List.length_append, length_key h, messageCost]

/-- A short message has a length of one byte. -/
theorem length_messageField_of_lt (h : field < 16) {body : List UInt8} (hlt : body.length < 128) :
    (messageField field body).length ≤ 2 + body.length := by
  have hvarint := length_varint_of_lt (w := 1) (by decide) (by simpa using hlt)
  rw [length_messageField h, messageCost]
  omega

theorem length_bytesField (h : field < 16) (body : List UInt8) :
    (bytesField field body).length ≤ messageCost body.length := by
  unfold bytesField
  split
  · simp
  · exact Nat.le_of_eq (length_messageField h body)

theorem length_stringField (h : field < 16) (s : String) :
    (stringField field s).length ≤ messageCost s.utf8ByteSize :=
  length_bytesField h _

theorem length_packedField (h : field < 16) (ns : List ℕ) :
    (packedField field ns).length ≤ 11 + (ns.map fun n => (varint n).length).sum := by
  have hfield := length_bytesField h (ns.flatMap varint)
  have hvarint := length_varint_le (ns.flatMap varint).length
  rw [List.length_flatMap] at hfield hvarint
  simp only [packedField, messageCost] at hfield ⊢
  omega

end GameServer.Lib.Wire
