import Mathlib.Data.List.Basic
import Mathlib.Tactic.Common
import Mathlib.Tactic.Ring

/-!
Byte streams cut into items.

`toBE` and `ofBE` write and read big-endian numbers. A `Splitter` looks at
the front of a list and says that more is needed, that the list can never be
continued to something legal, or what the first item is. Its two stability
laws are what makes cutting independent of how the stream arrives: `parse`
can be run on a first part, and later on what it left over together with the
rest (`parse_append`).
-/

namespace GameServer.Lib

/-! ### Big-endian numbers -/

/-- The `w` lowest bytes of `n`, the highest of them first. -/
def toBE : ℕ → ℕ → List UInt8
  | 0, _ => []
  | w + 1, n => toBE w (n / 256) ++ [UInt8.ofNat n]

def ofBE (bs : List UInt8) : ℕ :=
  bs.foldl (fun n b => n * 256 + b.toNat) 0

@[simp] theorem length_toBE (w n : ℕ) : (toBE w n).length = w := by
  induction w generalizing n with
  | zero => rfl
  | succ w ih => simp [toBE, ih]

theorem ofBE_toBE (w n : ℕ) : ofBE (toBE w n) = n % 256 ^ w := by
  induction w generalizing n with
  | zero => simp [toBE, ofBE, Nat.mod_one]
  | succ w ih =>
      have hsnoc : ofBE (toBE (w + 1) n) = ofBE (toBE w (n / 256)) * 256 + n % 256 := by
        simp [toBE, ofBE, List.foldl_append]
      rw [hsnoc, ih, Nat.pow_succ, Nat.mul_comm (256 ^ w) 256, Nat.mod_mul]
      ring

/-! ### Splitting a stream -/

inductive Next (β ι : Type) where
  | more
  | bad
  | item (m : ι) (rest : List β)

structure Splitter (β ι : Type) where
  next : List β → Next β ι
  shorter : ∀ {bs m rest}, next bs = .item m rest → rest.length < bs.length
  item_append : ∀ {bs m rest} cs, next bs = .item m rest → next (bs ++ cs) = .item m (rest ++ cs)
  bad_append : ∀ {bs} cs, next bs = .bad → next (bs ++ cs) = .bad

namespace Splitter

variable {β ι : Type} (S : Splitter β ι)

/-- All items at the front of `bs`, and what is left behind them: nothing
that can be continued (`none`), or the beginning of a further item. -/
def parse (bs : List β) : List ι × Option (List β) :=
  match h : S.next bs with
  | .more => ([], some bs)
  | .bad => ([], none)
  | .item m rest =>
      have := S.shorter h
      let p := parse rest
      (m :: p.1, p.2)
termination_by bs.length

variable {S}

theorem parse_more {bs : List β} (h : S.next bs = .more) : S.parse bs = ([], some bs) := by
  rw [parse]
  split <;> simp_all

theorem parse_bad {bs : List β} (h : S.next bs = .bad) : S.parse bs = ([], none) := by
  rw [parse]
  split <;> simp_all

theorem parse_item {bs rest : List β} {m : ι} (h : S.next bs = .item m rest) :
    S.parse bs = (m :: (S.parse rest).1, (S.parse rest).2) := by
  rw [parse]
  split <;> simp_all

/-- Parsing a first part and then its leftover with the second part is
parsing the whole. -/
theorem parse_append (xs ys : List β) :
    S.parse (xs ++ ys) =
      match S.parse xs with
      | (ms, none) => (ms, none)
      | (ms, some r) => (ms ++ (S.parse (r ++ ys)).1, (S.parse (r ++ ys)).2) := by
  induction hn : xs.length using Nat.strong_induction_on generalizing xs with
  | _ n ih =>
      cases h : S.next xs with
      | more => simp [parse_more h]
      | bad => rw [parse_bad h, parse_bad (S.bad_append ys h)]
      | item m rest =>
          have hrest := ih rest.length (hn ▸ S.shorter h) rest rfl
          rw [parse_item h, parse_item (S.item_append ys h), hrest]
          cases hp : S.parse rest with
          | mk ms r =>
              cases r <;> rfl

end Splitter

end GameServer.Lib
