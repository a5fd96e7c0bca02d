import Mathlib.Algebra.Order.Field.Basic
import Mathlib.Data.Rat.Cast.Order

/-!
Numbers a program computes with in floating point.

`Scalar F` lists the operations; nothing is assumed about them, so a result
stated for every `Scalar` holds for binary32 with all its rounding as well as
for exact arithmetic. `Ext K` is the exact version: an ordered field with the
two infinities and NaN, every comparison with NaN being false. Over `ℚ` it
can be evaluated.
-/

namespace GameServer.Lib

/-- Floating-point operations. The comparisons are those of the machine, not
those of an order. -/
class Scalar (F : Type) extends Add F, Sub F, Mul F, Div F where
  lit : ℚ → F
  sqrt : F → F
  hypot : F → F → F
  infinity : F
  lt : F → F → Bool
  le : F → F → Bool
  eq : F → F → Bool

namespace Scalar

variable {F : Type} [Scalar F]

/-- `std::max` by its comparison: the first argument wins a tie and a NaN. -/
def max (a b : F) : F := if lt a b then b else a

/-- `std::clamp` by its two comparisons. -/
def clamp (v lo hi : F) : F := if lt v lo then lo else if lt hi v then hi else v

/-- Neither infinite nor NaN. -/
def isNumber (x : F) : Bool := eq (x - x) (lit 0)

/-- Between zero and `b`. -/
def within (b : ℚ) (x : F) : Bool := le (lit 0) x && le x (lit b)

def isNaN (x : F) : Bool := !eq x x

/-- Equal numbers, or no number both times. -/
def Same (x y : F) : Prop := eq x y = true ∨ (isNaN x = true ∧ isNaN y = true)

theorem Same.refl (x : F) : Same x x := by
  unfold Same isNaN
  cases eq x x <;> simp

instance (x y : F) : Decidable (Same x y) := inferInstanceAs (Decidable (_ ∨ _))

end Scalar

open Scalar in
/-- Counting down whole numbers from `n` is exact: what binary32 promises up
to `2 ^ 24`, whatever is subtracted. -/
class CountsDown (F : Type) [Scalar F] (n : ℕ) : Prop where
  countdown : ∀ a b : ℕ, a ≤ n →
    Scalar.max (lit 0 : F) (lit a - lit b) = lit ((a - b : ℕ) : ℚ)
  running : ∀ a : ℕ, a ≤ n → lt (lit 0 : F) (lit a) = decide (0 < a)

open Scalar in
/-- Interpolation at whole times up to `n` between points from zero to `b`:
times are compared as they are, and neither the beginning of a way nor a way
from a point to itself leads away from the point. Binary32 promises it up to
`2 ^ 24`. -/
class Interpolates (F : Type) [Scalar F] (b : ℚ) (n : ℕ) : Prop where
  le_self : ∀ a : ℕ, le (lit a : F) (lit a) = true
  le_lit : ∀ a c : ℕ, a ≤ n → c ≤ n → le (lit a : F) (lit c) = decide (a ≤ c)
  lt_lit : ∀ a c : ℕ, a ≤ n → c ≤ n → lt (lit a : F) (lit c) = decide (a < c)
  begins : ∀ x y : F, within b x = true → within b y = true → ∀ a c : ℕ, a < c → c ≤ n →
    eq (x + (y - x) * ((lit a - lit a) / lit ((c - a : ℕ) : ℚ))) x = true
  rests : ∀ x : F, within b x = true → ∀ a k c : ℕ, a ≤ k → k < c → c ≤ n →
    eq (x + (x - x) * ((lit k - lit a) / lit ((c - a : ℕ) : ℚ))) x = true

/-- A square root; exact or not is for the instance to say. -/
class SquareRoot (K : Type) where
  sqrt : K → K

/-- Binary search for the integer square root, from bit `i - 1` down. -/
def isqrtFrom (n : ℕ) : ℕ → ℕ → ℕ
  | 0, r => r
  | i + 1, r => isqrtFrom n i (if (r + 2 ^ i) * (r + 2 ^ i) ≤ n then r + 2 ^ i else r)

def isqrt (n : ℕ) : ℕ := isqrtFrom n (n.log2 / 2 + 1) 0

/-- Exact on squares of rationals, and otherwise the root truncated to
multiples of `1 / (10 ^ 6 * q.den)`. -/
instance : SquareRoot ℚ where
  sqrt q := (isqrt (q.num.toNat * q.den * 10 ^ 12) : ℚ) / (q.den * 10 ^ 6)

inductive Ext (K : Type) where
  | fin (x : K)
  | posInf
  | negInf
  | nan
deriving DecidableEq

namespace Ext

variable {K : Type} [Field K] [LinearOrder K]

def neg : Ext K → Ext K
  | fin x => fin (-x)
  | posInf => negInf
  | negInf => posInf
  | nan => nan

def add : Ext K → Ext K → Ext K
  | fin x, fin y => fin (x + y)
  | nan, _ | _, nan => nan
  | posInf, negInf | negInf, posInf => nan
  | posInf, _ | _, posInf => posInf
  | negInf, _ | _, negInf => negInf

/-- An infinity times (or divided by) a number of this sign. -/
def signed (x : K) (inf : Ext K) : Ext K := if 0 < x then inf else neg inf

def mul : Ext K → Ext K → Ext K
  | fin x, fin y => fin (x * y)
  | nan, _ | _, nan => nan
  | fin x, inf | inf, fin x => if x = 0 then nan else signed x inf
  | posInf, inf => inf
  | negInf, inf => neg inf

def div : Ext K → Ext K → Ext K
  | fin x, fin y => if y ≠ 0 then fin (x / y) else if x = 0 then nan else signed x posInf
  | nan, _ | _, nan => nan
  | fin _, _ => fin 0
  | inf, fin y => if y = 0 then inf else signed y inf
  | _, _ => nan

def lt : Ext K → Ext K → Bool
  | fin x, fin y => x < y
  | negInf, fin _ | negInf, posInf | fin _, posInf => true
  | _, _ => false

def eq : Ext K → Ext K → Bool
  | fin x, fin y => x = y
  | posInf, posInf | negInf, negInf => true
  | _, _ => false

def sqrt [SquareRoot K] : Ext K → Ext K
  | fin x => if x < 0 then nan else fin (SquareRoot.sqrt x)
  | posInf => posInf
  | _ => nan

def hypot [SquareRoot K] : Ext K → Ext K → Ext K
  | fin x, fin y => fin (SquareRoot.sqrt (x * x + y * y))
  | posInf, _ | negInf, _ | _, posInf | _, negInf => posInf
  | _, _ => nan

instance [SquareRoot K] : Scalar (Ext K) where
  add := add
  sub x y := add x (neg y)
  mul := mul
  div := div
  lit q := fin q
  sqrt := sqrt
  hypot := hypot
  infinity := posInf
  lt := lt
  le x y := lt x y || eq x y
  eq := eq

/-! ### Evaluation -/

def isFinite : Ext K → Bool
  | fin _ => true
  | _ => false

/-- The number; zero where there is none. -/
def val : Ext K → K
  | fin x => x
  | _ => 0

omit [Field K] [LinearOrder K] in
theorem isFinite_iff {x : Ext K} : x.isFinite = true ↔ ∃ r, x = fin r := by
  cases x <;> simp [isFinite]

variable [SquareRoot K]

@[simp] theorem lit_eq (q : ℚ) : (Scalar.lit q : Ext K) = fin (q : K) := rfl

@[simp] theorem fin_add (x y : K) : (fin x + fin y : Ext K) = fin (x + y) := rfl

@[simp] theorem fin_sub (x y : K) : (fin x - fin y : Ext K) = fin (x - y) :=
  congrArg fin (sub_eq_add_neg x y).symm

@[simp] theorem fin_mul (x y : K) : (fin x * fin y : Ext K) = fin (x * y) := rfl

theorem fin_div {x y : K} (hy : y ≠ 0) : (fin x / fin y : Ext K) = fin (x / y) := if_pos hy

@[simp] theorem nan_add (x : Ext K) : (nan + x : Ext K) = nan := by cases x <;> rfl

@[simp] theorem add_nan (x : Ext K) : (x + nan : Ext K) = nan := by cases x <;> rfl

@[simp] theorem nan_mul (x : Ext K) : (nan * x : Ext K) = nan := by cases x <;> rfl

@[simp] theorem mul_nan (x : Ext K) : (x * nan : Ext K) = nan := by cases x <;> rfl

@[simp] theorem sqrt_nan : Scalar.sqrt (nan : Ext K) = nan := rfl

@[simp] theorem nan_lt (x : Ext K) : Scalar.lt nan x = false := by cases x <;> rfl

@[simp] theorem lt_nan (x : Ext K) : Scalar.lt x nan = false := by cases x <;> rfl

@[simp] theorem fin_lt (x y : K) : Scalar.lt (fin x : Ext K) (fin y) = decide (x < y) := rfl

@[simp] theorem fin_eq (x y : K) : Scalar.eq (fin x : Ext K) (fin y) = decide (x = y) := rfl

@[simp] theorem fin_le (x y : K) : Scalar.le (fin x : Ext K) (fin y) = decide (x ≤ y) := by
  change (decide (x < y) || decide (x = y)) = _
  rw [Bool.eq_iff_iff]
  simp [le_iff_lt_or_eq]

@[simp] theorem clamp_nan (lo hi : Ext K) : Scalar.clamp nan lo hi = nan := by
  simp [Scalar.clamp]

theorem max_fin [IsStrictOrderedRing K] (x y : K) :
    Scalar.max (fin x : Ext K) (fin y) = fin (Max.max x y) := by
  simp only [Scalar.max, fin_lt, decide_eq_true_eq]
  split
  · next h => rw [max_eq_right h.le]
  · next h => rw [max_eq_left (not_lt.mp h)]

instance [IsStrictOrderedRing K] (n : ℕ) : CountsDown (Ext K) n where
  countdown a b _ := by
    simp only [lit_eq, fin_sub, max_fin, Rat.cast_zero, Rat.cast_natCast]
    rcases Nat.le_total a b with h | h
    · have hcast : (a : K) ≤ b := Nat.cast_le.mpr h
      rw [Nat.sub_eq_zero_of_le h, max_eq_left (sub_nonpos.mpr hcast), Nat.cast_zero]
    · have hcast : (b : K) ≤ a := Nat.cast_le.mpr h
      rw [Nat.cast_sub h, max_eq_right (sub_nonneg.mpr hcast)]
  running a _ := by simp

theorem clamp_fin_eq {x lo hi : K} (h : lo ≤ hi) :
    Scalar.clamp (fin x : Ext K) (fin lo) (fin hi) = fin (Max.max lo (min hi x)) := by
  simp only [Scalar.clamp, fin_lt, decide_eq_true_eq]
  split
  · next hlo => rw [max_eq_left ((min_le_right _ _).trans hlo.le)]
  · next hlo =>
      split
      · next hhi => rw [min_eq_left hhi.le, max_eq_right h]
      · next hhi => rw [min_eq_right (not_lt.mp hhi), max_eq_right (not_lt.mp hlo)]

/-- A clamped number is within the bounds. -/
theorem clamp_fin {x lo hi : K} (h : lo ≤ hi) :
    ∃ y, Scalar.clamp (fin x : Ext K) (fin lo) (fin hi) = fin y ∧ lo ≤ y ∧ y ≤ hi :=
  ⟨_, clamp_fin_eq h, le_max_left _ _, max_le h (min_le_left _ _)⟩

@[simp] theorem isNumber_eq (x : Ext K) : Scalar.isNumber x = x.isFinite := by
  cases x with
  | fin x => simp [Scalar.isNumber, isFinite]
  | posInf | negInf | nan => rfl

@[simp] theorem isNaN_fin (x : K) : Scalar.isNaN (fin x) = false := by
  simp [Scalar.isNaN]

theorem isNaN_iff {x : Ext K} : Scalar.isNaN x = true ↔ x = nan := by
  cases x with
  | fin x => simp
  | posInf | negInf | nan => simp [Scalar.isNaN, Scalar.eq, eq]

theorem within_iff {b : ℚ} {x : Ext K} :
    Scalar.within b x = true ↔ ∃ r : K, x = fin r ∧ 0 ≤ r ∧ r ≤ b := by
  simp only [Scalar.within, Bool.and_eq_true]
  constructor
  · rintro ⟨hlo, hhi⟩
    cases x with
    | fin r =>
        simp only [lit_eq, fin_le, decide_eq_true_eq, Rat.cast_zero] at hlo hhi
        exact ⟨r, rfl, hlo, hhi⟩
    | posInf => cases hhi
    | negInf => cases hlo
    | nan => cases hlo
  · rintro ⟨r, rfl, hlo, hhi⟩
    simp [hlo, hhi]

omit [LinearOrder K] [SquareRoot K] in
theorem cast_sub_ne_zero [CharZero K] {a c : ℕ} (h : a < c) : (((c - a : ℕ) : ℚ) : K) ≠ 0 := by
  have hpos : c - a ≠ 0 := by omega
  exact_mod_cast hpos

instance [IsStrictOrderedRing K] (b : ℚ) (n : ℕ) : Interpolates (Ext K) b n where
  le_self a := by simp
  le_lit a c _ _ := by simp
  lt_lit a c _ _ := by simp
  begins x y hx hy a c hac _ := by
    obtain ⟨x, rfl, -⟩ := within_iff.mp hx
    obtain ⟨y, rfl, -⟩ := within_iff.mp hy
    simp only [lit_eq, fin_sub, fin_div (cast_sub_ne_zero hac), sub_self, zero_div, fin_mul,
      mul_zero, fin_add, add_zero, fin_eq, decide_true]
  rests x hx a k c hak hkc _ := by
    obtain ⟨x, rfl, -⟩ := within_iff.mp hx
    simp only [lit_eq, fin_sub, fin_div (cast_sub_ne_zero (hak.trans_lt hkc)), sub_self, fin_mul,
      zero_mul, fin_add, add_zero, fin_eq, decide_true]

/-! ### Selection -/

/-- What a loop that looks for the candidate of least key holds after `seen`:
nothing and infinity, or such a candidate and its key. -/
def Selected {α β : Type*} (cand : α → Bool) (key : α → K) (out : α → β) (seen : List α)
    (acc : Option β × Ext K) : Prop :=
  (acc = (none, Scalar.infinity) ∧ ∀ a ∈ seen, cand a = false) ∨
    ∃ a ∈ seen, acc = (some (out a), fin (key a)) ∧ cand a = true ∧
      ∀ a' ∈ seen, cand a' = true → key a ≤ key a'

theorem Selected.concat {α β : Type*} {cand : α → Bool} {key : α → K} {out : α → β}
    {seen : List α} {acc : Option β × Ext K} (h : Selected cand key out seen acc) (a : α) :
    Selected cand key out (seen ++ [a])
      (if cand a && Scalar.lt (fin (key a)) acc.2 then (some (out a), fin (key a)) else acc) := by
  rcases h with ⟨rfl, hnone⟩ | ⟨b, hb, rfl, hcand, hleast⟩
  · have hlt : Scalar.lt (fin (key a) : Ext K) Scalar.infinity = true := rfl
    rw [hlt, Bool.and_true]
    cases ha : cand a with
    | false => exact .inl ⟨rfl, fun a' ha' => by
        rcases List.mem_append.mp ha' with ha' | ha'
        · exact hnone a' ha'
        · rwa [List.mem_singleton.mp ha']⟩
    | true =>
        refine .inr ⟨a, by simp, rfl, ha, fun a' ha' hcand' => ?_⟩
        rcases List.mem_append.mp ha' with ha' | ha'
        · rw [hnone a' ha'] at hcand'
          cases hcand'
        · rw [List.mem_singleton.mp ha']
  · simp only [fin_lt, Bool.and_eq_true, decide_eq_true_eq]
    split
    · next hnew =>
        refine .inr ⟨a, by simp, rfl, hnew.1, fun a' ha' hcand' => ?_⟩
        rcases List.mem_append.mp ha' with ha' | ha'
        · exact hnew.2.le.trans (hleast a' ha' hcand')
        · rw [List.mem_singleton.mp ha']
    · next hold =>
        refine .inr ⟨b, List.mem_append_left _ hb, rfl, hcand, fun a' ha' hcand' => ?_⟩
        rcases List.mem_append.mp ha' with ha' | ha'
        · exact hleast a' ha' hcand'
        · obtain rfl := List.mem_singleton.mp ha'
          exact not_lt.mp fun hlt => hold ⟨hcand', hlt⟩

theorem foldl_selected {α β : Type*} (cand : α → Bool) (key : α → K) (out : α → β) (l : List α) :
    Selected cand key out l (l.foldl (fun acc a =>
      if cand a && Scalar.lt (fin (key a)) acc.2 then (some (out a), fin (key a)) else acc)
      (none, Scalar.infinity)) := by
  have hloop : ∀ (l seen : List α) (acc : Option β × Ext K), Selected cand key out seen acc →
      Selected cand key out (seen ++ l) (l.foldl (fun acc a =>
        if cand a && Scalar.lt (fin (key a)) acc.2 then (some (out a), fin (key a)) else acc)
        acc) := by
    intro l
    induction l with
    | nil => exact fun seen acc h => by simpa using h
    | cons a l ih =>
        intro seen acc h
        have hrest := ih (seen ++ [a]) _ (h.concat a)
        rwa [List.append_assoc] at hrest
  exact hloop l [] _ (.inl ⟨rfl, fun a ha => absurd ha List.not_mem_nil⟩)

end Ext

end GameServer.Lib
