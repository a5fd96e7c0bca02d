import GameServer.Game.BattleStep
import GameServer.Lib.Run

/-!
The bounds of the arena under untrusted input.

A position is written in phase 1 of a step only, and there it is clamped.
The clamp lets NaN through, and so does every comparison before it; a client
that sends an infinity or a NaN as its direction leaves the arena. Over
exact arithmetic with infinities and NaN that is the only way out:
`arena_kept`.
-/

namespace GameServer.Game

open GameServer.Lib GameServer.Proto
open Scalar

namespace BattleSim

/-- The calls on a simulation that is running. -/
inductive SimAct (F : Type) where
  | applyInput (id : ℕ) (input : PlayerInput F)
  | step (ks : List ℕ) (dtMs : ℕ)

section Operations

variable {F : Type} [Scalar F]

def act (s : BattleSim F) : SimAct F → BattleSim F
  | .applyInput id input => applyInput id input s
  | .step ks dtMs => (step ks dtMs s).1

def P.inArena (p : P F) : Bool :=
  le (lit 0) p.x && le p.x kArena && le (lit 0) p.y && le p.y kArena

def InArena (s : BattleSim F) : Prop :=
  ∀ id p, s.players.lookup id = some p → p.inArena = true

omit [Scalar F] in
theorem forall_lookup_iff {m : UnorderedMap ℕ (P F)} {good : P F → Prop} :
    (∀ id p, m.lookup id = some p → good p) ↔ ∀ e ∈ m.entries, good e.2 :=
  ⟨fun h e he => h e.1 e.2 (UnorderedMap.mem_entries_iff.mp he),
    fun h id p hp => h ⟨id, p⟩ (UnorderedMap.mem_entries_iff.mpr hp)⟩

instance (s : BattleSim F) : Decidable s.InArena :=
  decidable_of_iff _ forall_lookup_iff.symm

/-- The new coordinate in `moveBy`. -/
def advanced (dt m c : F) : F := clamp (c + m * kSpeed * dt) (lit 0) kArena

theorem moveBy_eq (dt mx my : F) (p : P F) :
    (moveBy dt mx my p).1.x = (if (moveBy dt mx my p).2 then advanced dt mx p.x else p.x) ∧
      (moveBy dt mx my p).1.y = (if (moveBy dt mx my p).2 then advanced dt my p.y else p.y) := by
  simp only [moveBy, advanced]
  split <;> simp

end Operations

variable {K : Type} [Field K] [LinearOrder K]

/-- Phase 1 will use a direction that is not a pair of numbers. -/
def P.astray (p : P (Ext K)) : Bool :=
  p.alive && p.hasInput && !(p.input.moveX.isFinite && p.input.moveY.isFinite)

/-- A step begins with no player going astray. -/
def Guided (s : BattleSim (Ext K)) : SimAct (Ext K) → Prop
  | .applyInput _ _ => True
  | .step _ _ => ∀ id p, s.players.lookup id = some p → p.astray = false

instance (s : BattleSim (Ext K)) : (a : SimAct (Ext K)) → Decidable (s.Guided a)
  | .applyInput _ _ => .isTrue trivial
  | .step _ _ => decidable_of_iff _ forall_lookup_iff.symm

/-- The player is at the point `(px, py)`. -/
def P.At (p : P (Ext K)) (px py : K) : Prop := p.x = .fin px ∧ p.y = .fin py

/-- The position is a pair of numbers. -/
def P.finite (p : P (Ext K)) : Bool := p.x.isFinite && p.y.isFinite

omit [Field K] [LinearOrder K] in
theorem P.exists_at {p : P (Ext K)} (h : p.finite = true) : ∃ px py, p.At px py := by
  obtain ⟨hx, hy⟩ : p.x.isFinite = true ∧ p.y.isFinite = true := by simpa [P.finite] using h
  obtain ⟨px, hpx⟩ := Ext.isFinite_iff.mp hx
  obtain ⟨py, hpy⟩ := Ext.isFinite_iff.mp hy
  exact ⟨px, py, hpx, hpy⟩

/-! ### One player -/

section OnePlayer

variable [SquareRoot K]

theorem lit_between {x : Ext K} {a b : ℚ} :
    le (lit a) x = true ∧ le x (lit b) = true ↔ ∃ r : K, x = .fin r ∧ (a : K) ≤ r ∧ r ≤ b := by
  constructor
  · rintro ⟨hlo, hhi⟩
    cases x with
    | fin r =>
        simp only [Ext.lit_eq, Ext.fin_le, decide_eq_true_eq] at hlo hhi
        exact ⟨r, rfl, hlo, hhi⟩
    | posInf => cases hhi
    | negInf => cases hlo
    | nan => cases hlo
  · rintro ⟨r, rfl, hlo, hhi⟩
    simp [hlo, hhi]

theorem inArena_iff {p : P (Ext K)} :
    p.inArena = true ↔ (∃ r : K, p.x = .fin r ∧ ((0 : ℚ) : K) ≤ r ∧ r ≤ (100 : ℚ)) ∧
      ∃ r : K, p.y = .fin r ∧ ((0 : ℚ) : K) ≤ r ∧ r ≤ (100 : ℚ) := by
  rw [← lit_between, ← lit_between]
  simp [P.inArena, kArena, and_assoc]

theorem advanced_nan (dt c : Ext K) : advanced dt .nan c = .nan := by
  simp [advanced]

/-- A NaN reaches the position through the clamp. -/
theorem moveBy_nan {dt mx my : Ext K} {p : P (Ext K)} (h : mx = .nan ∨ my = .nan) :
    (moveBy dt mx my p).1.inArena = false := by
  have hmoved : (moveBy dt mx my p).2 = true := by
    have heq : ∀ c : Ext K, eq (.nan : Ext K) c = false := by
      intro c
      cases c <;> rfl
    have hnan := advanced_nan dt p.x
    have hnan' := advanced_nan dt p.y
    simp only [advanced] at hnan hnan'
    rcases h with rfl | rfl <;> simp [moveBy, *]
  obtain ⟨hx, hy⟩ := moveBy_eq dt mx my p
  rw [Bool.eq_false_iff, Ne, inArena_iff, hx, hy, hmoved]
  rintro ⟨⟨r, hr, -⟩, ⟨r', hr', -⟩⟩
  rcases h with rfl | rfl
  · rw [if_pos rfl, advanced_nan] at hr
    cases hr
  · rw [if_pos rfl, advanced_nan] at hr'
    cases hr'

/-- Every direction that is not a pair of numbers ends in a NaN: a NaN is
not normalised, and normalising an infinity divides it by itself. -/
theorem movePlayer_astray {dt : Ext K} {p : P (Ext K)} (h : p.astray = true) :
    (movePlayer dt p).1.inArena = false := by
  simp only [P.astray, Bool.and_eq_true, Bool.not_eq_true', Bool.and_eq_false_iff] at h
  obtain ⟨⟨halive, hinput⟩, hdir⟩ := h
  simp only [movePlayer, halive, hinput, Bool.not_true, Bool.or_self, Bool.false_eq_true, if_false]
  generalize p.input.moveX = mx at hdir ⊢
  generalize p.input.moveY = my at hdir ⊢
  cases mx <;> cases my
  case fin.fin => simp [Ext.isFinite] at hdir
  all_goals first
    | exact moveBy_nan (.inl rfl)
    | exact moveBy_nan (.inr rfl)

end OnePlayer

section Bounds

variable [IsStrictOrderedRing K] [SquareRoot K]

theorem advanced_fin (d m c : K) :
    ∃ r : K, (advanced (.fin d) (.fin m) (.fin c) : Ext K) = .fin r ∧ ((0 : ℚ) : K) ≤ r ∧
      r ≤ (100 : ℚ) := by
  simp only [advanced, kSpeed, kArena, Ext.lit_eq, Ext.fin_mul, Ext.fin_add]
  exact Ext.clamp_fin (by norm_num)

/-- A move along a pair of numbers ends inside. -/
theorem moveBy_inArena {d mx my : K} {p : P (Ext K)} (h : p.inArena = true) :
    (moveBy (.fin d) (.fin mx) (.fin my) p).1.inArena = true := by
  obtain ⟨⟨x, hx, hxs⟩, ⟨y, hy, hys⟩⟩ := inArena_iff.mp h
  obtain ⟨hnx, hny⟩ := moveBy_eq (.fin d) (.fin mx) (.fin my) p
  rw [inArena_iff, hnx, hny, hx, hy]
  split
  · exact ⟨advanced_fin d mx x, advanced_fin d my y⟩
  · exact ⟨⟨x, rfl, hxs⟩, ⟨y, rfl, hys⟩⟩

/-- The direction that phase 1 makes of an input `(ix, iy)`. -/
def Direction (mx my : K) : Prop :=
  ∃ ix iy : K,
    (1 < (SquareRoot.sqrt (ix * ix + iy * iy) : K) ∧
      mx = ix / SquareRoot.sqrt (ix * ix + iy * iy) ∧
      my = iy / SquareRoot.sqrt (ix * ix + iy * iy)) ∨
    ((SquareRoot.sqrt (ix * ix + iy * iy) : K) ≤ 1 ∧ mx = ix ∧ my = iy)

/-- A player that does not go astray stays, or moves along a pair of numbers. -/
theorem movePlayer_guided (d : K) {p : P (Ext K)} (hguided : p.astray = false) :
    movePlayer (.fin d) p = (p, false) ∨
      ∃ mx my : K, Direction mx my ∧
        movePlayer (.fin d) p = moveBy (.fin d) (.fin mx) (.fin my) p := by
  simp only [movePlayer]
  split
  case isTrue => exact .inl rfl
  case isFalse hmoves =>
      obtain ⟨⟨mx, hmx⟩, ⟨my, hmy⟩⟩ :
          (∃ m, p.input.moveX = .fin m) ∧ ∃ m, p.input.moveY = .fin m := by
        simp only [Bool.or_eq_true, Bool.not_eq_true', not_or, Bool.not_eq_false] at hmoves
        simp only [P.astray, hmoves.1, hmoves.2, Bool.true_and, Bool.not_eq_false',
          Bool.and_eq_true] at hguided
        constructor
        · cases hm : p.input.moveX <;> simp_all [Ext.isFinite]
        · cases hm : p.input.moveY <;> simp_all [Ext.isFinite]
      have hlen : sqrt (.fin mx * .fin mx + .fin my * .fin my : Ext K) =
          .fin (SquareRoot.sqrt (mx * mx + my * my)) :=
        if_neg (not_lt.mpr (add_nonneg (mul_self_nonneg mx) (mul_self_nonneg my)))
      rw [hmx, hmy, hlen]
      simp only [Ext.lit_eq, Ext.fin_lt, decide_eq_true_eq]
      split
      · exact .inl rfl
      · split
        · next hlong =>
            have hpos : (SquareRoot.sqrt (mx * mx + my * my) : K) ≠ 0 := by
              intro hzero
              rw [hzero, Rat.cast_one] at hlong
              exact absurd hlong (not_lt.mpr zero_le_one)
            rw [Ext.fin_div hpos, Ext.fin_div hpos]
            rw [Rat.cast_one] at hlong
            exact .inr ⟨_, _, ⟨mx, my, .inl ⟨hlong, rfl, rfl⟩⟩, rfl⟩
        · next hshort =>
            rw [Rat.cast_one] at hshort
            exact .inr ⟨_, _, ⟨mx, my, .inr ⟨not_lt.mp hshort, rfl, rfl⟩⟩, rfl⟩

theorem movePlayer_inArena {d : K} {p : P (Ext K)} (h : p.inArena = true)
    (hguided : p.astray = false) : (movePlayer (.fin d) p).1.inArena = true := by
  rcases movePlayer_guided d hguided with hmove | ⟨mx, my, -, hmove⟩
  · rw [hmove]
    exact h
  · rw [hmove]
    exact moveBy_inArena h

/-! ### A step -/

theorem dt_eq (dtMs : ℕ) : (lit dtMs / lit 1000 : Ext K) = .fin (dtMs / 1000) := by
  refine (Ext.fin_div (by norm_num)).trans ?_
  norm_num

omit [IsStrictOrderedRing K] in
/-- A player is inside after a step if phase 1 put it inside. -/
theorem inArena_step (ks : List ℕ) (dtMs : ℕ) (s : BattleSim (Ext K)) (id : ℕ) :
    ((step ks dtMs s).1.players.lookup id).map P.inArena =
      (s.players.lookup id).map fun p => (movePlayer (lit dtMs / lit 1000) p).1.inArena :=
  map_step (fun _ _ => rfl) (fun _ _ => rfl) ks dtMs s id

omit [IsStrictOrderedRing K] in
theorem inArena_applyInput {s : BattleSim (Ext K)} (h : s.InArena) (id : ℕ)
    (input : PlayerInput (Ext K)) : (applyInput id input s).InArena := by
  intro k p hp
  simp only [applyInput, UnorderedMap.lookup_modify] at hp
  split at hp
  · obtain ⟨p', hp', rfl⟩ := Option.map_eq_some_iff.mp hp
    exact h k p' hp'
  · exact h k p hp

theorem InArena.act {s : BattleSim (Ext K)} (h : s.InArena) {a : SimAct (Ext K)}
    (hguided : s.Guided a) : (s.act a).InArena := by
  cases a with
  | applyInput id input => exact inArena_applyInput h id input
  | step ks dtMs =>
      intro id p hp
      have hmap := inArena_step ks dtMs s id
      rw [show (step ks dtMs s).1.players.lookup id = some p from hp] at hmap
      obtain ⟨p', hp', hin⟩ := Option.map_eq_some_iff.mp hmap.symm
      rw [dt_eq, movePlayer_inArena (h id p' hp') (hguided id p' hp')] at hin
      exact hin.symm

omit [IsStrictOrderedRing K] in
theorem not_inArena_of_astray {s : BattleSim (Ext K)} {a : SimAct (Ext K)}
    (hastray : ¬s.Guided a) : ¬(s.act a).InArena := by
  cases a with
  | applyInput id input => exact absurd trivial hastray
  | step ks dtMs =>
      simp only [Guided, not_forall, Bool.not_eq_false] at hastray
      obtain ⟨id, p, hp, hastray⟩ := hastray
      intro hin
      have hmap := inArena_step ks dtMs s id
      rw [hp, Option.map_some, movePlayer_astray hastray] at hmap
      obtain ⟨p', hp', hout⟩ := Option.map_eq_some_iff.mp hmap
      exact absurd (hin id p' hp') (by rw [hout]; exact Bool.false_ne_true)

/-- From players inside the arena, through any calls: every player is inside
after every call if and only if no step is made with a living player whose
last input has a direction that is not a pair of numbers. -/
theorem arena_kept {s : BattleSim (Ext K)} (h : s.InArena) (acts : List (SimAct (Ext K))) :
    Visits act InArena s acts ↔ Along act Guided s acts := by
  refine visits_iff_along (fun s h => h) (fun s a h hguided => ?_) (fun s a h hastray => ?_) h acts
  · exact h.act hguided
  · exact not_inArena_of_astray hastray

/-- Two players at their places, as `Room::start` puts them. -/
def facingPlayers : BattleSim (Ext ℚ) :=
  ({} : BattleSim (Ext ℚ)) |> addPlayer [] 1 (.fin 30) (.fin 50)
    |> addPlayer [] 2 (.fin 70) (.fin 50)

theorem arena_kept_by_a_walk :
    let acts : List (SimAct (Ext ℚ)) :=
      [.applyInput 1 { seq := 1, moveX := .fin 3, moveY := .fin 4, attack := true },
        .step [] 50, .step [] 5000]
    Visits act InArena facingPlayers acts :=
  (arena_kept (by decide +kernel) _).mpr (by decide +kernel)

/-- A client that sends an infinite direction is at `(NaN, 50)` after the
next step. -/
theorem infinite_direction_leaves_arena :
    let acts : List (SimAct (Ext ℚ)) :=
      [.applyInput 1 { seq := 1, moveX := .posInf, moveY := .fin 0, attack := false },
        .step [] 50]
    ((acts.foldl act facingPlayers).players.lookup 1).map (fun p => (p.x, p.y)) =
        some (.nan, .fin 50) ∧
      facingPlayers.InArena ∧ ¬Visits act InArena facingPlayers acts := by
  refine ⟨by decide +kernel, by decide +kernel, fun hvisits => ?_⟩
  have hlast : (_ : BattleSim (Ext ℚ)).InArena := hvisits.2.2
  exact absurd hlast (by decide +kernel)

end Bounds

end BattleSim

end GameServer.Game
