import GameServer.Game.Volley
import GameServer.Lib.ExactRoot
import Mathlib.Analysis.InnerProductSpace.PiL2
import Mathlib.Tactic.Linarith

/-!
The speed limit, over exact arithmetic.

A direction is at most a unit vector when phase 1 uses it, so the step before
the clamp is at most `kSpeed * dt` long; from a point inside the arena the
clamp makes it shorter in each coordinate.
-/

namespace GameServer.Game

open GameServer.Lib GameServer.Proto
open Scalar

namespace BattleSim

section OneStep

variable {K : Type} [Field K] [LinearOrder K] [IsStrictOrderedRing K] [SquareRoot K]
  [ExactRoot K]

theorem Direction.unit {mx my : K} (h : Direction mx my) : mx * mx + my * my ≤ 1 := by
  obtain ⟨ix, iy, ⟨hlong, rfl, rfl⟩ | ⟨hshort, rfl, rfl⟩⟩ := h
  · exact (ExactRoot.normalized (zero_lt_one.trans hlong)).le
  · have hsq := (ExactRoot.sqrt_le_iff (add_nonneg (mul_self_nonneg mx) (mul_self_nonneg my))
      zero_le_one).mp hshort
    rwa [one_mul] at hsq

omit [SquareRoot K] [ExactRoot K] in
/-- From a point inside, the clamp shortens a move. -/
theorem clamp_move {lo hi x δ : K} (hlo : lo ≤ x) (hhi : x ≤ hi) :
    (Max.max lo (min hi (x + δ)) - x) * (Max.max lo (min hi (x + δ)) - x) ≤ δ * δ := by
  -- away from the bound that is not in the way, the clamp cuts at the other one
  rcases le_total 0 δ with hδ | hδ
  · have hge : x ≤ min hi (x + δ) := le_min hhi (by linarith)
    rw [max_eq_right (hlo.trans hge)]
    exact mul_self_le_mul_self (by linarith) (by linarith [min_le_right hi (x + δ)])
  · have hle : min hi (x + δ) = x + δ := min_eq_right (by linarith)
    rw [hle]
    have hge : x + δ ≤ Max.max lo (x + δ) := le_max_right _ _
    have hub : Max.max lo (x + δ) ≤ x := max_le hlo (by linarith)
    have hneg := mul_self_le_mul_self (a := x - Max.max lo (x + δ)) (b := -δ) (by linarith)
      (by linarith)
    linarith

/-- Phase 1 moves a player inside the arena by at most `20 * d`. -/
theorem movePlayer_step {d : K} {p : P (Ext K)} {px py : K} (hat : p.At px py)
    (hin : p.inArena = true) (hguided : p.astray = false) :
    ∃ px' py', (movePlayer (.fin d) p).1.At px' py' ∧
      (px' - px) * (px' - px) + (py' - py) * (py' - py) ≤ 20 * d * (20 * d) := by
  have hstay : 0 ≤ 20 * d * (20 * d) := mul_self_nonneg _
  rcases movePlayer_guided d hguided with hmove | ⟨mx, my, hdir, hmove⟩
  · exact ⟨px, py, by rw [hmove]; exact hat, by simpa using hstay⟩
  · obtain ⟨⟨x, hx, hxs⟩, ⟨y, hy, hys⟩⟩ := inArena_iff.mp hin
    obtain rfl : px = x := Ext.fin.inj (hat.1.symm.trans hx)
    obtain rfl : py = y := Ext.fin.inj (hat.2.symm.trans hy)
    obtain ⟨hnx, hny⟩ := moveBy_eq (.fin d) (.fin mx) (.fin my) p
    have hbound : ((0 : ℚ) : K) ≤ (100 : ℚ) := by norm_num
    have hadv : ∀ m c : K, (advanced (.fin d) (.fin m) (.fin c) : Ext K) =
        .fin (Max.max ((0 : ℚ) : K) (min ((100 : ℚ) : K) (c + m * 20 * d))) := by
      intro m c
      simp only [advanced, kSpeed, kArena, Ext.lit_eq, Ext.fin_mul, Ext.fin_add]
      rw [Ext.clamp_fin_eq hbound]
      norm_num
    rw [hmove]
    cases hmoved : (moveBy (.fin d) (.fin mx) (.fin my) p).2 with
    | false =>
        rw [hmoved] at hnx hny
        exact ⟨px, py, ⟨hnx.trans hat.1, hny.trans hat.2⟩, by simpa using hstay⟩
    | true =>
        rw [hmoved, if_pos rfl] at hnx hny
        rw [hat.1, hadv] at hnx
        rw [hat.2, hadv] at hny
        refine ⟨_, _, ⟨hnx, hny⟩, ?_⟩
        have hdx := clamp_move (δ := mx * 20 * d) hxs.1 hxs.2
        have hdy := clamp_move (δ := my * 20 * d) hys.1 hys.2
        have hunit := mul_le_mul_of_nonneg_right hdir.unit hstay
        calc _ ≤ mx * 20 * d * (mx * 20 * d) + my * 20 * d * (my * 20 * d) := add_le_add hdx hdy
          _ = (mx * mx + my * my) * (20 * d * (20 * d)) := by ring
          _ ≤ 20 * d * (20 * d) := by rwa [one_mul] at hunit

end OneStep

/-! ### Runs -/

/-- The pending input, if there is one, is a pair of numbers. -/
def P.steerable {K : Type} (p : P (Ext K)) : Bool :=
  !p.hasInput || (p.input.moveX.isFinite && p.input.moveY.isFinite)

theorem P.not_astray {K : Type} {p : P (Ext K)} (h : p.steerable = true) : p.astray = false := by
  simp only [P.steerable, Bool.or_eq_true, Bool.not_eq_true'] at h
  rcases h with h | h <;> simp [P.astray, h]

@[simp] theorem movePlayer_steerable {K : Type} [Field K] [LinearOrder K] [SquareRoot K]
    (dt : Ext K) (p : P (Ext K)) : (movePlayer dt p).1.steerable = p.steerable := by
  rcases movePlayer_cases dt p with h | ⟨mx, my, h⟩
  · rw [h]
  · rw [h]
    simp only [moveBy]
    split <;> rfl

noncomputable def P.place (p : P (Ext ℝ)) : EuclideanSpace ℝ (Fin 2) := !₂[p.x.val, p.y.val]

/-- Where player `id` is. -/
noncomputable def place (id : ℕ) (s : BattleSim (Ext ℝ)) : EuclideanSpace ℝ (Fin 2) :=
  (s.players.lookup id).elim 0 P.place

/-- The length of the way that player `id` goes. -/
noncomputable def travelled (id : ℕ) : BattleSim (Ext ℝ) → List (SimAct (Ext ℝ)) → ℝ
  | _, [] => 0
  | s, a :: acts => dist (s.place id) ((s.act a).place id) + travelled id (s.act a) acts

/-- The milliseconds that an act simulates. -/
def SimAct.millis {F : Type} : SimAct F → ℕ
  | .applyInput _ _ => 0
  | .step _ dtMs => dtMs

def simulated {F : Type} (acts : List (SimAct F)) : ℕ := (acts.map SimAct.millis).sum

/-- Player `id` is inside, and its pending input can be followed. -/
def Steered (id : ℕ) (s : BattleSim (Ext ℝ)) : Prop :=
  ∃ p, s.players.lookup id = some p ∧ p.inArena = true ∧ p.steerable = true

/-- The act is no input of the player that cannot be followed. -/
def SimAct.Steers (id : ℕ) : SimAct (Ext ℝ) → Prop
  | .applyInput id' input => id' = id → input.moveX.isFinite = true ∧ input.moveY.isFinite = true
  | .step _ _ => True

theorem dist_place {p p' : P (Ext ℝ)} {px py px' py' r : ℝ} (hp : p.At px py)
    (hp' : p'.At px' py') (hr : 0 ≤ r)
    (h : (px' - px) * (px' - px) + (py' - py) * (py' - py) ≤ r * r) :
    dist p.place p'.place ≤ r := by
  rw [EuclideanSpace.dist_eq]
  refine Real.sqrt_le_iff.mpr ⟨hr, ?_⟩
  simp only [Fin.sum_univ_two, P.place, Real.dist_eq, sq_abs, hp.1, hp.2, hp'.1, hp'.2, Ext.val]
  calc (px - px') ^ 2 + (py - py') ^ 2
      = (px' - px) * (px' - px) + (py' - py) * (py' - py) := by ring
    _ ≤ r * r := h
    _ = r ^ 2 := (sq r).symm

theorem place_of_lookup {id : ℕ} {s : BattleSim (Ext ℝ)} {p : P (Ext ℝ)}
    (hp : s.players.lookup id = some p) : s.place id = p.place := by
  simp [place, hp]

theorem Steered.step {id : ℕ} {s : BattleSim (Ext ℝ)} (h : Steered id s) (ks : List ℕ)
    (dtMs : ℕ) :
    Steered id (step ks dtMs s).1 ∧
      dist (s.place id) ((step ks dtMs s).1.place id) ≤ (kSpeed : Ext ℝ).val * dtMs / 1000 := by
  obtain ⟨p, hp, hin, hsteer⟩ := h
  have hguided := P.not_astray hsteer
  have hmap := map_step (f := fun p : P (Ext ℝ) => (p.x, p.y, p.inArena, p.steerable))
    (fun _ _ => rfl) (fun _ _ => rfl) ks dtMs s id
  rw [hp, Option.map_some, dt_eq] at hmap
  obtain ⟨p', hp', heq⟩ := Option.map_eq_some_iff.mp hmap
  simp only [Prod.mk.injEq, movePlayer_steerable] at heq
  obtain ⟨hx, hy, hin', hsteer'⟩ := heq
  refine ⟨⟨p', hp', hin'.trans (movePlayer_inArena hin hguided), hsteer'.trans hsteer⟩, ?_⟩
  obtain ⟨⟨px, hpx, -⟩, ⟨py, hpy, -⟩⟩ := inArena_iff.mp hin
  obtain ⟨px', py', hat', hmove⟩ := movePlayer_step (d := (dtMs / 1000 : ℝ)) ⟨hpx, hpy⟩ hin hguided
  have hspeed : (kSpeed : Ext ℝ).val * dtMs / 1000 = 20 * (dtMs / 1000) := by
    simp only [kSpeed, Ext.lit_eq, Ext.val]
    norm_num
    ring
  rw [place_of_lookup hp, place_of_lookup hp', hspeed]
  exact dist_place ⟨hpx, hpy⟩ ⟨hx.trans hat'.1, hy.trans hat'.2⟩ (by positivity) hmove

theorem Steered.act {id : ℕ} {s : BattleSim (Ext ℝ)} (h : Steered id s) {a : SimAct (Ext ℝ)}
    (ha : a.Steers id) :
    Steered id (s.act a) ∧
      dist (s.place id) ((s.act a).place id) ≤ (kSpeed : Ext ℝ).val * a.millis / 1000 := by
  cases a with
  | step ks dtMs => exact h.step ks dtMs
  | applyInput id' input =>
      obtain ⟨p, hp, hin, hsteer⟩ := h
      have hsame : ∃ p', (applyInput id' input s).players.lookup id = some p' ∧
          p'.place = p.place ∧ p'.inArena = true ∧ p'.steerable = true := by
        by_cases hid : id = id'
        · obtain ⟨hmx, hmy⟩ := ha hid.symm
          refine ⟨{ p with input := input, hasInput := true, seq := input.seq }, ?_, rfl, hin, ?_⟩
          · simp only [applyInput, UnorderedMap.lookup_modify, if_pos hid, hp, Option.map_some]
          · simp [P.steerable, hmx, hmy]
        · exact ⟨p, by simp [applyInput, hid, hp], rfl, hin, hsteer⟩
      obtain ⟨p', hp', hplace, hin', hsteer'⟩ := hsame
      refine ⟨⟨p', hp', hin', hsteer'⟩, ?_⟩
      rw [place_of_lookup hp, place_of_lookup (show (s.act (.applyInput id' input)).players.lookup
        id = some p' from hp'), hplace, dist_self]
      simp [SimAct.millis]

theorem Steered.run {id : ℕ} {s : BattleSim (Ext ℝ)} (h : Steered id s)
    {acts : List (SimAct (Ext ℝ))} (hacts : ∀ a ∈ acts, a.Steers id) :
    travelled id s acts ≤ (kSpeed : Ext ℝ).val * simulated acts / 1000 ∧
      dist (s.place id) ((acts.foldl BattleSim.act s).place id) ≤ travelled id s acts := by
  induction acts generalizing s with
  | nil => simp [travelled, simulated]
  | cons a acts ih =>
      obtain ⟨hnext, hstep⟩ := h.act (hacts a (List.mem_cons_self ..))
      obtain ⟨hrest, hway⟩ := ih hnext fun a' ha' => hacts a' (List.mem_cons_of_mem _ ha')
      have hsim : (kSpeed : Ext ℝ).val * simulated (a :: acts) / 1000 =
          (kSpeed : Ext ℝ).val * a.millis / 1000 +
            (kSpeed : Ext ℝ).val * simulated acts / 1000 := by
        simp only [simulated, List.map_cons, List.sum_cons, Nat.cast_add]
        ring
      refine ⟨?_, ?_⟩
      · rw [hsim, travelled]
        exact add_le_add hstep hrest
      · rw [travelled, List.foldl_cons]
        exact (dist_triangle _ _ _).trans (add_le_add_right hway _)

/-- From any state with player `id` inside the arena, through any calls in
which its directions are pairs of numbers, of any size: the way that the
player goes, and so its distance from where it was, is at most `kSpeed` times
the simulated time. -/
theorem speed_limit {s : BattleSim (Ext ℝ)} {id : ℕ} {p : P (Ext ℝ)}
    (hp : s.players.lookup id = some p) (hin : p.inArena = true) (hsteer : p.steerable = true)
    (acts : List (SimAct (Ext ℝ))) (hacts : ∀ a ∈ acts, a.Steers id) :
    travelled id s acts ≤ (kSpeed : Ext ℝ).val * simulated acts / 1000 ∧
      dist (s.place id) ((acts.foldl act s).place id) ≤
        (kSpeed : Ext ℝ).val * simulated acts / 1000 := by
  obtain ⟨htravel, hdist⟩ := Steered.run ⟨p, hp, hin, hsteer⟩ hacts
  exact ⟨htravel, hdist.trans htravel⟩

/-- A player in the corner is sent outwards with a huge direction, twice. -/
theorem speed_limit_in_the_corner :
    let s : BattleSim (Ext ℝ) := addPlayer [] 1 (.fin 0) (.fin 99) {}
    let acts : List (SimAct (Ext ℝ)) :=
      [.applyInput 1 ⟨1, .fin (-1000), .fin 1000, false⟩, .step [] 50, .step [] 70]
    travelled 1 s acts ≤ (kSpeed : Ext ℝ).val * simulated acts / 1000 := by
  intro s acts
  have hp : s.players.lookup 1 = some _ := rfl
  refine (speed_limit hp ?_ rfl acts ?_).1
  · rw [inArena_iff]
    exact ⟨⟨0, rfl, by norm_num, by norm_num⟩, ⟨99, rfl, by norm_num, by norm_num⟩⟩
  · intro a ha
    rcases List.mem_cons.mp ha with rfl | ha
    · exact fun _ => ⟨rfl, rfl⟩
    · rcases List.mem_cons.mp ha with rfl | ha
      · trivial
      · obtain rfl := List.mem_singleton.mp ha
        trivial

end BattleSim

end GameServer.Game
