import GameServer.Game.Damage
import GameServer.Lib.Segment

/-!
Swept collision, over exact arithmetic.

A projectile that flies covers a segment in a step, from where it is to where
it would go. `pass` computes the point of the segment closest to a player and
whether it is within the radius, and the loop of `findHit` keeps the player
that is passed first; so a hit is registered exactly when the segment comes
near enough to a living player other than the owner.
-/

namespace GameServer.Game

open GameServer.Lib GameServer.Proto
open Scalar

namespace BattleSim

variable {K : Type} [Field K] [LinearOrder K]

/-- The projectile is at `(x, y)`, with velocity `(vx, vy)`. -/
structure Projectile.At (q : Projectile (Ext K)) (x y vx vy : K) : Prop where
  x : q.x = .fin x
  y : q.y = .fin y
  vx : q.vx = .fin vx
  vy : q.vy = .fin vy

/-- A point of the segment from `(x, y)` along `(segX, segY)` is within the
hit radius of the player. -/
def Touches (x y segX segY : K) (p : P (Ext K)) : Prop :=
  ∃ px py s, p.At px py ∧ 0 ≤ s ∧ s ≤ 1 ∧
    (px - (x + s * segX)) ^ 2 + (py - (y + s * segY)) ^ 2 ≤ 9

/-- The segment is closest to the player at the parameter `t`. -/
def ClosestAt (x y segX segY : K) (p : P (Ext K)) (t : K) : Prop :=
  ∃ px py, p.At px py ∧ Segment.IsClosest (px - x) (py - y) segX segY t

variable [IsStrictOrderedRing K]

/-! ### One player -/

theorem touches_iff {x y segX segY : K} (hpos : 0 < segX * segX + segY * segY) {p : P (Ext K)}
    {px py : K} (hp : p.At px py) :
    Touches x y segX segY p ↔
      Segment.gapSq (px - x) (py - y) segX segY
        (Segment.closest (px - x) (py - y) segX segY) ≤ 9 := by
  rw [← Segment.exists_within_iff hpos]
  have hgap : ∀ s, (px - (x + s * segX)) ^ 2 + (py - (y + s * segY)) ^ 2 =
      Segment.gapSq (px - x) (py - y) segX segY s := by
    intro s
    simp only [Segment.gapSq]
    ring
  constructor
  · rintro ⟨px', py', s, hp', hs, hs1, hwithin⟩
    obtain rfl : px = px' := Ext.fin.inj (hp.1.symm.trans hp'.1)
    obtain rfl : py = py' := Ext.fin.inj (hp.2.symm.trans hp'.2)
    exact ⟨s, hs, hs1, hgap s ▸ hwithin⟩
  · rintro ⟨s, hs, hs1, hwithin⟩
    exact ⟨px, py, s, hp, hs, hs1, (hgap s).symm ▸ hwithin⟩

theorem closestAt_iff {x y segX segY : K} (hpos : 0 < segX * segX + segY * segY) {p : P (Ext K)}
    {px py : K} (hp : p.At px py) {t : K} :
    ClosestAt x y segX segY p t ↔ t = Segment.closest (px - x) (py - y) segX segY := by
  constructor
  · rintro ⟨px', py', hp', hclosest⟩
    obtain rfl : px = px' := Ext.fin.inj (hp.1.symm.trans hp'.1)
    obtain rfl : py = py' := Ext.fin.inj (hp.2.symm.trans hp'.2)
    exact hclosest.eq_closest hpos
  · rintro rfl
    exact ⟨px, py, hp, Segment.isClosest_closest hpos⟩

variable [SquareRoot K]

theorem pass_fin {q : Projectile (Ext K)} {x y vx vy : K} (hq : q.At x y vx vy) {p : P (Ext K)}
    {px py : K} (hp : p.At px py) {d : K}
    (hlong : 1 / 10 ^ 6 < vx * d * (vx * d) + vy * d * (vy * d)) :
    pass (.fin d) q p =
      (.fin (Segment.closest (px - x) (py - y) (vx * d) (vy * d)),
        decide (Segment.gapSq (px - x) (py - y) (vx * d) (vy * d)
          (Segment.closest (px - x) (py - y) (vx * d) (vy * d)) ≤ 9)) := by
  have hpos : 0 < vx * d * (vx * d) + vy * d * (vy * d) := lt_trans (by norm_num) hlong
  have hsegX : x + vx * d - x = vx * d := by ring
  have hsegY : y + vy * d - y = vy * d := by ring
  have hlit : ((1 / 10 ^ 6 : ℚ) : K) = 1 / 10 ^ 6 := by push_cast; ring
  obtain ⟨hpx, hpy⟩ := hp
  simp only [pass, hq.x, hq.y, hq.vx, hq.vy, hpx, hpy, Ext.fin_mul, Ext.fin_add, Ext.fin_sub,
    hsegX, hsegY, Ext.lit_eq, hlit, Ext.fin_lt, hlong, decide_true, if_true,
    Ext.fin_div hpos.ne', Rat.cast_zero, Rat.cast_one, Ext.clamp_fin_eq zero_le_one,
    kProjectileRadius, Ext.fin_le]
  rw [← Segment.closest, Prod.mk.injEq]
  refine ⟨rfl, decide_eq_decide.mpr (iff_of_eq ?_)⟩
  congr 1
  · simp only [Segment.gapSq]
    ring
  · norm_num

/-! ### All players -/

/-- A player that the projectile may hit and does touch. -/
def InTheWay (s : BattleSim (Ext K)) (owner : ℕ) (x y segX segY : K) (k : ℕ) (p : P (Ext K)) :
    Prop :=
  s.players.lookup k = some p ∧ k ≠ owner ∧ p.alive = true ∧ Touches x y segX segY p

/-- The state of the selection loop over all players. -/
theorem findHit_selected {q : Projectile (Ext K)} {x y vx vy : K} (hq : q.At x y vx vy) {d : K}
    (hlong : 1 / 10 ^ 6 < vx * d * (vx * d) + vy * d * (vy * d))
    {players : UnorderedMap ℕ (P (Ext K))}
    (hplaced : ∀ k p, players.lookup k = some p → ∃ px py, p.At px py) :
    Ext.Selected
      (fun e : Σ _ : ℕ, P (Ext K) => e.1 ≠ q.ownerId && e.2.alive && (pass (.fin d) q e.2).2)
      (fun e => Segment.closest (e.2.x.val - x) (e.2.y.val - y) (vx * d) (vy * d))
      (fun e => (e.1, e.2)) players.entries (findHit (.fin d) players q) := by
  have hloop := Ext.foldl_selected
    (fun e : Σ _ : ℕ, P (Ext K) => e.1 ≠ q.ownerId && e.2.alive && (pass (.fin d) q e.2).2)
    (fun e => Segment.closest (e.2.x.val - x) (e.2.y.val - y) (vx * d) (vy * d))
    (fun e => (e.1, e.2)) players.entries
  have hsame : findHit (.fin d) players q = players.entries.foldl (fun acc e =>
      if (e.1 ≠ q.ownerId && e.2.alive && (pass (.fin d) q e.2).2) &&
          lt (.fin (Segment.closest (e.2.x.val - x) (e.2.y.val - y) (vx * d) (vy * d)) : Ext K) acc.2
      then (some (e.1, e.2),
        .fin (Segment.closest (e.2.x.val - x) (e.2.y.val - y) (vx * d) (vy * d))) else acc)
      (none, infinity) := by
    refine List.foldl_ext _ _ _ fun acc e he => ?_
    obtain ⟨px, py, hp⟩ := hplaced e.1 e.2 (UnorderedMap.mem_entries_iff.mp he)
    have hpass := pass_fin hq hp hlong
    rw [hpass, hp.1, hp.2]
    by_cases howner : e.1 = q.ownerId
    · simp [howner]
    · cases halive : e.2.alive with
      | false => simp
      | true => simp [howner, Ext.val]
  rw [hsame]
  exact hloop

/-- What the selection loop finds, in terms of the geometry. -/
theorem hitOf_spec {s : BattleSim (Ext K)} {id : ℕ} {q : Projectile (Ext K)} {x y vx vy : K}
    (hq : s.projectiles.lookup id = some q) (hat : q.At x y vx vy)
    (hplaced : ∀ k p, s.players.lookup k = some p → ∃ px py, p.At px py) {d : K}
    (hlong : 1 / 10 ^ 6 < vx * d * (vx * d) + vy * d * (vy * d)) :
    (hitOf (.fin d) s id = none ∧ ∀ k p, ¬InTheWay s q.ownerId x y (vx * d) (vy * d) k p) ∨
      ∃ h t, hitOf (.fin d) s id = some h ∧
        InTheWay s q.ownerId x y (vx * d) (vy * d) h.target h.victim ∧
        ClosestAt x y (vx * d) (vy * d) h.victim t ∧
        ∀ k p t', InTheWay s q.ownerId x y (vx * d) (vy * d) k p →
          ClosestAt x y (vx * d) (vy * d) p t' → t ≤ t' := by
  have hpos : 0 < vx * d * (vx * d) + vy * d * (vy * d) := lt_trans (by norm_num) hlong
  have hcand : ∀ k p, s.players.lookup k = some p →
      ((k ≠ q.ownerId && p.alive && (pass (.fin d) q p).2) = true ↔
        InTheWay s q.ownerId x y (vx * d) (vy * d) k p) := by
    intro k p hp
    obtain ⟨px, py, hpat⟩ := hplaced k p hp
    rw [pass_fin hat hpat hlong]
    simp [InTheWay, hp, touches_iff hpos hpat, and_assoc]
  have hclosest : ∀ k p t, s.players.lookup k = some p →
      (ClosestAt x y (vx * d) (vy * d) p t ↔
        t = Segment.closest (p.x.val - x) (p.y.val - y) (vx * d) (vy * d)) := by
    intro k p t hp
    obtain ⟨px, py, hpat⟩ := hplaced k p hp
    rw [closestAt_iff hpos hpat, hpat.1, hpat.2]
    rfl
  have hhit : hitOf (.fin d) s id =
      (findHit (.fin d) s.players q).1.map fun h => ⟨q, h.1, h.2⟩ := by
    rw [hitOf, hq, Option.bind_some]
  rcases findHit_selected hat hlong hplaced with ⟨hnone, hall⟩ | ⟨e, he, hsome, hcande, hleast⟩
  · left
    refine ⟨by rw [hhit, hnone]; rfl, fun k p hway => ?_⟩
    exact absurd ((hcand k p hway.1).mpr hway)
      (Bool.eq_false_iff.mp (hall ⟨k, p⟩ (UnorderedMap.mem_entries_iff.mpr hway.1)))
  · right
    have hp := UnorderedMap.mem_entries_iff.mp he
    refine ⟨⟨q, e.1, e.2⟩, _, by rw [hhit, hsome]; rfl, (hcand e.1 e.2 hp).mp hcande,
      (hclosest e.1 e.2 _ hp).mpr rfl, fun k p t' hway ht' => ?_⟩
    rw [(hclosest k p t' hway.1).mp ht']
    exact hleast ⟨k, p⟩ (UnorderedMap.mem_entries_iff.mpr hway.1) ((hcand k p hway.1).mpr hway)

/-- For a projectile whose segment is longer than the dead zone of the code,
when its turn comes in phase 4, with any players anywhere: a hit is
registered if and only if a living player other than the owner is touched by
the segment; the player hit is one of these, none of them is passed earlier;
it loses its hp and the projectile is removed. Without a hit no player
changes. -/
theorem collision_exact {s : BattleSim (Ext K)} {id : ℕ} {q : Projectile (Ext K)} {x y vx vy : K}
    (hq : s.projectiles.lookup id = some q) (hat : q.At x y vx vy)
    (hfinite : ∀ k p, s.players.lookup k = some p → p.finite = true) (dtMs : ℕ)
    (hlong : 1 / 10 ^ 6 < (vx * (dtMs / 1000)) ^ 2 + (vy * (dtMs / 1000)) ^ 2)
    (changed : List ℕ) :
    ((hitOf (lit dtMs / lit 1000) s id).isSome = true ↔ ∃ k p,
        InTheWay s q.ownerId x y (vx * (dtMs / 1000)) (vy * (dtMs / 1000)) k p) ∧
      (∀ h, hitOf (lit dtMs / lit 1000) s id = some h →
        InTheWay s q.ownerId x y (vx * (dtMs / 1000)) (vy * (dtMs / 1000)) h.target h.victim ∧
        (∃ t, ClosestAt x y (vx * (dtMs / 1000)) (vy * (dtMs / 1000)) h.victim t ∧
          ∀ k p t',
            InTheWay s q.ownerId x y (vx * (dtMs / 1000)) (vy * (dtMs / 1000)) k p →
            ClosestAt x y (vx * (dtMs / 1000)) (vy * (dtMs / 1000)) p t' → t ≤ t') ∧
        (advanceOne (lit dtMs / lit 1000) (s, changed) id).1.players.lookup h.target =
          some { h.victim with hp := Max.max 0 (h.victim.hp - kDamage) } ∧
        (advanceOne (lit dtMs / lit 1000) (s, changed) id).1.projectiles.lookup id = none) ∧
      (hitOf (lit dtMs / lit 1000) s id = none →
        (advanceOne (lit dtMs / lit 1000) (s, changed) id).1.players = s.players) := by
  have hsegment : 1 / 10 ^ 6 < vx * (dtMs / 1000) * (vx * (dtMs / 1000)) +
      vy * (dtMs / 1000) * (vy * (dtMs / 1000)) := by
    rw [← sq, ← sq]
    exact hlong
  have hspec := hitOf_spec hq hat (fun k p hp => P.exists_at (hfinite k p hp)) hsegment
  rw [dt_eq]
  refine ⟨?_, fun h hh => ?_, fun hmiss => (advanceOne_of_miss (s, changed) hmiss).1⟩
  · rcases hspec with ⟨hnone, hall⟩ | ⟨h, t, hsome, hway, -, -⟩
    · simp [hnone, hall]
    · simpa [hsome] using ⟨_, _, hway⟩
  · rcases hspec with ⟨hnone, -⟩ | ⟨h', t, hsome, hway, hclosest, hleast⟩
    · rw [hnone] at hh
      cases hh
    · obtain rfl : h' = h := Option.some.inj (hsome.symm.trans hh)
      refine ⟨hway, ⟨t, hclosest, hleast⟩, ?_, ?_⟩
      · rw [advanceOne_of_hit (s, changed) hh]
        simp only [removeProjectile, UnorderedMap.lookup_modify, if_true, hway.1, Option.map_some]
      · rw [advanceOne_of_hit (s, changed) hh]
        simp [removeProjectile]

/-- A grazing shot: the segment ends exactly the hit radius away from the
only player in reach, beyond its end. -/
theorem collision_exact_at_the_end :
    let s : BattleSim (Ext ℚ) :=
      { facingPlayers with
        projectiles := AList.insert 7 ⟨7, 1, .fin 64, .fin 50, .fin 60, .fin 0, .fin 0⟩ ∅ }
    (hitOf (lit 50 / lit 1000) s 7).isSome = true ∧
      ∃ k p, InTheWay s 1 64 50 (60 * (50 / 1000)) (0 * (50 / 1000)) k p := by
  intro s
  have hq : s.projectiles.lookup 7 = some ⟨7, 1, .fin 64, .fin 50, .fin 60, .fin 0, .fin 0⟩ := rfl
  have hspec := collision_exact hq ⟨rfl, rfl, rfl, rfl⟩ (forall_lookup_iff.mpr (by decide +kernel))
    50 (by norm_num) []
  have hhit : (hitOf (lit 50 / lit 1000) s 7).isSome = true := by decide +kernel
  exact ⟨hhit, by simpa using hspec.1.mp (by simpa using hhit)⟩

end BattleSim

end GameServer.Game
