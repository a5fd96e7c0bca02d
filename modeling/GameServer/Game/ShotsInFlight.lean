import GameServer.Game.Collision
import GameServer.Game.FrameSize
import GameServer.Game.Movement
import GameServer.Game.RateOfFire
import GameServer.Game.Tombstones

/-!
How many shots a player has in the air.

A room advances its projectiles every `kTickMs`, by 3 units if they fly, so
that one that flies is spent after 22 ticks; a player fires every 10 ticks.
A shot at a target on the same spot has no direction to fly in. It stays
where it is, within reach of the target, and hits it a tick later.

The invariant gives each projectile an age, the number of ticks it has
advanced in; two projectiles of one owner are 10 ticks apart.
-/

namespace GameServer.Game

open GameServer.Lib GameServer.Proto
open Scalar

namespace BattleSim

section OneShot

variable {K : Type} [Field K] [LinearOrder K] [IsStrictOrderedRing K]

/-- The projectile has flown for `n` ticks. -/
structure Flying (n : ℕ) (q : Projectile (Ext K)) : Prop where
  place : ∃ x y vx vy, q.At x y vx vy ∧ vx * vx + vy * vy = 3600
  traveled : q.traveled = .fin (3 * n)

/-- The projectile was fired at `t` from the same spot. -/
def Hovering (q : Projectile (Ext K)) (t : P (Ext K)) : Prop :=
  ∃ px py dx dy, t.At px py ∧ q.At (px + dx) (py + dy) (dx * 60) (dy * 60) ∧
    dx * dx + dy * dy ≤ 1 / 10 ^ 12

variable [SquareRoot K] [ExactRoot K]

theorem Flying.fly {n : ℕ} {q : Projectile (Ext K)} (h : Flying n q) :
    Flying (n + 1) (fly (.fin (1 / 20)) q) := by
  obtain ⟨⟨x, y, vx, vy, hat, hspeed⟩, htraveled⟩ := h
  have hseg : (x + vx * (1 / 20) - x) * (x + vx * (1 / 20) - x) +
      (y + vy * (1 / 20) - y) * (y + vy * (1 / 20) - y) = 9 := by
    linear_combination (1 / 400) * hspeed
  have hsqrt : sqrt (.fin 9 : Ext K) = .fin 3 := by
    have hthree : SquareRoot.sqrt (9 : K) = 3 := ExactRoot.sqrt_eq (by norm_num) (by norm_num)
    exact (if_neg (by norm_num)).trans (congrArg Ext.fin hthree)
  refine ⟨⟨x + vx * (1 / 20), y + vy * (1 / 20), vx, vy, ⟨?_, ?_, hat.vx, hat.vy⟩, hspeed⟩, ?_⟩
  · simp [BattleSim.fly, hat.x, hat.vx]
  · simp [BattleSim.fly, hat.y, hat.vy]
  · simp only [BattleSim.fly, hat.x, hat.y, hat.vx, hat.vy, htraveled, Ext.fin_mul, Ext.fin_add,
      Ext.fin_sub, hseg, hsqrt]
    congr 1
    push_cast
    ring

omit [ExactRoot K] in
theorem Flying.lt_of_not_spent {n : ℕ} {q : Projectile (Ext K)} (h : Flying n q)
    (hspent : spent q = false) : n < 22 := by
  simp only [spent, Bool.or_eq_false_iff, h.traveled, kProjectileRange, Ext.lit_eq, Ext.fin_le,
    decide_eq_false_iff_not, not_le] at hspent
  have hrange : ((3 * n : ℕ) : K) < (65 : ℕ) := by
    have := hspent.1.1.1.1
    push_cast at this ⊢
    exact this
  have := Nat.cast_lt.mp hrange
  omega

/-- A shot at `t` flies or hovers. -/
theorem shot_in_flight {players : UnorderedMap ℕ (P (Ext K))} {k id : ℕ} {p t : P (Ext K)}
    (hnear : (nearest players id p).1 = some t) {px py tx ty : K} (hp : p.At px py)
    (ht : t.At tx ty) :
    Flying 0 (shot players k id p) ∨ Hovering (shot players k id p) t := by
  have hlen : hypot (.fin (tx - px) : Ext K) (.fin (ty - py)) =
      .fin (SquareRoot.sqrt ((tx - px) * (tx - px) + (ty - py) * (ty - py))) := rfl
  simp only [shot, hnear, aim, hp.1, hp.2, ht.1, ht.2, Ext.fin_sub, hlen, Ext.lit_eq, Ext.fin_lt,
    decide_eq_true_eq]
  split
  · next hlong =>
      have hpos : 0 < (SquareRoot.sqrt ((tx - px) * (tx - px) + (ty - py) * (ty - py)) : K) :=
        lt_trans (by norm_num) hlong
      have hunit := ExactRoot.normalized hpos
      rw [Ext.fin_div hpos.ne', Ext.fin_div hpos.ne']
      -- a unit vector: the shot flies with speed 60
      refine .inl ⟨⟨_, _, _, _, ⟨rfl, rfl, rfl, rfl⟩, ?_⟩, by simp⟩
      push_cast
      linear_combination 3600 * hunit
  · next hshort =>
      -- the vector is used as it is: the shot lands as far behind `t` as `t` is away
      have hsq := (ExactRoot.sqrt_le_iff (add_nonneg (mul_self_nonneg (tx - px))
        (mul_self_nonneg (ty - py))) (by norm_num)).mp (not_lt.mp hshort)
      refine .inr ⟨tx, ty, tx - px, ty - py, ht, ⟨?_, ?_, ?_, ?_⟩, hsq.trans (by norm_num)⟩
      all_goals
        simp only [kProjectileSpeed, Ext.lit_eq, Ext.fin_mul, Ext.fin_add]
        congr 1
        push_cast
        ring

omit [ExactRoot K] in
/-- A hovering projectile strikes its target wherever that one goes in a tick. -/
theorem Hovering.strikes {q : Projectile (Ext K)} {t t' : P (Ext K)} (h : Hovering q t)
    {px py px' py' : K} (ht : t.At px py) (ht' : t'.At px' py')
    (hmove : (px' - px) * (px' - px) + (py' - py) * (py' - py) ≤ 1) :
    strikes (.fin (1 / 20)) q t' = true := by
  obtain ⟨tx, ty, dx, dy, hplace, hat, htiny⟩ := h
  obtain rfl : px = tx := Ext.fin.inj (ht.1.symm.trans hplace.1)
  obtain rfl : py = ty := Ext.fin.inj (ht.2.symm.trans hplace.2)
  -- the way of a tick is in the dead zone of `pass`, which then looks at its start
  have hshort : ¬((1 / 10 ^ 6 : ℚ) : K) <
      (px + dx + dx * 60 * (1 / 20) - (px + dx)) * (px + dx + dx * 60 * (1 / 20) - (px + dx)) +
        (py + dy + dy * 60 * (1 / 20) - (py + dy)) *
          (py + dy + dy * 60 * (1 / 20) - (py + dy)) := by
    push_cast
    nlinarith
  have hnear : (px' - (px + dx)) * (px' - (px + dx)) +
      (py' - (py + dy)) * (py' - (py + dy)) ≤ 9 := by
    nlinarith [mul_self_nonneg (px' - px + dx), mul_self_nonneg (py' - py + dy)]
  have hinf : lt (.fin ((0 : ℚ) : K) : Ext K) infinity = true := rfl
  simp only [BattleSim.strikes, pass, hat.x, hat.y, hat.vx, hat.vy, ht'.1, ht'.2, Ext.fin_mul,
    Ext.fin_add, Ext.fin_sub, Ext.lit_eq, Ext.fin_lt, hshort, decide_false, Bool.false_eq_true,
    if_false, hinf, Bool.and_true, kProjectileRadius, Ext.fin_le, decide_eq_true_eq]
  rw [Rat.cast_zero, mul_zero, mul_zero, add_zero, add_zero]
  push_cast
  linarith

end OneShot

/-! ### One projectile in a step -/

section Survival

variable {F : Type} [Scalar F]

/-- A projectile that is still in flight after its turn has flown and missed. -/
theorem flown_of_kept {a b : ℕ} {dt : F} {acc : BattleSim F × List ℕ}
    (h : Between a b acc.1.players) {k : ℕ} {q q' : Projectile F}
    (hq : acc.1.projectiles.lookup k = some q) (howner : q.ownerId = a)
    (hq' : (advanceOne dt acc k).1.projectiles.lookup k = some q') {p : P F}
    (hp : acc.1.players.lookup b = some p) :
    q' = fly dt q ∧ spent q' = false ∧ (p.alive && strikes dt q p) = false := by
  simp only [advanceOne, hq, findHit_of_owner h.symm hp howner] at hq'
  cases hhit : p.alive && strikes dt q p with
  | true => simp [hhit, removeProjectile] at hq'
  | false =>
      rw [hhit] at hq'
      cases hspent : spent (fly dt q) with
      | true => simp [hspent, removeProjectile] at hq'
      | false =>
          obtain rfl : fly dt q = q' := by simpa [hspent, hq] using hq'
          exact ⟨rfl, hspent, rfl⟩

theorem flown_of_survives {a b : ℕ} (dt : F) {ids : List ℕ} (hnodup : ids.Nodup)
    (acc : BattleSim F × List ℕ) (hid : ∀ {k p}, acc.1.players.lookup k = some p → p.id = k)
    (h : Between a b acc.1.players) {k : ℕ} (hk : k ∈ ids) {q q' : Projectile F}
    (hq : acc.1.projectiles.lookup k = some q) (howner : q.ownerId = a)
    (hq' : (ids.foldl (advanceOne dt) acc).1.projectiles.lookup k = some q') {p : P F}
    (hp : acc.1.players.lookup b = some p) :
    q' = fly dt q ∧ spent q' = false ∧
      (b ∈ (ids.foldl (advanceOne dt) acc).1.livingIds → strikes dt q p = false) := by
  induction ids generalizing acc p with
  | nil => cases hk
  | cons id ids ih =>
      obtain ⟨hnot, hnodup⟩ := List.nodup_cons.mp hnodup
      have hid' : ∀ {k p}, (advanceOne dt acc id).1.players.lookup k = some p → p.id = k :=
        fun hp => (evolves_advanceOne dt hid id).player_id hid hp
      obtain ⟨p₁, hp₁, hworn, -⟩ := worn_advanceOne dt hid id hp
      rw [List.foldl_cons] at hq' ⊢
      rcases List.mem_cons.mp hk with rfl | hk
      · -- its turn; who is alive at the end of the step is alive now
        rw [lookup_advanceAll_ne dt hnot] at hq'
        obtain ⟨hflown, hspent, hmiss⟩ := flown_of_kept h hq howner hq' hp
        refine ⟨hflown, hspent, fun hlive => ?_⟩
        obtain ⟨p₂, hp₂, hworn', -⟩ := worn_advanceAll dt ids _ hid' hp₁
        obtain ⟨p', hp', halive⟩ := mem_livingIds.mp hlive
        obtain rfl : p₂ = p' := Option.some.inj (hp₂.symm.trans hp')
        have hpos : p.alive = true := by
          simp only [P.alive, decide_eq_true_eq] at halive ⊢
          exact halive.trans_le (hworn'.hp_le.trans hworn.hp_le)
        simpa [hpos] using hmiss
      · have hne : k ≠ id := fun heq => hnot (heq ▸ hk)
        have hrest := ih hnodup _ hid' (between_advanceOne dt h hid id) hk
          ((lookup_advanceOne_ne dt acc hne).trans hq) hq' hp₁
        rwa [strikes_congr hworn.x hworn.y] at hrest

/-- A projectile of `a` that is still in flight after a step has flown, and
missed `b` if that one has survived. -/
theorem flown_step {a b : ℕ} {s : BattleSim F} (hs : s.Wf) (h : Between a b s.players)
    (ks : List ℕ) (dtMs : ℕ) {k : ℕ} {q q' : Projectile F} (hq : s.projectiles.lookup k = some q)
    (howner : q.ownerId = a) (hq' : (step ks dtMs s).1.projectiles.lookup k = some q') {p : P F}
    (hp : s.players.lookup b = some p) :
    q' = fly (lit dtMs / lit 1000) q ∧ spent q' = false ∧
      (b ∈ (step ks dtMs s).1.livingIds →
        strikes (lit dtMs / lit 1000) q (movePlayer (lit dtMs / lit 1000) p).1 = false) := by
  have hkeys : k ∈ s.projectiles.keys := UnorderedMap.mem_keys_iff.mpr ⟨q, hq⟩
  have harmed : (armed ks dtMs s).players.lookup b = some (p.ready dtMs) := by
    rw [lookup_armed_players ks dtMs hs, hp, Option.map_some]
  have hbetween : Between a b (armed ks dtMs s).players := h.evolve (evolves_armed ks dtMs s)
  have hflown := flown_of_survives (lit dtMs / lit 1000) (AList.keys_nodup s.projectiles)
    (armed ks dtMs s,
      (moveAll (lit dtMs / lit 1000) { s with removedProjectileIds := [] }).2)
    (hs.armed ks dtMs).player_id hbetween hkeys
    (((fired_armed ks dtMs s).old k (hs.fresh hq)).trans hq) howner (by rwa [← step_eq]) harmed
  rwa [← step_eq, strikes_congr (P.ready_x dtMs p) (P.ready_y dtMs p)] at hflown

end Survival

/-! ### One tick -/

variable {F : Type}

/-- The projectiles of `a` are 10 ticks apart, and the oldest is 21 ticks old. -/
structure Spaced (a : ℕ) (age : ℕ → ℕ) (s : BattleSim F) : Prop where
  young : ∀ {k q}, s.projectiles.lookup k = some q → q.ownerId = a → age k ≤ 21
  apart : ∀ {k q k' q'}, s.projectiles.lookup k = some q → q.ownerId = a →
    s.projectiles.lookup k' = some q' → q'.ownerId = a → k ≠ k' →
    age k + 10 ≤ age k' ∨ age k' + 10 ≤ age k

/-- Three ages are all there is room for. -/
theorem Spaced.length_le {a : ℕ} {age : ℕ → ℕ} {s : BattleSim F} (h : Spaced a age s) :
    (s.projectiles.entries.filter fun e => e.2.ownerId = a).length ≤ 3 := by
  have hnodup := s.projectiles.nodupKeys
  have hslots : ((s.projectiles.entries.filter fun e => e.2.ownerId = a).map
      fun e => age e.1 / 10).Nodup := by
    refine List.Nodup.map_on (fun e he e' he' hslot => ?_) (hnodup.nodup.filter _)
    simp only [List.mem_filter, decide_eq_true_eq] at he he'
    refine hnodup.eq_of_fst_eq he.1 he'.1 (Classical.byContradiction fun hne => ?_)
    have hapart := h.apart (UnorderedMap.mem_entries_iff.mp he.1) he.2
      (UnorderedMap.mem_entries_iff.mp he'.1) he'.2 hne
    omega
  have hsubset : ((s.projectiles.entries.filter fun e => e.2.ownerId = a).map
      fun e => age e.1 / 10) ⊆ [0, 1, 2] := by
    intro slot hslot
    obtain ⟨e, he, rfl⟩ := List.mem_map.mp hslot
    simp only [List.mem_filter, decide_eq_true_eq] at he
    have hyoung := h.young (UnorderedMap.mem_entries_iff.mp he.1) he.2
    simp only [List.mem_cons, List.not_mem_nil, or_false]
    omega
  simpa using (List.subperm_of_subset hslots hsubset).length_le

/-- With the projectiles that are left the rest stays as it was. -/
theorem Spaced.mono {a : ℕ} {age : ℕ → ℕ} {s s' : BattleSim F} (h : Spaced a age s)
    (hsub : ∀ {k q'}, s'.projectiles.lookup k = some q' → q'.ownerId = a →
      ∃ q, s.projectiles.lookup k = some q ∧ q.ownerId = a) : Spaced a age s' where
  young hq howner := by
    obtain ⟨q, hq, howner⟩ := hsub hq howner
    exact h.young hq howner
  apart hq howner hq' howner' hne := by
    obtain ⟨q, hq, howner⟩ := hsub hq howner
    obtain ⟨q', hq', howner'⟩ := hsub hq' howner'
    exact h.apart hq howner hq' howner' hne

section Ticks

variable {K : Type} [Field K] [LinearOrder K] [IsStrictOrderedRing K] [SquareRoot K]

/-- The projectiles of `a` are where their ages say, and the cooldown of `a`
is not longer than the last shot is old; `b` is the target. -/
structure Salvo (a b : ℕ) (age : ℕ → ℕ) (c : ℕ) (s : BattleSim (Ext K)) : Prop where
  spaced : Spaced a age s
  le : c ≤ 500
  waits : Waits a c s
  loaded : ∀ {k q}, s.projectiles.lookup k = some q → q.ownerId = a → 500 ≤ c + 50 * age k
  flight : ∀ {k q}, s.projectiles.lookup k = some q → q.ownerId = a →
    Flying (age k) q ∨ age k = 0 ∧ ∃ p, s.players.lookup b = some p ∧ Hovering q p

/-- The ages after a tick. -/
def older (s : BattleSim (Ext K)) (age : ℕ → ℕ) (k : ℕ) : ℕ :=
  if k < s.nextProjectileId then age k + 1 else 0

theorem tick_eq : (lit (50 : ℕ) / lit 1000 : Ext K) = .fin (1 / 20) := by
  rw [dt_eq]
  congr 1
  norm_num

variable [ExactRoot K]

/-- A projectile of `a` after a tick. -/
theorem Salvo.flies {a b : ℕ} {age : ℕ → ℕ} {c : ℕ} {s : BattleSim (Ext K)} (h : Salvo a b age c s)
    (hs : s.Wf) (hbetween : Between a b s.players) {p : P (Ext K)}
    (hp : s.players.lookup b = some p) (hin : p.inArena = true) (hguided : p.astray = false)
    (ks : List ℕ) {k : ℕ} {q q' : Projectile (Ext K)} (hq : s.projectiles.lookup k = some q)
    (howner : q.ownerId = a) (hq' : (step ks 50 s).1.projectiles.lookup k = some q') :
    q'.ownerId = a ∧ age k + 1 ≤ 21 ∧
      (b ∈ (step ks 50 s).1.livingIds → Flying (age k + 1) q') := by
  obtain ⟨rfl, hspent, hmiss⟩ := flown_step hs hbetween ks 50 hq howner hq' hp
  rw [tick_eq] at hspent hmiss ⊢
  refine ⟨howner, ?_⟩
  rcases h.flight hq howner with hflying | ⟨hage, p', hp', hhover⟩
  · have hfly := hflying.fly
    have hlt := hfly.lt_of_not_spent hspent
    exact ⟨by omega, fun _ => hfly⟩
  · -- a hovering projectile is left over only if its target has died
    obtain rfl : p = p' := Option.some.inj (hp.symm.trans hp')
    refine ⟨by omega, fun hlive => ?_⟩
    obtain ⟨⟨px, hpx, -⟩, ⟨py, hpy, -⟩⟩ := inArena_iff.mp hin
    obtain ⟨px', py', hat', hmove⟩ :=
      movePlayer_step (d := (1 / 20 : K)) ⟨hpx, hpy⟩ hin hguided
    have hstrikes := hhover.strikes ⟨hpx, hpy⟩ hat' (hmove.trans (by norm_num))
    rw [hmiss hlive] at hstrikes
    cases hstrikes

/-- A new projectile of `a` after a tick. -/
theorem fired_step {a b : ℕ} {s : BattleSim (Ext K)} (hs : s.Wf) (h : Between a b s.players)
    (hin : s.InArena) (hguided : ∀ id p, s.players.lookup id = some p → p.astray = false)
    (hlive : b ∈ s.livingIds) (ks : List ℕ) {k : ℕ} {q' : Projectile (Ext K)}
    (hnew : s.projectiles.lookup k = none)
    (hq' : (step ks 50 s).1.projectiles.lookup k = some q') (howner : q'.ownerId = a) :
    s.nextProjectileId ≤ k ∧ a ∈ spawnedOwners ks 50 s ∧
      (Flying 0 q' ∨ ∃ p, (step ks 50 s).1.players.lookup b = some p ∧ Hovering q' p) := by
  have hplaced : ∀ id p, s.players.lookup id = some p → ∃ px py, (p.cooled 50).At px py := by
    intro id p hp
    obtain ⟨⟨px, hpx, -⟩, ⟨py, hpy, -⟩⟩ := inArena_iff.mp (hin id p hp)
    obtain ⟨px', py', hat, -⟩ := movePlayer_step (d := (1 / 20 : K)) ⟨hpx, hpy⟩ (hin id p hp)
      (hguided id p hp)
    rw [← tick_eq] at hat
    exact ⟨px', py', hat⟩
  have hspawned : a ∈ spawnedOwners ks 50 s := by
    have hmem : k ∉ s.projectileIds := AList.lookup_eq_none.mp hnew
    exact List.mem_map.mpr ⟨⟨k, q'⟩, List.mem_filter.mpr ⟨UnorderedMap.mem_entries_iff.mpr hq',
      by simpa using hmem⟩, howner⟩
  rw [lookup_step_new ks 50 hnew] at hq'
  obtain ⟨i, id, p, rfl, -, hp, -, rfl⟩ := armed_new ks 50 hs hnew hq'
  obtain rfl : id = a := howner
  refine ⟨Nat.le_add_right _ _, hspawned, ?_⟩
  obtain ⟨t, ht, halive⟩ := mem_livingIds.mp hlive
  obtain ⟨px, py, hpat⟩ := hplaced _ _ hp
  obtain ⟨tx, ty, htat⟩ := hplaced _ _ ht
  have hcooled : Between b id (cooledPlayers 50 s) := h.symm.mapVal _
  have hnear : (nearest (cooledPlayers 50 s) id (p.cooled 50)).1 = some (t.cooled 50) := by
    rw [nearest_of_between hcooled (p := t.cooled 50)
      (by rw [cooledPlayers, UnorderedMap.lookup_mapVal, ht, Option.map_some]),
      P.cooled_alive, halive, htat.1, htat.2, hpat.1, hpat.2]
    rfl
  rcases shot_in_flight hnear hpat htat with hfly | hhover
  · exact .inl hfly
  · obtain ⟨t', ht', hworn, -⟩ := worn_step ks 50 hs ht
    refine .inr ⟨t', ht', ?_⟩
    obtain ⟨ux, uy, dx, dy, hu, hat, htiny⟩ := hhover
    exact ⟨ux, uy, dx, dy, ⟨hworn.x.trans ((P.ready_x 50 t).trans hu.1),
      hworn.y.trans ((P.ready_y 50 t).trans hu.2)⟩, hat, htiny⟩

/-- A tick keeps the projectiles of `a` apart, and its shots are as before if
the target survives. -/
theorem Salvo.tick {a b : ℕ} {age : ℕ → ℕ} {c : ℕ} {s : BattleSim (Ext K)} (h : Salvo a b age c s)
    (hs : s.Wf) (hbetween : Between a b s.players) (hin : s.InArena)
    (hguided : ∀ id p, s.players.lookup id = some p → p.astray = false) (hlive : b ∈ s.livingIds)
    (ks : List ℕ) :
    Spaced a (older s age) (step ks 50 s).1 ∧
      (b ∈ (step ks 50 s).1.livingIds → ∃ c', Salvo a b (older s age) c' (step ks 50 s).1) := by
  obtain ⟨t, ht, -⟩ := mem_livingIds.mp hlive
  obtain ⟨hready, hwaits⟩ := h.waits.step hs h.le ks 50
  have hcases : ∀ {k q'}, (step ks 50 s).1.projectiles.lookup k = some q' → q'.ownerId = a →
      (∃ q, s.projectiles.lookup k = some q ∧ q.ownerId = a ∧ older s age k = age k + 1 ∧
        age k + 1 ≤ 21 ∧ (b ∈ (step ks 50 s).1.livingIds → Flying (age k + 1) q')) ∨
      (s.projectiles.lookup k = none ∧ older s age k = 0 ∧ a ∈ spawnedOwners ks 50 s ∧
        (Flying 0 q' ∨ ∃ p, (step ks 50 s).1.players.lookup b = some p ∧ Hovering q' p)) := by
    intro k q' hq' howner
    cases hq : s.projectiles.lookup k with
    | some q =>
        obtain ⟨-, hyoung, hfly⟩ := h.flies hs hbetween ht (hin b t ht) (hguided b t ht) ks hq
          ((ownerId_step ks 50 hs hq hq').trans howner) hq'
        exact .inl ⟨q, rfl, (ownerId_step ks 50 hs hq hq').trans howner, if_pos (hs.fresh hq),
          hyoung, hfly⟩
    | none =>
        obtain ⟨hge, hspawned, hflight⟩ := fired_step hs hbetween hin hguided hlive ks hq hq' howner
        exact .inr ⟨rfl, if_neg (by omega), hspawned, hflight⟩
  have hspaced : Spaced a (older s age) (step ks 50 s).1 := by
    refine ⟨fun hq' howner => ?_, fun {k q k' q'} hq howner hq' howner' hne => ?_⟩
    · rcases hcases hq' howner with ⟨q, -, -, hage, hyoung, -⟩ | ⟨-, hage, -⟩ <;> omega
    · rcases hcases hq howner with ⟨q₁, hq₁, howner₁, hage, -⟩ | ⟨hnew, hage, hspawned, -⟩ <;>
        rcases hcases hq' howner' with ⟨q₂, hq₂, howner₂, hage', -⟩ | ⟨hnew', hage', hspawned', -⟩
      · have hapart := h.spaced.apart hq₁ howner₁ hq₂ howner₂ hne
        omega
      · -- `a` fires again, so the cooldown after its last shot has run out
        have hloaded := h.loaded hq₁ howner₁
        have := hready hspawned'
        omega
      · have hloaded := h.loaded hq₂ howner₂
        have := hready hspawned
        omega
      · -- a player fires one shot in a tick
        exact absurd (spawned_inj ks 50 hs (UnorderedMap.mem_entries_iff.mpr hq)
          (AList.lookup_eq_none.mp hnew) (UnorderedMap.mem_entries_iff.mpr hq')
          (AList.lookup_eq_none.mp hnew') (howner.trans howner'.symm)) hne
  refine ⟨hspaced, fun hlive' => ⟨_, hspaced, ?_, hwaits, ?_, ?_⟩⟩
  · have hle := h.le
    split <;> omega
  · intro k q' hq' howner
    rcases hcases hq' howner with ⟨q, hq, howner', hage, -⟩ | ⟨-, -, hspawned, -⟩
    · have hloaded := h.loaded hq howner'
      split <;> omega
    · rw [if_pos hspawned]
      omega
  · intro k q' hq' howner
    rcases hcases hq' howner with ⟨q, -, -, hage, -, hfly⟩ | ⟨-, hage, -, hflight⟩
    · rw [hage]
      exact .inl (hfly hlive')
    · rw [hage]
      exact hflight.imp_right fun hhover => ⟨rfl, hhover⟩

/-! ### Both players -/

/-- Both players live, follow numbers, and shoot at each other. -/
structure Ongoing (a b : ℕ) (s : BattleSim (Ext K)) : Prop where
  live_a : a ∈ s.livingIds
  live_b : b ∈ s.livingIds
  inside : s.InArena
  steerable : ∀ id p, s.players.lookup id = some p → p.steerable = true
  shots_a : ∃ age c, Salvo a b age c s
  shots_b : ∃ age c, Salvo b a age c s

omit [IsStrictOrderedRing K] [ExactRoot K] in
theorem Salvo.applyInput {a b : ℕ} {age : ℕ → ℕ} {c : ℕ} {s : BattleSim (Ext K)}
    (h : Salvo a b age c s) (id : ℕ) (input : PlayerInput (Ext K)) :
    Salvo a b age c (applyInput id input s) := by
  refine ⟨h.spaced.mono fun hq howner => ⟨_, hq, howner⟩, h.le, h.waits.applyInput id input,
    h.loaded, fun hq howner => ?_⟩
  refine (h.flight hq howner).imp_right ?_
  rintro ⟨hage, p, hp, hhover⟩
  refine ⟨hage, ?_⟩
  simp only [BattleSim.applyInput, UnorderedMap.lookup_modify, hp]
  split
  · exact ⟨_, rfl, hhover⟩
  · exact ⟨p, rfl, hhover⟩

omit [IsStrictOrderedRing K] [ExactRoot K] in
theorem Ongoing.applyInput {a b : ℕ} {s : BattleSim (Ext K)} (h : Ongoing a b s) (id : ℕ)
    {input : PlayerInput (Ext K)}
    (hinput : input.moveX.isFinite = true ∧ input.moveY.isFinite = true) :
    Ongoing a b (applyInput id input s) := by
  have hev := evolves_applyInput s id input
  obtain ⟨age, c, hshots⟩ := h.shots_a
  obtain ⟨age', c', hshots'⟩ := h.shots_b
  refine ⟨hev.mem_livingIds.mpr h.live_a, hev.mem_livingIds.mpr h.live_b,
    inArena_applyInput h.inside id input, fun id' p hp => ?_,
    ⟨age, c, hshots.applyInput id input⟩, ⟨age', c', hshots'.applyInput id input⟩⟩
  simp only [BattleSim.applyInput, UnorderedMap.lookup_modify] at hp
  split at hp
  · obtain ⟨p', -, rfl⟩ := Option.map_eq_some_iff.mp hp
    simp [P.steerable, hinput]
  · exact h.steerable id' p hp

omit [IsStrictOrderedRing K] [ExactRoot K] in
theorem Salvo.take {a b : ℕ} {age : ℕ → ℕ} {c : ℕ} {s : BattleSim (Ext K)}
    (h : Salvo a b age c s) : Salvo a b age c s.takeRemovedProjectileIds.2 :=
  ⟨h.spaced.mono fun hq howner => ⟨_, hq, howner⟩, h.le, h.waits, h.loaded, h.flight⟩

omit [IsStrictOrderedRing K] [ExactRoot K] in
theorem Ongoing.take {a b : ℕ} {s : BattleSim (Ext K)} (h : Ongoing a b s) :
    Ongoing a b s.takeRemovedProjectileIds.2 := by
  obtain ⟨age, c, hshots⟩ := h.shots_a
  obtain ⟨age', c', hshots'⟩ := h.shots_b
  exact ⟨h.live_a, h.live_b, h.inside, h.steerable, ⟨age, c, hshots.take⟩, ⟨age', c', hshots'.take⟩⟩

/-- A tick with both players alive. -/
theorem Ongoing.tick {a b : ℕ} {s : BattleSim (Ext K)} (h : Ongoing a b s) (hs : s.Wf)
    (hbetween : Between a b s.players) (ks : List ℕ) :
    (∃ age, Spaced a age (step ks 50 s).1) ∧ (∃ age, Spaced b age (step ks 50 s).1) ∧
      (a ∈ (step ks 50 s).1.livingIds → b ∈ (step ks 50 s).1.livingIds →
        Ongoing a b (step ks 50 s).1) := by
  have hguided : ∀ id p, s.players.lookup id = some p → p.astray = false :=
    fun id p hp => P.not_astray (h.steerable id p hp)
  obtain ⟨age, c, hshots⟩ := h.shots_a
  obtain ⟨age', c', hshots'⟩ := h.shots_b
  obtain ⟨hspaced, hnext⟩ := hshots.tick hs hbetween h.inside hguided h.live_b ks
  obtain ⟨hspaced', hnext'⟩ := hshots'.tick hs hbetween.symm h.inside hguided h.live_a ks
  refine ⟨⟨_, hspaced⟩, ⟨_, hspaced'⟩, fun ha hb => ⟨ha, hb, ?_, fun id p hp => ?_,
    ⟨_, hnext hb⟩, ⟨_, hnext' ha⟩⟩⟩
  · exact h.inside.act (a := .step ks 50) hguided
  · have hmap := map_step (f := fun p : P (Ext K) => p.steerable) (fun _ _ => rfl) (fun _ _ => rfl)
      ks 50 s id
    rw [hp, Option.map_some] at hmap
    obtain ⟨p', hp', hsteer⟩ := Option.map_eq_some_iff.mp hmap.symm
    rw [← hsteer, movePlayer_steerable]
    exact h.steerable id p' hp'

end Ticks

/-- Who is dead fires no more, and stays dead. -/
theorem spaced_step_of_dead [Scalar F] {a : ℕ} {age : ℕ → ℕ} {s : BattleSim F}
    (h : Spaced a age s) (hs : s.Wf) (hdead : a ∉ s.livingIds) (ks : List ℕ) (dtMs : ℕ) :
    Spaced a age (step ks dtMs s).1 ∧ a ∉ (step ks dtMs s).1.livingIds := by
  refine ⟨h.mono fun hq' howner => ?_, fun hlive => ?_⟩
  · rcases owner_alive_of_new ks dtMs hs hq' with ⟨q, hq, heq⟩ | hlive
    · exact ⟨q, hq, heq.trans howner⟩
    · exact absurd (mem_livingIds.mpr (howner ▸ hlive)) hdead
  · obtain ⟨p', hp', halive⟩ := mem_livingIds.mp hlive
    have hsome := (evolves_step ks dtMs hs).isSome_iff a
    rw [hp'] at hsome
    obtain ⟨p, hp⟩ := Option.isSome_iff_exists.mp hsome.symm
    obtain ⟨p₁, hp₁, hworn, -⟩ := worn_step ks dtMs hs hp
    obtain rfl : p₁ = p' := Option.some.inj (hp₁.symm.trans hp')
    refine hdead (mem_livingIds.mpr ⟨p, hp, ?_⟩)
    have hle := hworn.hp_le
    simp only [P.alive, P.ready_hp, decide_eq_true_eq] at halive hle ⊢
    omega

end BattleSim

/-! ### Rooms -/

/-- If the operation is an input, its direction is a pair of numbers. -/
def RoomOp.finite {K : Type} : RoomOp (Ext K) → Prop
  | .task (.onInput _ input) => input.moveX.isFinite = true ∧ input.moveY.isFinite = true
  | _ => True

/-- At most two players, six projectiles and six tombstones. -/
structure Compact {F : Type} (snap : StateSnapshot F) : Prop where
  players : snap.players.length ≤ 2
  projectiles : snap.projectiles.length ≤ 6
  removed : snap.removedProjectileIds.length ≤ 6

theorem Compact.length_le {F : Type} {snap : StateSnapshot F} (h : Compact snap)
    (fmt : FloatFormat F) : ((ServerMsg.stateSnapshot snap).serialize fmt).length ≤ 423 := by
  have hlength := length_stateSnapshot fmt h.players
  have hshots : (snap.projectiles.map fun q => projectileCost q.projectileId q.ownerId).sum ≤
      snap.projectiles.length * 44 := by
    simpa using List.sum_le_card_nsmul
      (snap.projectiles.map fun q => projectileCost q.projectileId q.ownerId) 44
      (by simp [projectileCost_le])
  have htombs : (snap.removedProjectileIds.map fun id => (Wire.varint id).length).sum ≤
      snap.removedProjectileIds.length * 10 := by
    simpa using List.sum_le_card_nsmul
      (snap.removedProjectileIds.map fun id => (Wire.varint id).length) 10
      (by simp [Wire.length_varint_le])
  have hprojectiles := h.projectiles
  have hremoved := h.removed
  simp only [StateSnapshot.cost] at hlength
  omega

namespace Room

open BattleSim

variable {K : Type} [Field K] [LinearOrder K] [IsStrictOrderedRing K] [SquareRoot K]

/-- The shots of both players are spaced. A battle goes on with both alive,
or with both dead; the last hits of both may land in the same tick. -/
structure Sparse (a b : ℕ) (r : Room (Ext K)) : Prop where
  seats : Seats a b r
  few_a : ∃ age, Spaced a age r.sim
  few_b : ∃ age, Spaced b age r.sim
  phase : r.ended = true ∨ (a ∉ r.sim.livingIds ∧ b ∉ r.sim.livingIds) ∨ Ongoing a b r.sim

variable [ExactRoot K]

/-- A tick, before the check for a winner. -/
theorem Sparse.simulate {a b : ℕ} {r : Room (Ext K)} (h : Sparse a b r) (hopen : r.ended = false)
    (ks : List ℕ) :
    (∃ age, Spaced a age (r.sim.step ks kTickMs).1) ∧
      (∃ age, Spaced b age (r.sim.step ks kTickMs).1) ∧
      ((r.simulate ks).1.sim.winnerOrZero = 0 →
        (a ∉ (r.simulate ks).1.sim.livingIds ∧ b ∉ (r.simulate ks).1.sim.livingIds) ∨
          Ongoing a b (r.simulate ks).1.sim) := by
  have hwf := h.seats.wf
  rcases h.phase with hended | ⟨hdead_a, hdead_b⟩ | hon
  · rw [hopen] at hended
    cases hended
  · obtain ⟨age, hage⟩ := h.few_a
    obtain ⟨age', hage'⟩ := h.few_b
    obtain ⟨hspaced, hstill⟩ := spaced_step_of_dead hage hwf hdead_a ks kTickMs
    obtain ⟨hspaced', hstill'⟩ := spaced_step_of_dead hage' hwf hdead_b ks kTickMs
    exact ⟨⟨age, hspaced⟩, ⟨age', hspaced'⟩, fun _ => .inl ⟨hstill, hstill'⟩⟩
  · obtain ⟨hspaced, hspaced', hnext⟩ := hon.tick hwf h.seats.players ks
    refine ⟨hspaced, hspaced', fun hwinner => ?_⟩
    have hbetween := between_simulate hwf h.seats.players ks
    -- with exactly one alive the tick would have found a winner
    by_cases ha : a ∈ (r.simulate ks).1.sim.livingIds
    · by_cases hb : b ∈ (r.simulate ks).1.sim.livingIds
      · exact .inr (hnext ha hb).take
      · rw [winnerOrZero_of_one hbetween ha hb] at hwinner
        exact absurd hwinner h.seats.a_ne
    · by_cases hb : b ∈ (r.simulate ks).1.sim.livingIds
      · rw [winnerOrZero_of_one hbetween.symm hb ha] at hwinner
        exact absurd hwinner h.seats.b_ne
      · exact .inl ⟨ha, hb⟩

omit [IsStrictOrderedRing K] [ExactRoot K] in
/-- What does not touch the simulation. -/
theorem Sparse.of_sim_eq {a b : ℕ} {r r' : Room (Ext K)} (h : Sparse a b r) (hseats : Seats a b r')
    (hsim : r'.sim = r.sim) (hended : r.ended = true → r'.ended = true) : Sparse a b r' :=
  ⟨hseats, hsim ▸ h.few_a, hsim ▸ h.few_b, hsim ▸ h.phase.imp_left hended⟩

theorem Sparse.onTick {a b : ℕ} {r : Room (Ext K)} (h : Sparse a b r) (ks : List ℕ) :
    Sparse a b (r.apply (.onTick ks)).1 := by
  have hseats := h.seats.apply (.onTick ks)
  cases hopen : r.ended with
  | true =>
      have hsame : (r.apply (.onTick ks)).1 = r := by simp [apply, Room.onTick, hopen]
      rw [hsame]
      exact h
  | false =>
      obtain ⟨⟨age, hfew⟩, ⟨age', hfew'⟩, hphase⟩ := h.simulate hopen ks
      have hkept : Spaced a age (r.simulate ks).1.sim := hfew.mono fun hq howner => ⟨_, hq, howner⟩
      have hkept' : Spaced b age' (r.simulate ks).1.sim :=
        hfew'.mono fun hq howner => ⟨_, hq, howner⟩
      simp only [apply, Room.onTick, hopen, Bool.false_eq_true, if_false] at hseats ⊢
      split at hseats
      · next hwinner =>
          rw [if_pos hwinner]
          exact ⟨hseats, ⟨age, hkept⟩, ⟨age', hkept'⟩, .inl rfl⟩
      · next hwinner =>
          rw [if_neg hwinner]
          exact ⟨hseats, ⟨age, hkept⟩, ⟨age', hkept'⟩, .inr (hphase (not_not.mp hwinner))⟩

theorem Sparse.apply {a b : ℕ} {r : Room (Ext K)} (h : Sparse a b r) {op : RoomOp (Ext K)}
    (hfinite : op.finite) : Sparse a b (r.apply op).1 := by
  have hseats := h.seats.apply op
  cases op with
  | onTick ks => exact h.onTick ks
  | task task =>
      cases task with
      | onInput q input =>
          cases hended : r.ended with
          | true =>
              exact h.of_sim_eq hseats (by simp [Room.apply, exec, onInput, hended])
                (by simp [Room.apply, exec, onInput, hended])
          | false =>
              have hev := evolves_applyInput r.sim q input
              simp only [Room.apply, exec, onInput, hended, Bool.false_eq_true,
                if_false] at hseats ⊢
              obtain ⟨age, hfew⟩ := h.few_a
              obtain ⟨age', hfew'⟩ := h.few_b
              refine ⟨hseats, ⟨age, hfew.mono fun hq howner => ⟨_, hq, howner⟩⟩,
                ⟨age', hfew'.mono fun hq howner => ⟨_, hq, howner⟩⟩, ?_⟩
              rcases h.phase with hend | ⟨hdead_a, hdead_b⟩ | hon
              · exact absurd (hended.symm.trans hend) Bool.false_ne_true
              · exact .inr (.inl ⟨fun ha => hdead_a (hev.mem_livingIds.mp ha),
                  fun hb => hdead_b (hev.mem_livingIds.mp hb)⟩)
              · exact .inr (.inr (hon.applyInput q hfinite))
      | rebind q conn =>
          refine h.of_sim_eq hseats (rebind_sim r q conn).1 fun hended => ?_
          simp only [Room.apply, exec, rebind]
          split <;> exact hended
      | forceEnd w =>
          refine h.of_sim_eq hseats ?_ fun hended => apply_ended hended _
          simp only [Room.apply, exec, forceEnd]
          split <;> rfl
      | start | dropConn | stop | resetTicker =>
          exact h.of_sim_eq hseats rfl fun hended => apply_ended hended _

omit [Field K] [LinearOrder K] [IsStrictOrderedRing K] [SquareRoot K] [ExactRoot K] in
theorem length_projectileIds_le {a b : ℕ} {s : BattleSim (Ext K)} (hs : s.Wf)
    (hbetween : Between a b s.players) (hfew : ∃ age, Spaced a age s)
    (hfew' : ∃ age, Spaced b age s) : s.projectileIds.length ≤ 6 := by
  obtain ⟨age, hfew⟩ := hfew
  obtain ⟨age', hfew'⟩ := hfew'
  have hother : (s.projectiles.entries.filter fun e => !decide (e.2.ownerId = a)) =
      s.projectiles.entries.filter fun e => e.2.ownerId = b := by
    refine List.filter_congr fun e he => ?_
    have howner := (hbetween.keys _).mp (hs.owner (UnorderedMap.mem_entries_iff.mp he))
    rcases howner with howner | howner
    · simp [howner, hbetween.ne]
    · simp [howner, hbetween.ne.symm]
  have hsplit := List.length_eq_length_filter_add (l := s.projectiles.entries)
    fun e => decide (e.2.ownerId = a)
  rw [hother] at hsplit
  have hlength := hfew.length_le
  have hlength' := hfew'.length_le
  simp only [projectileIds, AList.keys, List.keys, List.length_map]
  omega

/-- Every snapshot that an operation sends is small. -/
theorem Sparse.compact {a b : ℕ} {r : Room (Ext K)} (h : Sparse a b r) {op : RoomOp (Ext K)}
    {act : RoomAct (Ext K)} {c : Conn} {snap : StateSnapshot (Ext K)} (hact : act ∈ (r.apply op).2)
    (hmsg : .stateSnapshot snap ∈ act.toConn c) : Compact snap := by
  have hlive := length_projectileIds_le h.seats.wf h.seats.players h.few_a h.few_b
  rcases msg_of_apply hact hmsg with hmsg | ⟨w, hmsg⟩ | ⟨-, hmsg | ⟨ks, hopen, hmsg⟩⟩
  · cases hmsg
  · cases hmsg
  · obtain rfl := ServerMsg.stateSnapshot.inj hmsg
    refine ⟨?_, ?_, Nat.zero_le _⟩
    · simpa [fullSnapshot] using h.seats.length_playerIds
    · simpa [fullSnapshot] using hlive
  · obtain rfl := ServerMsg.stateSnapshot.inj hmsg
    obtain ⟨hfew, hfew', -⟩ := h.simulate hopen ks
    have hafter := length_projectileIds_le (h.seats.wf.step ks kTickMs)
      (between_simulate h.seats.wf h.seats.players ks) hfew hfew'
    refine ⟨length_players_tickSnapshot h.seats ks, ?_, ?_⟩
    · rw [tickSnapshot, delta, List.length_map]
      exact hafter
    · -- the tombstones are of projectiles that were live before the tick
      have hnodup := (buried_step ks kTickMs r.sim).nodup
      have hsubset : (r.sim.step ks kTickMs).1.removedProjectileIds ⊆ r.sim.projectileIds :=
        fun k hk => ((mem_removed_step ks kTickMs h.seats.wf k).mp hk).1
      exact (List.subperm_of_subset hnodup hsubset).length_le.trans hlive

omit [ExactRoot K] in
theorem sparse_new (ks : List ℕ) (id : ℕ) (d : Pairing) :
    Sparse d.a d.b (new ks id d.players : Room (Ext K)) := by
  have hseats := seats_new (F := Ext K) ks id d
  have hfair := fair_new (F := Ext K) ks id d
  have hsim : (new ks id d.players : Room (Ext K)).sim =
      deploy [⟨ks, d.a, lit 30, lit 50⟩, ⟨ks, d.b, lit 70, lit 50⟩] := rfl
  have hnone : ∀ k, (new ks id d.players : Room (Ext K)).sim.projectiles.lookup k = none :=
    fun _ => rfl
  have hspaced : ∀ owner, Spaced owner (fun _ => 0) (new ks id d.players : Room (Ext K)).sim :=
    fun owner => ⟨fun hq => by simp [hnone] at hq, fun hq => by simp [hnone] at hq⟩
  have hsalvo : ∀ owner target,
      Salvo owner target (fun _ => 0) 0 (new ks id d.players : Room (Ext K)).sim := by
    intro owner target
    refine ⟨hspaced owner, Nat.zero_le _, hsim ▸ waits_deploy _ owner, fun hq => ?_, fun hq => ?_⟩
    · simp [hnone] at hq
    · simp [hnone] at hq
  have hplayers : ∀ k p, (new ks id d.players : Room (Ext K)).sim.players.lookup k = some p →
      p.inArena = true ∧ p.steerable = true := by
    intro k p hp
    have hinside : ∀ {x y : ℚ}, 0 ≤ x → x ≤ 100 → 0 ≤ y → y ≤ 100 →
        p.x = lit x → p.y = lit y → p.inArena = true := by
      intro x y hx hx' hy hy' hpx hpy
      refine inArena_iff.mpr ⟨⟨x, hpx, ?_, ?_⟩, ⟨y, hpy, ?_, ?_⟩⟩ <;> exact Rat.cast_le.mpr ‹_›
    rw [hsim] at hp
    simp only [deploy, List.foldl_cons, List.foldl_nil, addPlayer, UnorderedMap.lookup_reorder,
      UnorderedMap.lookup_insert_eq] at hp
    split at hp
    · obtain rfl := Option.some.inj hp
      exact ⟨hinside (by norm_num) (by norm_num) (by norm_num) (by norm_num) rfl rfl, rfl⟩
    · split at hp
      · obtain rfl := Option.some.inj hp
        exact ⟨hinside (by norm_num) (by norm_num) (by norm_num) (by norm_num) rfl rfl, rfl⟩
      · cases hp
  refine ⟨hseats, ⟨_, hspaced d.a⟩, ⟨_, hspaced d.b⟩, .inr (.inr ?_)⟩
  obtain ⟨ha, hb⟩ := hfair.open_or_ended.resolve_right (by rintro ⟨hended, -⟩; cases hended)
  exact ⟨ha, hb, fun k p hp => (hplayers k p hp).1, fun k p hp => (hplayers k p hp).2,
    ⟨_, _, hsalvo d.a d.b⟩, ⟨_, _, hsalvo d.b d.a⟩⟩

/-- A room and what it has sent. -/
structure Frugal (a b : ℕ) (s : Room (Ext K) × List (RoomAct (Ext K))) : Prop where
  sparse : Sparse a b s.1
  compact : ∀ act ∈ s.2, ∀ c snap, .stateSnapshot snap ∈ act.toConn c → Compact snap

theorem Frugal.run {a b : ℕ} {s : Room (Ext K) × List (RoomAct (Ext K))} (h : Frugal a b s)
    {op : RoomOp (Ext K)} (hfinite : op.finite) : Frugal a b (run s op) := by
  refine ⟨h.sparse.apply hfinite, fun act hact c snap hmsg => ?_⟩
  rcases List.mem_append.mp hact with hact | hact
  · exact h.compact act hact c snap hmsg
  · exact h.sparse.compact hact hmsg

/-- In every run of a two-player room in which the directions that players
send are pairs of numbers, over exact real arithmetic: after every operation
each player has at most three projectiles in flight, and no snapshot has more
than two players, six projectiles and six tombstones, or 423 bytes. -/
theorem three_shots_in_the_air (ks : List ℕ) (id : ℕ) (d : Pairing) (ops : List (RoomOp (Ext ℝ)))
    (hfinite : ∀ op ∈ ops, op.finite) :
    (∀ owner, ((ops.foldl run (new ks id d.players, [])).1.sim.projectiles.entries.filter
        fun e => e.2.ownerId = owner).length ≤ 3) ∧
      ∀ act ∈ (ops.foldl run (new ks id d.players, [])).2, ∀ c snap,
        .stateSnapshot snap ∈ act.toConn c → Compact snap ∧
          ∀ fmt : FloatFormat (Ext ℝ),
            ((ServerMsg.stateSnapshot snap).serialize fmt).length ≤ 423 := by
  have hstart : Frugal d.a d.b
      ((new ks id d.players, []) : Room (Ext ℝ) × List (RoomAct (Ext ℝ))) :=
    ⟨sparse_new ks id d, by simp⟩
  obtain ⟨hsparse, hlog⟩ := invariant_run (fun _ _ h hop => h.run hop) hstart
    (along_of_forall (fun op hop _ => hfinite op hop) _)
  refine ⟨fun owner => ?_, fun act hact c snap hmsg => ?_⟩
  · obtain ⟨age, hfew⟩ := hsparse.few_a
    obtain ⟨age', hfew'⟩ := hsparse.few_b
    by_cases howner : owner = d.a ∨ owner = d.b
    · rcases howner with rfl | rfl
      · exact hfew.length_le
      · exact hfew'.length_le
    · rw [List.filter_eq_nil_iff.mpr]
      · exact Nat.zero_le _
      · intro e he heq
        have hplayer := (hsparse.seats.players.keys _).mp
          (hsparse.seats.wf.owner (UnorderedMap.mem_entries_iff.mp he))
        exact howner (of_decide_eq_true heq ▸ hplayer)
  · exact ⟨hlog act hact c snap hmsg, (hlog act hact c snap hmsg).length_le⟩

/-- Both players go to the middle and fire at each other there. -/
theorem three_shots_in_the_air_at_one_spot :
    let d : Pairing := ⟨1, 2, some 1, some 2, by decide, by decide, by decide⟩
    let ops : List (RoomOp (Ext ℝ)) :=
      [.task .start, .task (.onInput 1 ⟨1, .fin 1, .fin 0, true⟩),
        .task (.onInput 2 ⟨1, .fin (-1), .fin 0, true⟩)] ++ List.replicate 40 (.onTick [])
    ((ops.foldl run (new [] 1 d.players, [])).1.sim.projectiles.entries.filter
      fun e => e.2.ownerId = 1).length ≤ 3 := by
  intro d ops
  refine (three_shots_in_the_air [] 1 d ops fun op hop => ?_).1 1
  rcases List.mem_append.mp hop with hop | hop
  · simp only [List.mem_cons, List.not_mem_nil, or_false] at hop
    rcases hop with rfl | rfl | rfl
    · trivial
    · exact ⟨rfl, rfl⟩
    · exact ⟨rfl, rfl⟩
  · rw [List.eq_of_mem_replicate hop]
    trivial

end Room

end GameServer.Game
