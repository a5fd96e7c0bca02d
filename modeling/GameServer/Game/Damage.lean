import GameServer.Game.Volley

/-!
The damage account.

Phase 4 is followed projectile by projectile. What the step has in its local
variable `hit` is written down as a `Hit`; a run that collects them
(`record`) keeps the account of the players' hp against the hits: a living
player has lost 25 for each, and a dead one takes none.

The same walk shows that the changed list of a step is exact.
-/

namespace GameServer.Game

open GameServer.Lib GameServer.Proto
open Scalar

namespace BattleSim

variable {F : Type}

/-- A projectile and the player it hits, as they are just before. -/
structure Hit (F : Type) where
  projectile : Projectile F
  target : ℕ
  victim : P F

/-- All hp in the battle. -/
def totalHp (s : BattleSim F) : ℤ := (s.players.entries.map fun e => e.2.hp).sum

section Phase4

variable [Scalar F]

/-- The hit of one projectile in phase 4. -/
def hitOf (dt : F) (s : BattleSim F) (projectileId : ℕ) : Option (Hit F) :=
  (s.projectiles.lookup projectileId).bind fun q =>
    (findHit dt s.players q).1.map fun h => ⟨q, h.1, h.2⟩

/-- The hits while `ids` advance one after the other. -/
def hitsAlong (dt : F) : BattleSim F × List ℕ → List ℕ → List (Hit F)
  | _, [] => []
  | acc, id :: ids => (hitOf dt acc.1 id).toList ++ hitsAlong dt (advanceOne dt acc id) ids

/-- The hits of a step. -/
def stepHits (ks : List ℕ) (dtMs : ℕ) (s : BattleSim F) : List (Hit F) :=
  hitsAlong (lit dtMs / lit 1000)
    (armed ks dtMs s, (moveAll (lit dtMs / lit 1000) { s with removedProjectileIds := [] }).2)
    s.projectiles.keys

/-- One call, with the hits so far. -/
def record (r : BattleSim F × List (Hit F)) (a : SimAct F) : BattleSim F × List (Hit F) :=
  (r.1.act a, r.2 ++ match a with
    | .applyInput _ _ => []
    | .step ks dtMs => stepHits ks dtMs r.1)

/-! ### One projectile -/

theorem hitOf_some {dt : F} {s : BattleSim F} {id : ℕ} {h : Hit F} (hhit : hitOf dt s id = some h) :
    s.projectiles.lookup id = some h.projectile ∧ s.players.lookup h.target = some h.victim ∧
      h.target ≠ h.projectile.ownerId ∧ 0 < h.victim.hp := by
  obtain ⟨q, hq, hmap⟩ := Option.bind_eq_some_iff.mp hhit
  obtain ⟨⟨key, p⟩, hfind, rfl⟩ := Option.map_eq_some_iff.mp hmap
  obtain ⟨hp, hne, halive⟩ := findHit_some hfind
  exact ⟨hq, hp, hne, by simpa [P.alive] using halive⟩

theorem advanceOne_of_hit {dt : F} (acc : BattleSim F × List ℕ) {id : ℕ} {h : Hit F}
    (hhit : hitOf dt acc.1 id = some h) :
    advanceOne dt acc id =
      (removeProjectile id
        { acc.1 with
          players := acc.1.players.modify h.target fun p =>
            { p with hp := Max.max 0 (p.hp - kDamage) } },
        setInsert h.victim.id acc.2) := by
  obtain ⟨q, hq, hmap⟩ := Option.bind_eq_some_iff.mp hhit
  obtain ⟨⟨key, p⟩, hfind, rfl⟩ := Option.map_eq_some_iff.mp hmap
  simp only [advanceOne, hq, hfind]

theorem advanceOne_of_miss {dt : F} (acc : BattleSim F × List ℕ) {id : ℕ}
    (hmiss : hitOf dt acc.1 id = none) :
    (advanceOne dt acc id).1.players = acc.1.players ∧ (advanceOne dt acc id).2 = acc.2 := by
  unfold advanceOne
  split
  · exact ⟨rfl, rfl⟩
  · next q hq =>
      rw [hitOf, hq, Option.bind_some, Option.map_eq_none_iff] at hmiss
      rw [hmiss]
      dsimp only
      split <;> exact ⟨rfl, rfl⟩

/-- What phase 4 can do to a player. -/
structure Worn (p p' : P F) : Prop where
  x : p'.x = p.x
  y : p'.y = p.y
  hp_le : p'.hp ≤ p.hp
  dead : p.hp ≤ 0 → p'.hp = p.hp

omit [Scalar F] in
theorem Worn.refl (p : P F) : Worn p p := ⟨rfl, rfl, le_rfl, fun _ => rfl⟩

omit [Scalar F] in
theorem Worn.trans {p p' p'' : P F} (h : Worn p p') (h' : Worn p' p'') : Worn p p'' :=
  ⟨h'.x.trans h.x, h'.y.trans h.y, h'.hp_le.trans h.hp_le,
    fun hp => (h'.dead (by rw [h.dead hp]; exact hp)).trans (h.dead hp)⟩

/-- A player is worn by its hits, and reported for each. -/
theorem worn_advanceOne (dt : F) {acc : BattleSim F × List ℕ}
    (hid : ∀ {k p}, acc.1.players.lookup k = some p → p.id = k) (k : ℕ) {id : ℕ} {p : P F}
    (hp : acc.1.players.lookup id = some p) :
    ∃ p', (advanceOne dt acc k).1.players.lookup id = some p' ∧ Worn p p' ∧
      (id ∈ (advanceOne dt acc k).2 ↔ id ∈ acc.2 ∨ p'.hp < p.hp) := by
  cases hhit : hitOf dt acc.1 k with
  | none =>
      obtain ⟨hplayers, hchanged⟩ := advanceOne_of_miss _ hhit
      exact ⟨p, by rw [hplayers, hp], .refl p, by simp [hchanged]⟩
  | some h =>
      obtain ⟨-, hvictim, -, halive⟩ := hitOf_some hhit
      have hvid := hid hvictim
      rw [advanceOne_of_hit _ hhit]
      by_cases htarget : id = h.target
      · obtain rfl : p = h.victim := Option.some.inj (hp.symm.trans (htarget ▸ hvictim))
        refine ⟨{ h.victim with hp := Max.max 0 (h.victim.hp - kDamage) }, ?_, ?_, ?_⟩
        · simp only [removeProjectile, UnorderedMap.lookup_modify, if_pos htarget, hp,
            Option.map_some]
        · refine ⟨rfl, rfl, ?_, fun hdead => absurd halive (by omega)⟩
          simp only [kDamage]
          omega
        · simp only [mem_setInsert, hvid, htarget, true_or, true_iff, kDamage]
          exact .inr (by omega)
      · refine ⟨p, ?_, .refl p, ?_⟩
        · simp [removeProjectile, htarget, hp]
        · simp [mem_setInsert, hvid, htarget]

theorem worn_advanceAll (dt : F) (ids : List ℕ) (acc : BattleSim F × List ℕ)
    (hid : ∀ {k p}, acc.1.players.lookup k = some p → p.id = k) {id : ℕ} {p : P F}
    (hp : acc.1.players.lookup id = some p) :
    ∃ p', (ids.foldl (advanceOne dt) acc).1.players.lookup id = some p' ∧ Worn p p' ∧
      (id ∈ (ids.foldl (advanceOne dt) acc).2 ↔ id ∈ acc.2 ∨ p'.hp < p.hp) := by
  induction ids generalizing acc p with
  | nil => exact ⟨p, hp, .refl p, by simp⟩
  | cons k ids ih =>
      obtain ⟨p₁, hp₁, hworn, hmem⟩ := worn_advanceOne dt hid k hp
      obtain ⟨p₂, hp₂, hworn', hmem'⟩ :=
        ih _ (fun hp => (evolves_advanceOne dt hid k).player_id hid hp) hp₁
      refine ⟨p₂, hp₂, hworn.trans hworn', hmem'.trans ?_⟩
      rw [hmem]
      have hle := hworn.hp_le
      have hle' := hworn'.hp_le
      constructor
      · rintro ((hacc | hlt) | hlt)
        · exact .inl hacc
        · exact .inr (hle'.trans_lt hlt)
        · exact .inr (hlt.trans_le hle)
      · rintro (hacc | hlt)
        · exact .inl (.inl hacc)
        · -- the hp was lost in this turn or in a later one
          rcases hle.lt_or_eq with hlt' | heq
          · exact .inl (.inr hlt')
          · exact .inr (heq ▸ hlt)

/-- A player through a whole step. -/
theorem worn_step (ks : List ℕ) (dtMs : ℕ) {s : BattleSim F} (hs : s.Wf) {id : ℕ} {p : P F}
    (hp : s.players.lookup id = some p) :
    ∃ p', (step ks dtMs s).1.players.lookup id = some p' ∧ Worn (p.ready dtMs) p' ∧
      (id ∈ (step ks dtMs s).2 ↔
        (movePlayer (lit dtMs / lit 1000) p).2 = true ∨ p'.hp < p.hp) := by
  have harmed : (armed ks dtMs s).players.lookup id = some (p.ready dtMs) := by
    rw [lookup_armed_players ks dtMs hs, hp, Option.map_some]
  obtain ⟨p', hp', hworn, hmem⟩ := worn_advanceAll (lit dtMs / lit 1000) s.projectiles.keys
    (armed ks dtMs s,
      (moveAll (lit dtMs / lit 1000) { s with removedProjectileIds := [] }).2)
    (hs.armed ks dtMs).player_id harmed
  rw [← step_eq] at hp' hmem
  refine ⟨p', hp', hworn, hmem.trans (or_congr ?_ (by rw [P.ready_hp]))⟩
  simp only [moveAll, mem_moved, List.not_mem_nil, false_or]
  constructor
  · rintro ⟨e, he, rfl, hmove⟩
    obtain rfl : e.2 = p := Option.some.inj ((UnorderedMap.mem_entries_iff.mp he).symm.trans hp)
    exact hmove
  · exact fun hmove => ⟨⟨id, p⟩, UnorderedMap.mem_entries_iff.mpr hp, rfl, hmove⟩

/-! ### The changed list -/

/-- What a client is told about a player is no longer true. -/
def P.differs (p p' : P F) : Bool := !eq p'.x p.x || !eq p'.y p.y || p'.hp ≠ p.hp

/-- A player that is where it was, in the comparison of the code. -/
def P.placed (p : P F) : Bool := eq p.x p.x && eq p.y p.y

theorem movePlayer_moved {dt : F} {p : P F} (hp : p.placed = true) :
    (movePlayer dt p).2 = (!eq (movePlayer dt p).1.x p.x || !eq (movePlayer dt p).1.y p.y) := by
  obtain ⟨hx, hy⟩ : eq p.x p.x = true ∧ eq p.y p.y = true := by simpa [P.placed] using hp
  rcases movePlayer_cases dt p with h | ⟨mx, my, h⟩
  · simp [h, hx, hy]
  · rw [h]
    simp only [moveBy]
    split
    · next hmoved => simpa using hmoved
    · simp [hx, hy]

theorem P.ready_x (dtMs : ℕ) (p : P F) :
    (p.ready dtMs).x = (movePlayer (lit dtMs / lit 1000) p).1.x := by
  simp [P.ready, P.cooled]

theorem P.ready_y (dtMs : ℕ) (p : P F) :
    (p.ready dtMs).y = (movePlayer (lit dtMs / lit 1000) p).1.y := by
  simp [P.ready, P.cooled]

/-- In every state of a battle in which the positions equal themselves (as
every number does, and NaN does not), a step reports exactly the players
whose position or hp it changes. -/
theorem changed_exact (arrivals : List (Arrival F)) (acts : List (SimAct F)) (ks : List ℕ)
    (dtMs : ℕ)
    (hplaced : ∀ id p, (acts.foldl act (deploy arrivals)).players.lookup id = some p →
      p.placed = true) :
    (step ks dtMs (acts.foldl act (deploy arrivals))).2.Nodup ∧
      ∀ id, id ∈ (step ks dtMs (acts.foldl act (deploy arrivals))).2 ↔
        ∃ p p', (acts.foldl act (deploy arrivals)).players.lookup id = some p ∧
          (step ks dtMs (acts.foldl act (deploy arrivals))).1.players.lookup id = some p' ∧
          p.differs p' = true := by
  have hs := wf_battle arrivals acts
  generalize acts.foldl act (deploy arrivals) = s at hs hplaced
  refine ⟨(sorted_changed ks dtMs s).imp fun h => h.ne, fun id => ?_⟩
  cases hp : s.players.lookup id with
  | none =>
      have hev := evolves_step ks dtMs hs
      have hgone := hev.isSome_iff id
      constructor
      · intro hmem
        have hknown := (hev.known id hmem).resolve_left List.not_mem_nil
        rw [hgone] at hknown
        simp [hp] at hknown
      · rintro ⟨p, -, hp', -⟩
        cases hp'
  | some p =>
      obtain ⟨p', hp', hworn, hmem⟩ := worn_step ks dtMs hs hp
      have hdiffers : p.differs p' = true ↔
          (movePlayer (lit dtMs / lit 1000) p).2 = true ∨ p'.hp < p.hp := by
        have hle := hworn.hp_le
        rw [P.ready_hp] at hle
        have hne : p'.hp ≠ p.hp ↔ p'.hp < p.hp := by omega
        rw [movePlayer_moved (hplaced id p hp), P.differs, hworn.x, hworn.y, P.ready_x, P.ready_y]
        simp [hne]
      rw [hmem, ← hdiffers]
      constructor
      · exact fun h => ⟨p, p', rfl, hp', h⟩
      · rintro ⟨_, p'', ⟨⟩, hp'', h⟩
        obtain rfl : p' = p'' := Option.some.inj (hp'.symm.trans hp'')
        exact h

/-- Player 1 has run into the corner of the arena and stays there, player 2
walks away from a shot that hits player 3. -/
theorem changed_exact_in_the_corner :
    let arrivals : List (Arrival (Ext ℚ)) :=
      [⟨[], 1, .fin 0, .fin 99⟩, ⟨[], 2, .fin 70, .fin 50⟩, ⟨[], 3, .fin 61, .fin 50⟩]
    let acts : List (SimAct (Ext ℚ)) :=
      [.applyInput 1 ⟨1, .fin (-1), .fin 1, false⟩, .applyInput 2 ⟨1, .fin 0, .fin 1, true⟩,
        .step [] 50, .step [] 50]
    let s := acts.foldl act (deploy arrivals)
    (step [] 50 s).2 = [2, 3] ∧ (step [] 50 s).2.Nodup ∧
      ∀ id, id ∈ [2, 3] ↔ ∃ p p', s.players.lookup id = some p ∧
        (step [] 50 s).1.players.lookup id = some p' ∧ p.differs p' = true := by
  intro arrivals acts s
  have hchanged : (step [] 50 s).2 = [2, 3] := by decide +kernel
  have h := changed_exact arrivals acts [] 50 (forall_lookup_iff.mpr (by decide +kernel))
  rw [show acts.foldl act (deploy arrivals) = s from rfl] at h
  clear_value s
  rw [← hchanged]
  exact ⟨rfl, h⟩

/-! ### The account -/

structure Account (n : ℕ) (r : BattleSim F × List (Hit F)) : Prop where
  wf : r.1.Wf
  hp : ∀ {id p}, r.1.players.lookup id = some p → 0 ≤ p.hp ∧ p.hp ≤ 100 ∧ 25 ∣ p.hp
  balance : r.1.totalHp + 25 * r.2.length = 100 * n
  once : (r.2.map fun h => h.projectile.id).Nodup
  gone : ∀ h ∈ r.2, h.projectile.id < r.1.nextProjectileId ∧
    r.1.projectiles.lookup h.projectile.id = none
  fair : ∀ h ∈ r.2, 0 < h.victim.hp ∧ h.victim.id ≠ h.projectile.ownerId

omit [Scalar F] in
theorem totalHp_mapVal {s s' : BattleSim F} {g : ℕ → P F → P F}
    (hplayers : s'.players = s.players.mapVal g) (hg : ∀ k p, (g k p).hp = p.hp) :
    s'.totalHp = s.totalHp := by
  rw [totalHp, hplayers, UnorderedMap.mapVal, List.map_map, totalHp]
  exact congrArg List.sum (List.map_congr_left fun e _ => hg e.1 e.2)

omit [Scalar F] in
/-- What neither wounds a player nor brings a used id back keeps the account. -/
theorem Account.of_mapVal {n : ℕ} {s s' : BattleSim F} {log : List (Hit F)}
    (h : Account n (s, log)) (hs' : s'.Wf) {g : ℕ → P F → P F}
    (hplayers : s'.players = s.players.mapVal g) (hg : ∀ k p, (g k p).hp = p.hp)
    (hnext : s.nextProjectileId ≤ s'.nextProjectileId)
    (hold : ∀ k, k < s.nextProjectileId →
      s'.projectiles.lookup k = s.projectiles.lookup k) : Account n (s', log) where
  wf := hs'
  hp {id p'} hp' := by
    rw [show (s', log).1.players = s.players.mapVal g from hplayers,
      UnorderedMap.lookup_mapVal] at hp'
    obtain ⟨p, hp, rfl⟩ := Option.map_eq_some_iff.mp hp'
    rw [hg]
    exact h.hp hp
  balance := (congrArg (· + 25 * (log.length : ℤ)) (totalHp_mapVal hplayers hg)).trans h.balance
  once := h.once
  gone hit hmem := by
    obtain ⟨hlt, hnone⟩ := h.gone hit hmem
    exact ⟨hlt.trans_le hnext, (hold _ hlt).trans hnone⟩
  fair := h.fair

theorem Account.armed {n : ℕ} {s : BattleSim F} {log : List (Hit F)} (h : Account n (s, log))
    (ks : List ℕ) (dtMs : ℕ) : Account n (armed ks dtMs s, log) :=
  h.of_mapVal (h.wf.armed ks dtMs) (armed_spec ks dtMs h.wf).1 (fun _ p => P.ready_hp dtMs p)
    (fired_armed ks dtMs s).next_le (fired_armed ks dtMs s).old

theorem Account.advanceOne {n : ℕ} (dt : F) {acc : BattleSim F × List ℕ} {log : List (Hit F)}
    (h : Account n (acc.1, log)) (id : ℕ) :
    Account n ((advanceOne dt acc id).1, log ++ (hitOf dt acc.1 id).toList) := by
  have hdrained := drained_advanceOne dt acc id
  have hwf : (BattleSim.advanceOne dt acc id).1.Wf :=
    h.wf.drain (c := acc.2) (evolves_advanceOne dt h.wf.player_id id) hdrained
  have hgone : ∀ {k}, acc.1.projectiles.lookup k = none →
      (BattleSim.advanceOne dt acc id).1.projectiles.lookup k = none := by
    intro k hk
    rw [← Option.not_isSome_iff_eq_none]
    exact fun hlive => by simpa [hk] using hdrained.isSome k hlive
  cases hhit : hitOf dt acc.1 id with
  | none =>
      obtain ⟨hplayers, -⟩ := advanceOne_of_miss _ hhit
      refine ⟨hwf, fun hp => h.hp (hplayers ▸ hp), ?_, by simpa using h.once, ?_,
        by simpa using h.fair⟩
      · simpa [totalHp, hplayers] using h.balance
      · intro hit hmem
        obtain ⟨hlt, hnone⟩ := h.gone hit (by simpa using hmem)
        exact ⟨hdrained.next ▸ hlt, hgone hnone⟩
  | some hit =>
      obtain ⟨hq, hvictim, htarget, halive⟩ := hitOf_some hhit
      obtain ⟨-, hmax, hdvd⟩ := h.hp hvictim
      have hqid := h.wf.projectile_id hq
      have hvid := h.wf.player_id hvictim
      have hdead : (BattleSim.advanceOne dt acc id).1.projectiles.lookup id = none := by
        rw [advanceOne_of_hit _ hhit]
        simp [removeProjectile]
      -- a projectile that has hit before is gone, and this one is not
      have hfresh : hit.projectile.id ∉ log.map fun h => h.projectile.id := by
        intro hmem
        obtain ⟨hit', hmem', heq⟩ := List.mem_map.mp hmem
        have hnone := (h.gone hit' hmem').2
        rw [heq, hqid, hq] at hnone
        cases hnone
      refine ⟨hwf, ?_, ?_, ?_, ?_, ?_⟩
      · intro k p' hp'
        rw [advanceOne_of_hit _ hhit] at hp'
        simp only [removeProjectile, UnorderedMap.lookup_modify] at hp'
        split at hp'
        · next hk =>
            obtain ⟨p, hp, rfl⟩ := Option.map_eq_some_iff.mp hp'
            obtain rfl : p = hit.victim := Option.some.inj (hp.symm.trans (hk ▸ hvictim))
            simp only [kDamage]
            omega
        · exact h.hp hp'
      · have hsum := UnorderedMap.sum_modify (fun p : P F => p.hp)
          (fun p => { p with hp := Max.max 0 (p.hp - kDamage) }) hvictim
        have hbalance := h.balance
        rw [advanceOne_of_hit _ hhit]
        simp only [removeProjectile, totalHp, kDamage, Option.toList_some, List.length_append,
          List.length_singleton] at hsum hbalance ⊢
        push_cast
        omega
      · simpa [List.nodup_append] using ⟨h.once, fun h' hmem heq => hfresh
          (List.mem_map.mpr ⟨h', hmem, heq⟩)⟩
      · intro hit' hmem
        rcases List.mem_append.mp hmem with hmem | hmem
        · obtain ⟨hlt, hnone⟩ := h.gone hit' hmem
          exact ⟨hdrained.next ▸ hlt, hgone hnone⟩
        · obtain rfl : hit' = hit := by simpa using hmem
          exact ⟨hdrained.next ▸ hqid ▸ h.wf.fresh hq, hqid ▸ hdead⟩
      · intro hit' hmem
        rcases List.mem_append.mp hmem with hmem | hmem
        · exact h.fair hit' hmem
        · obtain rfl : hit' = hit := by simpa using hmem
          exact ⟨halive, hvid ▸ htarget⟩

theorem Account.advanceAll {n : ℕ} (dt : F) (ids : List ℕ) {acc : BattleSim F × List ℕ}
    {log : List (Hit F)} (h : Account n (acc.1, log)) :
    Account n ((ids.foldl (BattleSim.advanceOne dt) acc).1, log ++ hitsAlong dt acc ids) := by
  induction ids generalizing acc log with
  | nil => simpa [hitsAlong] using h
  | cons id ids ih =>
      rw [List.foldl_cons, hitsAlong, ← List.append_assoc]
      exact ih (h.advanceOne dt id)

theorem Account.record {n : ℕ} {r : BattleSim F × List (Hit F)} (h : Account n r)
    (a : SimAct F) : Account n (record r a) := by
  cases a with
  | applyInput id input =>
      have hsame := h.of_mapVal (h.wf.applyInput id input) (g := fun k p =>
        if k = id then { p with input := input, hasInput := true, seq := input.seq } else p) rfl
        (fun k p => by split <;> rfl) le_rfl fun _ _ => rfl
      simpa [BattleSim.record, act] using hsame
  | step ks dtMs => exact (h.armed ks dtMs).advanceAll _ _

theorem Account.addPlayer {n : ℕ} {s : BattleSim F} (h : Account n (s, [])) (a : Arrival F)
    (hnew : s.players.lookup a.id = none) :
    Account (n + 1) (addPlayer a.ks a.id a.x a.y s, []) where
  wf := h.wf.addPlayer a.ks a.id a.x a.y
  hp {id p} hp := by
    simp only [BattleSim.addPlayer, UnorderedMap.lookup_reorder,
      UnorderedMap.lookup_insert_eq] at hp
    split at hp
    · obtain rfl := Option.some.inj hp
      simp [kMaxHp]
    · exact h.hp hp
  balance := by
    have hbalance := h.balance
    simp only [List.length_nil, Nat.cast_zero, mul_zero, add_zero] at hbalance ⊢
    rw [totalHp, BattleSim.addPlayer, UnorderedMap.sum_insert (fun p : P F => p.hp) a.ks hnew,
      ← totalHp, hbalance, kMaxHp]
    push_cast
    omega
  once := List.nodup_nil
  gone _ hmem := absurd hmem List.not_mem_nil
  fair _ hmem := absurd hmem List.not_mem_nil

theorem account_deploy {arrivals : List (Arrival F)} (hnodup : (arrivals.map Arrival.id).Nodup) :
    Account arrivals.length (deploy arrivals, []) := by
  have hloop : ∀ (l : List (Arrival F)) (s : BattleSim F) (n : ℕ), Account n (s, []) →
      (l.map Arrival.id).Nodup → (∀ a ∈ l, s.players.lookup a.id = none) →
      Account (n + l.length) (l.foldl (fun s a => BattleSim.addPlayer a.ks a.id a.x a.y s) s, []) := by
    intro l
    induction l with
    | nil => exact fun s n h _ _ => h
    | cons a l ih =>
        intro s n h hnodup hnew
        obtain ⟨ha, hnodup⟩ := List.nodup_cons.mp hnodup
        have hrest := ih _ (n + 1) (h.addPlayer a (hnew a (List.mem_cons_self ..))) hnodup
          fun a' ha' => by
            have hne : a'.id ≠ a.id := fun heq => ha (heq ▸ List.mem_map_of_mem ha')
            simp only [BattleSim.addPlayer, UnorderedMap.lookup_reorder,
              UnorderedMap.lookup_insert_eq, if_neg hne]
            exact hnew a' (List.mem_cons_of_mem _ ha')
        rw [List.length_cons, Nat.add_comm l.length 1, ← Nat.add_assoc]
        exact hrest
  have hempty : Account 0 (({} : BattleSim F), []) :=
    { wf := wf_init
      hp := fun hp => by cases hp
      balance := rfl
      once := List.nodup_nil
      gone := fun _ hmem => absurd hmem List.not_mem_nil
      fair := fun _ hmem => absurd hmem List.not_mem_nil }
  have hall := hloop arrivals {} 0 hempty hnodup fun _ _ => rfl
  rwa [Nat.zero_add] at hall

/-! ### The dead -/

/-- Player `id` from one state of a run to a later one: no hp is given back,
and a dead player is left alone and fires nothing. -/
def Declines (id : ℕ) (s s' : BattleSim F) : Prop :=
  ∀ p, s.players.lookup id = some p → ∃ p', s'.players.lookup id = some p' ∧ p'.hp ≤ p.hp ∧
    (p.hp = 0 → p'.x = p.x ∧ p'.y = p.y ∧ p'.hp = 0 ∧
      ∀ k q', s'.projectiles.lookup k = some q' → q'.ownerId = id →
        ∃ q, s.projectiles.lookup k = some q ∧ q.ownerId = id)

omit [Scalar F] in
theorem Declines.refl (id : ℕ) (s : BattleSim F) : Declines id s s :=
  fun p hp => ⟨p, hp, le_rfl, fun hdead => ⟨rfl, rfl, hdead, fun _ q hq howner => ⟨q, hq, howner⟩⟩⟩

omit [Scalar F] in
theorem Declines.trans {id : ℕ} {s s' s'' : BattleSim F} (h : Declines id s s')
    (h' : Declines id s' s'') : Declines id s s'' := by
  intro p hp
  obtain ⟨p', hp', hle, hrest⟩ := h p hp
  obtain ⟨p'', hp'', hle', hrest'⟩ := h' p' hp'
  refine ⟨p'', hp'', hle'.trans hle, fun hdead => ?_⟩
  obtain ⟨hx, hy, hdead', hshots⟩ := hrest hdead
  obtain ⟨hx', hy', hdead'', hshots'⟩ := hrest' hdead'
  refine ⟨hx'.trans hx, hy'.trans hy, hdead'', fun k q hq howner => ?_⟩
  obtain ⟨q', hq', howner'⟩ := hshots' k q hq howner
  exact hshots k q' hq' howner'

theorem movePlayer_of_dead {dt : F} {p : P F} (hdead : p.hp ≤ 0) :
    movePlayer dt p = (p, false) := by
  have halive : p.alive = false := by simpa [P.alive] using hdead
  simp [movePlayer, halive]

theorem ownerId_step (ks : List ℕ) (dtMs : ℕ) {s : BattleSim F} (hs : s.Wf) {k : ℕ}
    {q q' : Projectile F} (hq : s.projectiles.lookup k = some q)
    (hq' : (step ks dtMs s).1.projectiles.lookup k = some q') : q.ownerId = q'.ownerId := by
  obtain ⟨q₁, hq₁, -, howner⟩ := (drained_step ks dtMs s).kept hq'
  rw [(fired_armed ks dtMs s).old k (hs.fresh hq)] at hq₁
  obtain rfl : q = q₁ := Option.some.inj (hq.symm.trans hq₁)
  exact howner.symm

/-- A projectile in flight after a step was in flight before, or its owner
was alive. -/
theorem owner_alive_of_new (ks : List ℕ) (dtMs : ℕ) {s : BattleSim F} (hs : s.Wf) {k : ℕ}
    {q' : Projectile F} (hq' : (step ks dtMs s).1.projectiles.lookup k = some q') :
    (∃ q, s.projectiles.lookup k = some q ∧ q.ownerId = q'.ownerId) ∨
      ∃ p, s.players.lookup q'.ownerId = some p ∧ p.alive = true := by
  cases hk : s.projectiles.lookup k with
  | some q => exact .inl ⟨q, rfl, ownerId_step ks dtMs hs hk hq'⟩
  | none =>
      right
      rw [lookup_step_new ks dtMs hk] at hq'
      obtain ⟨i, id, p, -, -, hp, hfires, rfl⟩ := armed_new ks dtMs hs hk hq'
      refine ⟨p, hp, ?_⟩
      simp only [P.fires, Bool.and_eq_true, P.cooled_alive] at hfires
      exact hfires.1.1.1

theorem declines_act {s : BattleSim F} (hs : s.Wf) (a : SimAct F) (id : ℕ) :
    Declines id s (s.act a) := by
  intro p hp
  cases a with
  | applyInput id' input =>
      by_cases hid : id = id'
      · exact ⟨{ p with input := input, hasInput := true, seq := input.seq },
          by simp only [act, applyInput, UnorderedMap.lookup_modify, if_pos hid, hp,
            Option.map_some], le_rfl,
          fun hdead => ⟨rfl, rfl, hdead, fun _ q hq howner => ⟨q, hq, howner⟩⟩⟩
      · exact ⟨p, by simp [act, applyInput, hid, hp], le_rfl,
          fun hdead => ⟨rfl, rfl, hdead, fun _ q hq howner => ⟨q, hq, howner⟩⟩⟩
  | step ks dtMs =>
      obtain ⟨p', hp', hworn, -⟩ := worn_step ks dtMs hs hp
      have hle := hworn.hp_le
      rw [P.ready_hp] at hle
      refine ⟨p', hp', hle, fun hdead => ⟨?_, ?_, ?_, fun k q' hq' howner => ?_⟩⟩
      · rw [hworn.x, P.ready_x, movePlayer_of_dead hdead.le]
      · rw [hworn.y, P.ready_y, movePlayer_of_dead hdead.le]
      · rw [hworn.dead (by rw [P.ready_hp, hdead]), P.ready_hp, hdead]
      · rcases owner_alive_of_new ks dtMs hs hq' with ⟨q, hq, heq⟩ | ⟨p₀, hp₀, halive⟩
        · exact ⟨q, hq, heq.trans howner⟩
        · rw [howner, hp] at hp₀
          obtain rfl := Option.some.inj hp₀
          simp [P.alive, hdead] at halive

theorem declines_run {s : BattleSim F} (hs : s.Wf) (acts : List (SimAct F)) (id : ℕ) :
    Declines id s (acts.foldl act s) := by
  induction acts generalizing s with
  | nil => exact .refl id s
  | cons a acts ih => exact (declines_act hs a id).trans (ih (hs.act a))

/-- The state of a run does not depend on what is recorded. -/
theorem fst_record (r : BattleSim F × List (Hit F)) (acts : List (SimAct F)) :
    (acts.foldl record r).1 = acts.foldl act r.1 := by
  induction acts generalizing r with
  | nil => rfl
  | cons a acts ih => exact ih (record r a)

/-- In every run with players of different ids: every hp is within 0 and 100,
the hp lost are 25 for each hit, each projectile hits once, a living player
that is not its owner, and is gone then; and whatever follows, no player gets
hp back, and one who has none left stays where it is and fires no more. -/
theorem damage_account (arrivals : List (Arrival F))
    (hnodup : (arrivals.map Arrival.id).Nodup) (acts : List (SimAct F)) :
    (∀ id p, (acts.foldl record (deploy arrivals, [])).1.players.lookup id = some p →
        0 ≤ p.hp ∧ p.hp ≤ 100) ∧
      100 * arrivals.length - (acts.foldl record (deploy arrivals, [])).1.totalHp =
        25 * (acts.foldl record (deploy arrivals, [])).2.length ∧
      ((acts.foldl record (deploy arrivals, [])).2.map fun h => h.projectile.id).Nodup ∧
      (∀ h ∈ (acts.foldl record (deploy arrivals, [])).2,
        0 < h.victim.hp ∧ h.victim.id ≠ h.projectile.ownerId ∧
          (acts.foldl record (deploy arrivals, [])).1.projectiles.lookup h.projectile.id = none) ∧
      ∀ (later : List (SimAct F)) (id : ℕ), Declines id (acts.foldl record (deploy arrivals, [])).1
        (later.foldl act (acts.foldl record (deploy arrivals, [])).1) := by
  have haccount := invariant_run_of_step (fun _ a h => h.record a) (account_deploy hnodup) acts
  refine ⟨fun id p hp => ?_, ?_, haccount.once, fun h hmem => ?_, fun later id => ?_⟩
  · obtain ⟨hpos, hmax, -⟩ := haccount.hp hp
    exact ⟨hpos, hmax⟩
  · have hbalance := haccount.balance
    omega
  · obtain ⟨halive, howner⟩ := haccount.fair h hmem
    exact ⟨halive, howner, (haccount.gone h hmem).2⟩
  · exact declines_run haccount.wf later id

/-- Player 1 shoots player 2 from nearby. -/
theorem damage_account_of_one_hit :
    let arrivals : List (Arrival (Ext ℚ)) :=
      [⟨[], 1, .fin 45, .fin 50⟩, ⟨[], 2, .fin 50, .fin 50⟩]
    let acts : List (SimAct (Ext ℚ)) :=
      [.applyInput 1 ⟨1, .fin 0, .fin 0, true⟩, .step [] 50, .step [] 50]
    100 * arrivals.length - (acts.foldl record (deploy arrivals, [])).1.totalHp =
        25 * (acts.foldl record (deploy arrivals, [])).2.length ∧
      (acts.foldl record (deploy arrivals, [])).2.length = 1 := by
  intro arrivals acts
  exact ⟨(damage_account arrivals (by decide) acts).2.1, by decide +kernel⟩

end Phase4

end BattleSim

end GameServer.Game
