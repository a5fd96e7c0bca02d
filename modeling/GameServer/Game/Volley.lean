import GameServer.Game.Arena

/-!
Phases 1 to 3 in closed form.

What the three loops make of a player depends on this player alone
(`P.ready`), so the player table with which phase 4 begins is a map over the
one before the step. Whoever fires is known before phase 3 begins, and the
projectiles it adds get the next ids in the order of `shooters`.
-/

namespace GameServer.Game

open GameServer.Lib GameServer.Proto
open Scalar

namespace BattleSim

variable {F : Type} [Scalar F]

/-- A player after phases 1 and 2. -/
def P.cooled (dtMs : ℕ) (p : P F) : P F :=
  { (movePlayer (lit dtMs / lit 1000) p).1 with
    cdMs := max (lit 0) ((movePlayer (lit dtMs / lit 1000) p).1.cdMs - lit dtMs) }

/-- The condition of phase 3. -/
def P.fires (p : P F) : Bool := p.alive && p.hasInput && p.input.attack && !lt (lit 0) p.cdMs

def P.reload (p : P F) : P F := if p.fires then { p with cdMs := kAttackCd } else p

/-- A player when phase 4 begins. -/
def P.ready (dtMs : ℕ) (p : P F) : P F := (p.cooled dtMs).reload

/-- The players when phase 3 begins. -/
def cooledPlayers (dtMs : ℕ) (s : BattleSim F) : UnorderedMap ℕ (P F) :=
  s.players.mapVal fun _ p => p.cooled dtMs

/-- Those of `ids` who fire, in this order. -/
def firing (players : UnorderedMap ℕ (P F)) (ids : List ℕ) : List ℕ :=
  ids.filter fun id => (players.lookup id).any P.fires

/-- Who fires in a step, in the order of the table. -/
def shooters (dtMs : ℕ) (s : BattleSim F) : List ℕ :=
  firing (cooledPlayers dtMs s) s.players.keys

@[simp] theorem P.cooled_alive (dtMs : ℕ) (p : P F) : (p.cooled dtMs).alive = p.alive := by
  simp [P.cooled, P.alive]

@[simp] theorem P.cooled_hp (dtMs : ℕ) (p : P F) : (p.cooled dtMs).hp = p.hp := by
  simp [P.cooled]

@[simp] theorem P.reload_hp (p : P F) : p.reload.hp = p.hp := by
  unfold P.reload
  split <;> rfl

@[simp] theorem P.reload_x (p : P F) : p.reload.x = p.x := by
  unfold P.reload
  split <;> rfl

@[simp] theorem P.reload_y (p : P F) : p.reload.y = p.y := by
  unfold P.reload
  split <;> rfl

@[simp] theorem P.reload_alive (p : P F) : p.reload.alive = p.alive := by
  simp [P.alive]

@[simp] theorem P.ready_hp (dtMs : ℕ) (p : P F) : (p.ready dtMs).hp = p.hp := by
  simp [P.ready]

/-! ### A shot -/

/-- Where a shot goes depends on where the others are and who lives. -/
theorem nearest_mapVal {g : ℕ → P F → P F} (hx : ∀ k p, (g k p).x = p.x)
    (hy : ∀ k p, (g k p).y = p.y) (hlive : ∀ k p, (g k p).alive = p.alive)
    (players : UnorderedMap ℕ (P F)) (id : ℕ) (p : P F) :
    (nearest (players.mapVal g) id p).1.map (fun t => (t.x, t.y)) =
      (nearest players id p).1.map fun t => (t.x, t.y) := by
  have hloop : ∀ (l : List (Σ _ : ℕ, P F)) (acc acc' : Option (P F) × F),
      acc'.1.map (fun t => (t.x, t.y)) = acc.1.map (fun t => (t.x, t.y)) → acc'.2 = acc.2 →
      ((l.map fun e => (⟨e.1, g e.1 e.2⟩ : Σ _ : ℕ, P F)).foldl (fun acc e =>
        if e.1 = id || !e.2.alive then acc
        else
          let d := hypot (e.2.x - p.x) (e.2.y - p.y)
          if lt d acc.2 then (some e.2, d) else acc) acc').1.map (fun t => (t.x, t.y)) =
      (l.foldl (fun acc e =>
        if e.1 = id || !e.2.alive then acc
        else
          let d := hypot (e.2.x - p.x) (e.2.y - p.y)
          if lt d acc.2 then (some e.2, d) else acc) acc).1.map fun t => (t.x, t.y) := by
    intro l
    induction l with
    | nil => exact fun _ _ h _ => h
    | cons e l ih =>
        intro acc acc' hplace hbest
        rw [List.map_cons, List.foldl_cons, List.foldl_cons]
        simp only [hx, hy, hlive, hbest]
        split
        · exact ih _ _ hplace hbest
        · split
          · exact ih _ _ (by simp [hx, hy]) rfl
          · exact ih _ _ hplace hbest
  exact hloop players.entries _ _ rfl rfl

theorem aim_congr {p : P F} {t t' : Option (P F)}
    (h : t'.map (fun t => (t.x, t.y)) = t.map fun t => (t.x, t.y)) : aim p t' = aim p t := by
  cases t with
  | none => rw [Option.map_eq_none_iff.mp h]
  | some t =>
      obtain ⟨t', rfl, ht⟩ := Option.map_eq_some_iff.mp h
      obtain ⟨hx, hy⟩ := Prod.mk.inj ht
      simp only [aim, hx, hy]

theorem shot_mapVal {g : ℕ → P F → P F} (hx : ∀ k p, (g k p).x = p.x)
    (hy : ∀ k p, (g k p).y = p.y) (hlive : ∀ k p, (g k p).alive = p.alive)
    (players : UnorderedMap ℕ (P F)) (projectileId id : ℕ) (p : P F) :
    shot (players.mapVal g) projectileId id p = shot players projectileId id p := by
  simp only [shot, aim_congr (nearest_mapVal hx hy hlive players id p)]

/-! ### Phase 3 -/

theorem attackOne_of_fires {s : BattleSim F} {id : ℕ} {p : P F}
    (hp : s.players.lookup id = some p) (hfires : p.fires = true) :
    attackOne s id =
      { s with
        projectiles := s.projectiles.insert s.nextProjectileId
          (shot s.players s.nextProjectileId id p)
        nextProjectileId := s.nextProjectileId + 1
        players := s.players.modify id fun p => { p with cdMs := kAttackCd } } := by
  simp only [P.fires, Bool.and_eq_true, Bool.not_eq_true'] at hfires
  obtain ⟨⟨⟨halive, hinput⟩, hattack⟩, hcd⟩ := hfires
  simp only [attackOne, hp, halive, hinput, hattack, hcd, Bool.not_true, Bool.or_self,
    Bool.false_eq_true, if_false]

theorem attackOne_of_not_fires {s : BattleSim F} {id : ℕ}
    (h : (s.players.lookup id).any P.fires = false) : attackOne s id = s := by
  unfold attackOne
  split
  · rfl
  · next p hp =>
      rw [hp, Option.any_some] at h
      rw [if_pos]
      simp only [P.fires] at h
      cases halive : p.alive <;> cases hinput : p.hasInput <;>
        cases hattack : p.input.attack <;> simp_all

theorem attackOne_players (s : BattleSim F) (id : ℕ) :
    (attackOne s id).players = s.players.mapVal fun k p => if k = id then p.reload else p := by
  cases hany : (s.players.lookup id).any P.fires with
  | false =>
      rw [attackOne_of_not_fires hany]
      refine (UnorderedMap.mapVal_eq_self fun k p hp => ?_).symm
      split
      · next hk =>
          rw [← hk, hp, Option.any_some] at hany
          simp [P.reload, hany]
      · rfl
  | true =>
      obtain ⟨p, hp, hfires⟩ := (Option.any_eq_true _ _).mp hany
      rw [attackOne_of_fires hp hfires]
      dsimp only [UnorderedMap.modify]
      refine UnorderedMap.mapVal_congr fun k p' hp' => ?_
      split
      · next hk =>
          obtain rfl : p = p' := Option.some.inj (hp.symm.trans (hk ▸ hp'))
          simp [P.reload, hfires]
      · rfl

theorem shot_attackOne (s : BattleSim F) (id projectileId shooter : ℕ) (p : P F) :
    shot (attackOne s id).players projectileId shooter p =
      shot s.players projectileId shooter p := by
  rw [attackOne_players]
  refine shot_mapVal (fun k p => ?_) (fun k p => ?_) (fun k p => ?_) _ _ _ _
  all_goals split <;> simp

/-- The loop of phase 3 over players of different ids. -/
theorem attackLoop {ids : List ℕ} (hnodup : ids.Nodup) {s : BattleSim F}
    (hfresh : ∀ k q, s.projectiles.lookup k = some q → k < s.nextProjectileId) :
    (ids.foldl attackOne s).players =
        s.players.mapVal (fun k p => if k ∈ ids then p.reload else p) ∧
      (ids.foldl attackOne s).nextProjectileId =
        s.nextProjectileId + (firing s.players ids).length ∧
      ∀ k, (ids.foldl attackOne s).projectiles.lookup k =
        if k < s.nextProjectileId then s.projectiles.lookup k
        else ((firing s.players ids)[k - s.nextProjectileId]?).bind fun id =>
          (s.players.lookup id).map (shot s.players k id) := by
  induction ids generalizing s with
  | nil =>
      refine ⟨(UnorderedMap.mapVal_eq_self fun k p _ => by simp).symm, rfl, fun k => ?_⟩
      split
      · rfl
      · next hk =>
          rw [List.foldl_nil, Option.eq_none_iff_forall_ne_some.mpr fun q hq => hk (hfresh k q hq)]
          rfl
  | cons id ids ih =>
      obtain ⟨hid, hnodup⟩ := List.nodup_cons.mp hnodup
      have hother : ∀ id' ∈ ids, (attackOne s id).players.lookup id' = s.players.lookup id' := by
        intro id' hid'
        have hne : id' ≠ id := fun heq => hid (heq ▸ hid')
        rw [attackOne_players, UnorderedMap.lookup_mapVal]
        simp [hne]
      -- the others decide as before: `id` has only reloaded
      have hrest : firing (attackOne s id).players ids = firing s.players ids :=
        List.filter_congr fun id' hid' => by rw [hother id' hid']
      have hshots : ∀ i k : ℕ, ((firing s.players ids)[i]?).bind (fun id' =>
            ((attackOne s id).players.lookup id').map (shot (attackOne s id).players k id')) =
          ((firing s.players ids)[i]?).bind fun id' =>
            (s.players.lookup id').map (shot s.players k id') := by
        intro i k
        refine Option.bind_congr fun id' hid' => ?_
        rw [hother id' (List.mem_of_mem_filter (List.mem_of_getElem? hid'))]
        exact congrArg (Option.map · _) (funext fun p => shot_attackOne s id k id' p)
      have hplayers : ((attackOne s id).players.mapVal fun k p => if k ∈ ids then p.reload else p) =
          s.players.mapVal fun k p => if k ∈ id :: ids then p.reload else p := by
        rw [attackOne_players, UnorderedMap.mapVal_mapVal]
        refine UnorderedMap.mapVal_congr fun k p _ => ?_
        by_cases hk : k = id
        · simp [hk, hid]
        · simp [hk]
      rw [List.foldl_cons]
      cases hany : (s.players.lookup id).any P.fires with
      | false =>
          have hsame := attackOne_of_not_fires hany
          obtain ⟨hp, hnext, hproj⟩ := ih hnodup (s := attackOne s id) (by rwa [hsame])
          have hskip : firing s.players (id :: ids) = firing s.players ids := by
            simp [firing, hany]
          refine ⟨hp.trans hplayers, ?_, fun k => ?_⟩
          · rw [hnext, hrest, hskip, hsame]
          · rw [hproj k, hrest, hshots, hskip, hsame]
      | true =>
          obtain ⟨p, hp, hfires⟩ := (Option.any_eq_true _ _).mp hany
          have hshot := attackOne_of_fires hp hfires
          have hnext₁ : (attackOne s id).nextProjectileId = s.nextProjectileId + 1 := by rw [hshot]
          have hlookup : ∀ k, (attackOne s id).projectiles.lookup k =
              if k = s.nextProjectileId then some (shot s.players s.nextProjectileId id p)
              else s.projectiles.lookup k := by
            intro k
            rw [hshot]
            exact UnorderedMap.lookup_insert_eq _ _ _ _
          obtain ⟨hp', hnext, hproj⟩ := ih hnodup (s := attackOne s id) (by
            intro k q hq
            rw [hnext₁]
            rw [hlookup] at hq
            split at hq
            · omega
            · exact (hfresh k q hq).trans (Nat.lt_succ_self _))
          have hfirst : firing s.players (id :: ids) = id :: firing s.players ids := by
            simp [firing, hany]
          refine ⟨hp'.trans hplayers, ?_, fun k => ?_⟩
          · rw [hnext, hrest, hfirst, hnext₁, List.length_cons]
            omega
          · rw [hproj k, hrest, hshots, hfirst, hnext₁, hlookup]
            -- an old id, the one just handed out, or a later one
            rcases Nat.lt_trichotomy k s.nextProjectileId with hk | rfl | hk
            · rw [if_pos (by omega), if_neg (by omega), if_pos hk]
            · simp [hp]
            · have hindex : k - s.nextProjectileId = k - (s.nextProjectileId + 1) + 1 := by omega
              rw [if_neg (by omega), if_neg (by omega), hindex, List.getElem?_cons_succ]

/-! ### Phase 4 begins -/

theorem cooled_players (dtMs : ℕ) (s : BattleSim F) :
    (coolAll dtMs (moveAll (lit dtMs / lit 1000)
      { s with removedProjectileIds := [] }).1).players = cooledPlayers dtMs s := by
  simp only [coolAll, moveAll, UnorderedMap.mapVal_mapVal]
  rfl

/-- Phases 1 to 3, from the state before the step. -/
theorem armed_spec (ks : List ℕ) (dtMs : ℕ) {s : BattleSim F} (hs : s.Wf) :
    (armed ks dtMs s).players = s.players.mapVal (fun _ p => p.ready dtMs) ∧
      (armed ks dtMs s).nextProjectileId = s.nextProjectileId + (shooters dtMs s).length ∧
      ∀ k, (armed ks dtMs s).projectiles.lookup k =
        if k < s.nextProjectileId then s.projectiles.lookup k
        else ((shooters dtMs s)[k - s.nextProjectileId]?).bind fun id =>
          ((cooledPlayers dtMs s).lookup id).map (shot (cooledPlayers dtMs s) k id) := by
  have hkeys : (cooledPlayers dtMs s).keys = s.players.keys := UnorderedMap.keys_mapVal _ _
  obtain ⟨hplayers, hnext, hproj⟩ := attackLoop (AList.keys_nodup (cooledPlayers dtMs s))
    (s := coolAll dtMs (moveAll (lit dtMs / lit 1000) { s with removedProjectileIds := [] }).1)
    (fun k q hq => hs.fresh hq)
  rw [cooled_players] at hplayers hnext hproj
  have hloop : armed ks dtMs s = { (cooledPlayers dtMs s).keys.foldl attackOne
      (coolAll dtMs (moveAll (lit dtMs / lit 1000) { s with removedProjectileIds := [] }).1) with
      projectiles := ((cooledPlayers dtMs s).keys.foldl attackOne (coolAll dtMs (moveAll
        (lit dtMs / lit 1000) { s with removedProjectileIds := [] }).1)).projectiles.reorder ks } := by
    rw [armed, attackAll, cooled_players]
  rw [hloop]
  refine ⟨hplayers.trans ?_, ?_, fun k => ?_⟩
  · rw [cooledPlayers, UnorderedMap.mapVal_mapVal, ← cooledPlayers, hkeys]
    refine UnorderedMap.mapVal_congr fun k p hp => ?_
    rw [if_pos (UnorderedMap.mem_keys_iff.mpr ⟨p, hp⟩)]
    rfl
  · rw [hnext, hkeys]
    rfl
  · rw [UnorderedMap.lookup_reorder, hproj k, hkeys]
    rfl

theorem lookup_armed_players (ks : List ℕ) (dtMs : ℕ) {s : BattleSim F} (hs : s.Wf) (id : ℕ) :
    (armed ks dtMs s).players.lookup id = (s.players.lookup id).map (P.ready dtMs) := by
  rw [(armed_spec ks dtMs hs).1, UnorderedMap.lookup_mapVal]

/-- What no hit touches is as phases 1 to 3 left it. -/
theorem map_step_ready {α : Type*} {f : P F → α} (hhp : ∀ p h, f { p with hp := h } = f p)
    (ks : List ℕ) (dtMs : ℕ) {s : BattleSim F} (hs : s.Wf) (id : ℕ) :
    ((step ks dtMs s).1.players.lookup id).map f =
      (s.players.lookup id).map fun p => f (p.ready dtMs) := by
  rw [step_eq, map_advanceAll hhp, lookup_armed_players ks dtMs hs, Option.map_map]
  rfl

theorem mem_shooters {dtMs : ℕ} {s : BattleSim F} {id : ℕ} :
    id ∈ shooters dtMs s ↔
      ∃ p, s.players.lookup id = some p ∧ (p.cooled dtMs).fires = true := by
  simp only [shooters, firing, cooledPlayers, UnorderedMap.lookup_mapVal, List.mem_filter,
    UnorderedMap.mem_keys_iff, Option.any_eq_true]
  constructor
  · rintro ⟨-, p', hp', hfires⟩
    obtain ⟨p, hp, rfl⟩ := Option.map_eq_some_iff.mp hp'
    exact ⟨p, hp, hfires⟩
  · rintro ⟨p, hp, hfires⟩
    exact ⟨⟨p, hp⟩, _, Option.map_eq_some_iff.mpr ⟨p, hp, rfl⟩, hfires⟩

theorem nodup_shooters (dtMs : ℕ) (s : BattleSim F) : (shooters dtMs s).Nodup :=
  (AList.keys_nodup s.players).filter _

/-! ### New projectiles -/

theorem lookup_advanceAll_ne (dt : F) {ids : List ℕ} {k : ℕ} (hk : k ∉ ids)
    (acc : BattleSim F × List ℕ) :
    (ids.foldl (advanceOne dt) acc).1.projectiles.lookup k = acc.1.projectiles.lookup k := by
  induction ids generalizing acc with
  | nil => rfl
  | cons id ids ih =>
      have hne : k ≠ id := fun heq => hk (heq ▸ List.mem_cons_self ..)
      rw [List.foldl_cons, ih (fun h => hk (List.mem_cons_of_mem _ h)),
        lookup_advanceOne_ne dt acc hne]

theorem next_step (ks : List ℕ) (dtMs : ℕ) {s : BattleSim F} (hs : s.Wf) :
    (step ks dtMs s).1.nextProjectileId = s.nextProjectileId + (shooters dtMs s).length := by
  rw [(drained_step ks dtMs s).next, (armed_spec ks dtMs hs).2.1]

/-- Phase 4 leaves the new projectiles as phase 3 has made them. -/
theorem lookup_step_new (ks : List ℕ) (dtMs : ℕ) {s : BattleSim F} {k : ℕ}
    (hk : s.projectiles.lookup k = none) :
    (step ks dtMs s).1.projectiles.lookup k = (armed ks dtMs s).projectiles.lookup k := by
  rw [step_eq, lookup_advanceAll_ne]
  intro hmem
  obtain ⟨q, hq⟩ := UnorderedMap.mem_keys_iff.mp hmem
  simp [hk] at hq

/-- A projectile that was not there before a step is the shot of one of the
shooters, the one at its place in the numbering. -/
theorem armed_new (ks : List ℕ) (dtMs : ℕ) {s : BattleSim F} (hs : s.Wf) {k : ℕ}
    {q : Projectile F} (hk : s.projectiles.lookup k = none)
    (hq : (armed ks dtMs s).projectiles.lookup k = some q) :
    ∃ i id p, k = s.nextProjectileId + i ∧ (shooters dtMs s)[i]? = some id ∧
      s.players.lookup id = some p ∧ (p.cooled dtMs).fires = true ∧
      q = shot (cooledPlayers dtMs s) k id (p.cooled dtMs) := by
  rw [(armed_spec ks dtMs hs).2.2 k] at hq
  split at hq
  · simp [hk] at hq
  · next hge =>
      obtain ⟨id, hid, hshot⟩ := Option.bind_eq_some_iff.mp hq
      obtain ⟨p, hp, hfires⟩ := mem_shooters.mp (List.mem_of_getElem? hid)
      rw [cooledPlayers, UnorderedMap.lookup_mapVal, hp, Option.map_some, Option.map_some] at hshot
      exact ⟨k - s.nextProjectileId, id, p, by omega, hid, hp, hfires,
        (Option.some.inj hshot).symm⟩

theorem armed_shot (ks : List ℕ) (dtMs : ℕ) {s : BattleSim F} (hs : s.Wf) {i id : ℕ}
    (hid : (shooters dtMs s)[i]? = some id) {p : P F} (hp : s.players.lookup id = some p) :
    (armed ks dtMs s).projectiles.lookup (s.nextProjectileId + i) =
      some (shot (cooledPlayers dtMs s) (s.nextProjectileId + i) id (p.cooled dtMs)) := by
  rw [(armed_spec ks dtMs hs).2.2, if_neg (by omega), Nat.add_sub_cancel_left, hid,
    Option.bind_some, cooledPlayers, UnorderedMap.lookup_mapVal, hp]
  rfl

/-! ### Runs -/

/-- A player who joins, with the order the player table is in afterwards. -/
structure Arrival (F : Type) where
  ks : List ℕ
  id : ℕ
  x : F
  y : F

def deploy (arrivals : List (Arrival F)) : BattleSim F :=
  arrivals.foldl (fun s a => addPlayer a.ks a.id a.x a.y s) {}

theorem wf_deploy (arrivals : List (Arrival F)) : (deploy arrivals).Wf :=
  invariant_run_of_step (fun _ a h => h.addPlayer a.ks a.id a.x a.y) wf_init arrivals

theorem Wf.act {s : BattleSim F} (hs : s.Wf) (a : SimAct F) : (s.act a).Wf := by
  cases a with
  | applyInput id input => exact hs.applyInput id input
  | step ks dtMs => exact hs.step ks dtMs

theorem wf_battle (arrivals : List (Arrival F)) (acts : List (SimAct F)) :
    (acts.foldl act (deploy arrivals)).Wf :=
  invariant_run_of_step (fun _ a h => h.act a) (wf_deploy arrivals) acts

end BattleSim

end GameServer.Game
