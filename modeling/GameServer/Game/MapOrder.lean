import GameServer.Game.Damage
import GameServer.Game.Duel
import GameServer.Game.Tombstones

/-!
A step in two iteration orders.

The tables of the simulation are visited in an order that nothing specifies.
With two players it does not matter: each has one possible target, so the
loops over the players find the same one, and the hits of phase 4 add up in
any order. Only the numbers of new projectiles depend on who is visited
first.
-/

namespace GameServer.Game

open GameServer.Lib GameServer.Proto
open Scalar

namespace BattleSim

variable {F : Type}

/-- The same state, with its tables in another order. -/
def reordered (ks ks' : List ℕ) (s : BattleSim F) : BattleSim F :=
  { s with players := s.players.reorder ks, projectiles := s.projectiles.reorder ks' }

/-- No pair of orders is left out. -/
theorem exists_reordered {s : BattleSim F} {players : UnorderedMap ℕ (P F)}
    {projectiles : UnorderedMap ℕ (Projectile F)}
    (hplayers : players.entries.Perm s.players.entries)
    (hprojectiles : projectiles.entries.Perm s.projectiles.entries) :
    ∃ ks ks', s.reordered ks ks' = { s with players := players, projectiles := projectiles } := by
  obtain ⟨ks, hks⟩ := exists_arrange hplayers
  obtain ⟨ks', hks'⟩ := exists_arrange hprojectiles
  have hp : s.players.reorder ks = players := AList.ext hks
  have hq : s.projectiles.reorder ks' = projectiles := AList.ext hks'
  exact ⟨ks, ks', by rw [reordered, hp, hq]⟩

/-- The states differ in the order of their tables. -/
structure SameTables (s s' : BattleSim F) : Prop where
  players : ∀ k, s'.players.lookup k = s.players.lookup k
  projectiles : ∀ k, s'.projectiles.lookup k = s.projectiles.lookup k
  next : s'.nextProjectileId = s.nextProjectileId

theorem sameTables_reordered (ks ks' ls ls' : List ℕ) (s : BattleSim F) :
    SameTables (s.reordered ks ks') (s.reordered ls ls') := by
  constructor <;> simp [reordered]

theorem Wf.reordered {s : BattleSim F} (hs : s.Wf) (ks ks' : List ℕ) :
    (s.reordered ks ks').Wf := by
  constructor
  · intro k p hp
    exact hs.player_id (by simpa [BattleSim.reordered] using hp)
  · intro k q hq
    exact hs.projectile_id (by simpa [BattleSim.reordered] using hq)
  · intro k q hq
    exact hs.fresh (by simpa [BattleSim.reordered] using hq)
  · intro k q hq
    have howner := hs.owner (k := k) (q := q) (by simpa [BattleSim.reordered] using hq)
    simpa [BattleSim.reordered] using howner

theorem Between.of_lookup {a b : ℕ} {players players' : UnorderedMap ℕ (P F)}
    (h : Between a b players) (hsame : ∀ k, players'.lookup k = players.lookup k) :
    Between a b players' :=
  ⟨h.ne, fun k => by rw [hsame]; exact h.keys k⟩

/-- The winner does not depend on the order, with any number of players. -/
theorem winnerOrZero_congr {s s' : BattleSim F}
    (h : ∀ k, s'.players.lookup k = s.players.lookup k) : s'.winnerOrZero = s.winnerOrZero := by
  have hperm : s'.livingIds.Perm s.livingIds := by
    refine (List.perm_ext_iff_of_nodup (nodup_livingIds s') (nodup_livingIds s)).mpr fun k => ?_
    rw [mem_livingIds, mem_livingIds, h]
  rw [winnerOrZero_eq, winnerOrZero_eq]
  cases hl : s.livingIds with
  | nil =>
      rw [hl] at hperm
      rw [hperm.eq_nil]
  | cons k l =>
      cases l with
      | nil =>
          rw [hl] at hperm
          rw [hperm.eq_singleton]
      | cons k' l =>
          have hlength := hperm.length_eq
          rw [hl] at hlength
          cases hl' : s'.livingIds with
          | nil => rfl
          | cons k'' l' =>
              cases l' with
              | nil => simp [hl'] at hlength
              | cons => rfl

/-! ### The players -/

theorem P.eq_of_hp {p p' : P F} (hrest : { p with hp := 0 } = ({ p' with hp := 0 } : P F))
    (hhp : p.hp = p'.hp) : p = p' := by
  cases p
  cases p'
  simp_all

variable [Scalar F]

/-- Nobody's hp is below zero. -/
theorem hp_nonneg_battle {arrivals : List (Arrival F)} (hnodup : (arrivals.map Arrival.id).Nodup)
    (acts : List (SimAct F)) {id : ℕ} {p : P F}
    (hp : (acts.foldl act (deploy arrivals)).players.lookup id = some p) : 0 ≤ p.hp := by
  have haccount := invariant_run_of_step (fun _ a h => h.record a) (account_deploy hnodup) acts
  have hsame := fst_record (deploy arrivals, []) acts
  rw [← hsame] at hp
  exact (haccount.hp hp).1

theorem SameTables.struck {s s' : BattleSim F} (h : SameTables s s') (dt : F) (id : ℕ) (p : P F) :
    struck dt s' id p = struck dt s id p :=
  (UnorderedMap.perm_of_lookup h.projectiles).countP_eq _

/-- What a step makes of a player of two. -/
theorem SameTables.lookup_step {a b : ℕ} {s s' : BattleSim F} (h : SameTables s s') (hs : s.Wf)
    (hs' : s'.Wf) (hbetween : Between a b s.players) (ks ks' : List ℕ) (dtMs : ℕ) {p : P F}
    (hp : s.players.lookup a = some p) (hpos : 0 ≤ p.hp) :
    (step ks' dtMs s').1.players.lookup a = (step ks dtMs s).1.players.lookup a := by
  have hp' : s'.players.lookup a = some p := (h.players a).trans hp
  obtain ⟨p₁, hp₁, hhp₁⟩ := hp_step hs hbetween ks dtMs hp hpos
  obtain ⟨p₂, hp₂, hhp₂⟩ := hp_step hs' (hbetween.of_lookup h.players) ks' dtMs hp' hpos
  have hrest := map_step_ready (f := fun p : P F => ({ p with hp := 0 } : P F)) (fun _ _ => rfl)
    ks dtMs hs a
  have hrest' := map_step_ready (f := fun p : P F => ({ p with hp := 0 } : P F)) (fun _ _ => rfl)
    ks' dtMs hs' a
  rw [hp₁, hp] at hrest
  rw [hp₂, hp'] at hrest'
  -- what hits do not touch comes from `p` alone, and the hits are counted alike
  have hsame : ({ p₂ with hp := 0 } : P F) = { p₁ with hp := 0 } :=
    Option.some.inj (hrest'.trans hrest.symm)
  rw [hp₁, hp₂, P.eq_of_hp hsame (by rw [hhp₁, hhp₂, h.struck])]

/-- Two states with two players, of whom nobody has less than no hp. -/
theorem SameTables.players_step {a b : ℕ} {s s' : BattleSim F} (h : SameTables s s') (hs : s.Wf)
    (hs' : s'.Wf) (hbetween : Between a b s.players)
    (hpos : ∀ id p, s.players.lookup id = some p → 0 ≤ p.hp) (ks ks' : List ℕ) (dtMs id : ℕ) :
    (step ks' dtMs s').1.players.lookup id = (step ks dtMs s).1.players.lookup id := by
  cases hp : s.players.lookup id with
  | none =>
      have hgone : ∀ {s : BattleSim F} (_ : s.Wf) (_ : s.players.lookup id = none) (ks : List ℕ),
          (step ks dtMs s).1.players.lookup id = none := by
        intro s hs hnone ks
        have hsome := (evolves_step ks dtMs hs).isSome_iff id
        rw [hnone] at hsome
        simpa using hsome
      rw [hgone hs hp ks, hgone hs' ((h.players id).trans hp) ks']
  | some p =>
      rcases (hbetween.keys id).mp (by rw [hp]; rfl) with rfl | rfl
      · exact h.lookup_step hs hs' hbetween ks ks' dtMs hp (hpos _ p hp)
      · exact h.lookup_step hs hs' hbetween.symm ks ks' dtMs hp (hpos _ p hp)

/-- Both runs report the same players, in the same order. -/
theorem SameTables.changed_step {a b : ℕ} {s s' : BattleSim F} (h : SameTables s s') (hs : s.Wf)
    (hs' : s'.Wf) (hbetween : Between a b s.players)
    (hpos : ∀ id p, s.players.lookup id = some p → 0 ≤ p.hp) (ks ks' : List ℕ) (dtMs : ℕ) :
    (step ks' dtMs s').2 = (step ks dtMs s).2 := by
  have hsorted := sorted_changed ks dtMs s
  have hsorted' := sorted_changed ks' dtMs s'
  refine List.Perm.eq_of_pairwise (fun x y _ _ hlt hgt => absurd hlt hgt.asymm) hsorted' hsorted ?_
  refine (List.perm_ext_iff_of_nodup (hsorted'.imp fun h => h.ne) (hsorted.imp fun h => h.ne)).mpr
    fun id => ?_
  cases hp : s.players.lookup id with
  | none =>
      have hout : ∀ {s : BattleSim F} (_ : s.Wf) (_ : s.players.lookup id = none) (ks : List ℕ),
          id ∉ (step ks dtMs s).2 := by
        intro s hs hnone ks hmem
        have hsome := ((evolves_step ks dtMs hs).known id hmem).resolve_left List.not_mem_nil
        rw [(evolves_step ks dtMs hs).isSome_iff id] at hsome
        simp [hnone] at hsome
      exact iff_of_false (hout hs' ((h.players id).trans hp) ks') (hout hs hp ks)
  | some p =>
      obtain ⟨p₁, hp₁, -, hmem⟩ := worn_step ks dtMs hs hp
      obtain ⟨p₂, hp₂, -, hmem'⟩ := worn_step ks' dtMs hs' ((h.players id).trans hp)
      rw [h.players_step hs hs' hbetween hpos ks ks' dtMs id, hp₁] at hp₂
      obtain rfl := Option.some.inj hp₂
      rw [hmem, hmem']

/-! ### The new projectiles -/

/-- The same players fire, in another order. -/
theorem SameTables.shooters {s s' : BattleSim F} (h : SameTables s s') (dtMs : ℕ) :
    (shooters dtMs s).Perm (shooters dtMs s') := by
  refine (List.perm_ext_iff_of_nodup (nodup_shooters dtMs s) (nodup_shooters dtMs s')).mpr
    fun id => ?_
  rw [mem_shooters, mem_shooters, h.players]

/-- A shot of one of two players, in two runs. -/
theorem SameTables.shot_eq {a b : ℕ} {s s' : BattleSim F} (h : SameTables s s')
    (hbetween : Between a b s.players) (dtMs k k' id : ℕ) {p : P F}
    (hp : s.players.lookup id = some p) :
    shot (cooledPlayers dtMs s') k' id (p.cooled dtMs) =
      { shot (cooledPlayers dtMs s) k id (p.cooled dtMs) with id := k' } := by
  have hlookup : ∀ {s : BattleSim F} (k : ℕ),
      (cooledPlayers dtMs s).lookup k = (s.players.lookup k).map (P.cooled dtMs) := by
    intro s k
    rw [cooledPlayers, UnorderedMap.lookup_mapVal]
  have haim : ∀ {a b : ℕ}, Between a b s.players →
      (nearest (cooledPlayers dtMs s') b (p.cooled dtMs)).1 =
        (nearest (cooledPlayers dtMs s) b (p.cooled dtMs)).1 := by
    intro a b hbetween
    obtain ⟨t, ht⟩ := Option.isSome_iff_exists.mp ((hbetween.keys a).mpr (.inl rfl))
    have hcool : Between a b (cooledPlayers dtMs s) := hbetween.mapVal _
    have hcool' : Between a b (cooledPlayers dtMs s') := (hbetween.of_lookup h.players).mapVal _
    rw [nearest_of_between hcool (by rw [hlookup, ht, Option.map_some]),
      nearest_of_between hcool' (by rw [hlookup, h.players, ht, Option.map_some])]
  rcases (hbetween.keys id).mp (by rw [hp]; rfl) with rfl | rfl
  · simp only [shot, haim hbetween.symm]
  · simp only [shot, haim hbetween]

/-- The new projectiles of a step, with the ids that another order gives them. -/
theorem SameTables.spawned_step {a b : ℕ} {s s' : BattleSim F} (h : SameTables s s') (hs : s.Wf)
    (hs' : s'.Wf) (hbetween : Between a b s.players) (ks ks' : List ℕ) (dtMs : ℕ) :
    ∃ σ : Equiv.Perm ℕ, (∀ k < s.nextProjectileId, σ k = k) ∧
      ∀ k, s.projectiles.lookup k = none →
        (step ks' dtMs s').1.projectiles.lookup (σ k) =
          ((step ks dtMs s).1.projectiles.lookup k).map fun q => { q with id := σ k } := by
  obtain ⟨σ, hold, hnew⟩ := exists_renaming (h.shooters dtMs) s.nextProjectileId
  refine ⟨σ, hold, fun k hk => ?_⟩
  obtain ⟨-, -, hproj⟩ := armed_spec ks dtMs hs
  obtain ⟨-, -, hproj'⟩ := armed_spec ks' dtMs hs'
  rcases Nat.lt_or_ge k s.nextProjectileId with hlt | hge
  · -- a used id is in neither table
    have hk' : s'.projectiles.lookup k = none := (h.projectiles k).trans hk
    rw [hold k hlt, lookup_step_new ks dtMs hk, lookup_step_new ks' dtMs hk', hproj, hproj',
      if_pos hlt, if_pos (h.next ▸ hlt), hk, hk']
    rfl
  · obtain ⟨i, rfl⟩ := Nat.exists_eq_add_of_le hge
    obtain ⟨hle, hget⟩ := hnew i
    have hfree : s'.projectiles.lookup (σ (s.nextProjectileId + i)) = none := by
      rw [Option.eq_none_iff_forall_ne_some]
      intro q hq
      have hfresh := hs'.fresh hq
      rw [h.next] at hfresh
      omega
    rw [lookup_step_new ks dtMs hk, lookup_step_new ks' dtMs hfree, hproj, hproj',
      if_neg (Nat.not_lt.mpr hge), if_neg (by rw [h.next]; omega), Nat.add_sub_cancel_left, h.next,
      hget]
    cases hshooter : (BattleSim.shooters dtMs s)[i]? with
    | none => rfl
    | some id =>
        obtain ⟨p, hp, -⟩ := mem_shooters.mp (List.mem_of_getElem? hshooter)
        have hp' : s'.players.lookup id = some p := (h.players id).trans hp
        simp only [Option.bind_some, cooledPlayers, UnorderedMap.lookup_mapVal, hp, hp',
          Option.map_some]
        exact congrArg some (h.shot_eq hbetween dtMs _ _ id hp)

/-! ### Runs -/

theorem between_deploy {a b : Arrival F} (hne : a.id ≠ b.id) :
    Between a.id b.id (deploy [a, b]).players := by
  refine ⟨hne, fun k => ?_⟩
  simp only [deploy, List.foldl_cons, List.foldl_nil, addPlayer, UnorderedMap.lookup_reorder,
    UnorderedMap.lookup_insert_eq]
  split
  · simp [*]
  · split <;> simp [*]

theorem between_act {a b : ℕ} {s : BattleSim F} (hs : s.Wf) (h : Between a b s.players)
    (call : SimAct F) : Between a b (s.act call).players := by
  cases call with
  | applyInput id input => exact h.evolve (evolves_applyInput s id input)
  | step ks dtMs => exact h.evolve (evolves_step ks dtMs hs)

/-- From every state of a battle between two players, with its tables in any
two orders: a step makes the same of both players, reports the same ones and
finds the same winner; and the projectiles it adds are the same, up to a
renaming of their ids. -/
theorem step_order_independent {a b : Arrival F} (hne : a.id ≠ b.id) (acts : List (SimAct F))
    (dtMs : ℕ) (ps qs ks ps' qs' ks' : List ℕ) :
    let s := acts.foldl act (deploy [a, b])
    let r := step ks dtMs (s.reordered ps qs)
    let r' := step ks' dtMs (s.reordered ps' qs')
    (∀ id, r'.1.players.lookup id = r.1.players.lookup id) ∧ r'.2 = r.2 ∧
      r'.1.winnerOrZero = r.1.winnerOrZero ∧
      ∃ σ : Equiv.Perm ℕ, (∀ k ∈ s.projectileIds, σ k = k) ∧
        ∀ k ∉ s.projectileIds, r'.1.projectiles.lookup (σ k) =
          (r.1.projectiles.lookup k).map fun q => { q with id := σ k } := by
  intro s r r'
  have hact : ∀ (s : BattleSim F) (call : SimAct F), s.Wf ∧ Between a.id b.id s.players →
      (s.act call).Wf ∧ Between a.id b.id (s.act call).players :=
    fun s call h => ⟨h.1.act call, between_act h.1 h.2 call⟩
  obtain ⟨hs, hbetween⟩ : s.Wf ∧ Between a.id b.id s.players :=
    invariant_run_of_step hact ⟨wf_deploy [a, b], between_deploy hne⟩ acts
  have hpos : ∀ id p, (s.reordered ps qs).players.lookup id = some p → 0 ≤ p.hp := by
    intro id p hp
    exact hp_nonneg_battle (show ([a, b].map Arrival.id).Nodup by simpa using hne) acts
      (by simpa [reordered] using hp)
  have hsame := sameTables_reordered ps qs ps' qs' s
  have hwf := hs.reordered ps qs
  have hwf' := hs.reordered ps' qs'
  have htwo : Between a.id b.id (s.reordered ps qs).players :=
    hbetween.of_lookup fun k => UnorderedMap.lookup_reorder ps _ k
  have hplayers := hsame.players_step hwf hwf' htwo hpos ks ks' dtMs
  refine ⟨hplayers, hsame.changed_step hwf hwf' htwo hpos ks ks' dtMs,
    winnerOrZero_congr hplayers, ?_⟩
  obtain ⟨σ, hold, hnew⟩ := hsame.spawned_step hwf hwf' htwo ks ks' dtMs
  refine ⟨σ, fun k hk => ?_, fun k hk => hnew k ?_⟩
  · obtain ⟨q, hq⟩ := mem_projectileIds.mp hk
    exact hold k (hs.fresh hq)
  · simpa [reordered] using notMem_projectileIds.mp hk

/-- Both players walk and fire; who is visited first gets the id 1. -/
theorem step_order_independent_of_two_shots :
    let acts : List (SimAct (Ext ℚ)) :=
      [.applyInput 1 ⟨1, .fin 1, .fin 0, true⟩, .applyInput 2 ⟨1, .fin (-1), .fin 0, true⟩]
    let s := acts.foldl act (deploy [⟨[], 1, .fin 30, .fin 50⟩, ⟨[], 2, .fin 70, .fin 50⟩])
    (step [] 50 (s.reordered [1] [])).2 = (step [] 50 (s.reordered [] [])).2 ∧
      ((step [] 50 (s.reordered [] [])).1.projectiles.lookup 1).map Projectile.ownerId = some 2 ∧
      ((step [] 50 (s.reordered [1] [])).1.projectiles.lookup 1).map Projectile.ownerId =
        some 1 := by
  intro acts s
  exact ⟨(step_order_independent (by decide) acts 50 [] [] [] [1] [] []).2.1, by decide +kernel,
    by decide +kernel⟩

end BattleSim

end GameServer.Game
