import GameServer.Game.BattleSim
import GameServer.Lib.Run

/-!
What one step of the battle can do to the players and to the projectiles,
phase by phase.

`Evolves` is the relation every phase keeps between the players before and
after it: a player outside the changed list has kept its position and its
hp. For the projectiles, `Drained` says that phase 4 only takes ids away and
that each id taken away gets a tombstone. Both compose, so the loops need
one lemma for their body.
-/

namespace GameServer.Game

open GameServer.Lib GameServer.Proto
open Scalar

namespace BattleSim

variable {F : Type}

/-- What a snapshot tells about a player. -/
def P.body (p : P F) : F × F × ℤ := (p.x, p.y, p.hp)

/-- The tables agree with the ids stored in their entries, and every
projectile has an owner and an id that was handed out. -/
structure Wf (s : BattleSim F) : Prop where
  player_id : ∀ {k p}, s.players.lookup k = some p → p.id = k
  projectile_id : ∀ {k q}, s.projectiles.lookup k = some q → q.id = k
  fresh : ∀ {k q}, s.projectiles.lookup k = some q → k < s.nextProjectileId
  owner : ∀ {k q}, s.projectiles.lookup k = some q → (s.players.lookup q.ownerId).isSome

/-! ### What a phase may do -/

structure Evolves (a b : BattleSim F × List ℕ) : Prop where
  mono : ∀ id ∈ a.2, id ∈ b.2
  known : ∀ id ∈ b.2, id ∈ a.2 ∨ (b.1.players.lookup id).isSome
  ids : ∀ id, (b.1.players.lookup id).map P.id = (a.1.players.lookup id).map P.id
  same : ∀ id, id ∉ b.2 →
    (b.1.players.lookup id).map P.body = (a.1.players.lookup id).map P.body

theorem Evolves.refl (a : BattleSim F × List ℕ) : Evolves a a :=
  ⟨fun _ h => h, fun _ h => .inl h, fun _ => rfl, fun _ _ => rfl⟩

/-- The keys of the player table stay what they are. -/
theorem Evolves.isSome_iff {a b : BattleSim F × List ℕ} (h : Evolves a b) (id : ℕ) :
    (b.1.players.lookup id).isSome = (a.1.players.lookup id).isSome := by
  simpa using congrArg Option.isSome (h.ids id)

theorem Evolves.trans {a b c : BattleSim F × List ℕ} (h : Evolves a b) (h' : Evolves b c) :
    Evolves a c where
  mono id hid := h'.mono id (h.mono id hid)
  known id hid := by
    rcases h'.known id hid with hb | hsome
    · rcases h.known id hb with ha | hsome
      · exact .inl ha
      · exact .inr ((h'.isSome_iff id).trans hsome)
    · exact .inr hsome
  ids id := (h'.ids id).trans (h.ids id)
  same id hid := (h'.same id hid).trans (h.same id fun hb => hid (h'.mono id hb))

/-- A phase that touches nothing a snapshot tells. -/
theorem Evolves.of_eq {s s' : BattleSim F} {changed : List ℕ}
    (hids : ∀ id, (s'.players.lookup id).map P.id = (s.players.lookup id).map P.id)
    (hsame : ∀ id, (s'.players.lookup id).map P.body = (s.players.lookup id).map P.body) :
    Evolves (s, changed) (s', changed) :=
  ⟨fun _ h => h, fun _ h => .inl h, hids, fun id _ => hsame id⟩

theorem Evolves.player_id {a b : BattleSim F × List ℕ} (h : Evolves a b)
    (ha : ∀ {k p}, a.1.players.lookup k = some p → p.id = k) {k : ℕ} {p : P F}
    (hp : b.1.players.lookup k = some p) : p.id = k := by
  have hids := h.ids k
  rw [hp] at hids
  cases hk : a.1.players.lookup k with
  | none => simp [hk] at hids
  | some p' =>
      rw [hk] at hids
      exact (Option.some.inj hids).trans (ha hk)

/-- Phases 1 to 3 touch no projectile in flight. -/
structure Fired (s s' : BattleSim F) : Prop where
  next_le : s.nextProjectileId ≤ s'.nextProjectileId
  old : ∀ k, k < s.nextProjectileId → s'.projectiles.lookup k = s.projectiles.lookup k
  removed : s'.removedProjectileIds = s.removedProjectileIds

theorem Fired.trans {s s' s'' : BattleSim F} (h : Fired s s') (h' : Fired s' s'') :
    Fired s s'' where
  next_le := h.next_le.trans h'.next_le
  old k hk := (h'.old k (hk.trans_le h.next_le)).trans (h.old k hk)
  removed := h'.removed.trans h.removed

/-- Phase 4 removes projectiles and adds none; the tombstones are exactly
those of the removed ones. -/
structure Drained (s s' : BattleSim F) : Prop where
  next : s'.nextProjectileId = s.nextProjectileId
  kept : ∀ {k q'}, s'.projectiles.lookup k = some q' →
    ∃ q, s.projectiles.lookup k = some q ∧ q'.id = q.id ∧ q'.ownerId = q.ownerId
  tombs : ∀ k, k ∈ s'.removedProjectileIds ↔ k ∈ s.removedProjectileIds ∨
    ((s.projectiles.lookup k).isSome ∧ s'.projectiles.lookup k = none)

theorem Drained.refl (s : BattleSim F) : Drained s s := by
  refine ⟨rfl, fun h => ⟨_, h, rfl, rfl⟩, fun k => ⟨.inl, ?_⟩⟩
  rintro (h | ⟨h, hnone⟩)
  · exact h
  · simp [hnone] at h

theorem Drained.isSome {s s' : BattleSim F} (h : Drained s s') (k : ℕ)
    (hk : (s'.projectiles.lookup k).isSome) : (s.projectiles.lookup k).isSome := by
  obtain ⟨q', hq'⟩ := Option.isSome_iff_exists.mp hk
  obtain ⟨q, hq, -⟩ := h.kept hq'
  exact Option.isSome_iff_exists.mpr ⟨q, hq⟩

theorem Drained.trans {s s' s'' : BattleSim F} (h : Drained s s') (h' : Drained s' s'') :
    Drained s s'' := by
  refine ⟨h'.next.trans h.next, fun hk => ?_, fun k => ?_⟩
  · obtain ⟨q', hq', hid', howner'⟩ := h'.kept hk
    obtain ⟨q, hq, hid, howner⟩ := h.kept hq'
    exact ⟨q, hq, hid'.trans hid, howner'.trans howner⟩
  · have hlive := h.isSome k
    have hlive' := h'.isSome k
    rw [h'.tombs k, h.tombs k]
    cases h₀ : s.projectiles.lookup k <;> cases h₁ : s'.projectiles.lookup k <;>
      cases h₂ : s''.projectiles.lookup k <;> simp_all

theorem drained_removeProjectile {s : BattleSim F} {k : ℕ}
    (hk : (s.projectiles.lookup k).isSome) : Drained s (removeProjectile k s) := by
  refine ⟨rfl, fun {k' q'} h => ?_, fun k' => ?_⟩
  · simp only [removeProjectile, UnorderedMap.lookup_erase_eq] at h
    split at h
    · cases h
    · exact ⟨q', h, rfl, rfl⟩
  · simp only [removeProjectile, UnorderedMap.lookup_erase_eq, List.mem_append,
      List.mem_singleton]
    by_cases heq : k' = k
    · subst heq
      simp [hk]
    · cases h : s.projectiles.lookup k' <;> simp [heq]

/-- A phase keeps the tables in order if it evolves the players and every
projectile after it is in order. -/
theorem Wf.evolve {s s' : BattleSim F} {c c' : List ℕ} (hs : s.Wf)
    (hev : Evolves (s, c) (s', c'))
    (hproj : ∀ {k q}, s'.projectiles.lookup k = some q →
      q.id = k ∧ k < s'.nextProjectileId ∧ (s.players.lookup q.ownerId).isSome) : s'.Wf where
  player_id hp := hev.player_id hs.player_id hp
  projectile_id hq := (hproj hq).1
  fresh hq := (hproj hq).2.1
  owner hq := (hev.isSome_iff _).trans (hproj hq).2.2

theorem Wf.drain {s s' : BattleSim F} {c c' : List ℕ} (hs : s.Wf)
    (hev : Evolves (s, c) (s', c')) (hdr : Drained s s') : s'.Wf := by
  refine hs.evolve hev fun hq => ?_
  obtain ⟨q, hq, hid, howner⟩ := hdr.kept hq
  exact ⟨hid.trans (hs.projectile_id hq), hdr.next ▸ hs.fresh hq, howner ▸ hs.owner hq⟩

theorem wf_init : ({} : BattleSim F).Wf := by
  constructor <;> intro k v h <;> cases h

theorem evolves_applyInput (s : BattleSim F) (id : ℕ) (input : PlayerInput F) :
    Evolves (s, []) (applyInput id input s, []) := by
  refine .of_eq (fun id' => ?_) (fun id' => ?_)
  all_goals
    simp only [applyInput, UnorderedMap.lookup_modify]
    split
    · rw [Option.map_map]
      rfl
    · rfl

theorem Wf.applyInput {s : BattleSim F} (hs : s.Wf) (id : ℕ) (input : PlayerInput F) :
    (applyInput id input s).Wf :=
  hs.evolve (evolves_applyInput s id input)
    fun hq => ⟨hs.projectile_id hq, hs.fresh hq, hs.owner hq⟩

variable [Scalar F]

/-! ### The players -/

/-- Phase 1 leaves a player alone or turns and moves it. -/
theorem movePlayer_cases (dt : F) (p : P F) :
    movePlayer dt p = (p, false) ∨ ∃ mx my, movePlayer dt p = moveBy dt mx my p := by
  simp only [movePlayer]
  split
  · exact .inl rfl
  · split
    · exact .inl rfl
    · split
      · exact .inr ⟨_, _, rfl⟩
      · exact .inr ⟨_, _, rfl⟩

@[simp] theorem moveBy_id (dt mx my : F) (p : P F) : (moveBy dt mx my p).1.id = p.id := by
  simp only [moveBy]
  split <;> rfl

@[simp] theorem moveBy_hp (dt mx my : F) (p : P F) : (moveBy dt mx my p).1.hp = p.hp := by
  simp only [moveBy]
  split <;> rfl

theorem moveBy_body {dt mx my : F} {p : P F} (h : (moveBy dt mx my p).2 = false) :
    (moveBy dt mx my p).1.body = p.body := by
  simp only [moveBy] at h ⊢
  split at h
  · cases h
  · next hstay =>
      rw [if_neg hstay]
      rfl

@[simp] theorem movePlayer_id (dt : F) (p : P F) : (movePlayer dt p).1.id = p.id := by
  rcases movePlayer_cases dt p with h | ⟨mx, my, h⟩
  · rw [h]
  · rw [h, moveBy_id]

@[simp] theorem movePlayer_hp (dt : F) (p : P F) : (movePlayer dt p).1.hp = p.hp := by
  rcases movePlayer_cases dt p with h | ⟨mx, my, h⟩
  · rw [h]
  · rw [h, moveBy_hp]

@[simp] theorem movePlayer_cdMs (dt : F) (p : P F) : (movePlayer dt p).1.cdMs = p.cdMs := by
  rcases movePlayer_cases dt p with h | ⟨mx, my, h⟩
  · rw [h]
  · rw [h]
    simp only [moveBy]
    split <;> rfl

theorem movePlayer_body {dt : F} {p : P F} (hstay : (movePlayer dt p).2 = false) :
    (movePlayer dt p).1.body = p.body := by
  rcases movePlayer_cases dt p with h | ⟨mx, my, h⟩
  · rw [h]
  · rw [h] at hstay ⊢
    exact moveBy_body hstay

theorem mem_moved {dt : F} {l : List (Σ _ : ℕ, P F)} {changed : List ℕ} {id : ℕ} :
    id ∈ l.foldl (fun changed e =>
        if (movePlayer dt e.2).2 then setInsert e.1 changed else changed) changed ↔
      id ∈ changed ∨ ∃ e ∈ l, e.1 = id ∧ (movePlayer dt e.2).2 = true := by
  induction l generalizing changed with
  | nil => simp
  | cons e l ih =>
      rw [List.foldl_cons, ih]
      by_cases h : (movePlayer dt e.2).2 = true
      · simp only [h, if_true, mem_setInsert, List.mem_cons, exists_eq_or_imp, and_true]
        tauto
      · simp [h]

theorem evolves_moveAll (dt : F) (s : BattleSim F) : Evolves (s, []) (moveAll dt s) where
  mono id h := absurd h List.not_mem_nil
  known id hid := by
    simp only [moveAll, mem_moved, List.not_mem_nil, false_or] at hid
    obtain ⟨e, he, rfl, -⟩ := hid
    have hlookup := UnorderedMap.mem_entries_iff.mp he
    exact .inr (by simp [moveAll, hlookup])
  ids id := by
    simp only [moveAll, UnorderedMap.lookup_mapVal, Option.map_map]
    congr 1
    funext p
    exact movePlayer_id dt p
  same id hid := by
    simp only [moveAll, mem_moved, List.not_mem_nil, false_or, not_exists, not_and] at hid ⊢
    simp only [UnorderedMap.lookup_mapVal, Option.map_map]
    cases h : s.players.lookup id with
    | none => rfl
    | some p =>
        have hstay := hid ⟨id, p⟩ (UnorderedMap.mem_entries_iff.mpr h) rfl
        exact congrArg some (movePlayer_body (by simpa using hstay))

theorem evolves_coolAll (dtMs : ℕ) (s : BattleSim F) (changed : List ℕ) :
    Evolves (s, changed) (coolAll dtMs s, changed) := by
  refine .of_eq (fun id => ?_) (fun id => ?_)
  all_goals
    simp only [coolAll, UnorderedMap.lookup_mapVal, Option.map_map]
    rfl

/-- A player fires nothing, or one projectile of its own. -/
theorem attackOne_cases (s : BattleSim F) (id : ℕ) :
    attackOne s id = s ∨ ∃ p, s.players.lookup id = some p ∧
      attackOne s id =
        { s with
          projectiles := s.projectiles.insert s.nextProjectileId
            (shot s.players s.nextProjectileId id p)
          nextProjectileId := s.nextProjectileId + 1
          players := s.players.modify id fun p => { p with cdMs := kAttackCd } } := by
  unfold attackOne
  split
  · exact .inl rfl
  · next p hp =>
      split
      · exact .inl rfl
      · exact .inr ⟨p, hp, rfl⟩

theorem evolves_attackOne (s : BattleSim F) (id : ℕ) (changed : List ℕ) :
    Evolves (s, changed) (attackOne s id, changed) := by
  rcases attackOne_cases s id with h | ⟨p, -, h⟩
  · rw [h]
    exact .refl _
  · rw [h]
    refine .of_eq (fun id' => ?_) (fun id' => ?_)
    all_goals
      simp only [UnorderedMap.lookup_modify]
      split
      · rw [Option.map_map]
        rfl
      · rfl

theorem evolves_attackAll (ks : List ℕ) (s : BattleSim F) (changed : List ℕ) :
    Evolves (s, changed) (attackAll ks s, changed) := by
  have hloop : Evolves (s, changed) (s.players.keys.foldl attackOne s, changed) :=
    invariant_run_of_step (I := fun s' => Evolves (s, changed) (s', changed))
      (fun s' id h => h.trans (evolves_attackOne s' id changed)) (.refl _) _
  exact hloop.trans (.of_eq (fun _ => rfl) fun _ => rfl)

/-- The player a projectile hits is one of the table, alive and not its owner. -/
theorem findHit_some {dt : F} {players : UnorderedMap ℕ (P F)} {q : Projectile F} {key : ℕ}
    {hit : P F} (h : (findHit dt players q).1 = some (key, hit)) :
    players.lookup key = some hit ∧ key ≠ q.ownerId ∧ hit.alive = true := by
  have hloop : ∀ (l : List (Σ _ : ℕ, P F)) (acc : Option (ℕ × P F) × F),
      (∀ k p, acc.1 = some (k, p) →
        players.lookup k = some p ∧ k ≠ q.ownerId ∧ p.alive = true) →
      (∀ e ∈ l, e ∈ players.entries) →
      ∀ k p, (l.foldl (fun acc e =>
        if e.1 = q.ownerId || !e.2.alive then acc
        else
          let r := pass dt q e.2
          if r.2 && lt r.1 acc.2 then (some (e.1, e.2), r.1) else acc) acc).1 = some (k, p) →
        players.lookup k = some p ∧ k ≠ q.ownerId ∧ p.alive = true := by
    intro l
    induction l with
    | nil => exact fun acc hacc _ => hacc
    | cons e l ih =>
        intro acc hacc hl
        rw [List.foldl_cons]
        refine ih _ ?_ fun e' he' => hl e' (List.mem_cons_of_mem _ he')
        intro k p hkp
        split at hkp
        · exact hacc k p hkp
        · next hcand =>
            dsimp only at hkp
            split at hkp
            · obtain ⟨rfl, rfl⟩ : e.1 = k ∧ e.2 = p := by simpa using hkp
              refine ⟨UnorderedMap.mem_entries_iff.mp (hl e (List.mem_cons_self ..)), ?_, ?_⟩
              · simp_all
              · simp_all
            · exact hacc k p hkp
  exact hloop players.entries (none, infinity) (by simp) (fun _ h => h) key hit h

theorem evolves_advanceOne (dt : F) {acc : BattleSim F × List ℕ}
    (hid : ∀ {k p}, acc.1.players.lookup k = some p → p.id = k) (projectileId : ℕ) :
    Evolves acc (advanceOne dt acc projectileId) := by
  unfold advanceOne
  split
  · exact .refl _
  · split
    · next key hit hfind =>
        have hfound := (findHit_some hfind).1
        have hkey := hid hfound
        refine ⟨fun id h => mem_setInsert.mpr (.inr h), fun id h => ?_, fun id => ?_,
          fun id h => ?_⟩
        all_goals
          simp only [removeProjectile, UnorderedMap.lookup_modify]
        · rcases mem_setInsert.mp h with rfl | h
          · right
            rw [hkey]
            simp [hfound]
          · exact .inl h
        · split
          · rw [Option.map_map]
            rfl
          · rfl
        · rw [if_neg]
          rintro rfl
          exact h (mem_setInsert.mpr (.inl hkey.symm))
    · split
      · exact .of_eq (fun _ => rfl) fun _ => rfl
      · exact .of_eq (fun _ => rfl) fun _ => rfl

theorem evolves_advanceAll (dt : F) (ids : List ℕ) {acc : BattleSim F × List ℕ}
    (hid : ∀ {k p}, acc.1.players.lookup k = some p → p.id = k) :
    Evolves acc (ids.foldl (advanceOne dt) acc) :=
  invariant_run_of_step (I := Evolves acc)
    (fun _ id h => h.trans (evolves_advanceOne dt (fun hp => h.player_id hid hp) id)) (.refl _) ids

/-- The state in which phase 4 begins. -/
def armed (ks : List ℕ) (dtMs : ℕ) (s : BattleSim F) : BattleSim F :=
  attackAll ks (coolAll dtMs (moveAll (lit dtMs / lit 1000)
    { s with removedProjectileIds := [] }).1)

theorem step_eq (ks : List ℕ) (dtMs : ℕ) (s : BattleSim F) :
    step ks dtMs s = s.projectiles.keys.foldl (advanceOne (lit dtMs / lit 1000))
      (armed ks dtMs s, (moveAll (lit dtMs / lit 1000) { s with removedProjectileIds := [] }).2) :=
  rfl

theorem evolves_armed (ks : List ℕ) (dtMs : ℕ) (s : BattleSim F) :
    Evolves (s, []) (armed ks dtMs s,
      (moveAll (lit dtMs / lit 1000) { s with removedProjectileIds := [] }).2) := by
  have hclear : Evolves (s, []) ({ s with removedProjectileIds := [] }, []) :=
    .of_eq (fun _ => rfl) fun _ => rfl
  exact hclear.trans ((evolves_moveAll _ _).trans
    ((evolves_coolAll dtMs _ _).trans (evolves_attackAll ks _ _)))

/-- A player that a step does not report has kept its position and its hp. -/
theorem evolves_step (ks : List ℕ) (dtMs : ℕ) {s : BattleSim F} (hs : s.Wf) :
    Evolves (s, []) (step ks dtMs s) := by
  have harmed := evolves_armed ks dtMs s
  rw [step_eq]
  exact harmed.trans (evolves_advanceAll _ _ fun hp => harmed.player_id hs.player_id hp)

/-! ### What only phase 1 touches -/

section Moved

variable {α : Type*} {f : P F → α}

theorem map_coolAll (hcd : ∀ p c, f { p with cdMs := c } = f p) (dtMs : ℕ) (s : BattleSim F)
    (id : ℕ) : ((coolAll dtMs s).players.lookup id).map f = (s.players.lookup id).map f := by
  simp only [coolAll, UnorderedMap.lookup_mapVal, Option.map_map]
  congr 1
  funext p
  exact hcd p _

theorem map_attackOne (hcd : ∀ p c, f { p with cdMs := c } = f p) (s : BattleSim F)
    (k id : ℕ) : ((attackOne s k).players.lookup id).map f = (s.players.lookup id).map f := by
  rcases attackOne_cases s k with h | ⟨p, -, h⟩
  · rw [h]
  · rw [h]
    simp only [UnorderedMap.lookup_modify]
    split
    · rw [Option.map_map]
      congr 1
      funext p
      exact hcd p _
    · rfl

theorem map_attackAll (hcd : ∀ p c, f { p with cdMs := c } = f p) (ks : List ℕ)
    (s : BattleSim F) (id : ℕ) :
    ((attackAll ks s).players.lookup id).map f = (s.players.lookup id).map f := by
  exact invariant_run_of_step
    (I := fun s' => (s'.players.lookup id).map f = (s.players.lookup id).map f)
    (fun s' k h => (map_attackOne hcd s' k id).trans h) rfl s.players.keys

theorem map_advanceOne (hhp : ∀ p h, f { p with hp := h } = f p) (dt : F)
    (acc : BattleSim F × List ℕ) (k id : ℕ) :
    ((advanceOne dt acc k).1.players.lookup id).map f = (acc.1.players.lookup id).map f := by
  unfold advanceOne
  split
  · rfl
  · split
    · simp only [removeProjectile, UnorderedMap.lookup_modify]
      split
      · rw [Option.map_map]
        congr 1
        funext p
        exact hhp p _
      · rfl
    · split <;> rfl

theorem map_advanceAll (hhp : ∀ p h, f { p with hp := h } = f p) (dt : F) (ids : List ℕ)
    (acc : BattleSim F × List ℕ) (id : ℕ) :
    ((ids.foldl (advanceOne dt) acc).1.players.lookup id).map f =
      (acc.1.players.lookup id).map f :=
  invariant_run_of_step
    (I := fun acc' : BattleSim F × List ℕ =>
      (acc'.1.players.lookup id).map f = (acc.1.players.lookup id).map f)
    (fun acc' k h => (map_advanceOne hhp dt acc' k id).trans h) rfl ids

theorem map_armed (hcd : ∀ p c, f { p with cdMs := c } = f p) (ks : List ℕ) (dtMs : ℕ)
    (s : BattleSim F) (id : ℕ) :
    ((armed ks dtMs s).players.lookup id).map f =
      (s.players.lookup id).map fun p => f (movePlayer (lit dtMs / lit 1000) p).1 := by
  unfold armed
  rw [map_attackAll hcd, map_coolAll hcd]
  simp only [moveAll, UnorderedMap.lookup_mapVal, Option.map_map]
  rfl

/-- What neither the cooldown nor a hit touches is as phase 1 left it. -/
theorem map_step (hcd : ∀ p c, f { p with cdMs := c } = f p)
    (hhp : ∀ p h, f { p with hp := h } = f p) (ks : List ℕ) (dtMs : ℕ) (s : BattleSim F)
    (id : ℕ) :
    ((step ks dtMs s).1.players.lookup id).map f =
      (s.players.lookup id).map fun p => f (movePlayer (lit dtMs / lit 1000) p).1 := by
  rw [step_eq, map_advanceAll hhp, map_armed hcd]

end Moved

/-! ### The projectiles -/

theorem fired_attackOne (s : BattleSim F) (id : ℕ) : Fired s (attackOne s id) := by
  rcases attackOne_cases s id with h | ⟨p, -, h⟩
  · rw [h]
    exact ⟨le_rfl, fun _ _ => rfl, rfl⟩
  · rw [h]
    exact ⟨Nat.le_succ _, fun k hk => AList.lookup_insert_ne hk.ne, rfl⟩

theorem Wf.attackOne {s : BattleSim F} (hs : s.Wf) (id : ℕ) : (attackOne s id).Wf := by
  refine hs.evolve (evolves_attackOne s id []) fun {k q} hq => ?_
  rcases attackOne_cases s id with h | ⟨p, hp, h⟩
  · rw [h] at hq ⊢
    exact ⟨hs.projectile_id hq, hs.fresh hq, hs.owner hq⟩
  · rw [h] at hq ⊢
    rw [UnorderedMap.lookup_insert_eq] at hq
    split at hq
    · next hk =>
        obtain rfl := Option.some.inj hq
        exact ⟨hk.symm, by dsimp only; omega, Option.isSome_iff_exists.mpr ⟨p, hp⟩⟩
    · exact ⟨hs.projectile_id hq, Nat.lt_succ_of_lt (hs.fresh hq), hs.owner hq⟩

theorem fired_armed (ks : List ℕ) (dtMs : ℕ) (s : BattleSim F) :
    Fired { s with removedProjectileIds := [] } (armed ks dtMs s) := by
  have hloop : ∀ s : BattleSim F, Fired s (s.players.keys.foldl attackOne s) := fun s =>
    invariant_run_of_step (I := Fired s) (fun s' id h => h.trans (fired_attackOne s' id))
      ⟨le_rfl, fun _ _ => rfl, rfl⟩ s.players.keys
  obtain ⟨hnext, hold, hrem⟩ := hloop
    (coolAll dtMs (moveAll (lit dtMs / lit 1000) { s with removedProjectileIds := [] }).1)
  exact ⟨hnext, fun k hk => (UnorderedMap.lookup_reorder ks _ k).trans (hold k hk), hrem⟩

theorem drained_fly (dt : F) (s : BattleSim F) (k : ℕ) :
    Drained s { s with projectiles := s.projectiles.modify k (fly dt) } := by
  refine ⟨rfl, fun {k' q'} h => ?_, fun k' => ⟨.inl, ?_⟩⟩
  · rw [UnorderedMap.lookup_modify] at h
    split at h
    · obtain ⟨q, hq, rfl⟩ := Option.map_eq_some_iff.mp h
      exact ⟨q, hq, rfl, rfl⟩
    · exact ⟨q', h, rfl, rfl⟩
  · rintro (h | ⟨h, hnone⟩)
    · exact h
    · rw [UnorderedMap.lookup_modify] at hnone
      split at hnone <;> simp_all

theorem drained_advanceOne (dt : F) (acc : BattleSim F × List ℕ) (projectileId : ℕ) :
    Drained acc.1 (advanceOne dt acc projectileId).1 := by
  unfold advanceOne
  split
  · exact .refl _
  · next q hq =>
      have hsome : (acc.1.projectiles.lookup projectileId).isSome := by rw [hq]; rfl
      split
      · next key hit _ =>
          have hhit : Drained acc.1 { acc.1 with
              players := acc.1.players.modify key fun p =>
                { p with hp := Max.max 0 (p.hp - kDamage) } } :=
            ⟨rfl, fun h => ⟨_, h, rfl, rfl⟩, (Drained.refl acc.1).tombs⟩
          exact hhit.trans (drained_removeProjectile hsome)
      · have hfly := drained_fly dt acc.1 projectileId
        split
        · refine hfly.trans (drained_removeProjectile ?_)
          simp [hq]
        · exact hfly

theorem drained_advanceAll (dt : F) (ids : List ℕ) (acc : BattleSim F × List ℕ) :
    Drained acc.1 (ids.foldl (advanceOne dt) acc).1 :=
  invariant_run_of_step (I := fun acc' : BattleSim F × List ℕ => Drained acc.1 acc'.1)
    (fun acc' id h => h.trans (drained_advanceOne dt acc' id)) (.refl _) ids

theorem drained_step (ks : List ℕ) (dtMs : ℕ) (s : BattleSim F) :
    Drained (armed ks dtMs s) (step ks dtMs s).1 := by
  have hdrained := drained_advanceAll (lit dtMs / lit 1000) s.projectiles.keys
    (armed ks dtMs s, (moveAll (lit dtMs / lit 1000) { s with removedProjectileIds := [] }).2)
  rwa [← step_eq] at hdrained

/-- A projectile that was in flight before a step still is, or it has a
tombstone; no live projectile has one. -/
theorem step_tombs (ks : List ℕ) (dtMs : ℕ) {s : BattleSim F} (hs : s.Wf) (k : ℕ) :
    ((s.projectiles.lookup k).isSome → (step ks dtMs s).1.projectiles.lookup k = none →
      k ∈ (step ks dtMs s).1.removedProjectileIds) ∧
    (k ∈ (step ks dtMs s).1.removedProjectileIds →
      (step ks dtMs s).1.projectiles.lookup k = none) := by
  have hfired := fired_armed ks dtMs s
  have hdrained := drained_step ks dtMs s
  have hnil : (armed ks dtMs s).removedProjectileIds = [] := hfired.removed
  constructor
  · intro hlive hgone
    obtain ⟨q, hq⟩ := Option.isSome_iff_exists.mp hlive
    refine (hdrained.tombs k).mpr (.inr ⟨?_, hgone⟩)
    have hold := hfired.old k (hs.fresh hq)
    exact (congrArg Option.isSome hold).trans hlive
  · intro hmem
    rcases (hdrained.tombs k).mp hmem with h | ⟨-, h⟩
    · simp [hnil] at h
    · exact h

/-- The tables are in order when phase 4 begins. -/
theorem Wf.armed {s : BattleSim F} (hs : s.Wf) (ks : List ℕ) (dtMs : ℕ) :
    (armed ks dtMs s).Wf := by
  have hmoved : (coolAll dtMs (moveAll (lit dtMs / lit 1000)
      { s with removedProjectileIds := [] }).1).Wf := by
    have hclear : Evolves (s, []) ({ s with removedProjectileIds := [] }, []) :=
      .of_eq (fun _ => rfl) fun _ => rfl
    exact hs.evolve (hclear.trans ((evolves_moveAll _ _).trans (evolves_coolAll dtMs _ _)))
      fun hq => ⟨hs.projectile_id hq, hs.fresh hq, hs.owner hq⟩
  have hshot := invariant_run_of_step (fun _ id h => h.attackOne id) hmoved
    (coolAll dtMs (moveAll (lit dtMs / lit 1000) { s with removedProjectileIds := [] }).1).players.keys
  exact ⟨hshot.player_id,
    fun hq => hshot.projectile_id ((UnorderedMap.lookup_reorder ks _ _).symm.trans hq),
    fun hq => hshot.fresh ((UnorderedMap.lookup_reorder ks _ _).symm.trans hq),
    fun hq => hshot.owner ((UnorderedMap.lookup_reorder ks _ _).symm.trans hq)⟩

theorem Wf.step {s : BattleSim F} (hs : s.Wf) (ks : List ℕ) (dtMs : ℕ) :
    (step ks dtMs s).1.Wf := by
  have harmed := hs.armed ks dtMs
  have hdrained := drained_step ks dtMs s
  rw [step_eq] at hdrained ⊢
  exact harmed.drain (evolves_advanceAll _ _ harmed.player_id) hdrained

/-! ### What is reported -/

omit [Scalar F] in
theorem sorted_setInsert {x : ℕ} {l : List ℕ} (h : l.Pairwise (· < ·)) :
    (setInsert x l).Pairwise (· < ·) := by
  induction l with
  | nil => simp [setInsert]
  | cons y ys ih =>
      obtain ⟨hy, hys⟩ := List.pairwise_cons.mp h
      simp only [setInsert]
      split
      · next hlt =>
          refine List.pairwise_cons.mpr ⟨fun z hz => ?_, h⟩
          rcases List.mem_cons.mp hz with rfl | hz
          · exact hlt
          · exact hlt.trans (hy z hz)
      · split
        · exact h
        · next hlt hne =>
            refine List.pairwise_cons.mpr ⟨fun z hz => ?_, ih hys⟩
            rcases mem_setInsert.mp hz with rfl | hz
            · omega
            · exact hy z hz

theorem sorted_advanceOne (dt : F) {acc : BattleSim F × List ℕ} (h : acc.2.Pairwise (· < ·))
    (id : ℕ) : (advanceOne dt acc id).2.Pairwise (· < ·) := by
  unfold advanceOne
  split
  · exact h
  · split
    · exact sorted_setInsert h
    · exact h

/-- The changed list is increasing, as a `std::set` is visited. -/
theorem sorted_changed (ks : List ℕ) (dtMs : ℕ) (s : BattleSim F) :
    (step ks dtMs s).2.Pairwise (· < ·) := by
  have hmoved : (moveAll (lit dtMs / lit 1000)
      { s with removedProjectileIds := [] }).2.Pairwise (· < ·) := by
    refine invariant_run_of_step (I := List.Pairwise (· < ·)) (fun changed e h => ?_) .nil _
    split
    · exact sorted_setInsert h
    · exact h
  rw [step_eq]
  refine invariant_run_of_step (I := fun acc : BattleSim F × List ℕ => acc.2.Pairwise (· < ·))
    (fun _ id h => sorted_advanceOne _ h id) ?_ _
  exact hmoved

/-- The players that the projectiles `ids` hit when they advance in this
order, each projectile after the damage of those before it. -/
def victims (dt : F) (projectiles : UnorderedMap ℕ (Projectile F)) :
    UnorderedMap ℕ (P F) → List ℕ → List ℕ
  | _, [] => []
  | players, id :: ids =>
      match (projectiles.lookup id).bind fun q => (findHit dt players q).1 with
      | none => victims dt projectiles players ids
      | some (key, _) =>
          key :: victims dt projectiles
            (players.modify key fun p => { p with hp := Max.max 0 (p.hp - kDamage) }) ids

theorem lookup_advanceOne_ne (dt : F) (acc : BattleSim F × List ℕ) {id k : ℕ} (h : k ≠ id) :
    (advanceOne dt acc id).1.projectiles.lookup k = acc.1.projectiles.lookup k := by
  unfold advanceOne
  split
  · rfl
  · split
    · simp [removeProjectile, h]
    · split <;> simp [removeProjectile, h]

theorem mem_advanceAll {dt : F} {projectiles : UnorderedMap ℕ (Projectile F)} {ids : List ℕ}
    (hnodup : ids.Nodup) {acc : BattleSim F × List ℕ}
    (hid : ∀ {k p}, acc.1.players.lookup k = some p → p.id = k)
    (hflight : ∀ k ∈ ids, acc.1.projectiles.lookup k = projectiles.lookup k) (z : ℕ) :
    z ∈ (ids.foldl (advanceOne dt) acc).2 ↔
      z ∈ acc.2 ∨ z ∈ victims dt projectiles acc.1.players ids := by
  induction ids generalizing acc with
  | nil => simp [victims]
  | cons id ids ih =>
      obtain ⟨hnot, hnodup⟩ := List.nodup_cons.mp hnodup
      have hrest : ∀ k ∈ ids,
          (advanceOne dt acc id).1.projectiles.lookup k = projectiles.lookup k := by
        intro k hk
        have hne : k ≠ id := fun heq => hnot (heq ▸ hk)
        rw [lookup_advanceOne_ne dt acc hne, hflight k (List.mem_cons_of_mem _ hk)]
      have hids : ∀ {k p}, (advanceOne dt acc id).1.players.lookup k = some p → p.id = k :=
        fun hp => (evolves_advanceOne dt hid id).player_id hid hp
      rw [List.foldl_cons, ih hnodup hids hrest, victims, ← hflight id (List.mem_cons_self ..)]
      unfold advanceOne
      cases hq : acc.1.projectiles.lookup id with
      | none => simp
      | some q =>
          simp only [Option.bind_some]
          cases hhit : (findHit dt acc.1.players q).1 with
          | none =>
              dsimp only
              split <;> rfl
          | some hit =>
              have hkey := hid (findHit_some hhit).1
              simp [removeProjectile, hkey, or_assoc, or_left_comm]

/-- A step reports the players that phase 1 moved and those that the
projectiles in flight hit. -/
theorem mem_changed {s : BattleSim F} (hs : s.Wf) (ks : List ℕ) (dtMs id : ℕ) :
    id ∈ (step ks dtMs s).2 ↔
      (∃ p, s.players.lookup id = some p ∧ (movePlayer (lit dtMs / lit 1000) p).2 = true) ∨
        id ∈ victims (lit dtMs / lit 1000) s.projectiles (armed ks dtMs s).players
          s.projectiles.keys := by
  have hflight : ∀ k ∈ s.projectiles.keys,
      (armed ks dtMs s).projectiles.lookup k = s.projectiles.lookup k := by
    intro k hk
    obtain ⟨q, hq⟩ := UnorderedMap.mem_keys_iff.mp hk
    exact (fired_armed ks dtMs s).old k (hs.fresh hq)
  have hmoved : id ∈ (moveAll (lit dtMs / lit 1000) { s with removedProjectileIds := [] }).2 ↔
      ∃ p, s.players.lookup id = some p ∧ (movePlayer (lit dtMs / lit 1000) p).2 = true := by
    simp only [moveAll, mem_moved, List.not_mem_nil, false_or]
    constructor
    · rintro ⟨e, he, rfl, hmove⟩
      exact ⟨e.2, UnorderedMap.mem_entries_iff.mp he, hmove⟩
    · rintro ⟨p, hp, hmove⟩
      exact ⟨⟨id, p⟩, UnorderedMap.mem_entries_iff.mpr hp, rfl, hmove⟩
  rw [step_eq, mem_advanceAll (AList.keys_nodup _) (hs.armed ks dtMs).player_id hflight, hmoved]

theorem Wf.addPlayer {s : BattleSim F} (hs : s.Wf) (ks : List ℕ) (id : ℕ) (x y : F) :
    (addPlayer ks id x y s).Wf := by
  constructor
  · intro k p hp
    simp only [BattleSim.addPlayer, UnorderedMap.lookup_reorder,
      UnorderedMap.lookup_insert_eq] at hp
    split at hp
    · next h =>
        obtain rfl := Option.some.inj hp
        exact h.symm
    · exact hs.player_id hp
  · exact hs.projectile_id
  · exact hs.fresh
  · intro k q hq
    have howner := hs.owner hq
    simp only [BattleSim.addPlayer, UnorderedMap.lookup_reorder, UnorderedMap.lookup_insert_eq]
    split
    · rfl
    · exact howner

end BattleSim

end GameServer.Game
