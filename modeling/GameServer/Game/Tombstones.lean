import GameServer.Game.Volley

/-!
The life of a projectile id.

An id is handed out once, to a projectile that is seen as phase 3 has made it
before it moves for the first time, and reported as removed once, in the step
after which the projectile is gone. The caller takes the reports after every
step, as a room does.
-/

namespace GameServer.Game

open GameServer.Lib GameServer.Proto
open Scalar

namespace BattleSim

variable {F : Type} [Scalar F]

/-- One call; after a step the removed ids are taken, and collected. -/
def tally (r : BattleSim F × List (List ℕ)) : SimAct F → BattleSim F × List (List ℕ)
  | .applyInput id input => (applyInput id input r.1, r.2)
  | .step ks dtMs =>
      let taken := (step ks dtMs r.1).1.takeRemovedProjectileIds
      (taken.2, r.2 ++ [taken.1])

/-- The ids that phase 3 of a step hands out. -/
def spawnedIds (ks : List ℕ) (dtMs : ℕ) (s : BattleSim F) : List ℕ :=
  List.range' s.nextProjectileId ((armed ks dtMs s).nextProjectileId - s.nextProjectileId)

omit [Scalar F] in
theorem mem_projectileIds {s : BattleSim F} {k : ℕ} :
    k ∈ s.projectileIds ↔ ∃ q, s.projectiles.lookup k = some q :=
  UnorderedMap.mem_keys_iff

omit [Scalar F] in
theorem notMem_projectileIds {s : BattleSim F} {k : ℕ} :
    k ∉ s.projectileIds ↔ s.projectiles.lookup k = none := by
  rw [mem_projectileIds, Option.eq_none_iff_forall_ne_some, not_exists]

/-! ### The reports of one step -/

/-- Each id is reported once, and its projectile is gone. -/
structure Buried (s : BattleSim F) : Prop where
  nodup : s.removedProjectileIds.Nodup
  gone : ∀ k ∈ s.removedProjectileIds, s.projectiles.lookup k = none

omit [Scalar F] in
theorem Buried.removeProjectile {s : BattleSim F} (h : Buried s) {k : ℕ} {q : Projectile F}
    (hq : s.projectiles.lookup k = some q) : Buried (removeProjectile k s) where
  nodup := by
    have hnot : k ∉ s.removedProjectileIds := by
      intro hmem
      rw [h.gone k hmem] at hq
      cases hq
    exact List.nodup_append_comm.mp (List.nodup_cons.mpr ⟨hnot, h.nodup⟩)
  gone k' hk' := by
    simp only [BattleSim.removeProjectile, UnorderedMap.lookup_erase_eq]
    split
    · rfl
    · next hne =>
        rcases List.mem_append.mp hk' with hmem | hmem
        · exact h.gone k' hmem
        · exact absurd (List.mem_singleton.mp hmem) hne

theorem Buried.advanceOne (dt : F) {acc : BattleSim F × List ℕ} (h : Buried acc.1) (id : ℕ) :
    Buried (advanceOne dt acc id).1 := by
  unfold BattleSim.advanceOne
  split
  · exact h
  · next q hq =>
      split
      · refine Buried.removeProjectile (q := q) ?_ hq
        exact ⟨h.nodup, h.gone⟩
      · have hfly : Buried { acc.1 with
            projectiles := acc.1.projectiles.modify id (fly dt) } := by
          refine ⟨h.nodup, fun k hk => ?_⟩
          simp only [UnorderedMap.lookup_modify, h.gone k hk]
          split <;> rfl
        split
        · exact hfly.removeProjectile (q := fly dt q) (by simp [hq])
        · exact hfly

theorem buried_step (ks : List ℕ) (dtMs : ℕ) (s : BattleSim F) : Buried (step ks dtMs s).1 := by
  rw [step_eq]
  refine invariant_run_of_step (I := fun acc : BattleSim F × List ℕ => Buried acc.1)
    (fun _ id h => h.advanceOne _ id) ?_ _
  have hnil : (armed ks dtMs s).removedProjectileIds = [] := (fired_armed ks dtMs s).removed
  constructor
  · simp [hnil]
  · simp [hnil]

theorem mem_removed_step (ks : List ℕ) (dtMs : ℕ) {s : BattleSim F} (hs : s.Wf) (k : ℕ) :
    k ∈ (step ks dtMs s).1.removedProjectileIds ↔
      k ∈ s.projectileIds ∧ k ∉ (step ks dtMs s).1.projectileIds := by
  rw [notMem_projectileIds]
  constructor
  · intro hmem
    refine ⟨?_, (step_tombs ks dtMs hs k).2 hmem⟩
    by_contra hnone
    have hdrained := drained_step ks dtMs s
    have hnil : (armed ks dtMs s).removedProjectileIds = [] := (fired_armed ks dtMs s).removed
    have hkept := lookup_step_new ks dtMs (notMem_projectileIds.mp hnone)
    -- a projectile that was new in phase 4 has been left alone
    rcases (hdrained.tombs k).mp hmem with h | ⟨hlive, hgone⟩
    · simp [hnil] at h
    · rw [← hkept, hgone] at hlive
      cases hlive
  · rintro ⟨hlive, hgone⟩
    obtain ⟨q, hq⟩ := mem_projectileIds.mp hlive
    exact (step_tombs ks dtMs hs k).1 (by rw [hq]; rfl) hgone

/-- There is one new id for each player who fires. -/
theorem length_spawnedIds (ks : List ℕ) (dtMs : ℕ) {s : BattleSim F} (hs : s.Wf) :
    (spawnedIds ks dtMs s).length = (shooters dtMs s).length := by
  rw [spawnedIds, List.length_range', (armed_spec ks dtMs hs).2.1, Nat.add_sub_cancel_left]

theorem mem_spawnedIds {ks : List ℕ} {dtMs : ℕ} {s : BattleSim F} (hs : s.Wf) {k : ℕ} :
    k ∈ spawnedIds ks dtMs s ↔
      ∃ i id, k = s.nextProjectileId + i ∧ (shooters dtMs s)[i]? = some id := by
  rw [spawnedIds, List.mem_range'_1, (armed_spec ks dtMs hs).2.1, Nat.add_sub_cancel_left]
  constructor
  · rintro ⟨hle, hlt⟩
    have hi : k - s.nextProjectileId < (shooters dtMs s).length := by omega
    exact ⟨k - s.nextProjectileId, _, by omega, List.getElem?_eq_getElem hi⟩
  · rintro ⟨i, id, rfl, hid⟩
    obtain ⟨hi, -⟩ := List.getElem?_eq_some_iff.mp hid
    omega

/-- A new projectile has an unused id and is a shot that has not moved. -/
theorem spawned_spec (ks : List ℕ) (dtMs : ℕ) {s : BattleSim F} (hs : s.Wf) {k : ℕ}
    (hk : k ∈ spawnedIds ks dtMs s) :
    s.nextProjectileId ≤ k ∧ k ∉ (step ks dtMs s).1.removedProjectileIds ∧
      ∃ i id p, k = s.nextProjectileId + i ∧ (shooters dtMs s)[i]? = some id ∧
        s.players.lookup id = some p ∧
        (armed ks dtMs s).projectiles.lookup k =
          some (shot (cooledPlayers dtMs s) k id (p.cooled dtMs)) ∧
        (step ks dtMs s).1.projectiles.lookup k =
          some (shot (cooledPlayers dtMs s) k id (p.cooled dtMs)) := by
  obtain ⟨i, id, rfl, hid⟩ := (mem_spawnedIds hs).mp hk
  obtain ⟨p, hp, -⟩ := mem_shooters.mp (List.mem_of_getElem? hid)
  have hnone : s.projectiles.lookup (s.nextProjectileId + i) = none := by
    rw [Option.eq_none_iff_forall_ne_some]
    intro q hq
    have := hs.fresh hq
    omega
  have hshot := armed_shot ks dtMs hs hid hp
  refine ⟨Nat.le_add_right _ _, fun hmem => ?_, i, id, p, rfl, hid, hp, hshot,
    (lookup_step_new ks dtMs hnone).trans hshot⟩
  exact notMem_projectileIds.mpr hnone ((mem_removed_step ks dtMs hs _).mp hmem).1

theorem mem_projectileIds_step (ks : List ℕ) (dtMs : ℕ) {s : BattleSim F} (hs : s.Wf) (k : ℕ) :
    k ∈ (step ks dtMs s).1.projectileIds ↔
      (k ∈ s.projectileIds ∧ k ∉ (step ks dtMs s).1.removedProjectileIds) ∨
        k ∈ spawnedIds ks dtMs s := by
  rw [mem_removed_step ks dtMs hs]
  constructor
  · intro hlive
    by_cases hold : k ∈ s.projectileIds
    · exact .inl ⟨hold, fun hgone => hgone.2 hlive⟩
    · have hnone := notMem_projectileIds.mp hold
      obtain ⟨q, hq⟩ := mem_projectileIds.mp hlive
      rw [lookup_step_new ks dtMs hnone] at hq
      obtain ⟨i, id, p, hk, hid, -⟩ := armed_new ks dtMs hs hnone hq
      exact .inr ((mem_spawnedIds hs).mpr ⟨i, id, hk, hid⟩)
  · rintro (⟨hold, hkept⟩ | hnew)
    · by_contra hgone
      exact hkept ⟨hold, hgone⟩
    · obtain ⟨-, -, i, id, p, -, -, -, -, hshot⟩ := spawned_spec ks dtMs hs hnew
      exact mem_projectileIds.mpr ⟨_, hshot⟩

/-! ### Runs -/

/-- What has been reported is gone, and was reported once. -/
structure Interred (r : BattleSim F × List (List ℕ)) : Prop where
  wf : r.1.Wf
  nodup : r.2.flatten.Nodup
  gone : ∀ k ∈ r.2.flatten, k < r.1.nextProjectileId ∧ r.1.projectiles.lookup k = none

theorem Interred.step {r : BattleSim F × List (List ℕ)} (h : Interred r) (ks : List ℕ)
    (dtMs : ℕ) : Interred (tally r (.step ks dtMs)) := by
  have hburied := buried_step ks dtMs r.1
  have hwf := h.wf.step ks dtMs
  have hnext := next_step ks dtMs h.wf
  have hgone : ∀ k, k < r.1.nextProjectileId → r.1.projectiles.lookup k = none →
      (BattleSim.step ks dtMs r.1).1.projectiles.lookup k = none := by
    intro k hlt hk
    rw [lookup_step_new ks dtMs hk, (armed_spec ks dtMs h.wf).2.2, if_pos hlt, hk]
  refine ⟨⟨hwf.player_id, hwf.projectile_id, hwf.fresh, hwf.owner⟩, ?_, fun k hk => ?_⟩
  · show (r.2 ++ [(BattleSim.step ks dtMs r.1).1.removedProjectileIds]).flatten.Nodup
    rw [List.flatten_concat, List.nodup_append]
    refine ⟨h.nodup, hburied.nodup, fun k hk k' hk' heq => ?_⟩
    -- what is reported now was live before the step, so it was not reported yet
    have hlive := ((mem_removed_step ks dtMs h.wf k').mp hk').1
    obtain ⟨q, hq⟩ := mem_projectileIds.mp hlive
    rw [← heq, (h.gone k hk).2] at hq
    cases hq
  · show k < (BattleSim.step ks dtMs r.1).1.nextProjectileId ∧
      (BattleSim.step ks dtMs r.1).1.projectiles.lookup k = none
    have hmem : k ∈ (r.2 ++ [(BattleSim.step ks dtMs r.1).1.removedProjectileIds]).flatten := hk
    rw [List.flatten_concat, List.mem_append] at hmem
    rcases hmem with hmem | hmem
    · obtain ⟨hlt, hnone⟩ := h.gone k hmem
      exact ⟨by omega, hgone k hlt hnone⟩
    · obtain ⟨q, hq⟩ := mem_projectileIds.mp ((mem_removed_step ks dtMs h.wf k).mp hmem).1
      exact ⟨by have := h.wf.fresh hq; omega, hburied.gone k hmem⟩

theorem Interred.tally {r : BattleSim F × List (List ℕ)} (h : Interred r) (a : SimAct F) :
    Interred (tally r a) := by
  cases a with
  | applyInput id input => exact ⟨h.wf.applyInput id input, h.nodup, h.gone⟩
  | step ks dtMs => exact h.step ks dtMs

theorem next_tally_le {r : BattleSim F × List (List ℕ)} (h : Interred r) (acts : List (SimAct F)) :
    r.1.nextProjectileId ≤ (acts.foldl tally r).1.nextProjectileId := by
  induction acts generalizing r with
  | nil => exact le_rfl
  | cons a acts ih =>
      refine le_trans ?_ (ih (h.tally a))
      cases a with
      | applyInput id input => exact le_rfl
      | step ks dtMs =>
          have hnext := next_step ks dtMs h.wf
          show r.1.nextProjectileId ≤ (BattleSim.step ks dtMs r.1).1.nextProjectileId
          omega

/-- In every run, for its next step: the ids taken after it are, once each,
those that were live before and are no longer; what is live then is what was,
without these, and the ids that phase 3 has handed out, one for each player
who fires; such an id is greater than every id that was live in any state
before, it is not taken, and its projectile is the shot as phase 3 has made
it; and no id is taken twice in the run, or live after it was taken. -/
theorem tombstones_exact (arrivals : List (Arrival F)) (acts : List (SimAct F)) (ks : List ℕ)
    (dtMs : ℕ) :
    let r := acts.foldl tally (deploy arrivals, [])
    let after := (step ks dtMs r.1).1
    let taken := after.takeRemovedProjectileIds.1
    taken.Nodup ∧ (∀ k, k ∈ taken ↔ k ∈ r.1.projectileIds ∧ k ∉ after.projectileIds) ∧
      (∀ k, k ∈ after.projectileIds ↔
        (k ∈ r.1.projectileIds ∧ k ∉ taken) ∨ k ∈ spawnedIds ks dtMs r.1) ∧
      (spawnedIds ks dtMs r.1).length = (shooters dtMs r.1).length ∧
      (∀ k ∈ spawnedIds ks dtMs r.1,
        (∀ i, ∀ j ∈ ((acts.take i).foldl tally (deploy arrivals, [])).1.projectileIds, j < k) ∧
        k ∉ taken ∧
        ∃ i id p, k = r.1.nextProjectileId + i ∧ (shooters dtMs r.1)[i]? = some id ∧
          r.1.players.lookup id = some p ∧
          (armed ks dtMs r.1).projectiles.lookup k =
            some (shot (cooledPlayers dtMs r.1) k id (p.cooled dtMs)) ∧
          after.projectiles.lookup k =
            some (shot (cooledPlayers dtMs r.1) k id (p.cooled dtMs))) ∧
      (r.2.flatten ++ taken).Nodup ∧ ∀ k ∈ r.2.flatten ++ taken, k ∉ after.projectileIds := by
  intro r after taken
  have hstart : Interred (deploy arrivals, ([] : List (List ℕ))) :=
    ⟨wf_deploy arrivals, List.nodup_nil, fun k hk => by simp at hk⟩
  have hinterred : ∀ acts : List (SimAct F), Interred (acts.foldl tally (deploy arrivals, [])) :=
    invariant_run_of_step (fun _ a h => h.tally a) hstart
  have hr : Interred r := hinterred acts
  have hnext := hr.step ks dtMs
  have htaken : (r.2 ++ [taken]).flatten = r.2.flatten ++ taken := List.flatten_concat
  refine ⟨(buried_step ks dtMs r.1).nodup, mem_removed_step ks dtMs hr.wf,
    mem_projectileIds_step ks dtMs hr.wf, length_spawnedIds ks dtMs hr.wf, fun k hk => ?_,
    htaken ▸ hnext.nodup, fun k hk => ?_⟩
  · obtain ⟨hle, hkept, hshot⟩ := spawned_spec ks dtMs hr.wf hk
    refine ⟨fun i j hj => ?_, hkept, hshot⟩
    obtain ⟨q, hq⟩ := mem_projectileIds.mp hj
    have hlt := (hinterred (acts.take i)).wf.fresh hq
    have hmono := next_tally_le (hinterred (acts.take i)) (acts.drop i)
    rw [← List.foldl_append, List.take_append_drop] at hmono
    exact hlt.trans_le (hmono.trans hle)
  · rw [notMem_projectileIds]
    exact (hnext.gone k (htaken.symm ▸ hk)).2

end BattleSim

end GameServer.Game
