import GameServer.Game.Volley
import GameServer.Lib.RateLimit

/-!
The rate of fire.

Attacking is an action limited by a countdown: `cdMs` is the time left on it,
phase 2 lets it run, and phase 3 fires when it has run out. What the clients
send in between decides whether a player fires when it may, and no more. The
arithmetic has to count whole milliseconds exactly, up to the cooldown.
-/

namespace GameServer.Game

open GameServer.Lib GameServer.Proto
open Scalar

namespace BattleSim

variable {F : Type} [Scalar F]

/-- The owners of the projectiles that a step adds. -/
def spawnedOwners (ks : List ℕ) (dtMs : ℕ) (s : BattleSim F) : List ℕ :=
  ((step ks dtMs s).1.projectiles.entries.filter fun e => e.1 ∉ s.projectileIds).map
    fun e => e.2.ownerId

/-- The steps of a run, as ticks of the limit on player `id`. -/
def timeline (id : ℕ) : BattleSim F → List (SimAct F) → List Tick
  | _, [] => []
  | s, .applyInput id' input :: acts => timeline id (applyInput id' input s) acts
  | s, .step ks dtMs :: acts =>
      ⟨dtMs, id ∈ spawnedOwners ks dtMs s⟩ :: timeline id (step ks dtMs s).1 acts

/-! ### One step -/

theorem spawned_entry (ks : List ℕ) (dtMs : ℕ) {s : BattleSim F} (hs : s.Wf)
    {e : Σ _ : ℕ, Projectile F} (he : e ∈ (step ks dtMs s).1.projectiles.entries)
    (hnew : e.1 ∉ s.projectileIds) :
    ∃ i, e.1 = s.nextProjectileId + i ∧ (shooters dtMs s)[i]? = some e.2.ownerId := by
  have hnone : s.projectiles.lookup e.1 = none := AList.lookup_eq_none.mpr hnew
  have hq := UnorderedMap.mem_entries_iff.mp he
  rw [lookup_step_new ks dtMs hnone] at hq
  obtain ⟨i, id, p, hi, hid, -, -, hshot⟩ := armed_new ks dtMs hs hnone hq
  exact ⟨i, hi, by rw [hid, hshot]; rfl⟩

theorem mem_spawnedOwners (ks : List ℕ) (dtMs : ℕ) {s : BattleSim F} (hs : s.Wf) {id : ℕ} :
    id ∈ spawnedOwners ks dtMs s ↔
      ∃ p, s.players.lookup id = some p ∧ (p.cooled dtMs).fires = true := by
  rw [← mem_shooters]
  simp only [spawnedOwners, List.mem_map, List.mem_filter, decide_eq_true_eq]
  constructor
  · rintro ⟨e, ⟨he, hnew⟩, rfl⟩
    obtain ⟨i, -, hid⟩ := spawned_entry ks dtMs hs he hnew
    exact List.mem_of_getElem? hid
  · intro hmem
    obtain ⟨i, hid⟩ := List.getElem?_of_mem hmem
    obtain ⟨p, hp, -⟩ := mem_shooters.mp hmem
    -- its shot has the id at its place in the numbering, which was free
    have hnone : s.projectiles.lookup (s.nextProjectileId + i) = none := by
      rw [Option.eq_none_iff_forall_ne_some]
      intro q hq
      have := hs.fresh hq
      omega
    have hshot := armed_shot ks dtMs hs hid hp
    rw [← lookup_step_new ks dtMs hnone] at hshot
    exact ⟨⟨_, _⟩, ⟨UnorderedMap.mem_entries_iff.mpr hshot, AList.lookup_eq_none.mp hnone⟩, rfl⟩

/-- A player fires at most once in a step. -/
theorem spawned_inj (ks : List ℕ) (dtMs : ℕ) {s : BattleSim F} (hs : s.Wf)
    {e e' : Σ _ : ℕ, Projectile F} (he : e ∈ (step ks dtMs s).1.projectiles.entries)
    (hnew : e.1 ∉ s.projectileIds) (he' : e' ∈ (step ks dtMs s).1.projectiles.entries)
    (hnew' : e'.1 ∉ s.projectileIds) (howner : e.2.ownerId = e'.2.ownerId) : e.1 = e'.1 := by
  obtain ⟨i, hi, hid⟩ := spawned_entry ks dtMs hs he hnew
  obtain ⟨i', hi', hid'⟩ := spawned_entry ks dtMs hs he' hnew'
  obtain ⟨hlt, -⟩ := List.getElem?_eq_some_iff.mp hid
  rw [← howner, ← hid] at hid'
  have hindex := (List.getElem?_inj hlt (nodup_shooters dtMs s)).mp hid'.symm
  omega

theorem nodup_spawnedOwners (ks : List ℕ) (dtMs : ℕ) {s : BattleSim F} (hs : s.Wf) :
    (spawnedOwners ks dtMs s).Nodup := by
  have hentries := (step ks dtMs s).1.projectiles.nodupKeys
  refine List.Nodup.map_on ?_ (hentries.nodup.filter _)
  intro e he e' he' howner
  simp only [List.mem_filter, decide_eq_true_eq] at he he'
  exact hentries.eq_of_fst_eq he.1 he'.1 (spawned_inj ks dtMs hs he.1 he.2 he'.1 he'.2 howner)

/-- What a step makes of a cooldown. -/
theorem cdMs_step (ks : List ℕ) (dtMs : ℕ) {s : BattleSim F} (hs : s.Wf) (id : ℕ) :
    ((step ks dtMs s).1.players.lookup id).map P.cdMs =
      (s.players.lookup id).map fun p => (p.ready dtMs).cdMs :=
  map_step_ready (fun _ _ => rfl) ks dtMs hs id

omit [Scalar F] in
theorem cdMs_applyInput (s : BattleSim F) (id' : ℕ) (input : PlayerInput F) (id : ℕ) :
    ((applyInput id' input s).players.lookup id).map P.cdMs =
      (s.players.lookup id).map P.cdMs := by
  simp only [applyInput, UnorderedMap.lookup_modify]
  split
  · rw [Option.map_map]
    rfl
  · rfl

/-! ### Runs -/

/-- Player `id`, if there is one, has `c` milliseconds to wait. -/
def Waits (id c : ℕ) (s : BattleSim F) : Prop :=
  ∀ x, (s.players.lookup id).map P.cdMs = some x → x = lit (c : ℚ)

theorem Waits.applyInput {s : BattleSim F} {id c : ℕ} (h : Waits id c s) (id' : ℕ)
    (input : PlayerInput F) : Waits id c (applyInput id' input s) := fun x hx =>
  h x ((cdMs_applyInput s id' input id).symm.trans hx)

/-- Who fires has waited, and has to wait again. -/
theorem Waits.step [CountsDown F 500] {s : BattleSim F} (hs : s.Wf) {id c : ℕ} (hc : c ≤ 500)
    (h : Waits id c s) (ks : List ℕ) (dtMs : ℕ) :
    (id ∈ spawnedOwners ks dtMs s → c ≤ dtMs) ∧
      Waits id (if id ∈ spawnedOwners ks dtMs s then 500 else c - dtMs)
        (step ks dtMs s).1 := by
  have hcooled : ∀ p, s.players.lookup id = some p →
      (p.cooled dtMs).cdMs = lit ((c - dtMs : ℕ) : ℚ) := by
    intro p hp
    have hmoved : (movePlayer (lit dtMs / lit 1000) p).1.cdMs = lit (c : ℚ) := by
      rw [movePlayer_cdMs]
      exact h p.cdMs (by rw [hp, Option.map_some])
    rw [P.cooled, hmoved]
    exact CountsDown.countdown c dtMs hc
  refine ⟨fun hacts => ?_, fun x hx => ?_⟩
  · obtain ⟨p, hp, hfires⟩ := (mem_spawnedOwners ks dtMs hs).mp hacts
    simp only [P.fires, hcooled p hp, Bool.and_eq_true, Bool.not_eq_true'] at hfires
    rw [CountsDown.running (n := 500) (c - dtMs) (by omega), decide_eq_false_iff_not] at hfires
    omega
  · rw [cdMs_step ks dtMs hs] at hx
    obtain ⟨p, hp, rfl⟩ := Option.map_eq_some_iff.mp hx
    have hfires : id ∈ spawnedOwners ks dtMs s ↔ (p.cooled dtMs).fires = true := by
      rw [mem_spawnedOwners ks dtMs hs]
      simp [hp]
    simp only [hfires, P.ready, P.reload]
    split
    · rw [kAttackCd]
      norm_num
    · exact hcooled p hp

theorem paced_timeline [CountsDown F 500] {s : BattleSim F} (hs : s.Wf) {id c : ℕ} (hc : c ≤ 500)
    (hwaits : Waits id c s) (acts : List (SimAct F)) : Paced 500 c (timeline id s acts) := by
  induction acts generalizing s c with
  | nil => trivial
  | cons a acts ih =>
      cases a with
      | applyInput id' input =>
          exact ih (hs.applyInput id' input) hc (hwaits.applyInput id' input)
      | step ks dtMs =>
          obtain ⟨hwait, hnext⟩ := hwaits.step hs hc ks dtMs
          refine ⟨fun hacts => hwait (by simpa using hacts), ?_⟩
          simp only [decide_eq_true_eq]
          exact ih (hs.step ks dtMs) (by split <;> omega) hnext

theorem waits_deploy (arrivals : List (Arrival F)) (id : ℕ) : Waits id 0 (deploy arrivals) := by
  refine invariant_run_of_step (fun s a h x hx => ?_) (fun x hx => nomatch hx) arrivals
  simp only [addPlayer, UnorderedMap.lookup_reorder, UnorderedMap.lookup_insert_eq] at hx
  split at hx
  · rw [Nat.cast_zero]
    exact (Option.some.inj hx).symm
  · exact h x hx

/-- In every run: a step adds at most one projectile for each player, and for
living players only; between two steps in which a player fires, 500
milliseconds are simulated; and a player fires at most `1 + T / 500` times in
a window of steps that is `T` milliseconds long. -/
theorem rate_of_fire [CountsDown F 500] (arrivals : List (Arrival F)) (acts : List (SimAct F)) :
    (∀ ks dtMs, (spawnedOwners ks dtMs (acts.foldl act (deploy arrivals))).Nodup ∧
        ∀ id ∈ spawnedOwners ks dtMs (acts.foldl act (deploy arrivals)),
          ∃ p, (acts.foldl act (deploy arrivals)).players.lookup id = some p ∧ p.alive = true) ∧
      (∀ id pre t mid t' post,
        timeline id (deploy arrivals) acts = pre ++ t :: (mid ++ t' :: post) →
        t.acts = true → t'.acts = true → 500 ≤ elapsed mid + t'.dt) ∧
      ∀ id pre t w post, timeline id (deploy arrivals) acts = pre ++ t :: w ++ post →
        uses (t :: w) ≤ 1 + elapsed w / 500 := by
  have hpaced : ∀ id, Paced 500 0 (timeline id (deploy arrivals) acts) := fun id =>
    paced_timeline (wf_deploy arrivals) (Nat.zero_le _) (waits_deploy arrivals id) acts
  refine ⟨fun ks dtMs => ⟨nodup_spawnedOwners ks dtMs (wf_battle arrivals acts), ?_⟩, ?_, ?_⟩
  · intro id hid
    obtain ⟨p, hp, hfires⟩ := (mem_spawnedOwners ks dtMs (wf_battle arrivals acts)).mp hid
    refine ⟨p, hp, ?_⟩
    simp only [P.fires, Bool.and_eq_true, P.cooled_alive] at hfires
    exact hfires.1.1.1
  · intro id pre t mid t' post hline ht ht'
    exact (hline ▸ hpaced id).gap (Nat.zero_le _) ht ht'
  · intro id pre t w post hline
    exact (hline ▸ hpaced id).uses_window (Nat.zero_le _) (by omega)

/-- Player 1 attacks throughout, in steps of different lengths. -/
theorem rate_of_fire_of_one_attacker :
    let arrivals : List (Arrival (Ext ℚ)) :=
      [⟨[], 1, .fin 30, .fin 50⟩, ⟨[], 2, .fin 70, .fin 50⟩]
    let acts : List (SimAct (Ext ℚ)) :=
      [.applyInput 1 ⟨1, .fin 0, .fin 0, true⟩, .step [] 50, .step [] 400, .step [] 90,
        .step [] 10]
    timeline 1 (deploy arrivals) acts =
        [⟨50, true⟩, ⟨400, false⟩, ⟨90, false⟩, ⟨10, true⟩] ∧
      500 ≤ elapsed [⟨400, false⟩, ⟨90, false⟩] + 10 := by
  intro arrivals acts
  have hline : timeline 1 (deploy arrivals) acts =
      [⟨50, true⟩, ⟨400, false⟩, ⟨90, false⟩, ⟨10, true⟩] := by decide +kernel
  exact ⟨hline, (rate_of_fire arrivals acts).2.1 1 [] ⟨50, true⟩ [⟨400, false⟩, ⟨90, false⟩]
    ⟨10, true⟩ [] hline rfl rfl⟩

end BattleSim

end GameServer.Game
