import GameServer.Game.Room
import GameServer.Lib.Run

/-!
Battles between two players.

With two players a projectile has one possible target, the opponent of its
owner, so the hits of a step do not interfere: a player loses `kDamage` for
every projectile of the opponent that passes it, down to zero. This gives the
hp after a step as a function of the state before it (`hp_step`), and with it
the exact tick in which a battle is decided.

A room ends when one player is left. It does not end when the last hits of
both players land in the same step: `winnerOrZero` then finds nobody alive.
-/

namespace GameServer.Game

open GameServer.Lib GameServer.Proto
open Scalar

namespace BattleSim

variable {F : Type}

/-- The players are `a` and `b`. -/
structure Between (a b : ℕ) (players : UnorderedMap ℕ (P F)) : Prop where
  ne : a ≠ b
  keys : ∀ k, (players.lookup k).isSome ↔ k = a ∨ k = b

theorem Between.mapVal {a b : ℕ} {players : UnorderedMap ℕ (P F)} (h : Between a b players)
    (g : ℕ → P F → P F) : Between a b (players.mapVal g) :=
  ⟨h.ne, fun k => by rw [UnorderedMap.lookup_mapVal, Option.isSome_map]; exact h.keys k⟩

/-- The players stay the same through a phase. -/
theorem Between.evolve {a b : ℕ} {s s' : BattleSim F × List ℕ} (h : Between a b s.1.players)
    (hev : Evolves s s') : Between a b s'.1.players :=
  ⟨h.ne, fun k => by rw [hev.isSome_iff]; exact h.keys k⟩

theorem Between.symm {a b : ℕ} {players : UnorderedMap ℕ (P F)} (h : Between a b players) :
    Between b a players :=
  ⟨h.ne.symm, fun k => (h.keys k).trans or_comm⟩

/-! ### Who is left -/

/-- The ids of the living players. -/
def livingIds (s : BattleSim F) : List ℕ := (s.players.entries.filter (·.2.alive)).keys

theorem mem_livingIds {s : BattleSim F} {k : ℕ} :
    k ∈ s.livingIds ↔ ∃ p, s.players.lookup k = some p ∧ p.alive = true := by
  simp only [livingIds, List.keys, List.mem_map, List.mem_filter]
  constructor
  · rintro ⟨e, ⟨he, halive⟩, rfl⟩
    exact ⟨e.2, UnorderedMap.mem_entries_iff.mp he, halive⟩
  · rintro ⟨p, hp, halive⟩
    exact ⟨⟨k, p⟩, ⟨UnorderedMap.mem_entries_iff.mpr hp, halive⟩, rfl⟩

theorem nodup_livingIds (s : BattleSim F) : s.livingIds.Nodup :=
  List.Sublist.nodup (List.filter_sublist.map _) s.players.nodupKeys

theorem Evolves.mem_livingIds {s s' : BattleSim F} (h : Evolves (s, []) (s', [])) {k : ℕ} :
    k ∈ s'.livingIds ↔ k ∈ s.livingIds := by
  have halive : ∀ {s : BattleSim F}, k ∈ s.livingIds ↔
      ∃ body ∈ (s.players.lookup k).map P.body, 0 < body.2.2 := by
    intro s
    rw [BattleSim.mem_livingIds]
    simp [P.alive, P.body]
  rw [halive, halive, h.same k List.not_mem_nil]

/-- A winner is found exactly when one player is alive. -/
theorem winnerOrZero_eq (s : BattleSim F) :
    s.winnerOrZero = match s.livingIds with
      | [k] => k
      | _ => 0 := by
  have hloop : ∀ (l : List (Σ _ : ℕ, P F)) (acc : ℕ × ℕ),
      l.foldl (fun (acc : ℕ × ℕ) e => if e.2.alive then (e.1, acc.2 + 1) else acc) acc =
        ((l.filter (·.2.alive)).keys.getLastD acc.1, acc.2 + (l.filter (·.2.alive)).keys.length) := by
    intro l
    induction l with
    | nil => simp
    | cons e l ih =>
        intro acc
        rw [List.foldl_cons, ih]
        by_cases h : e.2.alive = true
        · simp only [h, if_true, List.filter_cons_of_pos, List.keys, List.map_cons,
            List.length_cons, List.getLastD_cons]
          congr 1
          omega
        · simp [h]
  simp only [winnerOrZero, hloop]
  show (if 0 + s.livingIds.length = 1 then s.livingIds.getLastD 0 else 0) = _
  cases s.livingIds with
  | nil => rfl
  | cons k l =>
      cases l with
      | nil => rfl
      | cons k' l => simp

theorem winnerOrZero_of_two {s : BattleSim F} {a b : ℕ} (hne : a ≠ b) (ha : a ∈ s.livingIds)
    (hb : b ∈ s.livingIds) : s.winnerOrZero = 0 := by
  rw [winnerOrZero_eq]
  split
  · next k hk =>
      rw [hk, List.mem_singleton] at ha hb
      exact absurd (ha.trans hb.symm) hne
  · rfl

theorem winnerOrZero_of_one {s : BattleSim F} {a b : ℕ} (h : Between a b s.players)
    (ha : a ∈ s.livingIds) (hb : b ∉ s.livingIds) : s.winnerOrZero = a := by
  have honly : ∀ k ∈ s.livingIds, k = a := by
    intro k hk
    obtain ⟨p, hp, -⟩ := BattleSim.mem_livingIds.mp hk
    rcases (h.keys k).mp (by rw [hp]; rfl) with rfl | rfl
    · rfl
    · exact absurd hk hb
  have hnodup := nodup_livingIds s
  rw [winnerOrZero_eq]
  cases hl : s.livingIds with
  | nil => simp [hl] at ha
  | cons k l =>
      rw [hl] at honly hnodup
      obtain rfl := honly k (List.mem_cons_self ..)
      cases l with
      | nil => rfl
      | cons k' l =>
          obtain rfl := honly k' (List.mem_cons_of_mem _ (List.mem_cons_self ..))
          simp at hnodup

/-! ### The hits of a step -/

variable [Scalar F]

/-- The projectile would hit the player if it were its only target. -/
def strikes (dt : F) (q : Projectile F) (p : P F) : Bool :=
  (pass dt q p).2 && lt (pass dt q p).1 infinity

theorem strikes_congr {dt : F} {q : Projectile F} {p p' : P F} (hx : p'.x = p.x)
    (hy : p'.y = p.y) : strikes dt q p' = strikes dt q p := by
  simp only [strikes, pass, hx, hy]

/-- Of two players, the one who did not fire is the only candidate. -/
theorem findHit_of_owner {a b : ℕ} {players : UnorderedMap ℕ (P F)} (h : Between a b players)
    {p : P F} (hp : players.lookup a = some p) {q : Projectile F} (hq : q.ownerId = b) (dt : F) :
    (findHit dt players q).1 = if p.alive && strikes dt q p then some (a, p) else none := by
  unfold findHit
  rw [UnorderedMap.foldl_entries_of_skip (k := a)]
  · have hne : a ≠ q.ownerId := hq ▸ h.ne
    simp only [hp, hne, decide_false, Bool.false_or]
    by_cases halive : p.alive = true
    · simp only [halive, Bool.not_true, Bool.false_eq_true, if_false, Bool.true_and]
      show (if strikes dt q p then _ else _ : Option (ℕ × P F) × F).1 = _
      split <;> rfl
    · simp [halive]
  · intro acc e he hne
    have hkey : e.1 = a ∨ e.1 = b :=
      (h.keys e.1).mp (by rw [UnorderedMap.mem_entries_iff.mp he]; rfl)
    rw [if_pos]
    simp [hkey.resolve_left hne, hq]

/-- A shot of player `b` is aimed at player `a`, if that one lives and is within
the reach of the arithmetic. -/
theorem nearest_of_between {a b : ℕ} {players : UnorderedMap ℕ (P F)} (h : Between a b players)
    {p : P F} (hp : players.lookup a = some p) (shooter : P F) :
    (nearest players b shooter).1 =
      if p.alive && lt (hypot (p.x - shooter.x) (p.y - shooter.y)) infinity then some p
      else none := by
  unfold nearest
  rw [UnorderedMap.foldl_entries_of_skip (k := a)]
  · have hne : a ≠ b := h.ne
    simp only [hp, hne, decide_false, Bool.false_or]
    by_cases halive : p.alive = true
    · simp only [halive, Bool.not_true, Bool.false_eq_true, if_false, Bool.true_and]
      split <;> rfl
    · simp [halive]
  · intro acc e he hne
    have hkey : e.1 = a ∨ e.1 = b :=
      (h.keys e.1).mp (by rw [UnorderedMap.mem_entries_iff.mp he]; rfl)
    rw [if_pos]
    simp [hkey.resolve_left hne]

/-- What one projectile does to player `a` in a battle between `a` and `b`. -/
theorem advanceOne_hp {a b : ℕ} (dt : F) {acc : BattleSim F × List ℕ} {k : ℕ}
    {q : Projectile F} (h : Between a b acc.1.players) (howner : q.ownerId = a ∨ q.ownerId = b)
    (hq : acc.1.projectiles.lookup k = some q) {p : P F}
    (hp : acc.1.players.lookup a = some p) (hpos : 0 ≤ p.hp) :
    ∃ p', (advanceOne dt acc k).1.players.lookup a = some p' ∧ p'.x = p.x ∧ p'.y = p.y ∧
      p'.hp = if q.ownerId ≠ a && strikes dt q p then Max.max 0 (p.hp - kDamage) else p.hp := by
  unfold advanceOne
  rw [hq]
  dsimp only
  rcases howner with howner | howner
  · -- fired by `a` itself: whatever it hits is not `a`
    simp only [howner, ne_eq, not_true_eq_false, decide_false, Bool.false_and,
      Bool.false_eq_true, if_false]
    split
    · next key hit hfind =>
        have hkey : a ≠ key := fun heq => (findHit_some hfind).2.1 (heq ▸ howner.symm)
        exact ⟨p, by simp [removeProjectile, hkey, hp], rfl, rfl, rfl⟩
    · split <;> exact ⟨p, hp, rfl, rfl, rfl⟩
  · have hne : q.ownerId ≠ a := howner ▸ h.ne.symm
    rw [findHit_of_owner h hp howner dt]
    by_cases hstrike : strikes dt q p = true
    · by_cases halive : p.alive = true
      · simp only [halive, hstrike, Bool.and_self, if_true]
        refine ⟨{ p with hp := Max.max 0 (p.hp - kDamage) }, ?_, rfl, rfl, by simp [hne]⟩
        simp [removeProjectile, hp]
      · -- a dead player is passed through, and stays at zero
        have hzero : p.hp = 0 := by
          simp only [P.alive, decide_eq_true_eq] at halive
          omega
        have hsame : Max.max 0 (p.hp - kDamage) = p.hp := by
          rw [hzero]
          rfl
        simp only [halive, Bool.false_and, Bool.false_eq_true, if_false]
        split <;> exact ⟨p, hp, rfl, rfl, by simp [hne, hstrike, hsame]⟩
    · simp only [hstrike, Bool.and_false, Bool.false_eq_true, if_false]
      split <;> exact ⟨p, hp, rfl, rfl, rfl⟩

theorem between_advanceOne {a b : ℕ} (dt : F) {acc : BattleSim F × List ℕ}
    (h : Between a b acc.1.players)
    (hid : ∀ {k p}, acc.1.players.lookup k = some p → p.id = k) (k : ℕ) :
    Between a b (advanceOne dt acc k).1.players :=
  h.evolve (evolves_advanceOne dt hid k)

/-- The hp of player `a` after phase 4 has worked off the projectiles `l`. -/
theorem advanceAll_hp {a b : ℕ} (dt : F) {l : List (Σ _ : ℕ, Projectile F)} (hl : l.NodupKeys)
    (acc : BattleSim F × List ℕ) (h : Between a b acc.1.players)
    (hid : ∀ {k p}, acc.1.players.lookup k = some p → p.id = k)
    (hlive : ∀ e ∈ l, acc.1.projectiles.lookup e.1 = some e.2)
    (howner : ∀ e ∈ l, e.2.ownerId = a ∨ e.2.ownerId = b)
    {p : P F} (hp : acc.1.players.lookup a = some p) (hpos : 0 ≤ p.hp) :
    ∃ p', (l.keys.foldl (advanceOne dt) acc).1.players.lookup a = some p' ∧
      p'.hp = Max.max 0
        (p.hp - kDamage * l.countP fun e => e.2.ownerId ≠ a && strikes dt e.2 p) := by
  induction l generalizing acc p with
  | nil => exact ⟨p, hp, by simp [hpos]⟩
  | cons e l ih =>
      obtain ⟨k, q⟩ := e
      rw [List.nodupKeys_cons] at hl
      obtain ⟨p', hp', hx, hy, hhp⟩ :=
        advanceOne_hp dt h (howner _ (List.mem_cons_self ..)) (hlive _ (List.mem_cons_self ..))
          hp hpos
      have hlive' : ∀ e ∈ l, (advanceOne dt acc k).1.projectiles.lookup e.1 = some e.2 := by
        intro e he
        have hne : e.1 ≠ k := by
          rintro rfl
          have hmem := List.mem_keys_of_mem he
          exact hl.1 hmem
        rw [lookup_advanceOne_ne dt acc hne]
        exact hlive e (List.mem_cons_of_mem _ he)
      have hpos' : 0 ≤ p'.hp := by
        rw [hhp]
        split
        · exact le_max_left _ _
        · exact hpos
      obtain ⟨p'', hp'', hhp''⟩ := ih hl.2 _ (between_advanceOne dt h hid k)
        (fun hp => (evolves_advanceOne dt hid k).player_id hid hp) hlive'
        (fun e he => howner e (List.mem_cons_of_mem _ he)) hp' hpos'
      refine ⟨p'', hp'', ?_⟩
      simp only [strikes_congr hx hy] at hhp''
      rw [hhp'', hhp, List.countP_cons]
      simp only [kDamage]
      split <;> push_cast <;> omega

/-- How many projectiles in flight strike player `id` where it moves to in a
step of `dt`. -/
def struck (dt : F) (s : BattleSim F) (id : ℕ) (p : P F) : ℕ :=
  s.projectiles.entries.countP fun e =>
    e.2.ownerId ≠ id && strikes dt e.2 (movePlayer dt p).1

/-- The projectiles in flight kill player `id` in a step of `dtMs`. -/
def fatallyStruck (dtMs : ℕ) (s : BattleSim F) (id : ℕ) : Bool :=
  match s.players.lookup id with
  | none => false
  | some p => p.hp ≤ kDamage * struck (lit dtMs / lit 1000) s id p

/-- When phase 4 begins, a player stands where phase 1 has put it. -/
theorem lookup_armed (ks : List ℕ) (dtMs : ℕ) {s : BattleSim F} {id : ℕ} {p : P F}
    (hp : s.players.lookup id = some p) :
    ∃ p', (armed ks dtMs s).players.lookup id = some p' ∧
      p'.body = (movePlayer (lit dtMs / lit 1000) p).1.body := by
  have hmoved : (moveAll (lit dtMs / lit 1000) { s with removedProjectileIds := [] }).1.players.lookup
      id = some (movePlayer (lit dtMs / lit 1000) p).1 := by
    simp [moveAll, hp]
  have hsame := ((evolves_coolAll dtMs
    (moveAll (lit dtMs / lit 1000) { s with removedProjectileIds := [] }).1 []).trans
      (evolves_attackAll ks _ [])).same id List.not_mem_nil
  dsimp only at hsame
  rw [hmoved] at hsame
  exact Option.map_eq_some_iff.mp hsame

/-- The hp after a step, from the state before it. -/
theorem hp_step {a b : ℕ} {s : BattleSim F} (hs : s.Wf) (h : Between a b s.players)
    (ks : List ℕ) (dtMs : ℕ) {p : P F} (hp : s.players.lookup a = some p) (hpos : 0 ≤ p.hp) :
    ∃ p', (step ks dtMs s).1.players.lookup a = some p' ∧
      p'.hp = Max.max 0 (p.hp - kDamage * struck (lit dtMs / lit 1000) s a p) := by
  obtain ⟨p₃, hp₃, hbody⟩ := lookup_armed ks dtMs hp
  simp only [P.body, Prod.mk.injEq, movePlayer_hp] at hbody
  obtain ⟨hx, hy, hhp⟩ := hbody
  have harmed := hs.armed ks dtMs
  have hfired := fired_armed ks dtMs s
  have hbetween : Between a b (armed ks dtMs s).players := h.evolve (evolves_armed ks dtMs s)
  have hlive : ∀ e ∈ s.projectiles.entries,
      (armed ks dtMs s).projectiles.lookup e.1 = some e.2 := by
    intro e he
    have hbefore := UnorderedMap.mem_entries_iff.mp he
    exact (hfired.old e.1 (hs.fresh hbefore)).trans hbefore
  have howner : ∀ e ∈ s.projectiles.entries, e.2.ownerId = a ∨ e.2.ownerId = b :=
    fun e he => (h.keys _).mp (hs.owner (UnorderedMap.mem_entries_iff.mp he))
  obtain ⟨p', hp', hhp'⟩ := advanceAll_hp (lit dtMs / lit 1000) s.projectiles.nodupKeys
    (armed ks dtMs s, (moveAll (lit dtMs / lit 1000) { s with removedProjectileIds := [] }).2)
    hbetween harmed.player_id hlive howner hp₃ (by omega)
  refine ⟨p', hp', ?_⟩
  rw [hhp', hhp]
  simp only [struck, strikes_congr hx hy]

end BattleSim

/-! ### Two-player rooms -/

/-- Two players and their connections, as `tryMatch` puts them into a room. -/
structure Pairing where
  a : ℕ
  b : ℕ
  connA : Option Conn
  connB : Option Conn
  ne : a ≠ b
  a_ne : a ≠ 0
  b_ne : b ≠ 0

def Pairing.players (d : Pairing) : List (ℕ × Option Conn) := [(d.a, d.connA), (d.b, d.connB)]

namespace Room

open BattleSim

variable {F : Type}

/-- The battle is still open, or it was ended with a `BattleEnd` to all. -/
def Decided (s : Room F × List (RoomAct F)) : Prop :=
  s.1.sim.livingIds.length < 2 →
    s.1.ended = true ∧ ∃ w slots, .broadcast (.battleEnd w) slots ∈ s.2

/-- Both players live, or the battle has been ended. -/
structure Fair (d : Pairing) (s : Room F × List (RoomAct F)) : Prop where
  wf : s.1.sim.Wf
  between : Between d.a d.b s.1.sim.players
  open_or_ended : (d.a ∈ s.1.sim.livingIds ∧ d.b ∈ s.1.sim.livingIds) ∨
    (s.1.ended = true ∧ ∃ w slots, .broadcast (.battleEnd w) slots ∈ s.2)

theorem Fair.decided {d : Pairing} {s : Room F × List (RoomAct F)} (h : Fair d s) :
    Decided s := by
  intro hfew
  rcases h.open_or_ended with ⟨ha, hb⟩ | hended
  · exfalso
    cases hl : s.1.sim.livingIds with
    | nil => simp [hl] at ha
    | cons k l =>
        cases l with
        | nil =>
            rw [hl, List.mem_singleton] at ha hb
            exact d.ne (ha.trans hb.symm)
        | cons k' l =>
            simp only [hl, List.length_cons] at hfew
            omega
  · exact hended

variable [Scalar F]

theorem evolves_apply (r : Room F) (op : RoomOp F) (hop : ∀ ks, op ≠ .onTick ks) :
    Evolves (r.sim, []) ((r.apply op).1.sim, []) := by
  cases op with
  | onTick ks => exact absurd rfl (hop ks)
  | task task =>
      cases task with
      | onInput q input =>
          simp only [apply, exec, onInput]
          split
          · exact .refl _
          · exact evolves_applyInput r.sim q input
      | rebind q conn => exact (rebind_sim r q conn).1 ▸ .refl _
      | forceEnd w =>
          simp only [apply, exec, forceEnd]
          split <;> exact .refl _
      | start | dropConn | stop | resetTicker => exact .refl _

theorem apply_ended {r : Room F} (h : r.ended = true) (op : RoomOp F) :
    (r.apply op).1.ended = true := by
  cases op with
  | onTick ks => simp [apply, onTick, h]
  | task task =>
      cases task with
      | rebind q conn =>
          simp only [apply, exec, rebind]
          split <;> exact h
      | onInput => simp [apply, exec, onInput, h]
      | forceEnd => simp [apply, exec, forceEnd, h]
      | stop => rfl
      | start | dropConn | resetTicker => exact h

/-- The next operation is not a tick in which the projectiles in flight kill
both players. -/
def Spares (d : Pairing) (s : Room F × List (RoomAct F)) : RoomOp F → Prop
  | .onTick _ => s.1.ended = false →
      ¬(fatallyStruck kTickMs s.1.sim d.a = true ∧ fatallyStruck kTickMs s.1.sim d.b = true)
  | _ => True

instance (d : Pairing) (s : Room F × List (RoomAct F)) : (op : RoomOp F) →
    Decidable (Spares d s op)
  | .task _ => .isTrue trivial
  | .onTick _ => inferInstanceAs (Decidable (_ → ¬(_ ∧ _)))

/-- A living player survives a tick unless it is fatally struck. -/
theorem mem_livingIds_simulate {r : Room F} (hwf : r.sim.Wf) {a b : ℕ}
    (h : Between a b r.sim.players) (halive : a ∈ r.sim.livingIds) (ks : List ℕ) :
    a ∈ (r.simulate ks).1.sim.livingIds ↔ fatallyStruck kTickMs r.sim a = false := by
  obtain ⟨p, hp, hpos⟩ := BattleSim.mem_livingIds.mp halive
  simp only [P.alive, decide_eq_true_eq] at hpos
  obtain ⟨p', hp', hhp⟩ := hp_step hwf h ks kTickMs hp hpos.le
  have hlookup : (r.simulate ks).1.sim.players.lookup a = some p' := hp'
  rw [BattleSim.mem_livingIds]
  simp only [hlookup, Option.some.injEq, exists_eq_left', P.alive, fatallyStruck, hp,
    decide_eq_true_eq, decide_eq_false_iff_not, hhp]
  omega

theorem between_simulate {r : Room F} (hwf : r.sim.Wf) {a b : ℕ}
    (h : Between a b r.sim.players) (ks : List ℕ) :
    Between a b (r.simulate ks).1.sim.players :=
  h.evolve (evolves_step ks kTickMs hwf)

theorem Fair.onTick {d : Pairing} {s : Room F × List (RoomAct F)} (h : Fair d s) {ks : List ℕ}
    (hok : Spares d s (.onTick ks)) : Fair d (run s (.onTick ks)) := by
  cases hended : s.1.ended with
  | true =>
      have hsame : run s (.onTick ks) = s := by simp [run, apply, Room.onTick, hended]
      rw [hsame]
      exact h
  | false =>
      obtain ⟨ha, hb⟩ := h.open_or_ended.resolve_right (by simp [hended])
      have hwf := wf_simulate h.wf ks
      have hbetween := between_simulate h.wf h.between ks
      have hsa := mem_livingIds_simulate h.wf h.between ha ks
      have hsb := mem_livingIds_simulate h.wf h.between.symm hb ks
      have hspares := hok hended
      simp only [run, apply, Room.onTick, hended, Bool.false_eq_true, if_false]
      -- at least one player survives; if it is one, the tick ends the battle
      by_cases hboth : d.a ∈ (s.1.simulate ks).1.sim.livingIds ∧
          d.b ∈ (s.1.simulate ks).1.sim.livingIds
      · rw [winnerOrZero_of_two d.ne hboth.1 hboth.2]
        exact ⟨hwf, hbetween, .inl hboth⟩
      · have hwinner : (s.1.simulate ks).1.sim.winnerOrZero ≠ 0 := by
          by_cases hla : d.a ∈ (s.1.simulate ks).1.sim.livingIds
          · have hlb : d.b ∉ (s.1.simulate ks).1.sim.livingIds := fun hlb => hboth ⟨hla, hlb⟩
            rw [winnerOrZero_of_one hbetween hla hlb]
            exact d.a_ne
          · have hlb : d.b ∈ (s.1.simulate ks).1.sim.livingIds := by
              rw [hsa, Bool.not_eq_false] at hla
              rw [hsb, ← Bool.not_eq_true]
              exact fun hfatal => hspares ⟨hla, hfatal⟩
            rw [winnerOrZero_of_one hbetween.symm hlb hla]
            exact d.b_ne
        rw [if_pos hwinner]
        refine ⟨hwf, hbetween, .inr ⟨rfl, (s.1.simulate ks).1.sim.winnerOrZero,
          (s.1.simulate ks).1.bound, ?_⟩⟩
        exact List.mem_append_right _ (List.mem_append_right _ (List.mem_cons_self ..))

theorem Fair.run {d : Pairing} {s : Room F × List (RoomAct F)} (h : Fair d s) {op : RoomOp F}
    (hok : Spares d s op) : Fair d (run s op) := by
  cases op with
  | onTick ks => exact h.onTick hok
  | task task =>
      have hev := evolves_apply s.1 (.task task) (by simp)
      refine ⟨wf_apply h.wf _, h.between.evolve hev, ?_⟩
      · rcases h.open_or_ended with ⟨ha, hb⟩ | ⟨hended, w, slots, hmem⟩
        · exact .inl ⟨hev.mem_livingIds.mpr ha, hev.mem_livingIds.mpr hb⟩
        · exact .inr ⟨apply_ended hended _, w, slots, List.mem_append_left _ hmem⟩

theorem fair_new (ks : List ℕ) (id : ℕ) (d : Pairing) :
    Fair d ((new ks id d.players, []) : Room F × List (RoomAct F)) := by
  have hlookup : ∀ k, (new ks id d.players : Room F).sim.players.lookup k =
      ((({} : BattleSim F).addPlayer ks d.a (lit 30) (lit 50)).addPlayer ks d.b (lit 70)
        (lit 50)).players.lookup k := fun _ => rfl
  have hne := d.ne
  refine ⟨wf_new ks id d.players, ⟨d.ne, fun k => ?_⟩, .inl ⟨?_, ?_⟩⟩
  · rw [hlookup]
    simp only [addPlayer, UnorderedMap.lookup_reorder, UnorderedMap.lookup_insert_eq]
    split
    · simp [*]
    · split
      · simp [*]
      · simp [*]
  · rw [BattleSim.mem_livingIds, hlookup]
    simp only [addPlayer, UnorderedMap.lookup_reorder, UnorderedMap.lookup_insert_eq, hne]
    exact ⟨_, rfl, rfl⟩
  · rw [BattleSim.mem_livingIds, hlookup]
    simp only [addPlayer, UnorderedMap.lookup_reorder, UnorderedMap.lookup_insert_eq]
    exact ⟨_, rfl, rfl⟩

/-- In a run of a two-player room without a tick that kills both players at
once, a battle with fewer than two living players has been ended and its end
broadcast, after every operation. -/
theorem decided_battle_ends (ks : List ℕ) (id : ℕ) (d : Pairing) (ops : List (RoomOp F))
    (hspares : Along run (Spares d) (new ks id d.players, []) ops) :
    Decided (ops.foldl run (new ks id d.players, [])) :=
  (invariant_run (fun _ _ h hok => h.run hok) (fair_new ks id d) hspares).decided

/-- Player 1 attacks and player 2 stands still. The fourth hit comes in tick 43
and decides the battle. -/
theorem decided_battle_ends_one_attacker :
    let d : Pairing := ⟨1, 2, some 1, some 2, by decide, by decide, by decide⟩
    let ops : List (RoomOp (Ext ℚ)) :=
      [.task .start, .task (.onInput 1 ⟨1, .fin 0, .fin 0, true⟩)] ++
        List.replicate 43 (.onTick [])
    let s := ops.foldl run (new [] 1 d.players, [])
    s.1.sim.livingIds = [1] ∧ s.1.ended = true ∧
      ∃ w slots, .broadcast (.battleEnd w) slots ∈ s.2 := by
  intro d ops s
  have hspares : Along run (Spares d) (new [] 1 d.players, []) ops := by decide +kernel
  have hliving : s.1.sim.livingIds = [1] := by decide +kernel
  have hdecided : Decided s := decided_battle_ends [] 1 d ops hspares
  exact ⟨hliving, hdecided (by rw [hliving]; decide)⟩

/-- Both players stand still and attack from the first tick on. Their shots
land in the same steps; after 43 ticks both are dead, and the room goes on. -/
theorem double_kill_is_not_decided :
    let d : Pairing := ⟨1, 2, some 1, some 2, by decide, by decide, by decide⟩
    let attack : PlayerInput (Ext ℚ) := ⟨1, .fin 0, .fin 0, true⟩
    let ops : List (RoomOp (Ext ℚ)) :=
      [.task .start, .task (.onInput 1 attack), .task (.onInput 2 attack)] ++
        List.replicate 43 (.onTick [])
    ¬Decided (ops.foldl run (new [] 1 d.players, [])) := by
  intro d attack ops hdecided
  have hdead : (ops.foldl run (new [] 1 d.players, [])).1.sim.livingIds.length < 2 := by
    decide +kernel
  have hgoing : (ops.foldl run (new [] 1 d.players, [])).1.ended = false := by
    decide +kernel
  have hended := (hdecided hdead).1
  rw [hgoing] at hended
  cases hended

end Room

end GameServer.Game
