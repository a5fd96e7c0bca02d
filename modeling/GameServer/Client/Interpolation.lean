import GameServer.Client.Replica
import GameServer.Client.Sampling
import GameServer.Game.Arena
import Mathlib.Data.List.Chain

/-!
What the interpolator shows of the past.

Every accepted snapshot gives each track one keyframe, so the keyframes of a
track are the ticks that were sent. A tick that changes nothing is not sent,
and the ticks between two keyframes are those in which the player stood where
the earlier keyframe has it. Interpolation shows it there if the keyframes
are consecutive or the position is the same in both; when the first snapshot
after a silent tick brings a move, it draws a slow drift instead.

No arithmetic is taken to be exact. What is asked of it is what
`Interpolates` and `Fenced` say, for ticks up to `exactTicks`.
-/

namespace GameServer.Client

open GameServer.Lib GameServer.Proto GameServer.Game
open SnapshotInterpolator Scalar

variable {F : Type}

/-- The ticks that a `float` tells apart. -/
def exactTicks : ℕ := 2 ^ 24

/-! ### A snapshot adds one keyframe to each track -/

theorem lookup_trackPlayers_of_nodup (tick : ℕ) {ps : List (PlayerState F)}
    (hnodup : (ps.map (·.playerId)).Nodup) (tracks : UnorderedMap ℕ (List (Keyframe F)))
    (id : ℕ) :
    (∃ p ∈ ps, p.playerId = id ∧ (ps.foldl (trackPlayer tick) tracks).lookup id =
        some (appendKeyframe ((tracks.lookup id).getD []) (keyframeOf tick p))) ∨
      ((∀ p ∈ ps, p.playerId ≠ id) ∧
        (ps.foldl (trackPlayer tick) tracks).lookup id = tracks.lookup id) := by
  induction ps generalizing tracks with
  | nil => exact .inr ⟨by simp, rfl⟩
  | cons p ps ih =>
      obtain ⟨hnot, hnodup⟩ := List.nodup_cons.mp hnodup
      rw [List.foldl_cons]
      rcases ih hnodup (trackPlayer tick tracks p) with ⟨p', hp', hid, hlook⟩ | ⟨hnone, hlook⟩
      · have hne : id ≠ p.playerId := by
          rintro rfl
          exact hnot (List.mem_map.mpr ⟨p', hp', hid⟩)
        refine .inl ⟨p', List.mem_cons_of_mem _ hp', hid, ?_⟩
        rw [hlook, trackPlayer, AList.lookup_insert_ne hne]
      · rw [hlook]
        by_cases hid : p.playerId = id
        · subst hid
          exact .inl ⟨p, List.mem_cons_self .., rfl, AList.lookup_insert _⟩
        · refine .inr ⟨?_, ?_⟩
          · simpa [hid] using hnone
          · rw [trackPlayer, AList.lookup_insert_ne (Ne.symm hid)]

theorem carry_appendKeyframe (tick : ℕ) (track : List (Keyframe F)) {kf : Keyframe F}
    (h : kf.tick = tick) : carry tick (appendKeyframe track kf) = appendKeyframe track kf := by
  simp [carry, h]

/-- After an accepted snapshot every track is the old one with a keyframe of
the new tick; a track is new only for a listed player. -/
theorem merge_tracks {s : SnapshotInterpolator F} {snap : StateSnapshot F}
    (hnodup : (snap.players.map (·.playerId)).Nodup) {id : ℕ}
    (hold : ∀ track, s.tracks.lookup id = some track →
      ∃ last, track.getLast? = some last ∧ last.tick ≠ snap.tick)
    {track' : List (Keyframe F)} (htrack : (s.merge snap).tracks.lookup id = some track') :
    ((s.tracks.lookup id).isSome ∨ ∃ p ∈ snap.players, p.playerId = id) ∧
      ∃ kf, kf.tick = snap.tick ∧
        track' = appendKeyframe ((s.tracks.lookup id).getD []) kf := by
  simp only [merge, UnorderedMap.lookup_mapVal] at htrack
  obtain ⟨track, hlook, rfl⟩ := Option.map_eq_some_iff.mp htrack
  rcases lookup_trackPlayers_of_nodup snap.tick hnodup s.tracks id with
    ⟨p, hp, hid, hlisted⟩ | ⟨-, hsame⟩
  · obtain rfl := Option.some.inj (hlook.symm.trans hlisted)
    exact ⟨.inr ⟨p, hp, hid⟩, keyframeOf snap.tick p, rfl, carry_appendKeyframe _ _ rfl⟩
  · rw [hlook] at hsame
    obtain ⟨last, hlast, hne⟩ := hold track hsame.symm
    refine ⟨.inl (by rw [← hsame]; rfl), { last with tick := snap.tick }, rfl, ?_⟩
    rw [← hsame, Option.getD_some]
    simp [carry, hlast, hne]

/-! ### A track that records the past

`past k` is what a player's state was at the end of tick `k`. -/

def Keyframe.body (kf : Keyframe F) : F × F × ℤ := (kf.x, kf.y, kf.hp)

section Recording

variable [Scalar F]

/-- Two neighbours in a track: up to the later one the player was as in the
earlier one, and sampling in between shows it there. -/
structure Links (past : ℕ → Option (F × F × ℤ)) (a b : Keyframe F) : Prop where
  later : a.tick < b.tick
  held : ∀ k, a.tick ≤ k → k < b.tick → past k = some a.body
  steady : ∀ k : ℕ, a.tick ≤ k → k < b.tick →
    Same (interpolate (lit k) a b).x a.x ∧ Same (interpolate (lit k) a b).y a.y

structure Recorded (past : ℕ → Option (F × F × ℤ)) (latest now : ℕ)
    (track : List (Keyframe F)) : Prop where
  chain : track.IsChain (Links past)
  bound : ∀ kf ∈ track, kf.tick ≤ latest
  small : 1 < track.length → latest ≤ exactTicks
  ends : ∃ kf, track.getLast? = some kf ∧ kf.tick = latest ∧
    ∀ k, latest ≤ k → k ≤ now → past k = some kf.body

variable {past past' : ℕ → Option (F × F × ℤ)} {latest now : ℕ} {track : List (Keyframe F)}

/-- The record of a track depends on the past up to its last keyframe. -/
theorem Recorded.chain_congr (h : Recorded past latest now track)
    (hpast : ∀ k, k < latest → past' k = past k) : track.IsChain (Links past') := by
  refine h.chain.imp_of_mem_imp fun a b _ hb hlink => ?_
  have hbound := h.bound b hb
  exact ⟨hlink.later, fun k hlo hhi => (hpast k (by omega)).trans (hlink.held k hlo hhi),
    hlink.steady⟩

/-- A track with one keyframe. -/
theorem recorded_single {kf : Keyframe F} (htick : kf.tick = now)
    (hpast : past now = some kf.body) : Recorded past now now [kf] := by
  refine ⟨List.isChain_singleton _, fun kf' hkf' => ?_, fun hlong => ?_, kf, rfl, htick,
    fun k hlo hhi => ?_⟩
  · rw [List.mem_singleton.mp hkf', htick]
  · exact absurd hlong (Nat.lt_irrefl 1)
  · rw [show k = now by omega, hpast]

/-- A tick that is not sent. -/
theorem Recorded.silent (h : Recorded past latest now track) (hle : latest ≤ now)
    (hold : ∀ k, k ≤ now → past' k = past k) (hnew : past' (now + 1) = past now) :
    Recorded past' latest (now + 1) track := by
  refine ⟨h.chain_congr fun k hk => hold k (by omega), h.bound, h.small, ?_⟩
  obtain ⟨kf, hlast, htick, hheld⟩ := h.ends
  refine ⟨kf, hlast, htick, fun k hlo hhi => ?_⟩
  rcases Nat.lt_or_ge now k with hk | hk
  · rw [show k = now + 1 by omega, hnew, hheld now hle le_rfl]
  · rw [hold k hk, hheld k hlo hk]

/-- A tick that is sent. -/
theorem Recorded.append (h : Recorded past latest now track) (hle : latest ≤ now)
    (hold : ∀ k, k ≤ now → past' k = past k) {kf : Keyframe F} (htick : kf.tick = now + 1)
    (hexact : now < exactTicks) (hnew : past' (now + 1) = some kf.body)
    (hsteady : ∀ a, track.getLast? = some a → ∀ k : ℕ, a.tick ≤ k → k < kf.tick →
      Same (interpolate (lit k) a kf).x a.x ∧ Same (interpolate (lit k) a kf).y a.y) :
    Recorded past' (now + 1) (now + 1) (appendKeyframe track kf) := by
  obtain ⟨last, hlast, hltick, hheld⟩ := h.ends
  have hlink : Links past' last kf := by
    refine ⟨by omega, fun k hlo hhi => ?_, hsteady last hlast⟩
    rw [hold k (by omega), hheld k (by omega) (by omega)]
  have hgrown : Recorded past' (now + 1) (now + 1) (track ++ [kf]) := by
    refine ⟨?_, fun kf' hkf' => ?_, fun _ => hexact, kf, by simp, htick, fun k hlo hhi => ?_⟩
    · refine List.isChain_append.mpr ⟨h.chain_congr fun k hk => hold k (by omega),
        List.isChain_singleton _, ?_⟩
      intro a ha b hb
      obtain rfl := Option.some.inj (hlast.symm.trans ha)
      obtain rfl : kf = b := by simpa using hb
      exact hlink
    · rcases List.mem_append.mp hkf' with hkf' | hkf'
      · exact (h.bound kf' hkf').trans (by omega)
      · rw [List.mem_singleton.mp hkf', htick]
    · rw [show k = now + 1 by omega, hnew]
  have hlast' := getLast?_appendKeyframe track kf
  unfold appendKeyframe at hlast' ⊢
  dsimp only at hlast' ⊢
  split
  · next hlong =>
      rw [if_pos hlong] at hlast'
      refine ⟨hgrown.chain.tail, fun kf' hkf' => hgrown.bound kf' (List.mem_of_mem_tail hkf'),
        fun _ => hexact, ?_⟩
      obtain ⟨kf', hkf', hends⟩ := hgrown.ends
      obtain rfl : kf = kf' := by simpa using hkf'
      exact ⟨kf, hlast', hends⟩
  · exact hgrown

end Recording

/-! ### Sampling at a tick -/

section Sampling

variable [Scalar F] [Interpolates F 100 exactTicks] {past : ℕ → Option (F × F × ℤ)}
  {latest now : ℕ} {track : List (Keyframe F)}

/-- Inside a track the search finds the neighbours of a tick. -/
theorem bisect_neighbours {first last : Keyframe F} (hfirst : track.head? = some first)
    (hlast : track.getLast? = some last) (hexact : ∀ kf ∈ track, kf.tick ≤ exactTicks) {k : ℕ}
    (hlo : first.tick < k) (hhi : k < last.tick) :
    ∃ (i : ℕ) (hi : i + 1 < track.length),
      bisect (isLater track (lit k)) track.length 0 (track.length - 1) = i + 1 ∧
        track[i].tick ≤ k ∧ k < track[i + 1].tick := by
  have hk : k ≤ exactTicks := hhi.le.trans (hexact last (List.mem_of_mem_getLast? hlast))
  have hlater : ∀ {i} (hi : i < track.length),
      isLater track (lit k) i = decide (k < track[i].tick) := by
    intro i hi
    rw [isLater, List.getElem?_eq_getElem hi]
    exact Interpolates.lt_lit 100 k _ hk (hexact _ (List.getElem_mem hi))
  have hlen : track.length - 1 < track.length := by
    have := List.length_pos_of_mem (List.mem_of_head? hfirst)
    omega
  have hleft : isLater track (lit k) 0 = false := by
    rw [List.head?_eq_getElem?, List.getElem?_eq_getElem (by omega)] at hfirst
    rw [hlater (by omega), Option.some.inj hfirst]
    exact decide_eq_false hlo.asymm
  have hright : isLater track (lit k) (track.length - 1) = true := by
    rw [List.getLast?_eq_getElem?, List.getElem?_eq_getElem hlen] at hlast
    rw [hlater hlen, Option.some.inj hlast]
    exact decide_eq_true hhi
  obtain ⟨i, hi, hfound, hnot, hyes⟩ := bisect_isLater hleft hright
  rw [hlater (by omega), decide_eq_false_iff_not] at hnot
  rw [hlater hi, decide_eq_true_eq] at hyes
  exact ⟨i, hi, hfound, not_lt.mp hnot, hyes⟩

/-- Sampling a recorded track at a tick shows the past. -/
theorem Recorded.sample (h : Recorded past latest now track) (hle : latest ≤ now)
    {first : Keyframe F} (hfirst : track.head? = some first) {k : ℕ}
    (hlo : first.tick ≤ k) (hhi : k ≤ latest) :
    ∃ st x y, sampleTrack track (lit k) = some st ∧ past k = some (x, y, st.hp) ∧
      Same st.x x ∧ Same st.y y := by
  obtain ⟨last, hlast, hltick, hheld⟩ := h.ends
  by_cases hone : 1 < track.length
  case neg =>
      obtain ⟨a, rfl⟩ : ∃ a, track = [a] := by
        have := List.length_pos_of_mem (List.mem_of_head? hfirst)
        exact List.length_eq_one_iff.mp (by omega)
      obtain rfl := Option.some.inj hfirst
      obtain rfl : a = last := by simpa using hlast
      obtain rfl : k = a.tick := by omega
      refine ⟨toState a, a.x, a.y, ?_, hheld _ (by omega) (by omega), .refl _, .refl _⟩
      simp [sampleTrack, Interpolates.le_self (F := F) 100 exactTicks]
  case pos =>
      have hexact : ∀ kf ∈ track, kf.tick ≤ exactTicks := fun kf hkf =>
        (h.bound kf hkf).trans (h.small hone)
      have hk : k ≤ exactTicks := hhi.trans (h.small hone)
      simp only [sampleTrack, hfirst, hlast,
        Interpolates.le_lit 100 k _ hk (hexact first (List.mem_of_head? hfirst)),
        Interpolates.le_lit 100 _ k (hexact last (List.mem_of_getLast? hlast)) hk,
        decide_eq_true_eq]
      split
      case isTrue hle' =>
          obtain rfl : k = first.tick := by omega
          have hhead : track[0] = first := by
            rw [List.head?_eq_getElem?, List.getElem?_eq_getElem (by omega)] at hfirst
            exact Option.some.inj hfirst
          have hlink := List.isChain_iff_getElem.mp h.chain 0 hone
          rw [hhead] at hlink
          exact ⟨_, first.x, first.y, rfl, hlink.held _ le_rfl hlink.later, .refl _, .refl _⟩
      case isFalse hlater =>
          split
          case isTrue hend =>
              exact ⟨_, last.x, last.y, rfl, hheld k (by omega) (by omega), .refl _, .refl _⟩
          case isFalse hbefore =>
              obtain ⟨i, hi, hfound, hleft, hright⟩ := bisect_neighbours hfirst hlast hexact
                (Nat.lt_of_not_le hlater) (Nat.lt_of_not_le hbefore)
              have hlink := List.isChain_iff_getElem.mp h.chain i hi
              obtain ⟨hx, hy⟩ := hlink.steady k hleft hright
              rw [hfound, Nat.add_sub_cancel, List.getElem?_eq_getElem hi,
                List.getElem?_eq_getElem (Nat.lt_of_succ_lt hi)]
              exact ⟨_, _, _, rfl, hlink.held k hleft hright, hx, hy⟩

end Sampling

/-! ### Positions are in the arena, or lost

A clamp leads into the arena unless it is given NaN, and only a direction
that is not a pair of numbers makes one. -/

/-- A coordinate in the arena, or NaN. -/
def InField [Scalar F] (c : F) : Prop := within 100 c = true ∨ isNaN c = true

/-- What phase 1 is asked to keep. Binary32 does. -/
class Fenced (F : Type) [Scalar F] : Prop where
  starts : ∀ q : ℚ, 0 ≤ q → q ≤ 100 → within 100 (lit q : F) = true
  lost : ∀ x y : F, isNaN x = true → isNaN (x + y) = true
  clamped : ∀ v : F, InField (clamp v (lit 0) BattleSim.kArena)
  quotient : ∀ m len : F, isNumber m = true → lt (lit 1) len = true →
    isNumber (m / len) = true
  advances : ∀ m c : F, isNumber m = true → within 100 c = true →
    within 100 (BattleSim.advanced (lit Room.kTickMs / lit 1000) m c) = true

instance {K : Type} [Field K] [LinearOrder K] [IsStrictOrderedRing K] [SquareRoot K] :
    Fenced (Ext K) where
  starts q hlo hhi := Ext.within_iff.mpr ⟨q, rfl, by exact_mod_cast hlo, by exact_mod_cast hhi⟩
  lost x y hx := by simp [Ext.isNaN_iff.mp hx, Ext.isNaN_iff]
  clamped v := by
    have hle : ((0 : ℚ) : K) ≤ (100 : ℚ) := by norm_num
    cases v with
    | fin v =>
        obtain ⟨y, hy, hlo, hhi⟩ := Ext.clamp_fin (x := v) hle
        exact .inl (Ext.within_iff.mpr ⟨y, hy, by simpa using hlo, hhi⟩)
    | posInf => exact .inl (Ext.within_iff.mpr ⟨(100 : ℚ), rfl, by simp, le_rfl⟩)
    | negInf => exact .inl (Ext.within_iff.mpr ⟨(0 : ℚ), rfl, by simp, hle⟩)
    | nan => exact .inr (Ext.isNaN_iff.mpr (Ext.clamp_nan _ _))
  quotient m len hm hlen := by
    rw [Ext.isNumber_eq, Ext.isFinite_iff] at hm ⊢
    obtain ⟨m, rfl⟩ := hm
    cases len with
    | fin len =>
        have hpos : (0 : K) < len := zero_lt_one.trans (by simpa using hlen)
        exact ⟨_, Ext.fin_div hpos.ne'⟩
    | posInf => exact ⟨0, rfl⟩
    | negInf | nan => cases hlen
  advances m c hm hc := by
    obtain ⟨m, rfl⟩ := Ext.isFinite_iff.mp ((Ext.isNumber_eq m).symm.trans hm)
    obtain ⟨c, rfl, -⟩ := Ext.within_iff.mp hc
    obtain ⟨r, hr, hlo, hhi⟩ := BattleSim.advanced_fin (Room.kTickMs / 1000 : K) m c
    rw [BattleSim.dt_eq]
    exact Ext.within_iff.mpr ⟨r, hr, by simpa using hlo, hhi⟩

section Positions

variable [Scalar F] [Fenced F]

theorem movePlayer_inField (dt : F) {p : BattleSim.P F} (hx : InField p.x) (hy : InField p.y) :
    InField (BattleSim.movePlayer dt p).1.x ∧ InField (BattleSim.movePlayer dt p).1.y := by
  rcases BattleSim.movePlayer_cases dt p with h | ⟨mx, my, h⟩
  · rw [h]
    exact ⟨hx, hy⟩
  · obtain ⟨hnx, hny⟩ := BattleSim.moveBy_eq dt mx my p
    rw [h, hnx, hny]
    split
    · exact ⟨Fenced.clamped _, Fenced.clamped _⟩
    · exact ⟨hx, hy⟩

/-- Phase 1 will use a direction that is not a pair of numbers. -/
def goesAstray (p : BattleSim.P F) : Bool :=
  p.alive && p.hasInput && !(isNumber p.input.moveX && isNumber p.input.moveY)

omit [Fenced F] in
@[simp] theorem goesAstray_ext {K : Type} [Field K] [LinearOrder K] [SquareRoot K]
    (p : BattleSim.P (Ext K)) : goesAstray p = p.astray := by
  simp [goesAstray, BattleSim.P.astray]

/-- A player that does not go astray stays, or moves along a pair of numbers. -/
theorem movePlayer_straight (dt : F) {p : BattleSim.P F} (hstraight : goesAstray p = false) :
    BattleSim.movePlayer dt p = (p, false) ∨ ∃ mx my, isNumber mx = true ∧ isNumber my = true ∧
      BattleSim.movePlayer dt p = BattleSim.moveBy dt mx my p := by
  simp only [BattleSim.movePlayer]
  split
  case isTrue => exact .inl rfl
  case isFalse hmoves =>
      obtain ⟨hx, hy⟩ : isNumber p.input.moveX = true ∧ isNumber p.input.moveY = true := by
        simp only [Bool.or_eq_true, Bool.not_eq_true', not_or, Bool.not_eq_false] at hmoves
        simpa [goesAstray, hmoves.1, hmoves.2] using hstraight
      split
      · exact .inl rfl
      · split
        case isTrue hlong =>
            exact .inr ⟨_, _, Fenced.quotient _ _ hx hlong, Fenced.quotient _ _ hy hlong, rfl⟩
        case isFalse => exact .inr ⟨_, _, hx, hy, rfl⟩

/-- A player that does not go astray stays in the arena. -/
theorem movePlayer_within {p : BattleSim.P F} (hstraight : goesAstray p = false) :
    let p' := (BattleSim.movePlayer (lit Room.kTickMs / lit 1000) p).1
    (within 100 p.x = true → within 100 p'.x = true) ∧
      (within 100 p.y = true → within 100 p'.y = true) := by
  intro p'
  rcases movePlayer_straight (lit Room.kTickMs / lit 1000) hstraight with h | ⟨mx, my, hx, hy, h⟩
  · rw [show p' = p from congrArg Prod.fst h]
    exact ⟨id, id⟩
  · obtain ⟨hnx, hny⟩ := BattleSim.moveBy_eq (lit Room.kTickMs / lit 1000) mx my p
    rw [show p' = _ from congrArg Prod.fst h, hnx, hny]
    split
    · exact ⟨Fenced.advances mx p.x hx, Fenced.advances my p.y hy⟩
    · exact ⟨id, id⟩

/-! ### Standing between two keyframes -/

variable [Interpolates F 100 exactTicks]

/-- One coordinate, at the beginning of the way or with no way to go. -/
theorem steady_coordinate {x y : F} {a k c : ℕ} (hlo : a ≤ k) (hhi : k < c)
    (hexact : c ≤ exactTicks) (hx : InField x)
    (h : (k = a ∧ (within 100 x = true → within 100 y = true)) ∨ y = x) :
    Same (x + (y - x) * ((lit k - lit a) / lit ((c - a : ℕ) : ℚ))) x := by
  rcases hx with hx | hlost
  · rcases h with ⟨rfl, hy⟩ | rfl
    · exact .inl (Interpolates.begins x y hx (hy hx) k c hhi hexact)
    · exact .inl (Interpolates.rests y hx a k c hlo hhi hexact)
  · exact .inr ⟨Fenced.lost _ _ hlost, hlost⟩

/-- Neighbours that are consecutive, or have the same position. -/
theorem interpolate_steady {a b : Keyframe F} {k : ℕ} (hlo : a.tick ≤ k) (hhi : k < b.tick)
    (hexact : b.tick ≤ exactTicks) (hx : InField a.x) (hy : InField a.y)
    (h : (b.tick = a.tick + 1 ∧ (within 100 a.x = true → within 100 b.x = true) ∧
      (within 100 a.y = true → within 100 b.y = true)) ∨ b.x = a.x ∧ b.y = a.y) :
    Same (interpolate (lit k) a b).x a.x ∧ Same (interpolate (lit k) a b).y a.y := by
  refine ⟨steady_coordinate hlo hhi hexact hx ?_, steady_coordinate hlo hhi hexact hy ?_⟩
  · exact h.imp (fun h => ⟨by omega, h.2.1⟩) And.left
  · exact h.imp (fun h => ⟨by omega, h.2.2⟩) And.right

end Positions

end GameServer.Client
