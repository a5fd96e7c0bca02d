import GameServer.Client.SnapshotInterpolator
import GameServer.Lib.Run

/-!
What the interpolator shows at any time between its keyframes.

`Track` is the ordering `Push` maintains: at most 64 keyframes, their ticks
in order, the last of them the latest tick. Clearing, dropping, repeating,
carrying and trimming all keep it, and it is what the binary search of
`TrySample` and its division rely on. `trySampleChecked` is `TrySample` with
every access to the track and the division checked; no check ever fails, and
what is read off is the straight line between the two neighbours.
-/

namespace GameServer.Client

open GameServer.Lib GameServer.Proto
open SnapshotInterpolator

variable {F : Type}

/-! ### The order of a track -/

/-- A list of keyframes up to a tick; it may be empty. -/
structure UpTo (tick : ℕ) (track : List (Keyframe F)) : Prop where
  length_le : track.length ≤ kMaxKeyframes
  sorted : track.Pairwise fun a b => a.tick ≤ b.tick
  bound : ∀ kf ∈ track, kf.tick ≤ tick

/-- A track as `Push` leaves it. -/
structure Track (latest : ℕ) (track : List (Keyframe F)) : Prop where
  length_pos : 1 ≤ track.length
  length_le : track.length ≤ kMaxKeyframes
  sorted : track.Pairwise fun a b => a.tick ≤ b.tick
  ends : track.getLast?.map (·.tick) = some latest

variable {tick tick' latest : ℕ} {track : List (Keyframe F)} {kf : Keyframe F}

theorem upTo_nil (tick : ℕ) : UpTo tick ([] : List (Keyframe F)) :=
  ⟨Nat.zero_le _, .nil, fun _ h => absurd h List.not_mem_nil⟩

theorem UpTo.mono (h : UpTo tick track) (hle : tick ≤ tick') : UpTo tick' track :=
  ⟨h.length_le, h.sorted, fun kf hkf => (h.bound kf hkf).trans hle⟩

/-- The last tick bounds the others. -/
theorem Track.upTo (h : Track latest track) : UpTo latest track where
  length_le := h.length_le
  sorted := h.sorted
  bound kf hkf := by
    obtain ⟨last, hlast, rfl⟩ := Option.map_eq_some_iff.mp h.ends
    obtain ⟨init, rfl⟩ := List.getLast?_eq_some_iff.mp hlast
    rcases List.mem_append.mp hkf with hkf | hkf
    · exact (List.pairwise_append.mp h.sorted).2.2 kf hkf last (List.mem_singleton_self last)
    · rw [List.mem_singleton.mp hkf]

/-- A keyframe of the latest tick goes to the end; the track is trimmed at
its front. -/
theorem UpTo.append (h : UpTo tick track) (hkf : kf.tick = tick) :
    Track tick (appendKeyframe track kf) := by
  have hsorted : (track ++ [kf]).Pairwise fun a b => a.tick ≤ b.tick := by
    refine List.pairwise_append.mpr ⟨h.sorted, List.pairwise_singleton _ kf, ?_⟩
    intro a ha b hb
    rw [List.mem_singleton.mp hb, hkf]
    exact h.bound a ha
  have hends : (appendKeyframe track kf).getLast?.map (·.tick) = some tick := by
    rw [getLast?_appendKeyframe, Option.map_some, hkf]
  have hlen : (track ++ [kf]).length = track.length + 1 := by simp
  have hle := h.length_le
  unfold appendKeyframe at hends ⊢
  dsimp only at hends ⊢
  split
  case isTrue hlong =>
      rw [if_pos hlong] at hends
      have htail : (track ++ [kf]).tail.length = track.length := by simp
      refine ⟨?_, htail ▸ hle, hsorted.tail, hends⟩
      rw [htail]
      simp only [kMaxKeyframes] at hlong
      omega
  case isFalse hshort =>
      rw [if_neg hshort] at hends
      exact ⟨by omega, Nat.le_of_not_lt hshort, hsorted, hends⟩

/-- Carrying brings a track that is not empty up to the tick. -/
theorem UpTo.carry (h : UpTo tick track) (hne : track ≠ []) : Track tick (carry tick track) := by
  have hsome : ∃ last, track.getLast? = some last :=
    ⟨track.getLast hne, List.getLast?_eq_some_getLast hne⟩
  obtain ⟨last, hlast⟩ := hsome
  simp only [GameServer.Client.carry, hlast]
  split
  case isTrue htick =>
      have hpos : 1 ≤ track.length := List.length_pos_of_ne_nil hne
      exact ⟨hpos, h.length_le, h.sorted, by rw [hlast, Option.map_some, htick]⟩
  case isFalse htick => exact h.append rfl

/-! ### Every push keeps the order -/

def Tracked (s : SnapshotInterpolator F) : Prop :=
  ∀ id track, s.tracks.lookup id = some track → Track s.latestTick track

theorem trackPlayers_upTo {tracks : UnorderedMap ℕ (List (Keyframe F))}
    (h : ∀ id track, tracks.lookup id = some track → UpTo tick track ∧ track ≠ [])
    (ps : List (PlayerState F)) :
    ∀ id track, (ps.foldl (trackPlayer tick) tracks).lookup id = some track →
      UpTo tick track ∧ track ≠ [] := by
  induction ps generalizing tracks with
  | nil => exact h
  | cons p ps ih =>
      rw [List.foldl_cons]
      refine ih fun id track htrack => ?_
      have hold : UpTo tick ((tracks.lookup p.playerId).getD []) := by
        cases hp : tracks.lookup p.playerId with
        | none => exact upTo_nil tick
        | some old => exact (h p.playerId old hp).1
      rw [trackPlayer, UnorderedMap.lookup_insert_eq] at htrack
      split at htrack
      · obtain rfl := Option.some.inj htrack
        have hkf : (keyframeOf tick p).tick = tick := rfl
        have hnew := hold.append hkf
        exact ⟨hnew.upTo, List.ne_nil_of_length_pos hnew.length_pos⟩
      · exact h id track htrack

theorem Tracked.merge {s : SnapshotInterpolator F} {snap : StateSnapshot F} (h : Tracked s)
    (hle : s.latestTick ≤ snap.tick) : Tracked (s.merge snap) := by
  intro id track htrack
  simp only [SnapshotInterpolator.merge, UnorderedMap.lookup_mapVal] at htrack
  obtain ⟨old, hold, rfl⟩ := Option.map_eq_some_iff.mp htrack
  have hstart : ∀ id track, s.tracks.lookup id = some track →
      UpTo snap.tick track ∧ track ≠ [] := fun id track htrack =>
    ⟨(h id track htrack).upTo.mono hle, List.ne_nil_of_length_pos (h id track htrack).length_pos⟩
  obtain ⟨hupTo, hne⟩ := trackPlayers_upTo hstart snap.players id old hold
  exact hupTo.carry hne

theorem tracked_empty : Tracked ({} : SnapshotInterpolator F) := by
  intro id track h
  cases h

theorem Tracked.push {s : SnapshotInterpolator F} (h : Tracked s) (snap : StateSnapshot F) :
    Tracked (s.push snap) := by
  have hstart : Tracked (if snap.full then {} else s) := by
    split
    · exact tracked_empty
    · exact h
  unfold SnapshotInterpolator.push
  generalize (if snap.full then {} else s) = start at hstart ⊢
  dsimp only
  split
  case isTrue hstale => exact hstart
  case isFalse hfresh => exact hstart.merge (by omega)

theorem tracked_run (snaps : List (StateSnapshot F)) : Tracked (snaps.foldl push {}) :=
  invariant_run_of_step (I := Tracked) (fun _ snap h => h.push snap) tracked_empty snaps

/-! ### Sampling with every access checked -/

/-- What would make `TrySample` fail. -/
inductive Fault where
  | indexOutOfRange
  | divideByZero
deriving DecidableEq

/-- `track[i]`. -/
def keyframeAt (track : List (Keyframe F)) (i : ℕ) : Except Fault (Keyframe F) :=
  match track[i]? with
  | none => .error .indexOutOfRange
  | some kf => .ok kf

/-- `track[i - 1]`; the index of the source is an `int` and can be `-1`. -/
def keyframeBefore (track : List (Keyframe F)) : ℕ → Except Fault (Keyframe F)
  | 0 => .error .indexOutOfRange
  | i + 1 => keyframeAt track i

section Checked

variable [Scalar F]

def probe (track : List (Keyframe F)) (renderTick : F) (i : ℕ) : Except Fault Bool :=
  (keyframeAt track i).map fun kf => Scalar.lt renderTick (Scalar.lit kf.tick)

def interpolateChecked (renderTick : F) (a b : Keyframe F) : Except Fault (SampledState F) :=
  if b.tick - a.tick = 0 then .error .divideByZero
  else .ok (interpolate renderTick a b)

/-- `TrySample` on the track it has found. -/
def sampleTrackChecked (track : List (Keyframe F)) (renderTick : F) :
    Except Fault (SampledState F) := do
  let first ← keyframeAt track 0
  if Scalar.le renderTick (Scalar.lit first.tick) then return toState first
  let last ← keyframeAt track (track.length - 1)
  if Scalar.le (Scalar.lit last.tick) renderTick then return toState last
  let lo ← bisectM (probe track renderTick) track.length 0 (track.length - 1)
  let b ← keyframeAt track lo
  let a ← keyframeBefore track lo
  interpolateChecked renderTick a b

/-- `TrySample`: `none` for a player without a track. -/
def SnapshotInterpolator.trySampleChecked (s : SnapshotInterpolator F) (playerId : ℕ)
    (renderTick : F) : Except Fault (Option (SampledState F)) :=
  match s.tracks.lookup playerId with
  | none => .ok none
  | some track =>
      if track.length = 0 then .ok none else (sampleTrackChecked track renderTick).map some

end Checked

/-! ### Exact arithmetic -/

section Exact

variable {K : Type} [Field K] [LinearOrder K] [SquareRoot K]
  {track : List (Keyframe (Ext K))} {r : K}

/-- How far along the way from `a` to `b` the time `r` is. -/
def lineParam (r : K) (a b : Keyframe (Ext K)) : K := (r - a.tick) / (b.tick - a.tick)

/-- The state shown is on the straight line from `a` to `b`, at or after `a`
and before `b`. -/
structure OnLine (r : K) (a b : Keyframe (Ext K)) (st : SampledState (Ext K)) : Prop where
  param_nonneg : 0 ≤ lineParam r a b
  param_lt : lineParam r a b < 1
  x_eq : ∀ xa xb, a.x = .fin xa → b.x = .fin xb →
    st.x = .fin (xa + (xb - xa) * lineParam r a b)
  y_eq : ∀ ya yb, a.y = .fin ya → b.y = .fin yb →
    st.y = .fin (ya + (yb - ya) * lineParam r a b)
  hp_eq : st.hp = a.hp
  seq_eq : st.lastInputSeq = a.lastInputSeq

/-- What sampling a track at the time `r` has to show: an end of the track
outside of it, and inside the line between the last keyframe that is not
later than `r` and the first that is. -/
structure Shows (track : List (Keyframe (Ext K))) (r : K) (st : SampledState (Ext K)) : Prop where
  first : ∀ kf, track.head? = some kf → r ≤ kf.tick → st = toState kf
  last : ∀ kf kf', track.head? = some kf → track.getLast? = some kf' → kf.tick < r →
    kf'.tick ≤ r → st = toState kf'
  inside : ∀ kf kf', track.head? = some kf → track.getLast? = some kf' → kf.tick < r →
    r < kf'.tick → ∃ (i : ℕ) (hi : i + 1 < track.length),
      (∀ j (hj : j < track.length), j ≤ i → track[j].tick ≤ r) ∧
      (∀ j (hj : j < track.length), i < j → r < track[j].tick) ∧
      OnLine r track[i] track[i + 1] st

omit [SquareRoot K] in
/-- Up to its first keyframe a track shows that one. -/
theorem shows_first {first : Keyframe (Ext K)} (hhead : track.head? = some first)
    (h : r ≤ first.tick) : Shows track r (toState first) where
  first kf hkf _ := by rw [Option.some.inj (hhead.symm.trans hkf)]
  last kf _ hkf _ hlt := by
    rw [← Option.some.inj (hhead.symm.trans hkf)] at hlt
    exact absurd hlt h.not_gt
  inside kf _ hkf _ hlt := by
    rw [← Option.some.inj (hhead.symm.trans hkf)] at hlt
    exact absurd hlt h.not_gt

omit [SquareRoot K] in
/-- From its last keyframe on a track shows that one. -/
theorem shows_last {first last : Keyframe (Ext K)} (hhead : track.head? = some first)
    (hlast : track.getLast? = some last) (hlo : first.tick < r) (h : last.tick ≤ r) :
    Shows track r (toState last) where
  first kf hkf hle := by
    rw [← Option.some.inj (hhead.symm.trans hkf)] at hle
    exact absurd hle hlo.not_ge
  last _ kf _ hkf _ _ := by rw [Option.some.inj (hlast.symm.trans hkf)]
  inside _ kf _ hkf _ hlt := by
    rw [← Option.some.inj (hlast.symm.trans hkf)] at hlt
    exact absurd hlt h.not_gt

theorem isLater_fin (track : List (Keyframe (Ext K))) (r : K) {i : ℕ} (hi : i < track.length) :
    isLater track (.fin r) i = decide (r < track[i].tick) := by
  rw [isLater, List.getElem?_eq_getElem hi]
  simp

/-- The search finds where the keyframes begin to be later than a time, if
the first is not and the last is. -/
theorem bisect_isLater [Scalar F] {track : List (Keyframe F)} {t : F}
    (hfirst : isLater track t 0 = false) (hlast : isLater track t (track.length - 1) = true) :
    ∃ i, i + 1 < track.length ∧
      bisect (isLater track t) track.length 0 (track.length - 1) = i + 1 ∧
        isLater track t i = false ∧ isLater track t (i + 1) = true := by
  obtain ⟨-, hup, htrue, hfalse⟩ := bisect_spec
    (by omega : track.length - 1 - 0 ≤ track.length) (Nat.zero_le _) hlast
  cases hi : bisect (isLater track t) track.length 0 (track.length - 1) with
  | zero =>
      rw [hi, hfirst] at htrue
      cases htrue
  | succ i =>
      rw [hi] at hup htrue hfalse
      exact ⟨i, by omega, rfl, hfalse.resolve_left (Nat.succ_ne_zero i), htrue⟩

/-- Inside a track the search finds the neighbours of a time. -/
theorem bisect_between {first last : Keyframe (Ext K)} (hfirst : track.head? = some first)
    (hlast : track.getLast? = some last) (hlo : first.tick < r) (hhi : r < last.tick) :
    ∃ (i : ℕ) (hi : i + 1 < track.length),
      bisect (isLater track (.fin r)) track.length 0 (track.length - 1) = i + 1 ∧
        track[i].tick ≤ r ∧ r < track[i + 1].tick := by
  have hlen : track.length - 1 < track.length := by
    have := List.length_pos_of_mem (List.mem_of_head? hfirst)
    omega
  have hleft : isLater track (.fin r) 0 = false := by
    rw [isLater_fin track r (by omega), decide_eq_false_iff_not]
    rw [List.head?_eq_getElem?, List.getElem?_eq_getElem (by omega)] at hfirst
    rw [Option.some.inj hfirst]
    exact hlo.asymm
  have hright : isLater track (.fin r) (track.length - 1) = true := by
    rw [List.getLast?_eq_getElem?, List.getElem?_eq_getElem hlen] at hlast
    rw [isLater_fin track r hlen, Option.some.inj hlast]
    exact decide_eq_true hhi
  obtain ⟨i, hi, hfound, hnot, hlater⟩ := bisect_isLater hleft hright
  rw [isLater_fin track r (by omega), decide_eq_false_iff_not] at hnot
  rw [isLater_fin track r hi, decide_eq_true_eq] at hlater
  exact ⟨i, hi, hfound, not_lt.mp hnot, hlater⟩

variable [IsStrictOrderedRing K]

omit [SquareRoot K] in
theorem lt_tick {a b : Keyframe (Ext K)} (hleft : a.tick ≤ r) (hright : r < b.tick) :
    a.tick < b.tick :=
  Nat.cast_lt.mp (hleft.trans_lt hright)

theorem interpolate_fin {a b : Keyframe (Ext K)} (h : a.tick < b.tick) :
    interpolate (.fin r) a b =
      { x := a.x + (b.x - a.x) * .fin (lineParam r a b)
        y := a.y + (b.y - a.y) * .fin (lineParam r a b)
        hp := a.hp
        lastInputSeq := a.lastInputSeq } := by
  have hgap : (((b.tick - a.tick : ℕ) : ℚ) : K) = b.tick - a.tick := by
    rw [Rat.cast_natCast, Nat.cast_sub h.le]
  have hne : (((b.tick - a.tick : ℕ) : ℚ) : K) ≠ 0 := by
    rw [hgap]
    exact (sub_pos.mpr (Nat.cast_lt.mpr h)).ne'
  simp only [interpolate, Ext.lit_eq, Ext.fin_sub, Ext.fin_div hne]
  rw [hgap, Rat.cast_natCast]
  rfl

theorem onLine_interpolate {a b : Keyframe (Ext K)} (hleft : a.tick ≤ r) (hright : r < b.tick) :
    OnLine r a b (interpolate (.fin r) a b) := by
  have hpos : (0 : K) < b.tick - a.tick := sub_pos.mpr (hleft.trans_lt hright)
  rw [interpolate_fin (lt_tick hleft hright)]
  refine ⟨div_nonneg (sub_nonneg.mpr hleft) hpos.le, ?_, ?_, ?_, rfl, rfl⟩
  · exact (div_lt_one hpos).mpr (sub_lt_sub_right hright _)
  · intro xa xb hxa hxb
    simp [hxa, hxb]
  · intro ya yb hya hyb
    simp [hya, hyb]

omit [IsStrictOrderedRing K] in
theorem keyframeAt_eq (track : List (Keyframe F)) {i : ℕ} (hi : i < track.length) :
    keyframeAt track i = .ok track[i] := by
  simp [keyframeAt, hi]

omit [IsStrictOrderedRing K] in
theorem probe_eq (track : List (Keyframe (Ext K))) (r : K) {i : ℕ} (hi : i < track.length) :
    probe track (.fin r) i = .ok (isLater track (.fin r) i) := by
  simp [probe, isLater, keyframeAt, hi, Except.map]

/-- Between two neighbours a track shows the line. -/
theorem Track.shows_inside {latest i : ℕ} (h : Track latest track)
    {first last : Keyframe (Ext K)} (hhead : track.head? = some first)
    (hlast : track.getLast? = some last) (hlo : first.tick < r) (hhi : r < last.tick)
    (hi : i + 1 < track.length) (hleft : track[i].tick ≤ r) (hright : r < track[i + 1].tick) :
    Shows track r (interpolate (.fin r) track[i] track[i + 1]) where
  first kf hkf hle := by
    rw [← Option.some.inj (hhead.symm.trans hkf)] at hle
    exact absurd hle hlo.not_ge
  last _ kf _ hkf _ hle := by
    rw [← Option.some.inj (hlast.symm.trans hkf)] at hle
    exact absurd hle hhi.not_ge
  inside _ _ _ _ _ _ := by
    have hin : i < track.length := Nat.lt_of_succ_lt hi
    have hsorted : ∀ j k (hj : j < track.length) (hk : k < track.length), j ≤ k →
        track[j].tick ≤ track[k].tick := by
      intro j k hj hk hjk
      rcases Nat.eq_or_lt_of_le hjk with rfl | hlt
      · exact le_rfl
      · exact List.pairwise_iff_getElem.mp h.sorted j k hj hk hlt
    refine ⟨i, hi, fun j hj hji => ?_, fun j hj hij => ?_, onLine_interpolate hleft hright⟩
    · exact (Nat.cast_le.mpr (hsorted j i hj hin hji)).trans hleft
    · exact hright.trans_le (Nat.cast_le.mpr (hsorted (i + 1) j hi hj hij))

/-- No check fails, and what comes out is what has to be shown. -/
theorem Track.sample {latest : ℕ} (h : Track latest track) (r : K) :
    ∃ st, sampleTrackChecked track (.fin r) = .ok st ∧
      sampleTrack track (.fin r) = some st ∧ Shows track r st := by
  have hpos : 0 < track.length := h.length_pos
  have hlen : track.length - 1 < track.length := by omega
  have hhead : track.head? = some track[0] := by
    rw [List.head?_eq_getElem?, List.getElem?_eq_getElem hpos]
  have hend : track.getLast? = some track[track.length - 1] := by
    rw [List.getLast?_eq_getElem?, List.getElem?_eq_getElem hlen]
  simp only [sampleTrackChecked, sampleTrack, hhead, hend, keyframeAt_eq track hpos,
    keyframeAt_eq track hlen, Ext.lit_eq, Ext.fin_le, Rat.cast_natCast, decide_eq_true_eq,
    bind, Except.bind]
  by_cases hfirst : r ≤ track[0].tick
  · refine ⟨toState track[0], ?_, ?_, shows_first hhead hfirst⟩
    · simp [hfirst, pure, Except.pure]
    · simp [hfirst]
  · have hlo := not_le.mp hfirst
    by_cases hlast : (track[track.length - 1].tick : K) ≤ r
    · refine ⟨toState track[track.length - 1], ?_, ?_, shows_last hhead hend hlo hlast⟩
      · simp [hfirst, hlast, pure, Except.pure]
      · simp [hfirst, hlast]
    · have hhi := not_le.mp hlast
      obtain ⟨i, hi, hfound, hleft, hright⟩ := bisect_between hhead hend hlo hhi
      have hin : i < track.length := Nat.lt_of_succ_lt hi
      have hsearch : bisectM (probe track (.fin r)) track.length 0 (track.length - 1) =
          .ok (i + 1) := by
        rw [bisectM_eq fun j _ hj => probe_eq track r (by omega), hfound]
      have hgap : ¬track[i + 1].tick - track[i].tick = 0 := by
        have := lt_tick hleft hright
        omega
      refine ⟨interpolate (.fin r) track[i] track[i + 1], ?_, ?_,
        h.shows_inside hhead hend hlo hhi hi hleft hright⟩
      · simp only [hfirst, hlast, if_false, hsearch, keyframeAt_eq track hi, keyframeBefore,
          keyframeAt_eq track hin, interpolateChecked, hgap]
      · simp only [hfirst, hlast, if_false, hfound, Nat.add_sub_cancel,
          List.getElem?_eq_getElem hi, List.getElem?_eq_getElem hin]

end Exact

/-- Sampling is piecewise linear interpolation over the rationals and never
extrapolates. Whatever was pushed, every track has 1 to 64 keyframes with
their ticks in order and the latest tick at its end, and sampling a track at
any time fails at no access and no division and shows what `Shows` says. -/
theorem sampling_piecewise_linear (snaps : List (StateSnapshot (Ext ℚ))) :
    let s := snaps.foldl push {}
    ∀ id track, s.tracks.lookup id = some track →
      Track s.latestTick track ∧
      ∀ r : ℚ, ∃ st, s.trySampleChecked id (.fin r) = .ok (some st) ∧
        s.trySample id (.fin r) = some st ∧ Shows track r st := by
  intro s id track htrack
  have hok : Track s.latestTick track := tracked_run snaps id track htrack
  refine ⟨hok, fun r => ?_⟩
  obtain ⟨st, hchecked, hsample, hshows⟩ := hok.sample r
  refine ⟨st, ?_, ?_, hshows⟩
  · have hne : track.length ≠ 0 := Nat.ne_of_gt hok.length_pos
    simp only [trySampleChecked, htrack, hne, if_false, hchecked, Except.map]
  · rw [trySample, htrack, Option.bind_some, hsample]

/-- A player that moves by 10 from tick 10 to tick 20 is shown a quarter of the
way at tick 12.5. -/
theorem sampling_piecewise_linear_quarter :
    let moved (tick : ℕ) (x : ℚ) : StateSnapshot (Ext ℚ) :=
      { tick := tick, full := false, projectiles := []
        players := [{ playerId := 7, x := .fin x, y := .fin 3, hp := 100, lastInputSeq := 1 }] }
    let s := [moved 10 0, moved 20 10].foldl push {}
    ∃ track, s.tracks.lookup 7 = some track ∧ Track 20 track ∧
      s.trySample 7 (.fin (25 / 2)) =
        some { x := .fin (5 / 2), y := .fin 3, hp := 100, lastInputSeq := 1 } := by
  intro moved s
  obtain ⟨track, htrack⟩ : ∃ track, s.tracks.lookup 7 = some track := ⟨_, rfl⟩
  have hok := (sampling_piecewise_linear [moved 10 0, moved 20 10] 7 track htrack).1
  exact ⟨track, htrack, hok, by decide +kernel⟩

end GameServer.Client
