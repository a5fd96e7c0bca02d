import GameServer.Lib.Bisect
import GameServer.Lib.Scalar
import GameServer.Lib.UnorderedMap
import GameServer.Proto.Messages

/-!
The client's replica of the battle, from
`client/Assets/Scripts/Game/SnapshotInterpolator.cs`: one track of keyframes
for each player and the projectiles in flight, updated by `push` and read by
`trySample`.

The lemmas say what an accepted snapshot leaves at the end of each track and
in the projectile table.
-/

namespace GameServer.Client

open GameServer.Lib GameServer.Proto

structure Keyframe (F : Type) where
  tick : ℕ
  x : F
  y : F
  hp : ℤ
  lastInputSeq : ℕ

structure SampledProjectile (F : Type) where
  ownerId : ℕ
  x : F
  y : F
  velocityX : F
  velocityY : F

def kMaxKeyframes : ℕ := 64

structure SnapshotInterpolator (F : Type) where
  tracks : UnorderedMap ℕ (List (Keyframe F)) := ∅
  projectiles : UnorderedMap ℕ (SampledProjectile F) := ∅
  latestTick : ℕ := 0

variable {F : Type}

def appendKeyframe (track : List (Keyframe F)) (kf : Keyframe F) : List (Keyframe F) :=
  let track := track ++ [kf]
  if track.length > kMaxKeyframes then track.tail else track

/-- The keyframe of a player that a snapshot lists. -/
def keyframeOf (tick : ℕ) (p : PlayerState F) : Keyframe F :=
  { tick := tick, x := p.x, y := p.y, hp := p.hp, lastInputSeq := p.lastInputSeq }

def sampleOf (q : ProjectileState F) : SampledProjectile F :=
  { ownerId := q.ownerId, x := q.x, y := q.y
    velocityX := q.velocityX, velocityY := q.velocityY }

/-- A listed player gets a keyframe, and a track if it has none yet. -/
def trackPlayer (tick : ℕ) (tracks : UnorderedMap ℕ (List (Keyframe F))) (p : PlayerState F) :
    UnorderedMap ℕ (List (Keyframe F)) :=
  tracks.insert p.playerId
    (appendKeyframe ((tracks.lookup p.playerId).getD []) (keyframeOf tick p))

/-- A player that is not listed has not changed: its last keyframe is
carried to the new tick. -/
def carry (tick : ℕ) (track : List (Keyframe F)) : List (Keyframe F) :=
  match track.getLast? with
  | none => track
  | some last =>
      if last.tick = tick then track else appendKeyframe track { last with tick := tick }

namespace SnapshotInterpolator

def hasData (s : SnapshotInterpolator F) : Bool := s.latestTick ≠ 0

/-- The part of `Push` behind the check for stale snapshots. -/
def merge (s : SnapshotInterpolator F) (snap : StateSnapshot F) : SnapshotInterpolator F where
  tracks := (snap.players.foldl (trackPlayer snap.tick) s.tracks).mapVal
    fun _ => carry snap.tick
  projectiles :=
    snap.removedProjectileIds.foldl (fun ps id => ps.erase id)
      (snap.projectiles.foldl (fun ps q => ps.insert q.projectileId (sampleOf q)) s.projectiles)
  latestTick := snap.tick

def push (s : SnapshotInterpolator F) (snap : StateSnapshot F) : SnapshotInterpolator F :=
  let s := if snap.full then {} else s
  if s.latestTick ≠ 0 ∧ snap.tick ≤ s.latestTick then s else s.merge snap

/-! ### Reading -/

end SnapshotInterpolator

structure SampledState (F : Type) where
  x : F
  y : F
  hp : ℤ
  lastInputSeq : ℕ
deriving DecidableEq

def toState (kf : Keyframe F) : SampledState F :=
  { x := kf.x, y := kf.y, hp := kf.hp, lastInputSeq := kf.lastInputSeq }

section Sampling

variable [Scalar F]

/-- The state between two keyframes: positions are interpolated, discrete
values are those of the earlier keyframe. -/
def interpolate (renderTick : F) (a b : Keyframe F) : SampledState F :=
  let t := (renderTick - Scalar.lit a.tick) / Scalar.lit ((b.tick - a.tick : ℕ) : ℚ)
  { x := a.x + (b.x - a.x) * t
    y := a.y + (b.y - a.y) * t
    hp := a.hp
    lastInputSeq := a.lastInputSeq }

/-- `track[i].Tick > renderTick`. -/
def isLater (track : List (Keyframe F)) (renderTick : F) (i : ℕ) : Bool :=
  match track[i]? with
  | none => false
  | some kf => Scalar.lt renderTick (Scalar.lit kf.tick)

/-- `TrySample` on the track it has found. Outside of the track the nearest
end is taken; inside, the right neighbour is found by binary search. -/
def sampleTrack (track : List (Keyframe F)) (renderTick : F) : Option (SampledState F) :=
  match track.head?, track.getLast? with
  | some first, some last =>
      if Scalar.le renderTick (Scalar.lit first.tick) then some (toState first)
      else if Scalar.le (Scalar.lit last.tick) renderTick then some (toState last)
      else
        let i := bisect (isLater track renderTick) track.length 0 (track.length - 1)
        match track[i - 1]?, track[i]? with
        | some a, some b => some (interpolate renderTick a b)
        | _, _ => none
  | _, _ => none

end Sampling

namespace SnapshotInterpolator

def trySample [Scalar F] (s : SnapshotInterpolator F) (playerId : ℕ) (renderTick : F) :
    Option (SampledState F) :=
  (s.tracks.lookup playerId).bind (sampleTrack · renderTick)

/-! ### Accepted and stale snapshots -/

theorem push_full {snap : StateSnapshot F} (h : snap.full = true)
    (s : SnapshotInterpolator F) : s.push snap = ({} : SnapshotInterpolator F).merge snap := by
  simp [push, h]

theorem push_fresh {s : SnapshotInterpolator F} {snap : StateSnapshot F} (h : snap.full = false)
    (htick : s.latestTick < snap.tick) : s.push snap = s.merge snap := by
  simp only [push, h, Bool.false_eq_true, if_false]
  rw [if_neg]
  omega

theorem push_stale {s : SnapshotInterpolator F} {snap : StateSnapshot F} (h : snap.full = false)
    (hdata : s.latestTick ≠ 0) (htick : snap.tick ≤ s.latestTick) : s.push snap = s := by
  simp only [push, h, Bool.false_eq_true, if_false]
  rw [if_pos ⟨hdata, htick⟩]

/-- Copies of one incremental snapshot count once. -/
theorem foldl_push_replicate {it : SnapshotInterpolator F} {snap : StateSnapshot F}
    (hdelta : snap.full = false) (htick : it.latestTick < snap.tick) (n : ℕ) :
    (List.replicate (n + 1) snap).foldl push it = it.merge snap := by
  rw [List.replicate_succ, List.foldl_cons, push_fresh hdelta htick]
  induction n with
  | zero => rfl
  | succ n ih =>
      have hstale : (it.merge snap).push snap = it.merge snap :=
        push_stale hdelta (by show snap.tick ≠ 0; omega) (Nat.le_refl _)
      rw [List.replicate_succ, List.foldl_cons, hstale, ih]

/-! ### What the end of a track shows -/

/-- Position and hp in the last keyframe of a player's track. -/
def lastBody (s : SnapshotInterpolator F) (id : ℕ) : Option (F × F × ℤ) :=
  (s.tracks.lookup id).bind fun track => track.getLast?.map fun kf => (kf.x, kf.y, kf.hp)

@[simp] theorem getLast?_appendKeyframe (track : List (Keyframe F)) (kf : Keyframe F) :
    (appendKeyframe track kf).getLast? = some kf := by
  simp only [appendKeyframe]
  split
  · cases track with
    | nil =>
        next h => simp [kMaxKeyframes] at h
    | cons k track => simp
  · simp

/-- Carrying on changes the tick of the last keyframe only. -/
theorem getLast?_carry (tick : ℕ) (track : List (Keyframe F)) :
    (carry tick track).getLast?.map (fun kf => (kf.x, kf.y, kf.hp)) =
      track.getLast?.map fun kf => (kf.x, kf.y, kf.hp) := by
  unfold carry
  cases h : track.getLast? with
  | none => simp [h]
  | some last =>
      dsimp only
      split
      · rw [h]
      · simp

/-- After the listed players have been merged, a track ends with one of the
listed states of its player, or it is the old track. -/
theorem lookup_trackPlayers (tick : ℕ) (ps : List (PlayerState F))
    (tracks : UnorderedMap ℕ (List (Keyframe F))) (id : ℕ) :
    (∃ p ∈ ps, p.playerId = id ∧ ∃ track,
      (ps.foldl (trackPlayer tick) tracks).lookup id = some track ∧
        track.getLast? = some (keyframeOf tick p)) ∨
    ((∀ p ∈ ps, p.playerId ≠ id) ∧
      (ps.foldl (trackPlayer tick) tracks).lookup id = tracks.lookup id) := by
  induction ps generalizing tracks with
  | nil => exact .inr ⟨by simp, rfl⟩
  | cons p ps ih =>
      rw [List.foldl_cons]
      rcases ih (trackPlayer tick tracks p) with ⟨p', hp', hid, hend⟩ | ⟨hnone, hsame⟩
      · exact .inl ⟨p', List.mem_cons_of_mem _ hp', hid, hend⟩
      · rw [hsame]
        by_cases hid : p.playerId = id
        · subst hid
          exact .inl ⟨p, List.mem_cons_self .., rfl, _, AList.lookup_insert _,
            getLast?_appendKeyframe _ _⟩
        · refine .inr ⟨?_, ?_⟩
          · simpa [hid] using hnone
          · rw [trackPlayer, AList.lookup_insert_ne (Ne.symm hid)]

/-- A merged snapshot decides about the players it lists. -/
theorem lastBody_merge (s : SnapshotInterpolator F) (snap : StateSnapshot F) (id : ℕ) :
    (∃ p ∈ snap.players, p.playerId = id ∧ (s.merge snap).lastBody id = some (p.x, p.y, p.hp)) ∨
    ((∀ p ∈ snap.players, p.playerId ≠ id) ∧ (s.merge snap).lastBody id = s.lastBody id) := by
  have hcarry : (s.merge snap).lastBody id =
      ((snap.players.foldl (trackPlayer snap.tick) s.tracks).lookup id).bind
        fun track => track.getLast?.map fun kf => (kf.x, kf.y, kf.hp) := by
    simp only [lastBody, merge, UnorderedMap.lookup_mapVal]
    cases (snap.players.foldl (trackPlayer snap.tick) s.tracks).lookup id with
    | none => rfl
    | some track => exact getLast?_carry snap.tick track
  rcases lookup_trackPlayers snap.tick snap.players s.tracks id with
    ⟨p, hp, hid, track, htrack, hlast⟩ | ⟨hnone, hsame⟩
  · refine .inl ⟨p, hp, hid, ?_⟩
    rw [hcarry, htrack, Option.bind_some, hlast]
    rfl
  · refine .inr ⟨hnone, ?_⟩
    rw [hcarry, hsame, lastBody]

/-! ### The projectile table -/

theorem lookup_insertAll (qs : List (ProjectileState F))
    (ps : UnorderedMap ℕ (SampledProjectile F)) (k : ℕ) :
    (∃ q ∈ qs, q.projectileId = k ∧
      (qs.foldl (fun ps q => ps.insert q.projectileId (sampleOf q)) ps).lookup k =
        some (sampleOf q)) ∨
    ((∀ q ∈ qs, q.projectileId ≠ k) ∧
      (qs.foldl (fun ps q => ps.insert q.projectileId (sampleOf q)) ps).lookup k =
        ps.lookup k) := by
  induction qs generalizing ps with
  | nil => exact .inr ⟨by simp, rfl⟩
  | cons q qs ih =>
      rw [List.foldl_cons]
      rcases ih (ps.insert q.projectileId (sampleOf q)) with ⟨q', hq', hid, hk⟩ | ⟨hnone, hsame⟩
      · exact .inl ⟨q', List.mem_cons_of_mem _ hq', hid, hk⟩
      · rw [hsame]
        by_cases hid : q.projectileId = k
        · refine .inl ⟨q, List.mem_cons_self .., hid, ?_⟩
          subst hid
          rw [AList.lookup_insert]
        · exact .inr ⟨by simpa [hid] using hnone, AList.lookup_insert_ne (Ne.symm hid)⟩

theorem lookup_eraseAll (ids : List ℕ) (ps : UnorderedMap ℕ (SampledProjectile F)) (k : ℕ) :
    (ids.foldl (fun ps id => ps.erase id) ps).lookup k =
      if k ∈ ids then none else ps.lookup k := by
  induction ids generalizing ps with
  | nil => simp
  | cons id ids ih =>
      rw [List.foldl_cons, ih, UnorderedMap.lookup_erase_eq]
      by_cases h : k = id
      · simp [h]
      · simp [h]

end SnapshotInterpolator

end GameServer.Client
