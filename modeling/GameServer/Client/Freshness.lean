import GameServer.Client.SnapshotInterpolator
import GameServer.Lib.Run

/-!
Whether the interpolator has data, and whether it keeps stale snapshots out.

`LatestTick` is both the tick of the last accepted snapshot and, as zero, the
mark of a replica without data. The two meanings meet in a snapshot of tick 0,
and the first snapshot of every room is one: it is accepted, yet afterwards
the replica says that it has no data and its check for stale snapshots is
off. Every other snapshot is handled as it should be.
-/

namespace GameServer.Client

open GameServer.Lib GameServer.Proto

variable {F : Type}

/-- The early return of `Push`. -/
def SnapshotInterpolator.Drops (s : SnapshotInterpolator F) (snap : StateSnapshot F) : Prop :=
  snap.full = false ∧ s.latestTick ≠ 0 ∧ snap.tick ≤ s.latestTick

instance (s : SnapshotInterpolator F) (snap : StateSnapshot F) : Decidable (s.Drops snap) :=
  inferInstanceAs (Decidable (_ ∧ _ ∧ _))

/-- An interpolator and the tick of the snapshot it accepted last, if it
accepted one. -/
structure Viewer (F : Type) where
  interp : SnapshotInterpolator F := {}
  accepted : Option ℕ := none

namespace Viewer

variable {v : Viewer F} {snap : StateSnapshot F}

def push (v : Viewer F) (snap : StateSnapshot F) : Viewer F where
  interp := v.interp.push snap
  accepted := if v.interp.Drops snap then v.accepted else some snap.tick

theorem push_of_drops (h : v.interp.Drops snap) : v.push snap = v := by
  have hstale := SnapshotInterpolator.push_stale h.1 h.2.1 h.2.2
  simp [push, h, hstale]

theorem latestTick_push (h : ¬v.interp.Drops snap) :
    (v.push snap).interp.latestTick = snap.tick := by
  simp only [push, SnapshotInterpolator.push]
  cases hfull : snap.full with
  | true => rfl
  | false =>
      simp only [Bool.false_eq_true, if_false]
      rw [if_neg fun hstale => h ⟨hfull, hstale⟩]
      rfl

theorem accepted_push (h : ¬v.interp.Drops snap) : (v.push snap).accepted = some snap.tick :=
  if_neg h

/-- `HasData` is right, and no incremental snapshot that is not newer than
the last accepted one has an effect. -/
structure Fresh (v : Viewer F) : Prop where
  hasData : v.interp.hasData = true ↔ v.accepted.isSome = true
  stale : ∀ snap tick, snap.full = false → v.accepted = some tick → snap.tick ≤ tick →
    v.interp.push snap = v.interp

/-- The latest tick is that of the last accepted snapshot, which is not zero. -/
structure Marked (v : Viewer F) : Prop where
  latest : v.interp.latestTick = v.accepted.getD 0
  nonzero : v.accepted ≠ some 0

theorem Marked.fresh (h : v.Marked) : v.Fresh := by
  have hlatest := h.latest
  cases hacc : v.accepted with
  | none =>
      rw [hacc, Option.getD_none] at hlatest
      exact ⟨by simp [SnapshotInterpolator.hasData, hlatest, hacc], fun _ _ _ ht => by
        rw [hacc] at ht
        cases ht⟩
  | some tick =>
      rw [hacc, Option.getD_some] at hlatest
      have hne : tick ≠ 0 := by
        rintro rfl
        exact h.nonzero hacc
      refine ⟨by simp [SnapshotInterpolator.hasData, hlatest, hacc, hne], ?_⟩
      intro snap tick' hdelta ht hle
      obtain rfl := Option.some.inj (hacc.symm.trans ht)
      exact SnapshotInterpolator.push_stale hdelta (hlatest ▸ hne) (hlatest ▸ hle)

/-- The snapshots that are not of tick 0, and those of tick 0 that a marked
replica drops. -/
def Timed (v : Viewer F) (snap : StateSnapshot F) : Prop :=
  snap.full = true ∨ v.accepted = none → snap.tick ≠ 0

theorem Marked.push (h : v.Marked) (htimed : v.Timed snap) : (v.push snap).Marked := by
  by_cases hdrop : v.interp.Drops snap
  · rwa [push_of_drops hdrop]
  · have htick : snap.tick ≠ 0 := by
      intro hzero
      refine htimed ?_ hzero
      -- a snapshot of tick 0 that is not dropped is full or the first one
      by_contra hnot
      obtain ⟨hdelta, hsome⟩ := not_or.mp hnot
      obtain ⟨tick, htick⟩ := Option.ne_none_iff_exists'.mp hsome
      have hlatest := h.latest
      rw [htick, Option.getD_some] at hlatest
      refine hdrop ⟨by simpa using hdelta, ?_, by omega⟩
      rw [hlatest]
      rintro rfl
      exact h.nonzero htick
    refine ⟨?_, ?_⟩
    · rw [latestTick_push hdrop, accepted_push hdrop, Option.getD_some]
    · rw [accepted_push hdrop]
      exact fun hzero => htick (Option.some.inj hzero)

/-- Accepting a snapshot of tick 0 breaks `HasData`. -/
theorem Marked.push_zero (h : v.Marked) (htimed : ¬v.Timed snap) : ¬(v.push snap).Fresh := by
  obtain ⟨hwhy, hzero⟩ := Classical.not_imp.mp htimed
  have hdrop : ¬v.interp.Drops snap := by
    rintro ⟨hdelta, hdata, -⟩
    rcases hwhy with hfull | hnone
    · rw [hdelta] at hfull
      cases hfull
    · rw [h.latest, hnone] at hdata
      exact hdata rfl
  intro hfresh
  have hsome := hfresh.hasData.mpr (by rw [accepted_push hdrop]; rfl)
  rw [SnapshotInterpolator.hasData, latestTick_push hdrop, not_not.mp hzero] at hsome
  simp at hsome

theorem accepted_push_ne_none (h : v.accepted ≠ none) (snap : StateSnapshot F) :
    (v.push snap).accepted ≠ none := by
  by_cases hdrop : v.interp.Drops snap
  · rwa [push_of_drops hdrop]
  · rw [accepted_push hdrop]
    exact Option.some_ne_none _

/-- Behind the first snapshot only the full ones matter. -/
theorem along_timed (h : v.accepted ≠ none) (snaps : List (StateSnapshot F)) :
    Along push Timed v snaps ↔ ∀ snap ∈ snaps, snap.full = true → snap.tick ≠ 0 := by
  induction snaps generalizing v with
  | nil => simp [Along]
  | cons snap snaps ih =>
      have hhead : v.Timed snap ↔ (snap.full = true → snap.tick ≠ 0) := by
        simp [Timed, h]
      rw [Along, ih (accepted_push_ne_none h snap), hhead, List.forall_mem_cons]

/-- The replica knows in every state of a run whether it has data and keeps
stale snapshots out, exactly if the first snapshot and every full one has
another tick than 0. -/
theorem fresh_run_iff (snaps : List (StateSnapshot F)) :
    Visits push Fresh {} snaps ↔
      (∀ snap ∈ snaps, snap.full = true → snap.tick ≠ 0) ∧
        ∀ first, snaps.head? = some first → first.tick ≠ 0 := by
  have hstart : Marked ({} : Viewer F) := ⟨rfl, by simp⟩
  rw [visits_iff_along (fun _ h => h.fresh) (fun _ _ h => h.push) (fun _ _ h => h.push_zero)
    hstart]
  cases snaps with
  | nil => simp [Along]
  | cons snap snaps =>
      have hdrop : ¬({} : Viewer F).interp.Drops snap := fun h => h.2.1 rfl
      have hsome : (({} : Viewer F).push snap).accepted ≠ none := by
        rw [accepted_push hdrop]
        exact Option.some_ne_none _
      have hhead : Timed ({} : Viewer F) snap ↔ snap.tick ≠ 0 := by simp [Timed]
      rw [Along, along_timed hsome, hhead, List.forall_mem_cons]
      simp only [List.head?_cons, Option.some.injEq, forall_eq']
      tauto

/-- A room's first snapshot, full and of tick 0, is accepted; the replica has
no data, and it accepts an incremental snapshot of tick 0 after it. -/
theorem fresh_run_first_snapshot :
    let snap (full : Bool) (x : ℤ) : StateSnapshot ℤ :=
      { tick := 0, full := full, projectiles := []
        players := [{ playerId := 7, x := x, y := 0, hp := 100, lastInputSeq := 0 }] }
    let v := ({} : Viewer ℤ).push (snap true 0)
    v.accepted = some 0 ∧ v.interp.hasData = false ∧ (v.interp.push (snap false 5)) ≠ v.interp ∧
      ¬Visits push Fresh {} [snap true 0] := by
  intro snap v
  have hdata : v.interp.hasData = false := rfl
  have hacc : v.accepted = some 0 := rfl
  refine ⟨hacc, hdata, ?_, fun hvisits => ?_⟩
  · intro heq
    have htwo : ((v.interp.push (snap false 5)).tracks.lookup 7).map List.length = some 2 := rfl
    have hone : (v.interp.tracks.lookup 7).map List.length = some 1 := rfl
    rw [heq, hone] at htwo
    cases htwo
  · have hlast : v.Fresh := hvisits.last
    have hsome := hlast.hasData.mpr rfl
    rw [hdata] at hsome
    cases hsome

end Viewer

end GameServer.Client
