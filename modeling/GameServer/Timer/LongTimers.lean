import GameServer.Timer.Clock
import GameServer.Timer.Moves

/-!
Timers beyond the range of the wheel.

`place` truncates such a timer by overwriting its expiry tick, so the tick it
was meant for is forgotten: the cascade finds the node due and lets it fire,
where the comment expects it to be placed again. A delay so close to `2 ^ 64`
that the rounding wraps is due at the next tick. Either way a timer of more
than 409500 ms never fires on time, it is early or it does not fire: the run
must end before the truncated tick, or cancel the timer while it waits.
-/

namespace GameServer.Timer

open Lib TimerWheel

variable {α τ : Type}

/-- The tick at which a timer beyond the range is due in the wheel. -/
def truncatedTick (tick delayMs : ℕ) : ℕ :=
  if delayMs + 99 < 2 ^ 64 then tick + 4095 else tick + 1

theorem expiryOf_long {tick delayMs : ℕ} (hlong : 409500 < delayMs) (hfits : delayMs < 2 ^ 64) :
    expiryOf tick delayMs = truncatedTick tick delayMs := by
  have hsum : delayMs + kTickMs - 1 = delayMs + 99 := rfl
  by_cases hwrap : delayMs + 99 < 2 ^ 64
  · have hticks : ticksOf delayMs = (delayMs + 99) / 100 := by
      rw [ticksOf, hsum, Nat.mod_eq_of_lt hwrap]
      exact if_neg (by simp only [kTickMs]; omega)
    rw [truncatedTick, if_pos hwrap, expiryOf, placedExpiry, hticks, if_pos]
    · simp only [kSlots]
      omega
    · simp only [kSlots]
      omega
  · -- the sum wraps to less than a tick, which counts as one
    have hticks : ticksOf delayMs = 1 := by
      rw [ticksOf, hsum]
      exact if_pos (by simp only [kTickMs]; omega)
    rw [truncatedTick, if_neg hwrap, expiryOf, placedExpiry, hticks, if_neg]
    simp only [kSlots]
    omega

theorem truncatedTick_early {tick delayMs : ℕ} (hlong : 409500 < delayMs) :
    truncatedTick tick delayMs < tick + (delayMs + 99) / 100 := by
  unfold truncatedTick
  split <;> omega

/-! ### What the log says about the past -/

/-- Callbacks start at ticks the clock has reached, and a `cancel` finds the
timer in the state its log gives it. -/
structure Trail (s : World α τ) : Prop where
  reached : ∀ id t, .fire id t ∈ s.log → t ≤ s.wheel.nowTick
  cancels : ∀ before after id w₁ w₂, s.log = before ++ .cancel id w₁ w₂ :: after →
    Life before w₁ id ∧ (w₁.alive.lookup id = none ↔ w₁.pending id = none)

/-- The log grows by an event that is not a `cancel`, at a tick not before
the present. -/
theorem Trail.concat {s s' : World α τ} (h : Trail s) {e : TimerEvent α}
    (hlog : s'.log = s.log ++ [e]) (hnow : s.wheel.nowTick ≤ s'.wheel.nowTick)
    (hfire : ∀ id t, e = .fire id t → t ≤ s'.wheel.nowTick)
    (hcancel : ∀ id w₁ w₂, e = .cancel id w₁ w₂ →
      Life s.log w₁ id ∧ (w₁.alive.lookup id = none ↔ w₁.pending id = none)) : Trail s' where
  reached id t ht := by
    rw [hlog] at ht
    rcases List.mem_append.mp ht with ht | ht
    · exact (h.reached id t ht).trans hnow
    · exact hfire id t (List.mem_singleton.mp ht).symm
  cancels before after id w₁ w₂ heq := by
    rw [hlog] at heq
    rcases concat_eq_append_cons heq with ⟨rfl, he, -⟩ | ⟨l, -, hl⟩
    · exact hcancel id w₁ w₂ he.symm
    · exact h.cancels before l id w₁ w₂ hl

theorem kept_trail : Kept fun (s : World α τ) _ => Trail s where
  ret _ _ _ h := ⟨h.reached, h.cancels⟩
  add s q delayMs cb _ h :=
    h.concat rfl (by simp) (fun _ _ he => by cases he) fun _ _ _ he => by cases he
  cancel s q id hinv h := by
    refine h.concat rfl (by simp) (fun _ _ he => by cases he) fun id' w₁ w₂ he => ?_
    obtain ⟨rfl, rfl, -⟩ := TimerEvent.cancel.inj he
    exact ⟨hinv.life id, hinv.ready.rep.pending_eq_none.symm⟩
  skip _ _ _ _ h := h
  fire s n q node _ _ _ h := by
    refine h.concat rfl le_rfl (fun id t he => ?_) fun _ _ _ he => by cases he
    obtain ⟨-, rfl⟩ := TimerEvent.fire.inj he
    exact le_rfl
  tick s hinv h := by
    refine ⟨fun id t ht => (h.reached id t ht).trans ?_, h.cancels⟩
    rw [hinv.ready.beginStep.2.1]
    exact Nat.le_succ _
  remainder _ _ h := ⟨h.reached, h.cancels⟩

theorem trail_run (body : α → τ → Action α τ) (user : τ) (cmds : List (Cmd α τ)) :
    Trail (cmds.foldl (World.exec body) { user := user }) := by
  refine kept_trail.exec_run body user ⟨fun id t ht => ?_, ?_⟩ cmds
  · cases ht
  · intro before after id w₁ w₂ h
    simp at h

/-! ### Early or not at all -/

/-- The timer is cancelled while `alive_` still has it. -/
def CancelledAlive (id : ℕ) (log : List (TimerEvent α)) : Prop :=
  ∃ w₁ w₂, .cancel id w₁ w₂ ∈ log ∧ w₁.alive.lookup id ≠ none

/-- No timer beyond the range of the wheel has fired before its time. -/
def NeverEarly (s : World α τ) : Prop :=
  ∀ before after id delayMs tick, s.log = before ++ .add id delayMs tick :: after →
    409500 < delayMs → delayMs < 2 ^ 64 →
    ∀ t, .fire id t ∈ after → tick + (delayMs + 99) / 100 ≤ t

/-- Every timer beyond the range of the wheel is stopped before it is due in
the wheel, by the end of the run or by a `cancel`. -/
def StoppedBefore (s : World α τ) : Prop :=
  ∀ before after id delayMs tick, s.log = before ++ .add id delayMs tick :: after →
    409500 < delayMs → delayMs < 2 ^ 64 →
    s.wheel.nowTick < truncatedTick tick delayMs ∨ CancelledAlive id after

theorem Quiet.no_cancelledAlive {id : ℕ} {log : List (TimerEvent α)} (h : Quiet id log) :
    ¬CancelledAlive id log := by
  rintro ⟨w₁, w₂, hmem, -⟩
  have := h.2 _ hmem
  simp [TimerEvent.isCancel] at this

/-- A timer that has fired is not found alive by a later `cancel`. -/
theorem Trail.fired_not_alive {s : World α τ} (h : Trail s) {before after : List (TimerEvent α)}
    {id t : ℕ} (hlog : s.log = before ++ .fire id t :: after) : ¬CancelledAlive id after := by
  rintro ⟨w₁, w₂, hmem, halive⟩
  obtain ⟨mid, rest, rfl⟩ := List.append_of_mem hmem
  obtain ⟨hlife, hnone⟩ := h.cancels (before ++ .fire id t :: mid) rest id w₁ w₂ (by
    rw [hlog, List.append_assoc, List.cons_append])
  have hspent : Spent id (before ++ .fire id t :: mid) := .inr ⟨t, by simp⟩
  exact halive (hnone.mpr (hlife.pending_of_spent hspent))

/-- The first `cancel` of a waiting timer finds it alive. -/
theorem Trail.cancel_alive {s : World α τ} (h : Trail s)
    {before mid rest : List (TimerEvent α)} {id delayMs tick : ℕ} {w₁ w₂ : TimerWheel α}
    (hlog : s.log = before ++ .add id delayMs tick :: (mid ++ .cancel id w₁ w₂ :: rest))
    (hmid : Quiet id mid) : w₁.alive.lookup id ≠ none := by
  obtain ⟨hlife, hnone⟩ := h.cancels (before ++ .add id delayMs tick :: mid) rest id w₁ w₂ (by
    rw [hlog, List.append_assoc, List.cons_append])
  rcases (hlife.after_add rfl).2 with ⟨-, node, hp, -⟩ | ⟨m, r, rfl, -⟩ | ⟨m, v₁, v₂, r, rfl, -⟩
  · intro hdead
    rw [hnone.mp hdead] at hp
    cases hp
  · have := (hmid.1 _ (List.mem_append_right m (List.mem_cons_self ..))).2
    simp [TimerEvent.isFire] at this
  · have := hmid.2 _ (List.mem_append_right m (List.mem_cons_self ..))
    simp [TimerEvent.isCancel] at this

/-- What becomes of a timer beyond the range. -/
theorem long_timer_cases {s : World α τ} (hinv : s.Inv []) (h : Trail s)
    {before after : List (TimerEvent α)} {id delayMs tick : ℕ}
    (hlog : s.log = before ++ .add id delayMs tick :: after)
    (hlong : 409500 < delayMs) (hfits : delayMs < 2 ^ 64) :
    ((∀ t, .fire id t ∉ after) ∧
      (s.wheel.nowTick < truncatedTick tick delayMs ∨ CancelledAlive id after)) ∨
    (.fire id (truncatedTick tick delayMs) ∈ after ∧
      truncatedTick tick delayMs ≤ s.wheel.nowTick ∧ ¬CancelledAlive id after) := by
  have hdue : expiryOf tick delayMs = truncatedTick tick delayMs := expiryOf_long hlong hfits
  rcases ((hinv.life id).after_add hlog).2 with ⟨hafter, node, hp, hexp⟩ |
    ⟨mid, rest, rfl, hmid, hrest⟩ | ⟨mid, w₁, w₂, rest, rfl, hmid, hrest⟩
  · left
    refine ⟨hafter.1.no_fire, .inl ?_⟩
    rcases hinv.ready.pending_expiry hp with ⟨hq, -⟩ | hlater
    · exact absurd hq List.not_mem_nil
    · rwa [hexp, hdue] at hlater
  · right
    rw [hdue] at hlog ⊢
    have hmem : .fire id (truncatedTick tick delayMs) ∈
        mid ++ .fire id (truncatedTick tick delayMs) :: rest := by simp
    refine ⟨hmem, h.reached id _ ?_, ?_⟩
    · rw [hlog]
      exact List.mem_append_right _ (List.mem_cons_of_mem _ hmem)
    · have hsplit : s.log = (before ++ .add id delayMs tick :: mid) ++
          .fire id (truncatedTick tick delayMs) :: rest := by
        rw [hlog, List.append_assoc, List.cons_append]
      have hrest' := h.fired_not_alive hsplit
      rintro ⟨w₁, w₂, hcancel, halive⟩
      rcases List.mem_append.mp hcancel with hcancel | hcancel
      · exact hmid.no_cancelledAlive ⟨w₁, w₂, hcancel, halive⟩
      · rcases List.mem_cons.mp hcancel with hcancel | hcancel
        · cases hcancel
        · exact hrest' ⟨w₁, w₂, hcancel, halive⟩
  · left
    refine ⟨fun t ht => ?_, .inr ⟨w₁, w₂, by simp, h.cancel_alive hlog hmid⟩⟩
    rcases List.mem_append.mp ht with ht | ht
    · exact hmid.1.no_fire t ht
    · rcases List.mem_cons.mp ht with ht | ht
      · cases ht
      · exact hrest.no_fire t ht

/-- A timer beyond the range of the wheel never fires on time. A run starts
no such timer early exactly if each of them is stopped: the clock has not
reached the tick to which the wheel truncates it, or it was cancelled while
it waited. -/
theorem long_timer_early_iff (body : α → τ → Action α τ) (user : τ) (cmds : List (Cmd α τ)) :
    let s := cmds.foldl (World.exec body) { user := user }
    NeverEarly s ↔ StoppedBefore s := by
  intro s
  have hinv : s.Inv [] := World.inv_run body user cmds
  have htrail : Trail s := trail_run body user cmds
  constructor
  · intro hnever before after id delayMs tick hlog hlong hfits
    rcases long_timer_cases hinv htrail hlog hlong hfits with ⟨-, hstop⟩ | ⟨hfire, -, -⟩
    · exact hstop
    · have hlate := hnever before after id delayMs tick hlog hlong hfits _ hfire
      exact absurd (truncatedTick_early hlong) (Nat.not_lt.mpr hlate)
  · intro hstop before after id delayMs tick hlog hlong hfits t ht
    rcases long_timer_cases hinv htrail hlog hlong hfits with ⟨hnone, -⟩ | ⟨-, hreached, halive⟩
    · exact absurd ht (hnone t)
    · rcases hstop before after id delayMs tick hlog hlong hfits with hbefore | hcancel
      · exact absurd hbefore (Nat.not_lt.mpr hreached)
      · exact absurd hcancel halive

/-- Callbacks that leave the wheel alone. -/
def idle : α → τ → Action α τ := fun _ user => .ret user

theorem idle_fireSlot (q : List NodePtr) (s : World α τ) :
    ∃ fires, ((worldHost idle).fireSlot q s).log = s.log ++ fires ∧
      ∀ e ∈ fires, ∀ id, e.isCancel id = false := by
  unfold Host.fireSlot
  induction q generalizing s with
  | nil => exact ⟨[], by simp, by simp⟩
  | cons n q ih =>
      obtain ⟨fires, hlog, hfires⟩ := ih ((worldHost idle).fireOne s n)
      rw [List.foldl_cons, hlog]
      unfold Host.fireOne
      cases (((worldHost idle).wheel s).take n) with
      | none => exact ⟨fires, rfl, hfires⟩
      | some r =>
          refine ⟨.fire r.1.id r.2.nowTick :: fires, ?_, ?_⟩
          · exact List.append_assoc s.log [.fire r.1.id r.2.nowTick] fires
          · intro e he id
            rcases List.mem_cons.mp he with rfl | he
            · rfl
            · exact hfires e he id

theorem idle_steps (k : ℕ) (s : World α τ) :
    ∃ fires, ((worldHost idle).step^[k] s).log = s.log ++ fires ∧
      ∀ e ∈ fires, ∀ id, e.isCancel id = false := by
  induction k generalizing s with
  | zero => exact ⟨[], by simp, by simp⟩
  | succ k ih =>
      obtain ⟨fires, hlog, hfires⟩ := idle_fireSlot s.wheel.beginStep.2
        { s with wheel := s.wheel.beginStep.1 }
      obtain ⟨later, hlog', hlater⟩ := ih ((worldHost idle).step s)
      have hstep : ((worldHost idle).step s).log = s.log ++ fires := hlog
      refine ⟨fires ++ later, ?_, fun e he id => ?_⟩
      · rw [Function.iterate_succ_apply, hlog', hstep, List.append_assoc]
      · rcases List.mem_append.mp he with he | he
        · exact hfires e he id
        · exact hlater e he id

theorem idle_advance (elapsedMs : ℕ) (s : World α τ) :
    ∃ fires, ((worldHost idle).advance elapsedMs s).log = s.log ++ fires ∧
      ∀ e ∈ fires, ∀ id, e.isCancel id = false :=
  idle_steps _ _

/-- If nothing but the clock moves, a timer beyond the range is started early
as soon as the truncated tick is reached. -/
theorem idle_early {s : World α τ} (hinv : s.Inv []) (htrail : Trail s)
    {before fires : List (TimerEvent α)} {id delayMs tick : ℕ}
    (hlog : s.log = before ++ .add id delayMs tick :: fires)
    (hfires : ∀ e ∈ fires, e.isCancel id = false)
    (hlong : 409500 < delayMs) (hfits : delayMs < 2 ^ 64)
    (hreached : truncatedTick tick delayMs ≤ s.wheel.nowTick) : ¬NeverEarly s := by
  intro hnever
  rcases long_timer_cases hinv htrail hlog hlong hfits with ⟨-, hbefore | hcancel⟩ | ⟨hfire, -⟩
  · exact absurd hbefore (Nat.not_lt.mpr hreached)
  · obtain ⟨w₁, w₂, hmem, -⟩ := hcancel
    simpa [TimerEvent.isCancel] using hfires _ hmem
  · have hlate := hnever _ _ _ _ _ hlog hlong hfits _ hfire
    exact absurd (truncatedTick_early hlong) (Nat.not_lt.mpr hlate)

/-- A world in which nothing happens but that a timer is added and the clock
moves on. -/
theorem idle_add_advance_early {delayMs elapsedMs : ℕ} (hlong : 409500 < delayMs)
    (hfits : delayMs < 2 ^ 64)
    (hreached : truncatedTick 0 delayMs ≤ elapsedMs % 2 ^ 64 / kTickMs) :
    ¬NeverEarly ([.act fun _ => .add delayMs () fun _ => .ret (), .advance elapsedMs].foldl
      (World.exec idle) ({ user := () } : World Unit Unit)) := by
  let code : Unit → Action Unit Unit := fun _ => .add delayMs () fun _ => .ret ()
  have hinv := World.inv_run idle () [.act code, .advance elapsedMs]
  have htrail := trail_run idle () [.act code, .advance elapsedMs]
  obtain ⟨fires, hlog, hfires⟩ :=
    idle_advance elapsedMs (World.exec idle { user := () } (.act code))
  have hclock := nowTick_advance idle elapsedMs (World.exec idle { user := () } (.act code))
  have hstart : (World.exec idle { user := () } (.act code)).wheel.clock = (0, 0) :=
    clock_add delayMs () {}
  obtain ⟨hnow, hrem⟩ := Prod.mk.inj hstart
  change (World.exec idle { user := () } (.act code)).wheel.nowTick = 0 at hnow
  change (World.exec idle { user := () } (.act code)).wheel.remainderMs = 0 at hrem
  refine @idle_early _ _ _ hinv htrail [] _ _ _ _ hlog (fun e he => hfires e he 1) hlong hfits ?_
  refine hreached.trans (Nat.le_of_eq ?_)
  refine Eq.trans ?_ hclock.symm
  rw [hnow, hrem, Nat.zero_add, Nat.zero_add]

/-- A timer of 409501 ms, and nothing but the clock moved on by 409500 ms: its
callback starts at tick 4095 and should start at tick 4096. -/
theorem long_timer_early_one_tick :
    ¬NeverEarly ([.act fun _ => .add 409501 () fun _ => .ret (), .advance 409500].foldl
      (World.exec idle) ({ user := () } : World Unit Unit)) :=
  idle_add_advance_early (by decide) (by decide) (by decide)

/-- The longest delay of all is over after one tick. -/
example :
    ¬NeverEarly ([.act fun _ => .add (2 ^ 64 - 1) () fun _ => .ret (), .advance 100].foldl
      (World.exec idle) ({ user := () } : World Unit Unit)) :=
  idle_add_advance_early (by decide) (by decide) (by decide)

end GameServer.Timer
