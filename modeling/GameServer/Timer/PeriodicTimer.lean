import GameServer.Timer.Clock

/-!
`src/timer/PeriodicTimer.cc`, and the wheel as `GameServer::start` drives it.

The kernel counts the expirations of a `timerfd`, and `read` fetches the
count. `handleRead` does not look at it: after a pause of the loop the wheel
makes one tick, however many periods have passed. `missed` counts the ticks
that the wheel will never make, and `history` says when things happened by the
clock of the kernel. A handler takes no time here; what it takes passes when
it has returned.
-/

namespace GameServer.Timer

open Lib TimerWheel

structure PeriodicTimer where
  intervalMs : ℕ
  /-- The time since `timerfd_settime`. -/
  elapsedMs : ℕ := 0
  /-- The expirations that `read` has fetched. -/
  seen : ℕ := 0

namespace PeriodicTimer

/-- The count in the kernel. The channel is readable when it is not zero. -/
def expirations (t : PeriodicTimer) : ℕ := t.elapsedMs / t.intervalMs - t.seen

def read (t : PeriodicTimer) : PeriodicTimer := { t with seen := t.elapsedMs / t.intervalMs }

end PeriodicTimer

/-- An event of the wheel, when it happened and how many ticks had been missed
by then. -/
structure Record (α : Type) where
  event : TimerEvent α
  atMs : ℕ
  missed : ℕ

structure DrivenWheel (α τ : Type) where
  driver : PeriodicTimer := { intervalMs := 100 }
  world : World α τ
  missed : ℕ := 0
  history : List (Record α) := []

/-- Time passes, the timer's event is handled, or other code runs on the
loop. -/
inductive DriverAct (α τ : Type) where
  | elapse (ms : ℕ)
  | handleRead
  | act (code : τ → Action α τ)

namespace DrivenWheel

variable {α τ : Type} (body : α → τ → Action α τ)

def exec (s : DrivenWheel α τ) (cmd : Cmd α τ) : DrivenWheel α τ :=
  let world := s.world.exec body cmd
  { s with
    world := world
    history := s.history ++ (world.log.drop s.world.log.length).map fun e =>
      ⟨e, s.driver.elapsedMs, s.missed⟩ }

def handleRead (s : DrivenWheel α τ) : DrivenWheel α τ :=
  { s with
    driver := s.driver.read
    missed := s.missed + (s.driver.expirations - 1) }.exec body (.advance 100)

def step (s : DrivenWheel α τ) : DriverAct α τ → DrivenWheel α τ
  | .elapse ms => { s with driver := { s.driver with elapsedMs := s.driver.elapsedMs + ms } }
  | .handleRead => if 0 < s.driver.expirations then s.handleRead body else s
  | .act code => s.exec body (.act code)

end DrivenWheel

variable {α τ : Type} {body : α → τ → Action α τ}

/-- The tick at which something happened. -/
def TimerEvent.tick : TimerEvent α → Option ℕ
  | .add _ _ tick => some tick
  | .cancel _ _ _ => none
  | .fire _ tick => some tick

/-! ### What a handler adds to the log -/

theorem Action.log_run (code : Action α τ) (s : World α τ) :
    ∃ es, (code.run s).log = s.log ++ es ∧ ∀ e ∈ es,
      (∀ t, e.tick = some t → t = s.wheel.nowTick) ∧ ∀ id t, e ≠ .fire id t := by
  induction code generalizing s with
  | ret user => exact ⟨[], (List.append_nil _).symm, by simp⟩
  | add delayMs cb k ih =>
      obtain ⟨es, hlog, hes⟩ := ih (s.wheel.add delayMs cb).2 { s with
        wheel := (s.wheel.add delayMs cb).1
        log := s.log ++ [.add (s.wheel.add delayMs cb).2 delayMs s.wheel.nowTick] }
      have hnow : (s.wheel.add delayMs cb).1.nowTick = s.wheel.nowTick :=
        congrArg Prod.fst (clock_add delayMs cb s.wheel)
      refine ⟨.add (s.wheel.add delayMs cb).2 delayMs s.wheel.nowTick :: es,
        hlog.trans (List.append_assoc ..), fun e he => ?_⟩
      rcases List.mem_cons.mp he with rfl | he
      · exact ⟨fun t ht => (Option.some.inj ht).symm, nofun⟩
      · exact ⟨fun t ht => ((hes e he).1 t ht).trans hnow, (hes e he).2⟩
  | cancel id k ih =>
      obtain ⟨es, hlog, hes⟩ := ih { s with
        wheel := s.wheel.cancel id
        log := s.log ++ [.cancel id s.wheel (s.wheel.cancel id)] }
      have hnow : (s.wheel.cancel id).nowTick = s.wheel.nowTick :=
        congrArg Prod.fst (clock_cancel id s.wheel)
      refine ⟨.cancel id s.wheel (s.wheel.cancel id) :: es, hlog.trans (List.append_assoc ..),
        fun e he => ?_⟩
      rcases List.mem_cons.mp he with rfl | he
      · exact ⟨nofun, nofun⟩
      · exact ⟨fun t ht => ((hes e he).1 t ht).trans hnow, (hes e he).2⟩

theorem log_fireSlot (body : α → τ → Action α τ) (q : List NodePtr) (s : World α τ) :
    ∃ es, ((worldHost body).fireSlot q s).log = s.log ++ es ∧
      ∀ e ∈ es, ∀ t, e.tick = some t → t = s.wheel.nowTick := by
  unfold Host.fireSlot
  induction q generalizing s with
  | nil => exact ⟨[], (List.append_nil _).symm, by simp⟩
  | cons n q ih =>
      obtain ⟨es, hlog, hes⟩ := ih ((worldHost body).fireOne s n)
      have hnow : ((worldHost body).fireOne s n).wheel.nowTick = s.wheel.nowTick :=
        congrArg Prod.fst (clock_fireSlot body [n] s)
      have hone : ∃ es, ((worldHost body).fireOne s n).log = s.log ++ es ∧
          ∀ e ∈ es, ∀ t, e.tick = some t → t = s.wheel.nowTick := by
        unfold Host.fireOne
        rw [show (worldHost body).wheel s = s.wheel from rfl]
        cases htake : s.wheel.take n with
        | none => exact ⟨[], (List.append_nil _).symm, by simp⟩
        | some r =>
            have hsame : r.2.nowTick = s.wheel.nowTick := congrArg Prod.fst (clock_take htake)
            obtain ⟨es, hlog, hes⟩ := (body r.1.cb s.user).log_run { s with
              wheel := r.2, log := s.log ++ [.fire r.1.id r.2.nowTick] }
            refine ⟨.fire r.1.id r.2.nowTick :: es, hlog.trans (List.append_assoc ..),
              fun e he t ht => ?_⟩
            rcases List.mem_cons.mp he with rfl | he
            · exact (Option.some.inj ht).symm.trans hsame
            · exact ((hes e he).1 t ht).trans hsame
      obtain ⟨es₁, hlog₁, hes₁⟩ := hone
      refine ⟨es₁ ++ es, ?_, fun e he t ht => ?_⟩
      · rw [List.foldl_cons, hlog, hlog₁, List.append_assoc]
      · rcases List.mem_append.mp he with he | he
        · exact hes₁ e he t ht
        · exact (hes e he t ht).trans hnow

/-- When no milliseconds are left over, `advance(100)` is one tick. -/
theorem log_advance (body : α → τ → Action α τ) {s : World α τ} (hrem : s.wheel.remainderMs = 0) :
    ∃ es, ((worldHost body).advance 100 s).log = s.log ++ es ∧
      ∀ e ∈ es, ∀ t, e.tick = some t → t = s.wheel.nowTick + 1 := by
  have hsame : ({ s with wheel := { s.wheel with remainderMs := 0 } } : World α τ) = s := by
    rw [← hrem]
  have hadvance : (worldHost body).advance 100 s = (worldHost body).step s := by
    unfold Host.advance
    rw [show (worldHost body).wheel s = s.wheel from rfl, hrem]
    exact congrArg (worldHost body).step hsame
  obtain ⟨es, hlog, hes⟩ := log_fireSlot body s.wheel.beginStep.2
    { s with wheel := s.wheel.beginStep.1 }
  have hnow : s.wheel.beginStep.1.nowTick = s.wheel.nowTick + 1 :=
    congrArg Prod.fst (clock_beginStep s.wheel)
  rw [hadvance]
  exact ⟨es, hlog, fun e he t ht => (hes e he t ht).trans hnow⟩

/-! ### The wheel and the clock -/

namespace DrivenWheel

variable {s s' : DrivenWheel α τ}

/-- The ticks made and missed are the expirations fetched. An event of an
earlier tick came before the last `read`, so no expiration that was pending
then is pending now. -/
structure Ok (s : DrivenWheel α τ) : Prop where
  inv : s.world.Inv []
  interval : s.driver.intervalMs = 100
  remainder : s.world.wheel.remainderMs = 0
  count : s.world.wheel.nowTick + s.missed = s.driver.seen
  seen : s.driver.seen ≤ s.driver.elapsedMs / 100
  log : s.history.map Record.event = s.world.log
  past : ∀ r ∈ s.history, ∀ t, r.event.tick = some t →
    t ≤ s.world.wheel.nowTick ∧ r.missed ≤ s.missed ∧ t + r.missed ≤ r.atMs / 100 ∧
      r.atMs ≤ s.driver.elapsedMs ∧
      (t < s.world.wheel.nowTick → r.atMs / 100 ≤ t + 1 + s.missed)
  fires : ∀ r ∈ s.history, ∀ id t, r.event = .fire id t → r.atMs / 100 = t + r.missed
  order : s.history.Pairwise fun r r' => ∀ t t', r.event.tick = some t →
    r'.event.tick = some t' → r.missed ≤ r'.missed ∧ (t < t' → r.atMs / 100 ≤ t + 1 + r'.missed)

theorem Ok.elapse (h : s.Ok) (ms : ℕ) : (s.step body (.elapse ms)).Ok where
  inv := h.inv
  interval := h.interval
  remainder := h.remainder
  count := h.count
  seen := h.seen.trans (Nat.div_le_div_right (Nat.le_add_right _ _))
  log := h.log
  past r hr t ht := by
    obtain ⟨hnow, hmissed, hcount, hpast, hlate⟩ := h.past r hr t ht
    exact ⟨hnow, hmissed, hcount, hpast.trans (Nat.le_add_right _ _), hlate⟩
  fires := h.fires
  order := h.order

/-- A handler runs: at the present tick, or at the next one if the timer has
been read. -/
theorem Ok.grow (h : s.Ok) {world : World α τ} {d : PeriodicTimer} {missed : ℕ}
    {es : List (TimerEvent α)} (hinv : world.Inv []) (hrem : world.wheel.remainderMs = 0)
    (hinterval : d.intervalMs = s.driver.intervalMs)
    (helapsed : d.elapsedMs = s.driver.elapsedMs)
    (hcount : world.wheel.nowTick + missed = d.seen) (hmissed : s.missed ≤ missed)
    (htick : (world.wheel.nowTick = s.world.wheel.nowTick ∧ d.seen = s.driver.seen ∧
        ∀ e ∈ es, ∀ id t, e ≠ .fire id t) ∨
      (world.wheel.nowTick = s.world.wheel.nowTick + 1 ∧
        d.seen = s.driver.elapsedMs / 100))
    (hlog : world.log = s.world.log ++ es)
    (hticks : ∀ e ∈ es, ∀ t, e.tick = some t → t = world.wheel.nowTick) :
    Ok { s with
      driver := d, world := world, missed := missed
      history := s.history ++ es.map fun e => ⟨e, s.driver.elapsedMs, missed⟩ } := by
  have hseen : d.seen ≤ s.driver.elapsedMs / 100 := by
    rcases htick with ⟨-, hsame, -⟩ | ⟨-, hread⟩
    · exact hsame ▸ h.seen
    · exact hread.le
  have hold : ∀ r ∈ s.history, ∀ t, r.event.tick = some t → t ≤ world.wheel.nowTick ∧
      r.missed ≤ missed ∧ (t < world.wheel.nowTick → r.atMs / 100 ≤ t + 1 + missed) := by
    intro r hr t ht
    obtain ⟨hnow, hmiss, -, hpast, hlate⟩ := h.past r hr t ht
    have hdiv : r.atMs / 100 ≤ s.driver.elapsedMs / 100 := Nat.div_le_div_right hpast
    rcases htick with ⟨hsame, -, -⟩ | ⟨hnext, hread⟩
    · refine ⟨by omega, by omega, fun hlt => ?_⟩
      have := hlate (hsame ▸ hlt)
      omega
    · refine ⟨by omega, by omega, fun hlt => ?_⟩
      rcases Nat.lt_or_ge t s.world.wheel.nowTick with hlt | hge
      · have := hlate hlt
        omega
      · omega
  refine ⟨hinv, hinterval.trans h.interval, hrem, hcount, ?_, ?_, ?_, ?_, ?_⟩
  · rw [helapsed]
    exact hseen
  · rw [List.map_append, h.log, hlog, List.map_map]
    exact congrArg (_ ++ ·) (List.map_id es)
  · intro r hr t ht
    rcases List.mem_append.mp hr with hr | hr
    · obtain ⟨hnow, hmiss, hlate⟩ := hold r hr t ht
      obtain ⟨-, -, hmade, hpast, -⟩ := h.past r hr t ht
      exact ⟨hnow, hmiss, hmade, helapsed ▸ hpast, hlate⟩
    · obtain ⟨e, he, rfl⟩ := List.mem_map.mp hr
      have hsame := hticks e he t ht
      refine ⟨hsame.le, le_rfl, ?_, helapsed.ge, fun hlt => absurd hsame hlt.ne⟩
      rw [hsame, hcount]
      exact hseen
  · intro r hr id t hfire
    rcases List.mem_append.mp hr with hr | hr
    · exact h.fires r hr id t hfire
    · obtain ⟨e, he, rfl⟩ := List.mem_map.mp hr
      rcases htick with ⟨-, -, hquiet⟩ | ⟨-, hread⟩
      · exact absurd hfire (hquiet e he id t)
      · have hsame : t = world.wheel.nowTick := hticks e he t (congrArg TimerEvent.tick hfire)
        rw [hsame, hcount, hread]
  · refine List.pairwise_append.mpr ⟨h.order, ?_, fun r hr r' hr' t t' ht ht' => ?_⟩
    · refine List.Pairwise.map _ (fun e e' => id) (List.pairwise_of_forall_mem_list ?_)
      intro e he e' he' t t' ht ht'
      have hsame := (hticks e he t ht).trans (hticks e' he' t' ht').symm
      exact ⟨le_rfl, fun hlt => absurd hsame hlt.ne⟩
    · obtain ⟨e, he, rfl⟩ := List.mem_map.mp hr'
      obtain ⟨-, hmiss, hlate⟩ := hold r hr t ht
      exact ⟨hmiss, fun hlt => hlate (hticks e he t' ht' ▸ hlt)⟩

theorem Ok.act (h : s.Ok) (code : τ → Action α τ) : (s.step body (.act code)).Ok := by
  obtain ⟨es, hlog, hes⟩ := (code s.world.user).log_run s.world
  have hclock := Action.clock_run (code s.world.user) s.world
  have hnow : ((code s.world.user).run s.world).wheel.nowTick = s.world.wheel.nowTick :=
    congrArg Prod.fst hclock
  have hok := h.grow (h.inv.run (code s.world.user)) ((congrArg Prod.snd hclock).trans h.remainder)
    rfl rfl (hnow ▸ h.count) le_rfl (.inl ⟨hnow, rfl, fun e he => (hes e he).2⟩) hlog
    (fun e he t ht => ((hes e he).1 t ht).trans hnow.symm)
  have hstep : s.step body (.act code) = { s with
      world := (code s.world.user).run s.world
      history := s.history ++ es.map fun e => ⟨e, s.driver.elapsedMs, s.missed⟩ } := by
    simp only [DrivenWheel.step, DrivenWheel.exec, World.exec]
    rw [hlog, List.drop_left]
  rw [hstep]
  exact hok

theorem Ok.handleRead (h : s.Ok) (hready : 0 < s.driver.expirations) :
    (s.handleRead body).Ok := by
  obtain ⟨es, hlog, hes⟩ := log_advance body h.remainder
  have hnow : ((worldHost body).advance 100 s.world).wheel.nowTick = s.world.wheel.nowTick + 1 := by
    rw [nowTick_advance, h.remainder]
    rfl
  have hrem : ((worldHost body).advance 100 s.world).wheel.remainderMs = 0 := by
    rw [remainderMs_advance, h.remainder]
    rfl
  have hread : s.driver.read.seen = s.driver.elapsedMs / 100 := by
    rw [← h.interval]
    rfl
  have hcount : ((worldHost body).advance 100 s.world).wheel.nowTick +
      (s.missed + (s.driver.expirations - 1)) = s.driver.read.seen := by
    have := h.count
    have := h.seen
    simp only [PeriodicTimer.expirations, h.interval] at hready ⊢
    rw [hnow, hread]
    omega
  have hok := h.grow (d := s.driver.read) (h.inv.advance 100) hrem rfl rfl hcount
    (Nat.le_add_right _ _) (.inr ⟨hnow, hread⟩) hlog
    (fun e he t ht => (hes e he t ht).trans hnow.symm)
  have hstep : s.handleRead body = { s with
      driver := s.driver.read
      world := (worldHost body).advance 100 s.world
      missed := s.missed + (s.driver.expirations - 1)
      history := s.history ++ es.map fun e =>
        ⟨e, s.driver.elapsedMs, s.missed + (s.driver.expirations - 1)⟩ } := by
    simp only [DrivenWheel.handleRead, DrivenWheel.exec, World.exec]
    rw [hlog, List.drop_left]
    rfl
  rw [hstep]
  exact hok

theorem ok_run (body : α → τ → Action α τ) (user : τ) (acts : List (DriverAct α τ)) :
    (acts.foldl (step body) { world := { user := user } }).Ok := by
  have hinit : Ok ({ world := { user := user } } : DrivenWheel α τ) :=
    ⟨World.inv_run (fun _ user => .ret user) user [], rfl, rfl, rfl, Nat.zero_le _, rfl, by simp,
      by simp, .nil⟩
  refine invariant_run_of_step (fun s a h => ?_) hinit acts
  cases a with
  | elapse ms => exact h.elapse ms
  | act code => exact h.act code
  | handleRead =>
      simp only [step]
      split
      · next hready => exact h.handleRead hready
      · exact h

/-- How the wheel follows the clock. Its ticks and those it missed are the
periods that have passed and have been noticed. A timer fires less than two
ticks before its time, and less than two ticks and what the wheel has missed
in between after it. -/
theorem timers_in_real_time (body : α → τ → Action α τ) (user : τ)
    (acts : List (DriverAct α τ)) :
    let s := acts.foldl (step body) { world := { user := user } }
    s.world.wheel.nowTick + s.missed + s.driver.expirations = s.driver.elapsedMs / 100 ∧
      s.history.map Record.event = s.world.log ∧
      ∀ before mid after r r' id delayMs tick tick',
        s.history = before ++ r :: (mid ++ r' :: after) →
        r.event = .add id delayMs tick → r'.event = .fire id tick' → delayMs ≤ 409500 →
        r.atMs + delayMs < r'.atMs + 200 ∧
          r'.atMs < r.atMs + delayMs + 200 + 100 * (r'.missed - r.missed) := by
  intro s
  have h : s.Ok := ok_run body user acts
  refine ⟨?_, h.log, ?_⟩
  · have hcount := h.count
    have hseen := h.seen
    rw [PeriodicTimer.expirations, h.interval]
    omega
  · intro before mid after r r' id delayMs tick tick' hhistory hadd hfire hrange
    have hr : r ∈ s.history := by simp [hhistory]
    have hr' : r' ∈ s.history := by simp [hhistory]
    have hdue : tick' = tick + max 1 ((delayMs + 99) / 100) := by
      have hlog : s.world.log = before.map Record.event ++ .add id delayMs tick ::
          (mid.map Record.event ++ .fire id tick' :: after.map Record.event) := by
        rw [← h.log, hhistory]
        simp [hadd, hfire]
      rw [← expiryOf_eq hrange]
      rcases ((h.inv.life id).after_add hlog).2 with ⟨hquiet, -⟩ |
        ⟨mid', rest, heq, hmid, hrest⟩ | ⟨mid', w₁, w₂, rest, heq, hmid, hrest⟩
      · exact absurd (by simp) (hquiet.1.no_fire tick')
      · exact eq_of_fire_mem hmid.1 hrest (heq ▸ by simp)
      · have hmem : .fire id tick' ∈ mid' ++ .cancel id w₁ w₂ :: rest := heq ▸ by simp
        rcases List.mem_append.mp hmem with hmem | hmem
        · exact absurd hmem (hmid.1.no_fire tick')
        · rcases List.mem_cons.mp hmem with hmem | hmem
          · cases hmem
          · exact absurd hmem (hrest.no_fire tick')
    have hpair : r.missed ≤ r'.missed ∧ (tick < tick' → r.atMs / 100 ≤ tick + 1 + r'.missed) := by
      have horder := h.order
      rw [hhistory] at horder
      exact (List.pairwise_cons.mp (List.pairwise_append.mp horder).2.1).1 r' (by simp) tick tick'
        (by rw [hadd]; rfl) (by rw [hfire]; rfl)
    have hfired := h.fires r' hr' id tick' hfire
    obtain ⟨-, -, hmade, -⟩ := h.past r hr tick (by rw [hadd]; rfl)
    have hearly := hpair.2 (by omega)
    have hmissed := hpair.1
    omega

/-- A timer of 300 ms, and a pause of a second. -/
theorem timers_in_real_time_paused :
    let acts : List (DriverAct Unit Unit) :=
      [.act fun _ => .add 300 () fun _ => .ret (), .elapse 1000, .handleRead, .elapse 100,
        .handleRead, .elapse 100, .handleRead]
    let s := acts.foldl (step fun _ _ => .ret ()) { world := { user := () } }
    s.history = [⟨.add 1 300 0, 0, 0⟩, ⟨.fire 1 3, 1200, 9⟩] ∧
      0 + 300 < 1200 + 200 ∧ 1200 < 0 + 300 + 200 + 100 * (9 - 0) := by
  intro acts s
  have hhistory : s.history =
      [] ++ ⟨.add 1 300 0, 0, 0⟩ :: ([] ++ ⟨.fire 1 3, 1200, 9⟩ :: []) := rfl
  have h := timers_in_real_time (fun _ _ => .ret ()) () acts
  exact ⟨hhistory, h.2.2 [] [] [] _ _ 1 300 0 3 hhistory rfl rfl (by decide)⟩

/-- A timer of 200 ms that comes 199 ms early: an expiration was pending when
it was started, and the next one was due. -/
example :
    let acts : List (DriverAct Unit Unit) :=
      [.elapse 199, .act fun _ => .add 200 () fun _ => .ret (), .handleRead, .elapse 1, .handleRead]
    (acts.foldl (step fun _ _ => .ret ()) { world := { user := () } }).history =
      [⟨.add 1 200 0, 199, 0⟩, ⟨.fire 1 2, 200, 0⟩] := rfl

end DrivenWheel

end GameServer.Timer
