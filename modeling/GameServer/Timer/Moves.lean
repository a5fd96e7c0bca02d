import GameServer.Timer.Firing

/-!
A run of the wheel, cut into its primitive moves.

Commands, callbacks and the loops of `advance` and `fireSlot` only arrange
seven moves: code ends, adds or cancels; the next pointer in hand is skipped
or fired; the clock begins a tick; the sub-tick remainder is set. A property
that each of them keeps holds after every run (`Kept.exec_run`), so an
invariant is proved move by move and never through the nesting of callbacks.
-/

namespace GameServer.Timer

open Lib TimerWheel

variable {α τ : Type}

/-- A property of the world and of what `fireSlot` has left to do is kept by
every move. The moves may rely on the invariant of a run. -/
structure Kept (J : World α τ → List NodePtr → Prop) : Prop where
  ret : ∀ s q user, J s q → J { s with user := user } q
  add : ∀ s q delayMs cb, s.Inv q → J s q →
    J { s with
      wheel := (s.wheel.add delayMs cb).1
      log := s.log ++ [.add s.wheel.nextId delayMs s.wheel.nowTick] } q
  cancel : ∀ s q id, s.Inv q → J s q →
    J { s with
      wheel := s.wheel.cancel id
      log := s.log ++ [.cancel id s.wheel (s.wheel.cancel id)] } q
  skip : ∀ s n q, s.Inv (n :: q) → J s (n :: q) → J s q
  fire : ∀ s n q node, s.Inv (n :: q) → s.wheel.pending n = some node →
    node.expiryTick = s.wheel.nowTick → J s (n :: q) →
    J { s with
      wheel := { s.wheel with alive := s.wheel.alive.erase n }
      log := s.log ++ [.fire node.id s.wheel.nowTick] } q
  tick : ∀ s, s.Inv [] → J s [] →
    J { s with wheel := s.wheel.beginStep.1 } s.wheel.beginStep.2
  remainder : ∀ s r, J s [] → J { s with wheel := { s.wheel with remainderMs := r } } []

namespace Kept

variable {J : World α τ → List NodePtr → Prop} {body : α → τ → Action α τ}
  {s : World α τ} {n : NodePtr} {q : List NodePtr}

theorem run (hJ : Kept J) (h : s.Inv q) (hs : J s q) (code : Action α τ) : J (code.run s) q := by
  induction code generalizing s with
  | ret user => exact hJ.ret s q user hs
  | add delayMs cb k ih => exact ih _ (h.add delayMs cb) (hJ.add s q delayMs cb h hs)
  | cancel id k ih => exact ih (h.cancel id) (hJ.cancel s q id h hs)

theorem fireOne (hJ : Kept J) (h : s.Inv (n :: q)) (hs : J s (n :: q)) :
    J ((worldHost body).fireOne s n) q := by
  unfold Host.fireOne
  rw [show (worldHost body).wheel s = s.wheel from rfl]
  rcases h.ready.take with ⟨htake, -⟩ | ⟨node, hp, hexp, htake, -⟩
  · rw [htake]
    exact hJ.skip s n q h hs
  · rw [htake]
    exact hJ.run (h.fired hp) (hJ.fire s n q node h hp hexp hs) _

theorem fireSlot (hJ : Kept J) (h : s.Inv q) (hs : J s q) :
    J ((worldHost body).fireSlot q s) [] := by
  unfold Host.fireSlot
  induction q generalizing s with
  | nil => exact hs
  | cons n q ih => exact ih h.fireOne (hJ.fireOne h hs)

theorem step (hJ : Kept J) (h : s.Inv []) (hs : J s []) : J ((worldHost body).step s) [] :=
  hJ.fireSlot h.tick (hJ.tick s h hs)

theorem steps (hJ : Kept J) (h : s.Inv []) (hs : J s []) (k : ℕ) :
    J ((worldHost body).step^[k] s) [] := by
  induction k generalizing s with
  | zero => exact hs
  | succ k ih => exact ih h.step (hJ.step h hs)

theorem exec (hJ : Kept J) (h : s.Inv []) (hs : J s []) (c : Cmd α τ) : J (s.exec body c) [] := by
  cases c with
  | act code => exact hJ.run h hs (code s.user)
  | advance elapsedMs => exact hJ.steps (h.setRemainder _) (hJ.remainder s _ hs) _

/-- The rule: what every move keeps holds after every run. -/
theorem exec_run (hJ : Kept J) (body : α → τ → Action α τ) (user : τ)
    (hinit : J { user := user } []) (cmds : List (Cmd α τ)) :
    J (cmds.foldl (World.exec body) { user := user }) [] := by
  have hboth : ∀ s c, World.Inv s [] ∧ J s [] →
      World.Inv (World.exec body s c) [] ∧ J (World.exec body s c) [] :=
    fun s c h => ⟨h.1.exec c, hJ.exec h.1 h.2 c⟩
  have hstart : World.Inv ({ user := user } : World α τ) [] := World.inv_run body user []
  exact (invariant_run_of_step hboth ⟨hstart, hinit⟩ cmds).2

end Kept

end GameServer.Timer
