import Mathlib.Data.List.Perm.Basic
import Mathlib.Logic.Function.Basic

/-!
Event loops that take turns.

A loop polls, runs the handlers of what was reported and then the functors
that were queued, which stay in their vector until the last of them has run.
`F` are the functors and `E` the reported events. Between two steps of a
handler a request may be in nobody's queue: it has just left one, or is about
to enter one. A `hand` holds such requests, and `line` are all the functors
that a loop has still to run, those in the hand included.
-/

namespace GameServer.Lib

inductive Phase (F E : Type) where
  | polling
  | handling (active : List E)
  | running (executed functors : List F)
deriving DecidableEq

structure Reactor (F E : Type) where
  pendingFunctors : List F := []
  phase : Phase F E := .polling

namespace Reactor

variable {F E : Type} {r r' : Reactor F E} {e : E} {f g : F}

/-- The functors that have still to run, in order. -/
def todo (r : Reactor F E) : List F :=
  match r.phase with
  | .running _ functors => functors ++ r.pendingFunctors
  | _ => r.pendingFunctors

/-- The functors that exist. -/
def held (r : Reactor F E) : List F :=
  match r.phase with
  | .running executed functors => executed ++ (functors ++ r.pendingFunctors)
  | _ => r.pendingFunctors

/-- The events whose handlers have still to run. -/
def active (r : Reactor F E) : List E :=
  match r.phase with
  | .handling active => active
  | _ => []

def push (r : Reactor F E) (f : F) : Reactor F E :=
  { r with pendingFunctors := r.pendingFunctors ++ [f] }

def poll (r : Reactor F E) (ready : List E) : Reactor F E :=
  match r.phase with
  | .polling => { r with phase := .handling ready }
  | _ => r

/-- The next handler. -/
def takeEvent (r : Reactor F E) : Option (E × Reactor F E) :=
  match r.phase with
  | .handling (e :: rest) => some (e, { r with phase := .handling rest })
  | _ => none

def swapFunctors (r : Reactor F E) : Reactor F E :=
  match r.phase with
  | .handling [] => { pendingFunctors := [], phase := .running [] r.pendingFunctors }
  | _ => r

/-- The next functor. -/
def takeFunctor (r : Reactor F E) : Option (F × Reactor F E) :=
  match r.phase with
  | .running executed (f :: rest) => some (f, { r with phase := .running (executed ++ [f]) rest })
  | _ => none

/-- The vector of functors is destroyed. -/
def finish (r : Reactor F E) : Reactor F E :=
  match r.phase with
  | .running _ [] => { r with phase := .polling }
  | _ => r

theorem todo_subset_held (r : Reactor F E) : r.todo ⊆ r.held := by
  unfold todo held
  split
  · exact List.subset_append_right _ _
  · exact List.Subset.refl _

@[simp] theorem todo_push (r : Reactor F E) (f : F) : (r.push f).todo = r.todo ++ [f] := by
  cases h : r.phase <;> simp [todo, push, h]

@[simp] theorem mem_held_push : g ∈ (r.push f).held ↔ g ∈ r.held ∨ g = f := by
  cases h : r.phase <;> simp [held, push, h, or_assoc]

@[simp] theorem active_push (r : Reactor F E) (f : F) : (r.push f).active = r.active := by
  cases h : r.phase <;> simp [active, push, h]

/-! ### The moves of a loop -/

/-- The loop goes on with the functors it had, and with nothing new to handle. -/
structure Continues (r r' : Reactor F E) : Prop where
  todo : r'.todo = r.todo
  held : r'.held ⊆ r.held
  active : r'.active ⊆ r.active

theorem continues_swapFunctors (r : Reactor F E) : Continues r r.swapFunctors := by
  unfold swapFunctors
  split
  · next h =>
      exact ⟨by simp [Reactor.todo, h], by simp [Reactor.held, h],
        by simp [Reactor.active]⟩
  · exact ⟨rfl, List.Subset.refl _, List.Subset.refl _⟩

theorem continues_finish (r : Reactor F E) : Continues r r.finish := by
  unfold finish
  split
  · next h =>
      exact ⟨by simp [Reactor.todo, h], by simp [Reactor.held, h],
        by simp [Reactor.active]⟩
  · exact ⟨rfl, List.Subset.refl _, List.Subset.refl _⟩

theorem continues_takeEvent (h : r.takeEvent = some (e, r')) : Continues r r' := by
  unfold takeEvent at h
  split at h
  · next hphase =>
      obtain ⟨rfl, rfl⟩ := Prod.mk.inj (Option.some.inj h)
      exact ⟨by simp [Reactor.todo, hphase], by simp [Reactor.held, hphase],
        by simp [Reactor.active, hphase]⟩
  · cases h

theorem mem_active_of_takeEvent (h : r.takeEvent = some (e, r')) : e ∈ r.active := by
  unfold takeEvent at h
  split at h
  · next hphase =>
      obtain ⟨rfl, -⟩ := Prod.mk.inj (Option.some.inj h)
      simp [active, hphase]
  · cases h

theorem poll_spec (r : Reactor F E) (ready : List E) :
    (r.poll ready).todo = r.todo ∧ (r.poll ready).held = r.held ∧
      ∀ e ∈ (r.poll ready).active, e ∈ ready ∨ e ∈ r.active := by
  unfold poll
  split
  · next h => exact ⟨by simp [todo, h], by simp [held, h], fun e he => .inl he⟩
  · exact ⟨rfl, rfl, fun e he => .inr he⟩

/-- While functors run there is nothing left to handle. -/
theorem takeFunctor_spec (h : r.takeFunctor = some (f, r')) :
    r.todo = f :: r'.todo ∧ r'.held = r.held ∧ r'.active = [] := by
  unfold takeFunctor at h
  split at h
  · next hphase =>
      obtain ⟨rfl, rfl⟩ := Prod.mk.inj (Option.some.inj h)
      simp [todo, held, active, hphase]
  · cases h

end Reactor

/-! ### Several loops -/

/-- Requests under way, each with the loop that is to run it. -/
abbrev Hand (F : Type) := List (ℕ × F)

namespace Reactor

variable {F E : Type} {loops : ℕ → Reactor F E} {hand : Hand F} {l l' : ℕ} {f g : F}

def queue (loops : ℕ → Reactor F E) (l : ℕ) (f : F) : ℕ → Reactor F E :=
  Function.update loops l ((loops l).push f)

/-- The functors that loop `l` has still to run. -/
def line (loops : ℕ → Reactor F E) (hand : Hand F) (l : ℕ) : List F :=
  (hand.filterMap fun e => if e.1 = l then some e.2 else none) ++ (loops l).todo

@[simp] theorem line_nil (loops : ℕ → Reactor F E) (l : ℕ) :
    line loops [] l = (loops l).todo := rfl

theorem line_cons (loops : ℕ → Reactor F E) (hand : Hand F) (l l' : ℕ) (f : F) :
    line loops ((l', f) :: hand) l =
      if l' = l then f :: line loops hand l else line loops hand l := by
  unfold line
  split
  · next h => simp [h]
  · next h => simp [h]

theorem mem_line_cons :
    g ∈ line loops ((l', f) :: hand) l ↔ (l' = l ∧ g = f) ∨ g ∈ line loops hand l := by
  rw [line_cons]
  split
  · next h => simp [h]
  · next h => simp [h]

theorem mem_line_head : f ∈ line loops ((l, f) :: hand) l := mem_line_cons.mpr (.inl ⟨rfl, rfl⟩)

theorem mem_line_of_mem (h : g ∈ line loops hand l) : g ∈ line loops ((l', f) :: hand) l :=
  mem_line_cons.mpr (.inr h)

theorem mem_line_of_ne (h : g ∈ line loops ((l', f) :: hand) l) (hne : g ≠ f) :
    g ∈ line loops hand l :=
  (mem_line_cons.mp h).resolve_left fun heq => hne heq.2

theorem count_line_le [DecidableEq F] :
    (line loops hand l).count g ≤ (line loops ((l', f) :: hand) l).count g := by
  rw [line_cons]
  split
  · exact List.count_le_count_cons
  · exact Nat.le_refl _

theorem count_line_of_ne [DecidableEq F] (hne : f ≠ g) :
    (line loops ((l', f) :: hand) l).count g = (line loops hand l).count g := by
  rw [line_cons]
  split
  · exact List.count_cons_of_ne hne
  · rfl

/-- Two collections of loops in which loop `l` has the same to run. -/
theorem line_congr {loops' : ℕ → Reactor F E} (h : (loops' l).todo = (loops l).todo) :
    line loops' hand l = line loops hand l := by
  rw [line, line, h]

/-- A functor that enters a queue is no longer in the hand. -/
theorem line_queue_perm (loops : ℕ → Reactor F E) (hand : Hand F) (l l' : ℕ) (f : F) :
    (line (queue loops l f) hand l').Perm (line loops ((l, f) :: hand) l') := by
  rw [line_cons]
  by_cases h : l = l'
  · subst h
    rw [if_pos rfl, line, queue, Function.update_self, todo_push, ← List.append_assoc]
    exact List.perm_append_singleton _ _
  · rw [if_neg h, line, queue, Function.update_of_ne (Ne.symm h)]
    exact .refl _

theorem mem_held_queue :
    g ∈ (queue loops l f l').held ↔ g ∈ (loops l').held ∨ (l = l' ∧ g = f) := by
  by_cases h : l = l'
  · subst h
    simp [queue]
  · simp [queue, Function.update_of_ne (Ne.symm h), h]

theorem active_queue (loops : ℕ → Reactor F E) (l l' : ℕ) (f : F) :
    (queue loops l f l').active = (loops l').active := by
  by_cases h : l = l'
  · subst h
    simp [queue]
  · simp [queue, Function.update_of_ne (Ne.symm h)]

/-- A functor that leaves its loop is in the hand. -/
theorem line_takeFunctor {r : Reactor F E} (h : (loops l).takeFunctor = some (f, r)) (l' : ℕ) :
    (line (Function.update loops l r) ((l, f) :: hand) l').Perm (line loops hand l') := by
  rw [line_cons]
  by_cases heq : l = l'
  · subst heq
    rw [if_pos rfl, line, line, Function.update_self, (takeFunctor_spec h).1]
    exact List.perm_middle.symm
  · rw [if_neg heq, line, line, Function.update_of_ne (Ne.symm heq)]

/-- The other loops are as they were. -/
theorem line_update {r : Reactor F E} (h : r.todo = (loops l).todo) (l' : ℕ) :
    line (Function.update loops l r) hand l' = line loops hand l' := by
  by_cases heq : l' = l
  · subst heq
    exact line_congr (by rw [Function.update_self, h])
  · exact line_congr (by rw [Function.update_of_ne heq])

end Reactor

end GameServer.Lib
