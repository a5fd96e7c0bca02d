import Mathlib.Data.Finset.Card
import Mathlib.Data.List.TakeWhile
import Mathlib.Tactic.Common

/-!
The match queue of `src/game/MatchQueue.h`. Removal is lazy: `remove` takes
the id out of `waiting` only, and what it leaves in `order` is skipped by
`compact`.

Reading the front of an empty deque is undefined; `takeFront` returns `none`
there.
-/

namespace GameServer.Game

structure MatchQueue where
  order : List ℕ := []
  waiting : Finset ℕ := ∅

namespace MatchQueue

def push (playerId : ℕ) (q : MatchQueue) : MatchQueue × Bool :=
  if playerId ∈ q.waiting then (q, false)
  else ({ order := q.order ++ [playerId], waiting := insert playerId q.waiting }, true)

def remove (playerId : ℕ) (q : MatchQueue) : MatchQueue :=
  { q with waiting := q.waiting.erase playerId }

def contains (playerId : ℕ) (q : MatchQueue) : Bool := playerId ∈ q.waiting

def compact (q : MatchQueue) : MatchQueue :=
  { q with order := q.order.dropWhile (· ∉ q.waiting) }

def takeFront (q : MatchQueue) : Option (ℕ × MatchQueue) :=
  match q.compact.order with
  | [] => none
  | id :: rest => some (id, { order := rest, waiting := q.waiting.erase id })

def popPair (q : MatchQueue) : Option (Option (ℕ × ℕ) × MatchQueue) :=
  let q := q.compact
  if q.waiting.card < 2 then some (none, q)
  else
    match q.takeFront with
    | none => none
    | some (a, q) =>
        match q.takeFront with
        | none => none
        | some (b, q) => some (some (a, b), q)

/-- Everyone who waits can be found in the order. -/
def Ok (q : MatchQueue) : Prop := ∀ p ∈ q.waiting, p ∈ q.order

theorem ok_init : Ok {} := by
  intro p hp
  simp at hp

theorem Ok.push {q : MatchQueue} (h : q.Ok) (p : ℕ) : (q.push p).1.Ok := by
  unfold MatchQueue.push
  split
  · exact h
  · intro p' hp'
    rcases Finset.mem_insert.mp hp' with rfl | hp'
    · simp
    · exact List.mem_append_left _ (h p' hp')

theorem push_of_notMem {q : MatchQueue} {p : ℕ} (h : p ∉ q.waiting) :
    (q.push p).2 = true ∧ (q.push p).1.waiting = insert p q.waiting := by
  simp [push, h]

theorem push_of_mem {q : MatchQueue} {p : ℕ} (h : p ∈ q.waiting) : q.push p = (q, false) := by
  simp [push, h]

theorem Ok.remove {q : MatchQueue} (h : q.Ok) (p : ℕ) : (q.remove p).Ok :=
  fun p' hp' => h p' (Finset.mem_of_mem_erase hp')

theorem Ok.compact {q : MatchQueue} (h : q.Ok) : q.compact.Ok := by
  intro p hp
  have hmem := h p hp
  rw [← List.takeWhile_append_dropWhile (p := (· ∉ q.waiting)) (l := q.order)] at hmem
  rcases List.mem_append.mp hmem with htake | hdrop
  · have := List.mem_takeWhile_imp htake
    simp only [decide_not, Bool.not_eq_eq_eq_not, Bool.not_true, decide_eq_false_iff_not] at this
    exact absurd hp this
  · exact hdrop

/-- The front of a queue in which somebody waits is somebody who waits. -/
theorem takeFront_spec {q : MatchQueue} (h : q.Ok) (hne : q.waiting.Nonempty) :
    ∃ id q', q.takeFront = some (id, q') ∧ id ∈ q.waiting ∧ q'.waiting = q.waiting.erase id ∧
      q'.Ok := by
  obtain ⟨p, hp⟩ := hne
  have hmem := h.compact p hp
  unfold takeFront
  cases horder : q.compact.order with
  | nil => simp [horder] at hmem
  | cons id rest =>
      have hid : id ∈ q.waiting := by
        have hhead := List.head_dropWhile_not (fun x => decide (x ∉ q.waiting))
          (l := q.order) (w := by
            show q.compact.order ≠ []
            simp [horder])
        have hfirst : q.order.dropWhile (fun x => decide (x ∉ q.waiting)) = id :: rest := horder
        simp only [hfirst, List.head_cons] at hhead
        simpa using hhead
      refine ⟨id, _, rfl, hid, rfl, fun p' hp' => ?_⟩
      have hp'' := h.compact p' (Finset.mem_of_mem_erase hp')
      rw [horder, List.mem_cons] at hp''
      exact hp''.resolve_left (Finset.ne_of_mem_erase hp')

theorem popPair_of_few {q : MatchQueue} (h : q.waiting.card < 2) :
    q.popPair = some (none, q.compact) := by
  have hcard : q.compact.waiting.card < 2 := h
  simp [popPair, hcard]

/-- Two who wait are found, and nobody else leaves. -/
theorem popPair_of_two {q : MatchQueue} (h : q.Ok) (hcard : 2 ≤ q.waiting.card) :
    ∃ a b q', q.popPair = some (some (a, b), q') ∧ a ≠ b ∧ a ∈ q.waiting ∧ b ∈ q.waiting ∧
      q'.waiting = (q.waiting.erase a).erase b ∧ q'.Ok := by
  have hcompact : q.compact.waiting = q.waiting := rfl
  obtain ⟨a, q₁, hq₁, ha, hw₁, hok₁⟩ := takeFront_spec h.compact
    (Finset.card_pos.mp (by rw [hcompact]; omega))
  have hcard₁ : 0 < q₁.waiting.card := by
    rw [hw₁, Finset.card_erase_of_mem ha, hcompact]
    omega
  obtain ⟨b, q₂, hq₂, hb, hw₂, hok₂⟩ := takeFront_spec hok₁ (Finset.card_pos.mp hcard₁)
  rw [hw₁, hcompact] at hb hw₂
  refine ⟨a, b, q₂, ?_, (Finset.ne_of_mem_erase hb).symm, ha, Finset.mem_of_mem_erase hb,
    hw₂, hok₂⟩
  have hfew : ¬q.compact.waiting.card < 2 := by
    rw [hcompact]
    omega
  simp [popPair, hfew, hq₁, hq₂]

end MatchQueue

end GameServer.Game
