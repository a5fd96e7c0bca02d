import Mathlib.Data.List.Basic

/-!
Runs of a deterministic machine driven by a list of events.

The state after a run is `List.foldl step`. Three notions are added: what
it means that every step of a run meets a condition on the state it starts
from (`Along`), that every state a run visits has a property (`Visits`),
and the rule that an invariant preserved by the steps that meet the
condition holds in the state reached.
-/

namespace GameServer.Lib

variable {σ ε : Type*} (step : σ → ε → σ)

/-- Every step of the run meets `ok`, evaluated in the state before it. -/
def Along (ok : σ → ε → Prop) : σ → List ε → Prop
  | _, [] => True
  | s, e :: es => ok s e ∧ Along ok (step s e) es

/-- Every state of the run, the first and the last included, satisfies `P`. -/
def Visits (P : σ → Prop) : σ → List ε → Prop
  | s, [] => P s
  | s, e :: es => P s ∧ Visits P (step s e) es

variable {step}

instance Along.decidable {ok : σ → ε → Prop} [∀ s e, Decidable (ok s e)] :
    (s : σ) → (es : List ε) → Decidable (Along step ok s es)
  | _, [] => .isTrue trivial
  | s, e :: es =>
      letI : Decidable (Along step ok (step s e) es) := Along.decidable (step s e) es
      inferInstanceAs (Decidable (ok s e ∧ Along step ok (step s e) es))

theorem along_append {ok : σ → ε → Prop} {s : σ} {es es' : List ε} :
    Along step ok s (es ++ es') ↔
      Along step ok s es ∧ Along step ok (es.foldl step s) es' := by
  induction es generalizing s with
  | nil => simp [Along]
  | cons e es ih => simp [Along, ih, and_assoc]

theorem Along.mono {ok ok' : σ → ε → Prop} (himp : ∀ s e, ok s e → ok' s e) {s : σ}
    {es : List ε} (h : Along step ok s es) : Along step ok' s es := by
  induction es generalizing s with
  | nil => trivial
  | cons e es ih => exact ⟨himp s e h.1, ih h.2⟩

theorem Along.and {ok ok' : σ → ε → Prop} {s : σ} {es : List ε} (h : Along step ok s es)
    (h' : Along step ok' s es) : Along step (fun s e => ok s e ∧ ok' s e) s es := by
  induction es generalizing s with
  | nil => trivial
  | cons e es ih => exact ⟨⟨h.1, h'.1⟩, ih h.2 h'.2⟩

theorem along_congr {ok ok' : σ → ε → Prop} {es : List ε}
    (h : ∀ e ∈ es, ∀ s, ok s e ↔ ok' s e) {s : σ} :
    Along step ok s es ↔ Along step ok' s es := by
  induction es generalizing s with
  | nil => exact Iff.rfl
  | cons e es ih =>
      have hrest := @ih (fun e' he' => h e' (List.mem_cons_of_mem _ he')) (step s e)
      exact and_congr (h e (List.mem_cons_self ..) s) hrest

/-- Two conditions that agree wherever an invariant holds. -/
theorem along_congr_of_invariant {I : σ → Prop} {ok ok' : σ → ε → Prop}
    (hI : ∀ s e, I s → I (step s e)) (h : ∀ s e, I s → (ok s e ↔ ok' s e)) {s : σ} (hs : I s)
    (es : List ε) : Along step ok s es ↔ Along step ok' s es := by
  induction es generalizing s with
  | nil => exact Iff.rfl
  | cons e es ih => exact and_congr (h s e hs) (ih (hI s e hs))

theorem along_true (s : σ) (es : List ε) : Along step (fun _ _ => True) s es := by
  induction es generalizing s with
  | nil => trivial
  | cons e es ih => exact ⟨trivial, ih _⟩

theorem along_of_forall {ok : σ → ε → Prop} {es : List ε} (h : ∀ e ∈ es, ∀ s, ok s e) (s : σ) :
    Along step ok s es := by
  induction es generalizing s with
  | nil => trivial
  | cons e es ih =>
      exact ⟨h e (List.mem_cons_self ..) s, ih (fun e' he' => h e' (List.mem_cons_of_mem _ he')) _⟩

/-- The invariant rule. -/
theorem invariant_run {I : σ → Prop} {ok : σ → ε → Prop}
    (hstep : ∀ s e, I s → ok s e → I (step s e)) {s : σ} {es : List ε} (hs : I s)
    (hok : Along step ok s es) : I (es.foldl step s) := by
  induction es generalizing s with
  | nil => exact hs
  | cons e es ih => exact ih (hstep s e hs hok.1) hok.2

/-- The invariant rule for steps that are free of conditions. -/
theorem invariant_run_of_step {I : σ → Prop} (hstep : ∀ s e, I s → I (step s e)) {s : σ}
    (hs : I s) (es : List ε) : I (es.foldl step s) :=
  invariant_run (fun s e h _ => hstep s e h) hs (along_true s es)

theorem Visits.first {P : σ → Prop} {s : σ} {es : List ε} (h : Visits step P s es) : P s := by
  cases es with
  | nil => exact h
  | cons e es => exact h.1

theorem Visits.last {P : σ → Prop} {s : σ} {es : List ε} (h : Visits step P s es) :
    P (es.foldl step s) := by
  induction es generalizing s with
  | nil => exact h
  | cons e es ih => exact ih h.2

theorem Visits.concat {P : σ → Prop} {s : σ} {es : List ε} {e : ε} (h : Visits step P s es)
    (hlast : P (step (es.foldl step s) e)) : Visits step P s (es ++ [e]) := by
  induction es generalizing s with
  | nil => exact ⟨h, hlast⟩
  | cons e' es ih => exact ⟨h.1, ih h.2 hlast⟩

/-- An invariant that gives `P` gives it in every state of a run. -/
theorem visits_of_along {I P : σ → Prop} {ok : σ → ε → Prop} (hP : ∀ s, I s → P s)
    (hkeep : ∀ s e, I s → ok s e → I (step s e)) {s : σ} (hs : I s) {es : List ε}
    (h : Along step ok s es) : Visits step P s es := by
  induction es generalizing s with
  | nil => exact hP s hs
  | cons e es ih => exact ⟨hP s hs, ih (hkeep s e hs h.1) h.2⟩

/-- When the condition on the steps is exact: as long as it is met an
invariant that gives `P` is kept, and the first step that misses it leads out
of `P`. -/
theorem visits_iff_along {I P : σ → Prop} {ok : σ → ε → Prop} (hP : ∀ s, I s → P s)
    (hkeep : ∀ s e, I s → ok s e → I (step s e))
    (hbreak : ∀ s e, I s → ¬ok s e → ¬P (step s e)) {s : σ} (hs : I s) (es : List ε) :
    Visits step P s es ↔ Along step ok s es := by
  refine ⟨fun hvisits => ?_, visits_of_along hP hkeep hs⟩
  induction es generalizing s with
  | nil => trivial
  | cons e es ih =>
      have hstep : ok s e := by
        by_contra hbad
        exact hbreak s e hs hbad hvisits.2.first
      exact ⟨hstep, ih (hkeep s e hs hstep) hvisits.2⟩

/-! ### Logs that grow at the end -/

theorem concat_of_occurs {α : Type*} {log a b : List α} {x e : α} (h : log = a ++ x :: b) :
    log ++ [e] = a ++ x :: (b ++ [e]) := by
  rw [h, List.append_assoc, List.cons_append]

theorem concat_of_occurs₂ {α : Type*} {log a b c : List α} {x y e : α}
    (h : log = a ++ x :: (b ++ y :: c)) :
    log ++ [e] = a ++ x :: (b ++ y :: (c ++ [e])) := by
  rw [concat_of_occurs h, List.append_assoc, List.cons_append]

/-- An entry that is the only one of its kind is found in one place only. -/
theorem occurs_unique {α : Type*} {p : α → Prop} {a b a' b' : List α} {x y : α}
    (h : a ++ x :: b = a' ++ y :: b') (hy : p y) (hx : p x) (ha : ∀ e ∈ a, ¬p e)
    (hb : ∀ e ∈ b, ¬p e) : a = a' ∧ x = y ∧ b = b' := by
  rcases List.append_eq_append_iff.mp h with ⟨c, hc, hcons⟩ | ⟨c, hc, hcons⟩
  · cases c with
    | nil =>
        obtain ⟨rfl, rfl⟩ := List.cons.inj hcons
        exact ⟨by simpa using hc.symm, rfl, rfl⟩
    | cons z c =>
        obtain ⟨rfl, rfl⟩ := List.cons.inj hcons
        exact absurd hy (hb y (List.mem_append_right _ (List.mem_cons_self ..)))
  · cases c with
    | nil =>
        obtain ⟨rfl, rfl⟩ := List.cons.inj hcons
        exact ⟨by simpa using hc, rfl, rfl⟩
    | cons z c =>
        obtain ⟨rfl, rfl⟩ := List.cons.inj hcons
        exact absurd hy (ha y (hc ▸ List.mem_append_right _ (List.mem_cons_self ..)))

/-- An occurrence in a log that has just grown is the new entry or an
occurrence in the old log. -/
theorem concat_eq_append_cons {α : Type*} {log l₁ l₂ : List α} {e x : α}
    (h : log ++ [e] = l₁ ++ x :: l₂) :
    (l₁ = log ∧ x = e ∧ l₂ = []) ∨ ∃ l, l₂ = l ++ [e] ∧ log = l₁ ++ x :: l := by
  rcases List.eq_nil_or_concat l₂ with rfl | ⟨l, y, rfl⟩
  · left
    obtain ⟨rfl, hx⟩ := List.append_inj' h rfl
    exact ⟨rfl, (List.cons.inj hx).1.symm, rfl⟩
  · right
    rw [List.concat_eq_append, ← List.cons_append, ← List.append_assoc] at h
    obtain ⟨rfl, hy⟩ := List.append_inj' h rfl
    obtain rfl := (List.cons.inj hy).1
    exact ⟨l, by simp, rfl⟩

/-- An entry that is new in a log, and not the first of the new ones, comes
after that one. -/
theorem exists_eq_append_cons {α : Type*} {log more l₁ l₂ : List α} {x y : α}
    (h : log ++ x :: more = l₁ ++ y :: l₂) (hne : y ≠ x) (hnew : y ∉ log) :
    ∃ mid, l₁ = log ++ x :: mid := by
  rcases List.append_eq_append_iff.mp h with ⟨l, hl, hcons⟩ | ⟨l, hl, hcons⟩
  · cases l with
    | nil => exact absurd (List.cons.inj hcons).1.symm hne
    | cons z l =>
        obtain ⟨rfl, -⟩ := List.cons.inj hcons
        exact ⟨l, hl⟩
  · cases l with
    | nil => exact absurd (List.cons.inj hcons).1 hne
    | cons z l =>
        obtain ⟨rfl, -⟩ := List.cons.inj hcons
        exact absurd (hl ▸ List.mem_append_right _ (List.mem_cons_self ..)) hnew

end GameServer.Lib
