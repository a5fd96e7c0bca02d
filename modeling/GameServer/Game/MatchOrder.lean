import GameServer.Game.MatchQueue
import GameServer.Lib.Run

/-!
The match queue against a list of waiting players.

The queue serves the ids of `order` that wait, each at its first entry
(`serving`). A call keeps this list as a duplicate-free list would, except
when a player is pushed whose old entry is still in `order`: it gets its old
place back, in front of everybody who has come since.
-/

namespace GameServer.Game

open GameServer.Lib

/-- A call on the queue. -/
inductive QueueOp where
  | push (playerId : ℕ)
  | remove (playerId : ℕ)
  | contains (playerId : ℕ)
  | popPair
deriving DecidableEq

inductive QueueResult where
  | pushed (new : Bool)
  | removed
  | contained (yes : Bool)
  | popped (pair : Option (ℕ × ℕ))
deriving DecidableEq

/-! ### The reference -/

/-- The players who wait, in the order of their arrival. -/
structure WaitingList where
  ids : List ℕ := []
  nodup : ids.Nodup := by simp

namespace WaitingList

def call (l : WaitingList) : QueueOp → WaitingList × QueueResult
  | .push p =>
      if h : p ∈ l.ids then (l, .pushed false)
      else (⟨l.ids ++ [p], List.nodup_append_comm.mp (List.nodup_cons.mpr ⟨h, l.nodup⟩)⟩,
        .pushed true)
  | .remove p => (⟨l.ids.erase p, l.nodup.erase p⟩, .removed)
  | .contains p => (l, .contained (p ∈ l.ids))
  | .popPair =>
      match l with
      | ⟨a :: b :: rest, h⟩ => (⟨rest, h.of_cons.of_cons⟩, .popped (some (a, b)))
      | l => (l, .popped none)

def results (l : WaitingList) : List QueueOp → List QueueResult
  | [] => []
  | op :: ops => (l.call op).2 :: (l.call op).1.results ops

end WaitingList

namespace MatchQueue

/-- Undefined behaviour ends a run. -/
def call (q : MatchQueue) : QueueOp → Option (MatchQueue × QueueResult)
  | .push p => some ((q.push p).1, .pushed (q.push p).2)
  | .remove p => some (q.remove p, .removed)
  | .contains p => some (q, .contained (q.contains p))
  | .popPair => q.popPair.map fun r => (r.2, .popped r.1)

def calls (q : MatchQueue) : List QueueOp → Option (MatchQueue × List QueueResult)
  | [] => some (q, [])
  | op :: ops => (q.call op).bind fun r => (r.1.calls ops).map fun r' => (r'.1, r.2 :: r'.2)

/-- The queue after a call. -/
def after (q : MatchQueue) (op : QueueOp) : MatchQueue := ((q.call op).map Prod.fst).getD q

/-- A player is pushed who still has an entry in `order`, and somebody who
waits has none before it. -/
def overtakes (q : MatchQueue) : QueueOp → Bool
  | .push p => p ∉ q.waiting && decide (∃ x ∈ q.waiting, x ∉ q.order.takeWhile (· ≠ p))
  | _ => false

/-! ### The order of service -/

/-- Those of the set, each where it stands first in the list. -/
def firsts : List ℕ → Finset ℕ → List ℕ
  | [], _ => []
  | x :: xs, w => if x ∈ w then x :: firsts xs (w.erase x) else firsts xs w

def serving (q : MatchQueue) : List ℕ := firsts q.order q.waiting

theorem mem_firsts {xs : List ℕ} {w : Finset ℕ} {y : ℕ} : y ∈ firsts xs w ↔ y ∈ xs ∧ y ∈ w := by
  induction xs generalizing w with
  | nil => simp [firsts]
  | cons x xs ih =>
      by_cases hx : x ∈ w
      · simp only [firsts, if_pos hx, List.mem_cons, ih, Finset.mem_erase]
        by_cases hy : y = x
        · simp [hy, hx]
        · simp [hy]
      · simp only [firsts, if_neg hx, List.mem_cons, ih]
        constructor
        · exact fun h => ⟨.inr h.1, h.2⟩
        · rintro ⟨rfl | hy, hw⟩
          · exact absurd hw hx
          · exact ⟨hy, hw⟩

theorem nodup_firsts (xs : List ℕ) (w : Finset ℕ) : (firsts xs w).Nodup := by
  induction xs generalizing w with
  | nil => exact List.nodup_nil
  | cons x xs ih =>
      simp only [firsts]
      split
      · refine List.nodup_cons.mpr ⟨fun hmem => ?_, ih _⟩
        exact Finset.notMem_erase x w (mem_firsts.mp hmem).2
      · exact ih w

theorem firsts_append (xs ys : List ℕ) (w : Finset ℕ) :
    firsts (xs ++ ys) w = firsts xs w ++ firsts ys (w \ xs.toFinset) := by
  induction xs generalizing w with
  | nil => simp [firsts]
  | cons x xs ih =>
      by_cases hx : x ∈ w
      · have hrest : w.erase x \ xs.toFinset = w \ (x :: xs).toFinset := by
          ext y
          simp only [Finset.mem_sdiff, Finset.mem_erase, List.toFinset_cons, Finset.mem_insert]
          tauto
        simp only [List.cons_append, firsts, if_pos hx, ih, hrest]
      · have hrest : w \ xs.toFinset = w \ (x :: xs).toFinset := by
          ext y
          simp only [Finset.mem_sdiff, List.toFinset_cons, Finset.mem_insert, not_or]
          exact ⟨fun h => ⟨h.1, fun hy => hx (hy ▸ h.1), h.2⟩, fun h => ⟨h.1, h.2.2⟩⟩
        simp only [List.cons_append, firsts, if_neg hx, ih, hrest]

theorem firsts_empty (xs : List ℕ) : firsts xs ∅ = [] := by
  rw [List.eq_nil_iff_forall_not_mem]
  intro y hy
  exact Finset.notMem_empty y (mem_firsts.mp hy).2

theorem firsts_erase (xs : List ℕ) (w : Finset ℕ) (p : ℕ) :
    firsts xs (w.erase p) = (firsts xs w).erase p := by
  induction xs generalizing w with
  | nil => rfl
  | cons x xs ih =>
      by_cases hp : x = p
      · subst hp
        by_cases hx : x ∈ w
        · simp [firsts, hx]
        · have hnot : x ∉ firsts xs w := fun hmem => hx (mem_firsts.mp hmem).2
          simp [firsts, hx, List.erase_of_not_mem hnot]
      · by_cases hx : x ∈ w
        · simp only [firsts, Finset.mem_erase, ne_eq, hp, not_false_eq_true, hx, and_self, if_true]
          rw [Finset.erase_right_comm, ih, List.erase_cons_tail (by simpa using hp)]
        · simp [firsts, hx, ih]

theorem firsts_dropWhile (xs : List ℕ) (w : Finset ℕ) :
    firsts (xs.dropWhile (· ∉ w)) w = firsts xs w := by
  induction xs with
  | nil => rfl
  | cons x xs ih =>
      by_cases hx : x ∈ w
      · simp [hx]
      · simpa [hx, firsts] using ih

/-- Who waits is in front of everybody whose first entry comes later. -/
theorem firsts_insert_of_subset {pre : List ℕ} (post : List ℕ) {w : Finset ℕ} {p : ℕ} (hp : p ∉ pre)
    (hpw : p ∉ w) (hw : ∀ x ∈ w, x ∈ pre) :
    firsts (pre ++ post ++ [p]) (insert p w) = firsts (pre ++ post) w ++ [p] := by
  have hpre : firsts pre (insert p w) = firsts pre w := by
    have hnot : p ∉ firsts pre (insert p w) := fun hmem => hp (mem_firsts.mp hmem).1
    have herase := firsts_erase pre (insert p w) p
    rw [Finset.erase_insert hpw, List.erase_of_not_mem hnot] at herase
    exact herase.symm
  have hnone : w \ pre.toFinset = ∅ := by
    ext x
    simpa using hw x
  have hone : insert p w \ pre.toFinset = {p} := by
    rw [Finset.insert_sdiff_of_notMem _ (by simpa using hp), hnone]
    rfl
  have hlast : firsts (post ++ [p]) {p} = [p] := by
    refine List.perm_singleton.mp ((List.perm_ext_iff_of_nodup (nodup_firsts _ _)
      (List.nodup_singleton p)).mpr fun x => ?_)
    simpa [mem_firsts] using fun hx => .inr hx
  rw [List.append_assoc, firsts_append, hpre, hone, hlast, firsts_append pre post, hnone,
    firsts_empty, List.append_nil]

/-- Somebody who waits behind the old entry of `p` is behind `p`. -/
theorem firsts_insert_of_behind {pre post : List ℕ} {w : Finset ℕ} {p x : ℕ} (hp : p ∉ pre)
    (hxp : x ≠ p) (hx : x ∈ w) (hpost : x ∈ post) (hpre : x ∉ pre) (l : List ℕ) :
    firsts (pre ++ p :: post) (insert p w) ≠ l ++ [p] := by
  intro hlast
  have hmem : p ∈ insert p w \ pre.toFinset := by simp [hp]
  have hnodup := nodup_firsts (pre ++ p :: post) (insert p w)
  have hxrest : x ∈ firsts post ((insert p w \ pre.toFinset).erase p) :=
    mem_firsts.mpr ⟨hpost, by simp [hxp, hx, hpre]⟩
  rw [firsts_append, firsts, if_pos hmem] at hlast hnodup
  rcases concat_eq_append_cons hlast.symm with ⟨-, -, hnil⟩ | ⟨rest, hrest, -⟩
  · rw [hnil] at hxrest
    exact List.not_mem_nil hxrest
  · refine (List.nodup_cons.mp (List.nodup_append.mp hnodup).2.1).1 ?_
    rw [hrest]
    simp

/-! ### One call -/

/-- The queue serves the players of the list, in its order. -/
def Serves (q : MatchQueue) (l : WaitingList) : Prop := q.Ok ∧ q.serving = l.ids

theorem Ok.mem_serving {q : MatchQueue} (h : q.Ok) {p : ℕ} : p ∈ q.serving ↔ p ∈ q.waiting :=
  mem_firsts.trans ⟨And.right, fun hp => ⟨h p hp, hp⟩⟩

theorem Ok.length_serving {q : MatchQueue} (h : q.Ok) : q.serving.length = q.waiting.card := by
  have hset : q.serving.toFinset = q.waiting := by
    ext p
    simpa using h.mem_serving
  rw [← hset]
  exact (List.toFinset_card_of_nodup (nodup_firsts q.order q.waiting)).symm

theorem serving_compact (q : MatchQueue) : q.compact.serving = q.serving :=
  firsts_dropWhile q.order q.waiting

theorem takeFront_of_serving {q : MatchQueue} (h : q.Ok) {a : ℕ} {rest : List ℕ}
    (hserving : q.serving = a :: rest) :
    ∃ q', q.takeFront = some (a, q') ∧ q'.Ok ∧ q'.serving = rest := by
  have ha : a ∈ q.waiting := h.mem_serving.mp (by simp [hserving])
  obtain ⟨id, q', hfront, hid, hwaiting, hok⟩ := takeFront_spec h ⟨a, ha⟩
  have hcompact := serving_compact q
  unfold takeFront at hfront
  cases horder : q.compact.order with
  | nil => simp [horder] at hfront
  | cons id' order' =>
      simp only [horder, Option.some.injEq, Prod.mk.injEq] at hfront
      obtain ⟨rfl, rfl⟩ := hfront
      have hfirst : q.compact.serving = id' :: firsts order' (q.waiting.erase id') := by
        rw [serving, horder, firsts, if_pos (show id' ∈ q.compact.waiting from hid)]
        rfl
      rw [hcompact, hserving] at hfirst
      obtain ⟨rfl, hrest⟩ := List.cons.inj hfirst
      exact ⟨_, by simp [takeFront, horder], hok, hrest.symm⟩

theorem popPair_of_serving {q : MatchQueue} (h : q.Ok) {a b : ℕ} {rest : List ℕ}
    (hserving : q.serving = a :: b :: rest) :
    ∃ q', q.popPair = some (some (a, b), q') ∧ q'.Ok ∧ q'.serving = rest := by
  have hcard : ¬q.compact.waiting.card < 2 := by
    rw [show q.compact.waiting = q.waiting from rfl, ← h.length_serving, hserving]
    simp
  obtain ⟨q₁, hq₁, hok₁, hserving₁⟩ := takeFront_of_serving h.compact
    ((serving_compact q).trans hserving)
  obtain ⟨q₂, hq₂, hok₂, hserving₂⟩ := takeFront_of_serving hok₁ hserving₁
  exact ⟨q₂, by simp [popPair, hcard, hq₁, hq₂], hok₂, hserving₂⟩

theorem exists_entries {q : MatchQueue} (h : q.Ok) {p : ℕ}
    (hbehind : ∃ x ∈ q.waiting, x ∉ q.order.takeWhile (· ≠ p)) :
    ∃ post, q.order = q.order.takeWhile (· ≠ p) ++ p :: post := by
  have hsplit := List.takeWhile_append_dropWhile (p := (· ≠ p)) (l := q.order)
  cases hdrop : q.order.dropWhile (· ≠ p) with
  | nil =>
      obtain ⟨x, hx, hnot⟩ := hbehind
      rw [hdrop, List.append_nil] at hsplit
      rw [hsplit] at hnot
      exact absurd (h x hx) hnot
  | cons y post =>
      have hy : y = p := by
        have hhead := List.head_dropWhile_not (fun x => decide (x ≠ p)) (l := q.order)
          (w := by rw [hdrop]; exact List.cons_ne_nil y post)
        simpa only [hdrop, List.head_cons, decide_eq_false_iff_not, not_not] using hhead
      rw [hdrop, hy] at hsplit
      exact ⟨post, hsplit.symm⟩

theorem notMem_takeWhile_ne (xs : List ℕ) (p : ℕ) : p ∉ xs.takeWhile (· ≠ p) := fun hmem => by
  simpa using List.mem_takeWhile_imp hmem

theorem serving_push {q : MatchQueue} {p : ℕ} (hp : p ∉ q.waiting)
    (hover : q.overtakes (.push p) = false) : (q.push p).1.serving = q.serving ++ [p] := by
  have hbefore : ∀ x ∈ q.waiting, x ∈ q.order.takeWhile (· ≠ p) := by
    simpa [overtakes, hp] using hover
  have hinsert := firsts_insert_of_subset (q.order.dropWhile (· ≠ p))
    (notMem_takeWhile_ne q.order p) hp hbefore
  rw [List.takeWhile_append_dropWhile] at hinsert
  simpa [serving, push, hp] using hinsert

theorem serving_push_of_overtakes {q : MatchQueue} (h : q.Ok) {p : ℕ}
    (hover : q.overtakes (.push p) = true) :
    p ∉ q.waiting ∧ ∀ l, (q.push p).1.serving ≠ l ++ [p] := by
  obtain ⟨hp, x, hx, hnot⟩ : p ∉ q.waiting ∧ ∃ x ∈ q.waiting, x ∉ q.order.takeWhile (· ≠ p) := by
    simpa [overtakes] using hover
  refine ⟨hp, fun l => ?_⟩
  obtain ⟨post, hentries⟩ := exists_entries h ⟨x, hx, hnot⟩
  have hxp : x ≠ p := fun heq => hp (heq ▸ hx)
  have hpost : x ∈ post ++ [p] := by
    have hmem := h x hx
    rw [hentries] at hmem
    rcases List.mem_append.mp hmem with hpre | hrest
    · exact absurd hpre hnot
    · exact List.mem_append_left _ ((List.mem_cons.mp hrest).resolve_left hxp)
  have hbehind := firsts_insert_of_behind (notMem_takeWhile_ne q.order p) hxp hx hpost hnot l
  rw [← List.cons_append, ← List.append_assoc, ← hentries] at hbehind
  simpa [serving, push, hp] using hbehind

theorem Serves.call {q : MatchQueue} {l : WaitingList} (h : q.Serves l) {op : QueueOp}
    (hover : q.overtakes op = false) :
    ∃ q', q.call op = some (q', (l.call op).2) ∧ q'.Serves (l.call op).1 := by
  obtain ⟨hok, hids⟩ := h
  have hmem : ∀ p, p ∈ l.ids ↔ p ∈ q.waiting := fun p => hids ▸ hok.mem_serving
  cases op with
  | push p =>
      by_cases hp : p ∈ q.waiting
      · refine ⟨q, ?_, ?_⟩
        · simp [MatchQueue.call, WaitingList.call, push_of_mem hp, hmem, hp]
        · simpa [WaitingList.call, hmem, hp] using ⟨hok, hids⟩
      · refine ⟨(q.push p).1, ?_, hok.push p, ?_⟩
        · simp [MatchQueue.call, WaitingList.call, push_of_notMem hp, hmem, hp]
        · simp [WaitingList.call, serving_push hp hover, hmem, hp, hids]
  | remove p =>
      refine ⟨q.remove p, rfl, hok.remove p, ?_⟩
      exact (firsts_erase q.order q.waiting p).trans (congrArg (List.erase · p) hids)
  | contains p => exact ⟨q, by simp [MatchQueue.call, WaitingList.call, contains, hmem], hok, hids⟩
  | popPair =>
      have hfew : l.ids.length < 2 → q.popPair = some (none, q.compact) := fun hlen =>
        popPair_of_few (by rwa [← hok.length_serving, hids])
      obtain ⟨ids, hnodup⟩ := l
      rcases ids with - | ⟨a, - | ⟨b, rest⟩⟩
      · exact ⟨q.compact, by simp [MatchQueue.call, WaitingList.call, hfew],
          hok.compact, (serving_compact q).trans hids⟩
      · exact ⟨q.compact, by simp [MatchQueue.call, WaitingList.call, hfew],
          hok.compact, (serving_compact q).trans hids⟩
      · obtain ⟨q', hpop, hok', hserving⟩ := popPair_of_serving hok hids
        exact ⟨q', by simp [MatchQueue.call, WaitingList.call, hpop], hok', hserving⟩

/-! ### Runs -/

theorem after_eq {q q' : MatchQueue} {op : QueueOp} {r : QueueResult}
    (h : q.call op = some (q', r)) : q.after op = q' := by
  simp [after, h]

theorem map_snd_calls (q : MatchQueue) (op : QueueOp) (ops : List QueueOp) :
    (q.calls (op :: ops)).map Prod.snd =
      (q.call op).bind fun r => ((r.1.calls ops).map Prod.snd).map (r.2 :: ·) := by
  cases hcall : q.call op with
  | none => simp [calls, hcall]
  | some r => simp [calls, hcall, Function.comp_def]

/-- As long as nobody overtakes, the queue answers like the list. -/
theorem Serves.calls {q : MatchQueue} {l : WaitingList} (h : q.Serves l) {ops : List QueueOp}
    (halong : Along after (fun q op => q.overtakes op = false) q ops) :
    (q.calls ops).map Prod.snd = some (l.results ops) := by
  induction ops generalizing q l with
  | nil => rfl
  | cons op ops ih =>
      obtain ⟨q', hcall, hserves⟩ := h.call halong.1
      have hrest := ih hserves (after_eq hcall ▸ halong.2)
      rw [map_snd_calls, hcall, Option.bind_some, hrest]
      rfl

/-- Pops never overtake, so they read the order of service off. -/
theorem Serves.drain {q : MatchQueue} {l : WaitingList} (h : q.Serves l) (n : ℕ) :
    (q.calls (List.replicate n .popPair)).map Prod.snd =
      some (l.results (List.replicate n .popPair)) := by
  refine h.calls (along_of_forall (fun op hop q => ?_) q)
  rw [List.eq_of_mem_replicate hop]
  rfl

/-- Two lists of the same players that drain alike are in the same order. -/
theorem eq_of_drain : ∀ {ids ids' : List ℕ} (h : ids.Nodup) (h' : ids'.Nodup),
    ids.Perm ids' →
    (∀ n, (WaitingList.mk ids h).results (List.replicate n .popPair) =
      (WaitingList.mk ids' h').results (List.replicate n .popPair)) → ids = ids'
  | [], _, _, _, hperm, _ => (List.nil_perm.mp hperm).symm
  | [_], _, _, _, hperm, _ => List.singleton_perm.mp hperm
  | a :: b :: rest, ids', h, h', hperm, hdrain => by
      have hlen := hperm.length_eq
      rcases ids' with - | ⟨a', - | ⟨b', rest'⟩⟩
      · simp at hlen
      · simp at hlen
      · have hfirst := hdrain 1
        simp only [List.replicate_one, WaitingList.results, WaitingList.call, List.cons.injEq,
          QueueResult.popped.injEq, Option.some.injEq, Prod.mk.injEq, and_true] at hfirst
        obtain ⟨rfl, rfl⟩ := hfirst
        have hrest := eq_of_drain (List.nodup_cons.mp (List.nodup_cons.mp h).2).2
          (List.nodup_cons.mp (List.nodup_cons.mp h').2).2
          ((List.perm_cons b).mp ((List.perm_cons a).mp hperm)) fun n =>
            (List.cons.inj (hdrain (n + 1))).2
        rw [hrest]

/-- A player who has overtaken shows in what the queue is about to serve. -/
theorem Serves.not_drain {q : MatchQueue} {l : WaitingList} (h : q.Serves l) {p : ℕ}
    (hover : q.overtakes (.push p) = true) :
    ∃ n, (q.calls (.push p :: List.replicate n .popPair)).map Prod.snd ≠
      some (l.results (.push p :: List.replicate n .popPair)) := by
  obtain ⟨hok, hids⟩ := h
  obtain ⟨hp, hne⟩ := serving_push_of_overtakes hok hover
  have hpl : p ∉ l.ids := fun hmem => hp (hok.mem_serving.mp (hids ▸ hmem))
  by_contra hall
  push Not at hall
  have hnodup : (l.ids ++ [p]).Nodup :=
    List.nodup_append_comm.mp (List.nodup_cons.mpr ⟨hpl, l.nodup⟩)
  have hperm : (q.push p).1.serving.Perm (l.ids ++ [p]) := by
    refine (List.perm_ext_iff_of_nodup (nodup_firsts _ _) hnodup).mpr fun x => ?_
    refine (hok.push p).mem_serving.trans ?_
    rw [(push_of_notMem hp).2, ← hids]
    simp [hok.mem_serving, or_comm]
  refine hne l.ids (eq_of_drain (nodup_firsts _ _) hnodup hperm fun n => ?_)
  have hdrain := Serves.drain (q := (q.push p).1)
    (l := ⟨_, nodup_firsts (q.push p).1.order (q.push p).1.waiting⟩) ⟨hok.push p, rfl⟩ n
  have hn := hall n
  rw [map_snd_calls] at hn
  simp only [MatchQueue.call, (push_of_notMem hp).1, Option.bind_some, hdrain,
    WaitingList.results, WaitingList.call, dif_neg hpl, Option.map_some, Option.some.injEq,
    List.cons.injEq] at hn
  exact hn.2

theorem Serves.along_of_calls {q : MatchQueue} {l : WaitingList} (h : q.Serves l)
    {ops : List QueueOp}
    (hcalls : ∀ k n, (q.calls (ops.take k ++ List.replicate n .popPair)).map Prod.snd =
      some (l.results (ops.take k ++ List.replicate n .popPair))) :
    Along after (fun q op => q.overtakes op = false) q ops := by
  induction ops generalizing q l with
  | nil => trivial
  | cons op ops ih =>
      have hover : q.overtakes op = false := by
        cases op with
        | push p =>
            by_contra hover
            obtain ⟨n, hn⟩ := h.not_drain (p := p) (by simpa using hover)
            exact hn (hcalls 1 n)
        | remove p => rfl
        | contains p => rfl
        | popPair => rfl
      obtain ⟨q', hcall, hserves⟩ := h.call hover
      refine ⟨hover, after_eq hcall ▸ ih hserves fun k n => ?_⟩
      have hk := hcalls (k + 1) n
      rw [List.take_succ_cons, List.cons_append, map_snd_calls, hcall, Option.bind_some] at hk
      obtain ⟨rs, hrs, hcons⟩ := Option.map_eq_some_iff.mp hk
      rw [hrs, (List.cons.inj hcons).2]

theorem serves_init : Serves {} {} := ⟨ok_init, rfl⟩

/-- As long as nobody overtakes, the results are those of the list. -/
theorem calls_eq_results {ops : List QueueOp}
    (h : Along after (fun q op => q.overtakes op = false) {} ops) :
    (({} : MatchQueue).calls ops).map Prod.snd = some (({} : WaitingList).results ops) :=
  serves_init.calls h

/-- The queue is the list, now and whatever is popped from it later, exactly
as long as no player is pushed in front of others by an entry of its own
that was left behind. -/
theorem calls_eq_results_iff (ops : List QueueOp) :
    (∀ k n, (({} : MatchQueue).calls (ops.take k ++ List.replicate n .popPair)).map Prod.snd =
      some (({} : WaitingList).results (ops.take k ++ List.replicate n .popPair))) ↔
    Along after (fun q op => q.overtakes op = false) {} ops := by
  refine ⟨serves_init.along_of_calls, fun halong k n => calls_eq_results ?_⟩
  rw [← List.take_append_drop k ops, along_append] at halong
  refine along_append.mpr ⟨halong.1, along_of_forall (fun op hop q => ?_) _⟩
  rw [List.eq_of_mem_replicate hop]
  rfl

/-- Player 1 leaves the queue and comes back behind 2 and 3, and is served
first all the same. -/
theorem rejoined_is_served_first :
    (({} : MatchQueue).calls [.push 1, .push 2, .push 3, .remove 1, .push 1, .popPair]).map
        Prod.snd =
      some [.pushed true, .pushed true, .pushed true, .removed, .pushed true,
        .popped (some (1, 2))] ∧
    ({} : WaitingList).results [.push 1, .push 2, .push 3, .remove 1, .push 1, .popPair] =
      [.pushed true, .pushed true, .pushed true, .removed, .pushed true,
        .popped (some (2, 3))] := by
  constructor <;> rfl

theorem Ok.call {q : MatchQueue} (h : q.Ok) (op : QueueOp) :
    ∃ q' r, q.call op = some (q', r) ∧ q'.Ok := by
  cases op with
  | push p => exact ⟨_, _, rfl, h.push p⟩
  | remove p => exact ⟨_, _, rfl, h.remove p⟩
  | contains p => exact ⟨_, _, rfl, h⟩
  | popPair =>
      rcases Nat.lt_or_ge q.waiting.card 2 with hfew | htwo
      · exact ⟨q.compact, _, by simp [MatchQueue.call, popPair_of_few hfew]; rfl, h.compact⟩
      · obtain ⟨a, b, q', hpop, -, -, -, -, hok'⟩ := popPair_of_two h htwo
        exact ⟨q', _, by simp [MatchQueue.call, hpop]; rfl, hok'⟩

theorem Ok.calls {q : MatchQueue} (h : q.Ok) (ops : List QueueOp) :
    ∃ q' rs, q.calls ops = some (q', rs) ∧ q'.Ok := by
  induction ops generalizing q with
  | nil => exact ⟨q, [], rfl, h⟩
  | cons op ops ih =>
      obtain ⟨q₁, r, hcall, hok₁⟩ := h.call op
      obtain ⟨q₂, rs, hcalls, hok₂⟩ := ih hok₁
      exact ⟨q₂, r :: rs, by simp [MatchQueue.calls, hcall, hcalls], hok₂⟩

/-- In every run every call is defined, and `popPair` takes two different
players who wait, and nobody else, exactly when there are two. -/
theorem popPair_along (ops : List QueueOp) :
    ∃ q rs, ({} : MatchQueue).calls ops = some (q, rs) ∧
      (q.waiting.card < 2 → ∃ q', q.popPair = some (none, q') ∧ q'.waiting = q.waiting) ∧
      (2 ≤ q.waiting.card → ∃ a b q', q.popPair = some (some (a, b), q') ∧ a ≠ b ∧
        a ∈ q.waiting ∧ b ∈ q.waiting ∧ q'.waiting = (q.waiting.erase a).erase b) := by
  obtain ⟨q, rs, hcalls, hok⟩ := ok_init.calls ops
  refine ⟨q, rs, hcalls, fun hfew => ⟨q.compact, popPair_of_few hfew, rfl⟩, fun htwo => ?_⟩
  obtain ⟨a, b, q', hpop, hab, ha, hb, hrest, -⟩ := popPair_of_two hok htwo
  exact ⟨a, b, q', hpop, hab, ha, hb, hrest⟩

end MatchQueue

end GameServer.Game
