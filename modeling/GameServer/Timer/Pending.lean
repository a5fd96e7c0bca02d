import GameServer.Timer.Representation

/-!
The wheel as its clients see it.

A client knows the ids of its timers and nothing about slots. What it can
observe is `pending`: the timers that can still fire, each with its expiry
tick and callback. This file says what every operation of the wheel does to
`pending`, and gives the rule by which a state that owns a wheel inherits
an invariant through `advance`, callbacks included.
-/

namespace GameServer.Timer

open Lib

namespace TimerWheel

variable {α : Type}

/-- The expiry tick of a timer added at tick `nowTick`: the rounded delay,
truncated to the range of the wheel. -/
def expiryOf (nowTick delayMs : ℕ) : ℕ := placedExpiry nowTick (nowTick + ticksOf delayMs)

/-- Within the range of the wheel the expiry tick is the rounded-up delay. -/
theorem expiryOf_eq {tick delayMs : ℕ} (h : delayMs ≤ 409500) :
    expiryOf tick delayMs = tick + max 1 ((delayMs + 99) / 100) := by
  have hwrap : (delayMs + kTickMs - 1) % 2 ^ 64 = delayMs + 99 := by
    simp only [kTickMs]
    omega
  have hticks : ticksOf delayMs = max 1 ((delayMs + 99) / 100) := by
    unfold ticksOf
    rw [hwrap]
    dsimp only
    split <;> simp only [kTickMs] at * <;> omega
  rw [expiryOf, placedExpiry, if_neg, hticks]
  rw [hticks]
  simp only [kSlots]
  omega

theorem Rep.pending_iff {w : TimerWheel α} {lo : ℕ} {q : List NodePtr} (hrep : Rep w lo q)
    {id : ℕ} {node : Node α} :
    w.pending id = some node ↔
      w.Held q id ∧ w.nodes.lookup id = some node ∧ node.canceled = false := by
  unfold pending
  constructor
  · intro h
    obtain ⟨n, hn, hnode⟩ := Option.bind_eq_some_iff.mp h
    obtain ⟨rfl, hheld, node', hnode', hc⟩ := (hrep.alive_iff id n).mp hn
    obtain rfl : node = node' := Option.some.inj (hnode.symm.trans hnode')
    exact ⟨hheld, hnode, hc⟩
  · rintro ⟨hheld, hnode, hc⟩
    rw [(hrep.alive_iff id id).mpr ⟨rfl, hheld, node, hnode, hc⟩]
    exact hnode

theorem Rep.pending_eq_none {w : TimerWheel α} {lo : ℕ} {q : List NodePtr} (hrep : Rep w lo q)
    {id : ℕ} : w.pending id = none ↔ w.alive.lookup id = none := by
  unfold pending
  constructor
  · intro h
    cases hid : w.alive.lookup id with
    | none => rfl
    | some n =>
        obtain ⟨-, -, node, hnode, -⟩ := (hrep.alive_iff id n).mp hid
        rw [hid, Option.bind_some, hnode] at h
        exact absurd h (by simp)
  · intro h
    rw [h]
    rfl

theorem Rep.pending_lt {w : TimerWheel α} {lo : ℕ} {q : List NodePtr} (hrep : Rep w lo q)
    {id : ℕ} {node : Node α} (h : w.pending id = some node) : id < w.nextId :=
  (hrep.node_id id node (hrep.pending_iff.mp h).2.1).2

theorem Rep.pending_id {w : TimerWheel α} {lo : ℕ} {q : List NodePtr} (hrep : Rep w lo q)
    {id : ℕ} {node : Node α} (h : w.pending id = some node) : node.id = id :=
  (hrep.node_id id node (hrep.pending_iff.mp h).2.1).1

/-- A timer that is not in hand is due later. -/
theorem Ready.pending_expiry {w : TimerWheel α} {q : List NodePtr} (h : Ready w q) {id : ℕ}
    {node : Node α} (hp : w.pending id = some node) :
    (id ∈ q ∧ node.expiryTick = w.nowTick) ∨ w.nowTick < node.expiryTick := by
  obtain ⟨hheld, hnode, -⟩ := h.rep.pending_iff.mp hp
  rcases hheld with ⟨i, hi⟩ | ⟨j, hj⟩ | hq
  · obtain ⟨node', hnode', -, hlo, -⟩ := h.rep.l0_ok i id hi
    obtain rfl : node = node' := Option.some.inj (hnode.symm.trans hnode')
    exact .inr hlo
  · obtain ⟨node', hnode', -, hlo, -⟩ := h.rep.l1_ok j id hj
    obtain rfl : node = node' := Option.some.inj (hnode.symm.trans hnode')
    right
    simp only [kSlots] at hlo
    omega
  · exact .inl ⟨hq, h.due id hq node hnode⟩

theorem ready_init : Ready ({} : TimerWheel α) [] where
  rep := by
    refine ⟨?_, ?_, ?_, ?_, ?_, ?_, List.nodup_nil, ?_, ?_, ?_, ?_⟩
    all_goals simp [Held]
  due := by simp

/-- The sub-tick remainder is no part of the representation. -/
theorem Ready.setRemainder {w : TimerWheel α} {q : List NodePtr} (h : Ready w q)
    (remainderMs : ℕ) : Ready { w with remainderMs := remainderMs } q where
  rep := ⟨h.rep.node_id, h.rep.l0_ok, h.rep.l1_ok, h.rep.q_ok, h.rep.l0_nodup, h.rep.l1_nodup,
    h.rep.q_nodup, h.rep.l0_l1, h.rep.l0_q, h.rep.l1_q, h.rep.alive_iff⟩
  due := h.due

/-! ### The operations -/

@[simp] theorem add_snd (delayMs : ℕ) (cb : α) (w : TimerWheel α) :
    (w.add delayMs cb).2 = w.nextId := rfl

@[simp] theorem add_nowTick (delayMs : ℕ) (cb : α) (w : TimerWheel α) :
    (w.add delayMs cb).1.nowTick = w.nowTick := by
  simp [add]

@[simp] theorem add_nextId (delayMs : ℕ) (cb : α) (w : TimerWheel α) :
    (w.add delayMs cb).1.nextId = w.nextId + 1 := by
  simp [add]

theorem add_lookup (delayMs : ℕ) (cb : α) (w : TimerWheel α) (m : NodePtr) :
    (w.add delayMs cb).1.nodes.lookup m =
      if m = w.nextId then
        some { id := w.nextId, expiryTick := expiryOf w.nowTick delayMs, cb := cb }
      else w.nodes.lookup m := by
  unfold add
  dsimp only
  rw [place_lookup (AList.lookup_insert _)]
  by_cases hm : m = w.nextId
  · simp [hm, expiryOf]
  · simp [hm, AList.lookup_insert_ne]

theorem Ready.add {w : TimerWheel α} {q : List NodePtr} (h : Ready w q) (delayMs : ℕ) (cb : α) :
    Ready (w.add delayMs cb).1 q where
  rep := by
    rw [add_nowTick]
    exact h.rep.add le_rfl delayMs cb
  due := by
    intro n hn node hnode
    obtain ⟨node', hnode'⟩ := h.rep.q_ok n hn
    have hlt := (h.rep.node_id n node' hnode').2
    rw [add_lookup, if_neg (Nat.ne_of_lt hlt)] at hnode
    rw [add_nowTick]
    exact h.due n hn node hnode

theorem Rep.pending_add {w : TimerWheel α} {lo : ℕ} {q : List NodePtr} (hrep : Rep w lo q)
    (delayMs : ℕ) (cb : α) (id : ℕ) :
    (w.add delayMs cb).1.pending id =
      if id = w.nextId then
        some { id := w.nextId, expiryTick := expiryOf w.nowTick delayMs, cb := cb }
      else w.pending id := by
  have halive : (w.add delayMs cb).1.alive = w.alive.insert w.nextId w.nextId := by
    simp [TimerWheel.add]
  unfold pending
  rw [halive, UnorderedMap.lookup_insert_eq]
  by_cases hid : id = w.nextId
  · rw [if_pos hid, if_pos hid, Option.bind_some, add_lookup, if_pos rfl]
  · rw [if_neg hid, if_neg hid]
    cases hn : w.alive.lookup id with
    | none => rfl
    | some n =>
        obtain ⟨rfl, -⟩ := (hrep.alive_iff id n).mp hn
        rw [Option.bind_some, Option.bind_some, add_lookup, if_neg hid]

@[simp] theorem cancel_nowTick (id : ℕ) (w : TimerWheel α) :
    (w.cancel id).nowTick = w.nowTick := by
  unfold cancel
  split <;> rfl

@[simp] theorem cancel_nextId (id : ℕ) (w : TimerWheel α) :
    (w.cancel id).nextId = w.nextId := by
  unfold cancel
  split <;> rfl

/-- Cancelling a timer that cannot fire changes nothing at all. -/
theorem Rep.cancel_eq_self {w : TimerWheel α} {lo : ℕ} {q : List NodePtr} (hrep : Rep w lo q)
    {id : ℕ} (h : w.pending id = none) : w.cancel id = w := by
  unfold TimerWheel.cancel
  rw [hrep.pending_eq_none.mp h]

theorem Rep.pending_cancel {w : TimerWheel α} {lo : ℕ} {q : List NodePtr} (hrep : Rep w lo q)
    (id id' : ℕ) :
    (w.cancel id).pending id' = if id' = id then none else w.pending id' := by
  cases hid : w.alive.lookup id with
  | none =>
      rw [hrep.cancel_eq_self (hrep.pending_eq_none.mpr hid)]
      by_cases h : id' = id
      · rw [if_pos h, h]
        exact hrep.pending_eq_none.mpr hid
      · rw [if_neg h]
  | some n =>
      obtain ⟨rfl, -⟩ := (hrep.alive_iff id n).mp hid
      simp only [TimerWheel.cancel, hid, pending]
      rw [UnorderedMap.lookup_erase_eq]
      by_cases h : id' = n
      · simp [h]
      · rw [if_neg h, if_neg h]
        cases hn : w.alive.lookup id' with
        | none => rfl
        | some m =>
            obtain ⟨rfl, -⟩ := (hrep.alive_iff id' m).mp hn
            simp [h]

theorem Ready.cancel {w : TimerWheel α} {q : List NodePtr} (h : Ready w q) (id : ℕ) :
    Ready (w.cancel id) q where
  rep := by
    rw [cancel_nowTick]
    exact h.rep.cancel id
  due := by
    intro n hn node hnode
    rw [cancel_nowTick]
    revert hnode
    unfold TimerWheel.cancel
    split
    · exact h.due n hn node
    · intro hnode
      dsimp only at hnode
      rw [UnorderedMap.lookup_modify] at hnode
      obtain ⟨node', hnode'⟩ := h.rep.q_ok n hn
      rw [hnode', Option.map_some] at hnode
      have hexp := h.due n hn node' hnode'
      split at hnode
      · exact Option.some.inj hnode ▸ hexp
      · exact Option.some.inj hnode ▸ hexp

/-- What `fireSlot` does with the next pointer in hand, up to the callback. -/
theorem Ready.take {w : TimerWheel α} {n : NodePtr} {q : List NodePtr} (h : Ready w (n :: q)) :
    (w.take n = none ∧ w.pending n = none ∧ Ready w q) ∨
    ∃ node, w.pending n = some node ∧ node.expiryTick = w.nowTick ∧
      w.take n = some (node, { w with alive := w.alive.erase n }) ∧
      Ready { w with alive := w.alive.erase n } q ∧
      ∀ id, TimerWheel.pending { w with alive := w.alive.erase n } id =
        if id = n then none else w.pending id := by
  obtain ⟨node, hnode⟩ := h.rep.q_ok n (List.mem_cons_self ..)
  have hdue : ∀ m ∈ q, ∀ node, w.nodes.lookup m = some node → node.expiryTick = w.nowTick :=
    fun m hm => h.due m (List.mem_cons_of_mem _ hm)
  have hid := (h.rep.node_id n node hnode).1
  cases hc : node.canceled with
  | true =>
      left
      refine ⟨by simp [TimerWheel.take, hnode, hc], ?_, h.rep.drop hnode hc, hdue⟩
      by_contra hne
      obtain ⟨node', hp⟩ := Option.ne_none_iff_exists'.mp hne
      obtain ⟨-, hnode', hc'⟩ := h.rep.pending_iff.mp hp
      obtain rfl : node = node' := Option.some.inj (hnode.symm.trans hnode')
      rw [hc] at hc'
      exact absurd hc' (by simp)
  | false =>
      right
      have hp : w.pending n = some node :=
        h.rep.pending_iff.mpr ⟨.inr (.inr (List.mem_cons_self ..)), hnode, hc⟩
      refine ⟨node, hp, h.due n (List.mem_cons_self ..) node hnode, ?_, ⟨h.rep.fire, hdue⟩, ?_⟩
      · simp [TimerWheel.take, hnode, hc, hid]
      · intro id
        unfold pending
        dsimp only
        rw [UnorderedMap.lookup_erase_eq]
        split <;> rfl

/-- The same for a pointer whose callback runs. -/
theorem Ready.take_some {w w' : TimerWheel α} {n : NodePtr} {q : List NodePtr} {node : Node α}
    (h : Ready w (n :: q)) (htake : w.take n = some (node, w')) :
    w.pending n = some node ∧ node.expiryTick = w.nowTick ∧ Ready w' q ∧
      w'.nowTick = w.nowTick ∧ w'.nextId = w.nextId ∧
      ∀ id, w'.pending id = if id = n then none else w.pending id := by
  rcases h.take with ⟨hnone, -⟩ | ⟨node', hnode, hexp, htake', hready, hpending⟩
  · rw [htake] at hnone
    cases hnone
  · rw [htake] at htake'
    obtain ⟨rfl, rfl⟩ := Prod.mk.inj (Option.some.inj htake')
    exact ⟨hnode, hexp, hready, rfl, rfl, hpending⟩

end TimerWheel

end GameServer.Timer
