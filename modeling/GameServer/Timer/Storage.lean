import GameServer.Timer.Moves
import Mathlib.Algebra.BigOperators.Fin

/-!
What the wheel stores, and for how long.

Between two calls the pointers of the wheel obey `Layout`: a node is in one
slot, the slot and the clock bound its expiry tick, and `alive_` has the
nodes that are not cancelled. A node keeps the expiry tick it was given by
`add` (`Booked`), so once the clock is there, no slot and no entry of
`alive_` refers to it any more, cancelled or not.
-/

namespace GameServer.Timer

open Lib

namespace TimerWheel

variable {α : Type}

/-- How often a pointer occurs in the slots of both levels. -/
def slotCount (w : TimerWheel α) (n : NodePtr) : ℕ :=
  ∑ i, (w.l0 i).count n + ∑ j, (w.l1 j).count n

def Stored (w : TimerWheel α) (n : NodePtr) : Prop := (∃ i, n ∈ w.l0 i) ∨ ∃ j, n ∈ w.l1 j

/-- The wheel has no pointer to the node: the object is freed. -/
def Released (w : TimerWheel α) (n : NodePtr) : Prop :=
  ¬w.Stored n ∧ ∀ id, w.alive.lookup id ≠ some n

structure Layout (w : TimerWheel α) : Prop where
  once : ∀ n, w.Stored n → w.slotCount n = 1
  level0 : ∀ i n, n ∈ w.l0 i → ∃ node, w.nodes.lookup n = some node ∧
    node.expiryTick % 64 = i ∧ w.nowTick < node.expiryTick ∧ node.expiryTick ≤ w.nowTick + 63
  level1 : ∀ j n, n ∈ w.l1 j → ∃ node, w.nodes.lookup n = some node ∧
    node.expiryTick / 64 % 64 = j ∧ w.nowTick / 64 < node.expiryTick / 64 ∧
    node.expiryTick / 64 ≤ w.nowTick / 64 + 64
  alive : ∀ id n, w.alive.lookup id = some n ↔ w.Stored n ∧
    ∃ node, w.nodes.lookup n = some node ∧ node.id = id ∧ node.canceled = false

theorem held_nil {w : TimerWheel α} {n : NodePtr} : w.Held [] n ↔ w.Stored n := by
  simp [Held, Stored]

/-- A pointer that one slot of a level holds, and that slot once. -/
theorem sum_count_eq_one {level : Fin kSlots → List NodePtr} {i : Fin kSlots} {n : NodePtr}
    (hnodup : (level i).Nodup) (hn : n ∈ level i) (honly : ∀ j, n ∈ level j → j = i) :
    ∑ j, (level j).count n = 1 := by
  rw [Finset.sum_eq_single i]
  · exact List.count_eq_one_of_mem hnodup hn
  · intro j _ hj
    exact List.count_eq_zero_of_not_mem fun hmem => hj (honly j hmem)
  · intro hi
    exact absurd (Finset.mem_univ i) hi

theorem sum_count_eq_zero {level : Fin kSlots → List NodePtr} {n : NodePtr}
    (h : ∀ j, n ∉ level j) : ∑ j, (level j).count n = 0 :=
  Finset.sum_eq_zero fun j _ => List.count_eq_zero_of_not_mem (h j)

/-- What is stored is in one slot of one level. -/
theorem Rep.slotCount {w : TimerWheel α} {lo : ℕ} {q : List NodePtr} (h : Rep w lo q)
    {n : NodePtr} (hn : w.Stored n) : w.slotCount n = 1 := by
  unfold TimerWheel.slotCount
  rcases hn with ⟨i, hi⟩ | ⟨j, hj⟩
  · have hnot : ∀ j, n ∉ w.l1 j := fun j => h.l0_l1 i j n hi
    rw [sum_count_eq_one (h.l0_nodup i) hi fun _ => h.l0_unique hi, sum_count_eq_zero hnot]
  · have hnot : ∀ i, n ∉ w.l0 i := fun i hi => h.l0_l1 i j n hi hj
    rw [sum_count_eq_one (h.l1_nodup j) hj fun _ => h.l1_unique hj, sum_count_eq_zero hnot]

theorem Ready.layout {w : TimerWheel α} (h : Ready w []) : w.Layout where
  once _ hn := h.rep.slotCount hn
  level0 := by
    intro i n hn
    obtain ⟨node, hnode, hslot, hlo, hhi⟩ := h.rep.l0_ok i n hn
    refine ⟨node, hnode, congrArg Fin.val hslot, hlo, ?_⟩
    simp only [kSlots] at hhi
    omega
  level1 := by
    intro j n hn
    obtain ⟨node, hnode, hslot, hlo, hhi⟩ := h.rep.l1_ok j n hn
    exact ⟨node, hnode, congrArg Fin.val hslot, hlo, hhi⟩
  alive := by
    intro id n
    rw [h.rep.alive_iff, held_nil]
    constructor
    · rintro ⟨rfl, hstored, node, hnode, hc⟩
      exact ⟨hstored, node, hnode, (h.rep.node_id n node hnode).1, hc⟩
    · rintro ⟨hstored, node, hnode, hid, hc⟩
      exact ⟨hid ▸ (h.rep.node_id n node hnode).1.symm, hstored, node, hnode, hc⟩

/-- Both levels hold only what is due later. -/
theorem Layout.later {w : TimerWheel α} (h : w.Layout) {n : NodePtr} (hn : w.Stored n) :
    ∃ node, w.nodes.lookup n = some node ∧ w.nowTick < node.expiryTick := by
  rcases hn with ⟨i, hi⟩ | ⟨j, hj⟩
  · obtain ⟨node, hnode, -, hlo, -⟩ := h.level0 i n hi
    exact ⟨node, hnode, hlo⟩
  · obtain ⟨node, hnode, -, hlo, -⟩ := h.level1 j n hj
    exact ⟨node, hnode, by omega⟩

theorem Layout.released {w : TimerWheel α} (h : w.Layout) {n : NodePtr} {node : Node α}
    (hnode : w.nodes.lookup n = some node) (hdue : node.expiryTick ≤ w.nowTick) :
    w.Released n := by
  have hnot : ¬w.Stored n := by
    intro hn
    obtain ⟨node', hnode', hlater⟩ := h.later hn
    obtain rfl := Option.some.inj (hnode.symm.trans hnode')
    omega
  exact ⟨hnot, fun id hid => hnot ((h.alive id n).mp hid).1⟩

/-! ### A node keeps its expiry tick -/

def expiryAt (w : TimerWheel α) (n : NodePtr) : Option ℕ :=
  (w.nodes.lookup n).map (·.expiryTick)

theorem expiryAt_add (delayMs : ℕ) (cb : α) (w : TimerWheel α) (n : NodePtr) :
    (w.add delayMs cb).1.expiryAt n =
      if n = w.nextId then some (expiryOf w.nowTick delayMs) else w.expiryAt n := by
  unfold expiryAt
  rw [add_lookup]
  split <;> rfl

@[simp] theorem expiryAt_cancel (id : ℕ) (w : TimerWheel α) (n : NodePtr) :
    (w.cancel id).expiryAt n = w.expiryAt n := by
  unfold expiryAt cancel
  split
  · rfl
  · dsimp only
    rw [UnorderedMap.lookup_modify]
    split
    · rw [Option.map_map]
      rfl
    · rfl

end TimerWheel

open TimerWheel

variable {α τ : Type}

/-- The nodes of the heap are those of the timers added, each with the expiry
tick of its `add`. -/
def Booked (s : World α τ) : Prop :=
  ∀ id e, s.wheel.expiryAt id = some e ↔
    ∃ delayMs tick, .add id delayMs tick ∈ s.log ∧ e = expiryOf tick delayMs

/-- An event that is not an `add` books nothing. -/
theorem Booked.concat {s s' : World α τ} (h : Booked s) {e : TimerEvent α}
    (hlog : s'.log = s.log ++ [e]) (he : ∀ id, e.isAdd id = false)
    (hexp : ∀ id, s'.wheel.expiryAt id = s.wheel.expiryAt id) : Booked s' := by
  intro id x
  rw [hexp, h id x, hlog]
  have hnot : ∀ delayMs tick, TimerEvent.add id delayMs tick ≠ e := by
    rintro delayMs tick rfl
    simpa [TimerEvent.isAdd] using he id
  simp [hnot]

theorem Booked.add {s : World α τ} {q : List NodePtr} (h : Booked s) (hinv : s.Inv q)
    (delayMs : ℕ) (cb : α) :
    Booked { s with
      wheel := (s.wheel.add delayMs cb).1
      log := s.log ++ [.add s.wheel.nextId delayMs s.wheel.nowTick] } := by
  intro id e
  dsimp only
  rw [expiryAt_add]
  by_cases hid : id = s.wheel.nextId
  · subst hid
    -- the id is new: the log has no earlier `add` of it
    have hfresh : ∀ d t, .add s.wheel.nextId d t ∉ s.log := by
      intro d t hmem
      have hlt := hinv.added _ hmem s.wheel.nextId (by simp [TimerEvent.isAdd])
      exact absurd hlt (Nat.lt_irrefl _)
    simp [hfresh, eq_comm]
  · rw [if_neg hid, h id e]
    simp [hid]

theorem kept_booked : Kept fun (s : World α τ) _ => Booked s where
  ret _ _ _ h := h
  add s q delayMs cb hinv h := h.add hinv delayMs cb
  cancel s q id _ h := h.concat rfl (fun _ => rfl) fun id' => expiryAt_cancel id s.wheel id'
  skip _ _ _ _ h := h
  fire _ _ _ _ _ _ _ h := h.concat rfl (fun _ => rfl) fun _ => rfl
  tick s hinv h := by
    intro id e
    unfold expiryAt
    rw [hinv.ready.beginStep_lookup]
    exact h id e
  remainder _ _ h := h

/-- The representation invariant of the wheel, and what follows for its
memory. In every run, between two calls, the slots and `alive_` obey
`Layout`; a node whose expiry tick the clock has reached is released; what
is stored was added, and it is released once its delay has passed. -/
theorem wheel_layout_release (body : α → τ → Action α τ) (user : τ) (cmds : List (Cmd α τ)) :
    let s := cmds.foldl (World.exec body) { user := user }
    s.wheel.Layout ∧
      (∀ n node, s.wheel.nodes.lookup n = some node → node.expiryTick ≤ s.wheel.nowTick →
        s.wheel.Released n) ∧
      (∀ n, s.wheel.Stored n → ∃ delayMs tick, .add n delayMs tick ∈ s.log) ∧
      ∀ id delayMs tick, .add id delayMs tick ∈ s.log → delayMs ≤ 409500 →
        tick + max 1 ((delayMs + 99) / 100) ≤ s.wheel.nowTick → s.wheel.Released id := by
  intro s
  have hlayout : s.wheel.Layout := (World.inv_run body user cmds).ready.layout
  have hbooked : Booked s := by
    refine kept_booked.exec_run body user (fun id e => ?_) cmds
    simp [expiryAt]
  refine ⟨hlayout, fun n node => hlayout.released, fun n hn => ?_, ?_⟩
  · obtain ⟨node, hnode, -⟩ := hlayout.later hn
    have hexp : s.wheel.expiryAt n = some node.expiryTick := by simp [expiryAt, hnode]
    obtain ⟨delayMs, tick, hadd, -⟩ := (hbooked n _).mp hexp
    exact ⟨delayMs, tick, hadd⟩
  · intro id delayMs tick hadd hrange hdue
    have hexp := (hbooked id _).mpr ⟨delayMs, tick, hadd, rfl⟩
    obtain ⟨node, hnode, hnexp⟩ := Option.map_eq_some_iff.mp hexp
    refine hlayout.released hnode ?_
    rw [hnexp, expiryOf_eq hrange]
    exact hdue

/-- A timer of 300 ms that is cancelled at once stays in its slot, and is
released at tick 3. -/
theorem wheel_layout_release_cancelled :
    let body : Unit → Unit → Action Unit Unit := fun _ _ => .ret ()
    let cmds : List (Cmd Unit Unit) :=
      [.act fun _ => .add 300 () fun id => .cancel id (.ret ()), .advance 300]
    let s := (cmds.take 1).foldl (World.exec body) { user := () }
    let s' := cmds.foldl (World.exec body) { user := () }
    1 ∈ s.wheel.l0 (slot 3) ∧ s.wheel.alive.lookup 1 = none ∧ s'.wheel.Released 1 := by
  intro body cmds s s'
  obtain ⟨-, hrelease, -⟩ := wheel_layout_release body () cmds
  have hexp : s'.wheel.expiryAt 1 = some 3 := by decide +kernel
  obtain ⟨node, hnode, hthree⟩ := Option.map_eq_some_iff.mp hexp
  have hnow : s'.wheel.nowTick = 3 := by decide +kernel
  exact ⟨by decide, by decide, hrelease 1 node hnode (Nat.le_of_eq (hthree.trans hnow.symm))⟩

end GameServer.Timer
