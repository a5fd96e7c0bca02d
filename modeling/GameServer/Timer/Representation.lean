import GameServer.Timer.TimerWheel

/-!
The representation invariant of the timer wheel.

`Rep w lo q` says that the slots of `w`, together with a vector `q` of
pointers that `advance` has taken out of them and not handled yet, hold
every timer once, each where its expiry tick belongs, and that `alive_` has
exactly the timers among them that are not cancelled. The bound `lo` is the
least expiry tick level 0 may hold: `nowTick + 1` between ticks and while
callbacks run, `nowTick` while level 1 is being cascaded.
-/

namespace GameServer.Timer

open Lib

namespace TimerWheel

variable {α : Type}

/-- The pointer is in a slot or among the pointers in hand. -/
def Held (w : TimerWheel α) (q : List NodePtr) (n : NodePtr) : Prop :=
  (∃ i, n ∈ w.l0 i) ∨ (∃ j, n ∈ w.l1 j) ∨ n ∈ q

/-- A node of level 0 is due within the next turn of that level. -/
def InL0 (w : TimerWheel α) (lo : ℕ) (i : Fin kSlots) (n : NodePtr) : Prop :=
  ∃ node, w.nodes.lookup n = some node ∧ slot node.expiryTick = i ∧
    lo ≤ node.expiryTick ∧ node.expiryTick < w.nowTick + kSlots

/-- A node of level 1 is due in a later turn of level 0, at most one full
turn of level 1 away. -/
def InL1 (w : TimerWheel α) (j : Fin kSlots) (n : NodePtr) : Prop :=
  ∃ node, w.nodes.lookup n = some node ∧ slot (node.expiryTick / kSlots) = j ∧
    w.nowTick / kSlots < node.expiryTick / kSlots ∧
    node.expiryTick / kSlots ≤ w.nowTick / kSlots + kSlots

structure Rep (w : TimerWheel α) (lo : ℕ) (q : List NodePtr) : Prop where
  node_id : ∀ n node, w.nodes.lookup n = some node → node.id = n ∧ n < w.nextId
  l0_ok : ∀ i n, n ∈ w.l0 i → w.InL0 lo i n
  l1_ok : ∀ j n, n ∈ w.l1 j → w.InL1 j n
  q_ok : ∀ n ∈ q, ∃ node, w.nodes.lookup n = some node
  l0_nodup : ∀ i, (w.l0 i).Nodup
  l1_nodup : ∀ j, (w.l1 j).Nodup
  q_nodup : q.Nodup
  l0_l1 : ∀ i j n, n ∈ w.l0 i → n ∉ w.l1 j
  l0_q : ∀ i n, n ∈ w.l0 i → n ∉ q
  l1_q : ∀ j n, n ∈ w.l1 j → n ∉ q
  alive_iff : ∀ id n, w.alive.lookup id = some n ↔
    n = id ∧ w.Held q n ∧ ∃ node, w.nodes.lookup n = some node ∧ node.canceled = false

theorem mem_pushSlot {level : Fin kSlots → List NodePtr} {i j : Fin kSlots} {m n : NodePtr} :
    m ∈ pushSlot level i n j ↔ m ∈ level j ∨ j = i ∧ m = n := by
  unfold pushSlot
  by_cases h : j = i
  · subst h
    simp
  · simp [h]

theorem pushSlot_nodup {level : Fin kSlots → List NodePtr} {i : Fin kSlots} {n : NodePtr}
    (hlevel : ∀ j, (level j).Nodup) (hn : n ∉ level i) (j : Fin kSlots) :
    (pushSlot level i n j).Nodup := by
  unfold pushSlot
  by_cases h : j = i
  · subst h
    rw [Function.update_self]
    exact List.nodup_append.mpr ⟨hlevel j, List.nodup_singleton n, by
      intro a ha b hb hab
      rw [List.mem_singleton] at hb
      exact hn (hb ▸ hab ▸ ha)⟩
  · rw [Function.update_of_ne h]
    exact hlevel j

theorem mem_clearSlot {level : Fin kSlots → List NodePtr} {i j : Fin kSlots} {m : NodePtr} :
    m ∈ Function.update level i [] j ↔ j ≠ i ∧ m ∈ level j := by
  by_cases h : j = i
  · subst h
    simp
  · simp [h]

theorem clearSlot_nodup {level : Fin kSlots → List NodePtr} (hlevel : ∀ j, (level j).Nodup)
    (i j : Fin kSlots) : (Function.update level i [] j).Nodup := by
  by_cases h : j = i
  · subst h
    simp
  · rw [Function.update_of_ne h]
    exact hlevel j

@[simp] theorem place_nowTick (n : NodePtr) (w : TimerWheel α) :
    (w.place n).nowTick = w.nowTick := by
  unfold place
  split
  · rfl
  · dsimp only
    split <;> rfl

@[simp] theorem place_nextId (n : NodePtr) (w : TimerWheel α) :
    (w.place n).nextId = w.nextId := by
  unfold place
  split
  · rfl
  · dsimp only
    split <;> rfl

@[simp] theorem place_alive (n : NodePtr) (w : TimerWheel α) :
    (w.place n).alive = w.alive := by
  unfold place
  split
  · rfl
  · dsimp only
    split <;> rfl

/-- The expiry tick a node has once it is placed. -/
def placedExpiry (nowTick expiryTick : ℕ) : ℕ :=
  if expiryTick - nowTick ≥ kSlots * kSlots then nowTick + kSlots * kSlots - 1 else expiryTick

/-- What `place` does: the node gets its placed expiry tick, and its pointer
moves into the slot that this tick selects. -/
theorem place_eq {w : TimerWheel α} {n : NodePtr} {node : Node α}
    (hn : w.nodes.lookup n = some node) :
    (node.expiryTick - w.nowTick < kSlots ∧
      w.place n = { w with l0 := pushSlot w.l0 (slot node.expiryTick) n }) ∨
    (kSlots ≤ node.expiryTick - w.nowTick ∧
      w.place n = { w with
        nodes := w.nodes.modify n fun node =>
          { node with expiryTick := placedExpiry w.nowTick node.expiryTick }
        l1 := pushSlot w.l1
          (slot (placedExpiry w.nowTick node.expiryTick / kSlots)) n }) := by
  by_cases hd : node.expiryTick - w.nowTick < kSlots
  · left
    refine ⟨hd, ?_⟩
    simp [place, hn, hd]
  · right
    refine ⟨Nat.le_of_not_lt hd, ?_⟩
    simp only [place, hn, hd, if_false]
    congr 1
    -- the update reads the expiry tick of the node found under the pointer
    apply AList.ext
    simp only [UnorderedMap.modify, UnorderedMap.mapVal]
    apply List.map_congr_left
    rintro ⟨k, v⟩ hkv
    by_cases hk : k = n
    · subst hk
      have hv : v = node := by
        have := UnorderedMap.mem_entries_iff.mp hkv
        rw [hn] at this
        exact (Option.some.inj this).symm
      subst hv
      simp [placedExpiry]
    · simp [hk]

theorem placedExpiry_of_lt {nowTick expiryTick : ℕ} (h : expiryTick - nowTick < kSlots) :
    placedExpiry nowTick expiryTick = expiryTick := by
  rw [placedExpiry, if_neg]
  simp only [kSlots] at h ⊢
  omega

theorem place_lookup {w : TimerWheel α} {n : NodePtr} {node : Node α}
    (hn : w.nodes.lookup n = some node) (m : NodePtr) :
    (w.place n).nodes.lookup m =
      if m = n then some { node with expiryTick := placedExpiry w.nowTick node.expiryTick }
      else w.nodes.lookup m := by
  rcases place_eq hn with ⟨hd, heq⟩ | ⟨-, heq⟩
  · rw [heq, placedExpiry_of_lt hd]
    by_cases hm : m = n
    · subst hm
      simp [hn]
    · simp [hm]
  · rw [heq]
    by_cases hm : m = n
    · subst hm
      simp [hn]
    · simp [hm]

/-- A pointer in hand moves into a slot; nothing else moves. -/
theorem place_held {w : TimerWheel α} {n : NodePtr} {node : Node α}
    (hn : w.nodes.lookup n = some node) (q : List NodePtr) (m : NodePtr) :
    (w.place n).Held q m ↔ w.Held (n :: q) m := by
  rcases place_eq hn with ⟨-, heq⟩ | ⟨-, heq⟩
  · rw [heq]
    simp only [Held, mem_pushSlot, List.mem_cons, exists_or, exists_eq_left]
    tauto
  · rw [heq]
    simp only [Held, mem_pushSlot, List.mem_cons, exists_or, exists_eq_left]
    tauto

/-- Placing changes no node but the one placed, so the other slots keep
their nodes where they belong. -/
theorem place_inL0 {w : TimerWheel α} {n m : NodePtr} {node : Node α} {lo : ℕ}
    {i : Fin kSlots} (hn : w.nodes.lookup n = some node) (hne : m ≠ n) (h : w.InL0 lo i m) :
    (w.place n).InL0 lo i m := by
  obtain ⟨node', hm, hrest⟩ := h
  exact ⟨node', by rw [place_lookup hn, if_neg hne, hm], by simpa using hrest⟩

theorem place_inL1 {w : TimerWheel α} {n m : NodePtr} {node : Node α} {j : Fin kSlots}
    (hn : w.nodes.lookup n = some node) (hne : m ≠ n) (h : w.InL1 j m) :
    (w.place n).InL1 j m := by
  obtain ⟨node', hm, hrest⟩ := h
  exact ⟨node', by rw [place_lookup hn, if_neg hne, hm], by simpa using hrest⟩

/-- The bounds of level 1 hold for a node that is at least one turn of level
0 away: truncation keeps it within one turn of level 1. -/
theorem placedExpiry_l1 {nowTick expiryTick : ℕ} (h : kSlots ≤ expiryTick - nowTick) :
    nowTick / kSlots < placedExpiry nowTick expiryTick / kSlots ∧
      placedExpiry nowTick expiryTick / kSlots ≤ nowTick / kSlots + kSlots := by
  unfold placedExpiry
  by_cases hfar : expiryTick - nowTick ≥ kSlots * kSlots
  · rw [if_pos hfar]
    simp only [kSlots] at h hfar ⊢
    omega
  · rw [if_neg hfar]
    simp only [kSlots] at h hfar ⊢
    omega

/-- The expiry tick of a node decides in which slot of level 0 it can be. -/
theorem Rep.l0_unique {w : TimerWheel α} {lo : ℕ} {q : List NodePtr} (hrep : Rep w lo q)
    {n : NodePtr} {i i' : Fin kSlots} (hi : n ∈ w.l0 i) (hi' : n ∈ w.l0 i') : i' = i := by
  obtain ⟨node, hnode, hslot, -⟩ := hrep.l0_ok i n hi
  obtain ⟨node', hnode', hslot', -⟩ := hrep.l0_ok i' n hi'
  obtain rfl := Option.some.inj (hnode.symm.trans hnode')
  exact hslot'.symm.trans hslot

/-- The same for level 1. -/
theorem Rep.l1_unique {w : TimerWheel α} {lo : ℕ} {q : List NodePtr} (hrep : Rep w lo q)
    {n : NodePtr} {j j' : Fin kSlots} (hj : n ∈ w.l1 j) (hj' : n ∈ w.l1 j') : j' = j := by
  obtain ⟨node, hnode, hslot, -⟩ := hrep.l1_ok j n hj
  obtain ⟨node', hnode', hslot', -⟩ := hrep.l1_ok j' n hj'
  obtain rfl := Option.some.inj (hnode.symm.trans hnode')
  exact hslot'.symm.trans hslot

section Place

variable {w : TimerWheel α} {lo : ℕ} {n : NodePtr} {q : List NodePtr} {node : Node α}

theorem Rep.place_node_id (hrep : Rep w lo (n :: q)) (hn : w.nodes.lookup n = some node)
    (m : NodePtr) (node' : Node α) (hm : (w.place n).nodes.lookup m = some node') :
    node'.id = m ∧ m < (w.place n).nextId := by
  rw [place_lookup hn] at hm
  rw [place_nextId]
  by_cases hmn : m = n
  · rw [if_pos hmn] at hm
    obtain rfl := Option.some.inj hm
    exact hmn ▸ hrep.node_id n node hn
  · rw [if_neg hmn] at hm
    exact hrep.node_id m node' hm

theorem Rep.place_q_ok (hrep : Rep w lo (n :: q)) (hn : w.nodes.lookup n = some node) :
    ∀ m ∈ q, ∃ node', (w.place n).nodes.lookup m = some node' := by
  intro m hm
  obtain ⟨node', hm'⟩ := hrep.q_ok m (List.mem_cons_of_mem _ hm)
  have hnq : n ∉ q := (List.nodup_cons.mp hrep.q_nodup).1
  have hne : m ≠ n := fun h => hnq (h ▸ hm)
  exact ⟨node', by rw [place_lookup hn, if_neg hne, hm']⟩

/-- The pointer in hand becomes a stored one, so it is held as before. -/
theorem Rep.place_alive_iff (hrep : Rep w lo (n :: q)) (hn : w.nodes.lookup n = some node)
    (id : ℕ) (m : NodePtr) :
    (w.place n).alive.lookup id = some m ↔ m = id ∧ (w.place n).Held q m ∧
      ∃ node', (w.place n).nodes.lookup m = some node' ∧ node'.canceled = false := by
  rw [place_alive, hrep.alive_iff, place_held hn, place_lookup hn]
  by_cases hmn : m = n
  · subst hmn
    simp [hn]
  · simp [hmn]

/-- The pointer lands in the slot of level 0 that its expiry tick says. -/
theorem Rep.place_l0 (hrep : Rep w lo (n :: q)) (hn : w.nodes.lookup n = some node)
    (hlo : lo ≤ node.expiryTick) (hnow : w.nowTick ≤ node.expiryTick)
    (hd : node.expiryTick - w.nowTick < kSlots)
    (heq : w.place n = { w with l0 := pushSlot w.l0 (slot node.expiryTick) n }) :
    Rep (w.place n) lo q := by
  have hl0 : ∀ i, n ∉ w.l0 i := fun i h => hrep.l0_q i n h (List.mem_cons_self ..)
  have hl1 : ∀ j, n ∉ w.l1 j := fun j h => hrep.l1_q j n h (List.mem_cons_self ..)
  have hmem : ∀ i m, m ∈ (w.place n).l0 i ↔ m ∈ w.l0 i ∨ i = slot node.expiryTick ∧ m = n := by
    intro i m
    rw [heq]
    exact mem_pushSlot
  have hl1eq : (w.place n).l1 = w.l1 := by rw [heq]
  refine ⟨hrep.place_node_id hn, ?_, ?_, hrep.place_q_ok hn, ?_, ?_,
    (List.nodup_cons.mp hrep.q_nodup).2, ?_, ?_, ?_, hrep.place_alive_iff hn⟩
  · intro i m hm
    rcases (hmem i m).mp hm with hm | ⟨rfl, rfl⟩
    · exact place_inL0 hn (fun h => hl0 i (h ▸ hm)) (hrep.l0_ok i m hm)
    · refine ⟨_, by rw [place_lookup hn, if_pos rfl], ?_⟩
      rw [place_nowTick]
      simp only [placedExpiry_of_lt hd]
      exact ⟨trivial, hlo, by omega⟩
  · intro j m hm
    rw [hl1eq] at hm
    exact place_inL1 hn (fun h => hl1 j (h ▸ hm)) (hrep.l1_ok j m hm)
  · intro i
    rw [heq]
    exact pushSlot_nodup hrep.l0_nodup (hl0 _) i
  · rw [hl1eq]
    exact hrep.l1_nodup
  · intro i j m hm
    rw [hl1eq]
    rcases (hmem i m).mp hm with hm | ⟨-, rfl⟩
    · exact hrep.l0_l1 i j m hm
    · exact hl1 j
  · intro i m hm
    rcases (hmem i m).mp hm with hm | ⟨-, rfl⟩
    · exact fun h => hrep.l0_q i m hm (List.mem_cons_of_mem _ h)
    · exact (List.nodup_cons.mp hrep.q_nodup).1
  · intro j m hm
    rw [hl1eq] at hm
    exact fun h => hrep.l1_q j m hm (List.mem_cons_of_mem _ h)

/-- The pointer lands in level 1, in the slot of the expiry tick it has after
the truncation. -/
theorem Rep.place_l1 (hrep : Rep w lo (n :: q)) (hn : w.nodes.lookup n = some node)
    (hd : kSlots ≤ node.expiryTick - w.nowTick)
    (heq : w.place n = { w with
      nodes := w.nodes.modify n fun node =>
        { node with expiryTick := placedExpiry w.nowTick node.expiryTick }
      l1 := pushSlot w.l1 (slot (placedExpiry w.nowTick node.expiryTick / kSlots)) n }) :
    Rep (w.place n) lo q := by
  have hl0 : ∀ i, n ∉ w.l0 i := fun i h => hrep.l0_q i n h (List.mem_cons_self ..)
  have hl1 : ∀ j, n ∉ w.l1 j := fun j h => hrep.l1_q j n h (List.mem_cons_self ..)
  have hmem : ∀ j m, m ∈ (w.place n).l1 j ↔
      m ∈ w.l1 j ∨ j = slot (placedExpiry w.nowTick node.expiryTick / kSlots) ∧ m = n := by
    intro j m
    rw [heq]
    exact mem_pushSlot
  have hl0eq : (w.place n).l0 = w.l0 := by rw [heq]
  refine ⟨hrep.place_node_id hn, ?_, ?_, hrep.place_q_ok hn, ?_, ?_,
    (List.nodup_cons.mp hrep.q_nodup).2, ?_, ?_, ?_, hrep.place_alive_iff hn⟩
  · intro i m hm
    rw [hl0eq] at hm
    exact place_inL0 hn (fun h => hl0 i (h ▸ hm)) (hrep.l0_ok i m hm)
  · intro j m hm
    rcases (hmem j m).mp hm with hm | ⟨rfl, rfl⟩
    · exact place_inL1 hn (fun h => hl1 j (h ▸ hm)) (hrep.l1_ok j m hm)
    · refine ⟨_, by rw [place_lookup hn, if_pos rfl], ?_⟩
      rw [place_nowTick]
      exact ⟨rfl, placedExpiry_l1 hd⟩
  · rw [hl0eq]
    exact hrep.l0_nodup
  · intro j
    rw [heq]
    exact pushSlot_nodup hrep.l1_nodup (hl1 _) j
  · intro i j m hm hm'
    rw [hl0eq] at hm
    rcases (hmem j m).mp hm' with hm' | ⟨-, rfl⟩
    · exact hrep.l0_l1 i j m hm hm'
    · exact hl0 i hm
  · intro i m hm
    rw [hl0eq] at hm
    exact fun h => hrep.l0_q i m hm (List.mem_cons_of_mem _ h)
  · intro j m hm
    rcases (hmem j m).mp hm with hm | ⟨-, rfl⟩
    · exact fun h => hrep.l1_q j m hm (List.mem_cons_of_mem _ h)
    · exact (List.nodup_cons.mp hrep.q_nodup).1

/-- The pointer in hand is stored, in the level its distance says. -/
theorem Rep.place (hrep : Rep w lo (n :: q)) (hn : w.nodes.lookup n = some node)
    (hlo : lo ≤ node.expiryTick) (hnow : w.nowTick ≤ node.expiryTick) : Rep (w.place n) lo q := by
  rcases place_eq hn with ⟨hd, heq⟩ | ⟨hd, heq⟩
  · exact hrep.place_l0 hn hlo hnow hd heq
  · exact hrep.place_l1 hn hd heq

end Place

/-! ### Adding, cancelling, taking -/

theorem ticksOf_pos (delayMs : ℕ) : 0 < ticksOf delayMs := by
  unfold ticksOf
  dsimp only
  split
  · exact Nat.one_pos
  · next h => exact Nat.pos_of_ne_zero h

/-- A new node counts as a pointer in hand until `place` puts it into its slot. -/
theorem Rep.allocate {w : TimerWheel α} {lo : ℕ} {q : List NodePtr} (hrep : Rep w lo q)
    {node : Node α} (hid : node.id = w.nextId) (hcanceled : node.canceled = false) :
    Rep { w with
      nextId := w.nextId + 1
      nodes := w.nodes.insert w.nextId node
      alive := w.alive.insert w.nextId w.nextId } lo (w.nextId :: q) := by
  have hfresh : ∀ m node', w.nodes.lookup m = some node' → m ≠ w.nextId :=
    fun m node' h => Nat.ne_of_lt (hrep.node_id m node' h).2
  have hin0 : ∀ i m, m ∈ w.l0 i → m ≠ w.nextId := fun i m hm =>
    let ⟨node', h, _⟩ := hrep.l0_ok i m hm
    hfresh m node' h
  have hin1 : ∀ j m, m ∈ w.l1 j → m ≠ w.nextId := fun j m hm =>
    let ⟨node', h, _⟩ := hrep.l1_ok j m hm
    hfresh m node' h
  have hinq : ∀ m ∈ q, m ≠ w.nextId := fun m hm =>
    let ⟨node', h⟩ := hrep.q_ok m hm
    hfresh m node' h
  refine ⟨?_, ?_, ?_, ?_, hrep.l0_nodup, hrep.l1_nodup, ?_, hrep.l0_l1, ?_, ?_, ?_⟩
  · intro m node' hm
    dsimp only at hm ⊢
    rw [UnorderedMap.lookup_insert_eq] at hm
    by_cases hmn : m = w.nextId
    · rw [if_pos hmn] at hm
      obtain rfl := Option.some.inj hm
      exact ⟨hid.trans hmn.symm, hmn ▸ Nat.lt_succ_self _⟩
    · rw [if_neg hmn] at hm
      obtain ⟨hid', hlt⟩ := hrep.node_id m node' hm
      exact ⟨hid', Nat.lt_succ_of_lt hlt⟩
  · intro i m hm
    obtain ⟨node', h, hrest⟩ := hrep.l0_ok i m hm
    exact ⟨node', by rw [UnorderedMap.lookup_insert_eq, if_neg (hin0 i m hm), h], hrest⟩
  · intro j m hm
    obtain ⟨node', h, hrest⟩ := hrep.l1_ok j m hm
    exact ⟨node', by rw [UnorderedMap.lookup_insert_eq, if_neg (hin1 j m hm), h], hrest⟩
  · intro m hm
    rcases List.mem_cons.mp hm with rfl | hm
    · exact ⟨node, by simp⟩
    · obtain ⟨node', h⟩ := hrep.q_ok m hm
      exact ⟨node', by rw [UnorderedMap.lookup_insert_eq, if_neg (hinq m hm), h]⟩
  · exact List.nodup_cons.mpr ⟨fun h => hinq _ h rfl, hrep.q_nodup⟩
  · intro i m hm h
    rcases List.mem_cons.mp h with h | h
    · exact hin0 i m hm h
    · exact hrep.l0_q i m hm h
  · intro j m hm h
    rcases List.mem_cons.mp h with h | h
    · exact hin1 j m hm h
    · exact hrep.l1_q j m hm h
  · intro id m
    dsimp only [Held]
    rw [UnorderedMap.lookup_insert_eq, UnorderedMap.lookup_insert_eq]
    by_cases hmn : m = w.nextId
    · subst hmn
      by_cases hid : id = w.nextId
      · simp [hid, hcanceled]
      · simp only [if_neg hid, hrep.alive_iff]
        simp [Ne.symm hid]
    · rw [if_neg hmn]
      by_cases hid : id = w.nextId
      · simp [hid, hmn, Ne.symm hmn]
      · rw [if_neg hid, hrep.alive_iff]
        simp [Held, hmn]

theorem Rep.add {w : TimerWheel α} {lo : ℕ} {q : List NodePtr} (hrep : Rep w lo q)
    (hlo : lo ≤ w.nowTick + 1) (delayMs : ℕ) (cb : α) : Rep (w.add delayMs cb).1 lo q := by
  let node : Node α :=
    { id := w.nextId, expiryTick := w.nowTick + ticksOf delayMs, cb := cb }
  have hpos := ticksOf_pos delayMs
  have hlook : (w.nodes.insert w.nextId node).lookup w.nextId = some node :=
    AList.lookup_insert _
  have hrep' := hrep.allocate (show node.id = w.nextId from rfl) rfl
  exact hrep'.place hlook (show lo ≤ w.nowTick + ticksOf delayMs by omega)
    (show w.nowTick ≤ w.nowTick + ticksOf delayMs by omega)

theorem Rep.cancel {w : TimerWheel α} {lo : ℕ} {q : List NodePtr} (hrep : Rep w lo q)
    (id : ℕ) : Rep (w.cancel id) lo q := by
  unfold TimerWheel.cancel
  cases hid : w.alive.lookup id with
  | none => exact hrep
  | some n =>
      obtain ⟨rfl, hheld, node, hnode, hlive⟩ := (hrep.alive_iff id n).mp hid
      have hlook : ∀ m node', w.nodes.lookup m = some node' →
          (w.nodes.modify n fun node => { node with canceled := true }).lookup m =
            some { node' with canceled := if m = n then true else node'.canceled } := by
        intro m node' h
        rw [UnorderedMap.lookup_modify, h]
        by_cases hm : m = n
        · simp [hm]
        · simp [hm]
      refine ⟨?_, ?_, ?_, ?_, hrep.l0_nodup, hrep.l1_nodup, hrep.q_nodup, hrep.l0_l1,
        hrep.l0_q, hrep.l1_q, ?_⟩
      · intro m node' hm
        dsimp only at hm ⊢
        rw [UnorderedMap.lookup_modify] at hm
        by_cases hmn : m = n
        · subst hmn
          simp only [if_pos, hnode, Option.map_some, Option.some.injEq] at hm
          exact hm ▸ hrep.node_id m node hnode
        · rw [if_neg hmn] at hm
          exact hrep.node_id m node' hm
      · intro i m hm
        obtain ⟨node', h, hrest⟩ := hrep.l0_ok i m hm
        exact ⟨_, hlook m node' h, hrest⟩
      · intro j m hm
        obtain ⟨node', h, hrest⟩ := hrep.l1_ok j m hm
        exact ⟨_, hlook m node' h, hrest⟩
      · intro m hm
        obtain ⟨node', h⟩ := hrep.q_ok m hm
        exact ⟨_, hlook m node' h⟩
      · intro id' m
        dsimp only [Held]
        rw [UnorderedMap.lookup_erase_eq, UnorderedMap.lookup_modify]
        by_cases hmn : m = n
        · subst hmn
          by_cases hid' : id' = m
          · simp [hid', hnode]
          · rw [if_neg hid', hrep.alive_iff]
            simp [Ne.symm hid']
        · rw [if_neg hmn]
          by_cases hid' : id' = n
          · subst hid'
            simp [hmn]
          · rw [if_neg hid', hrep.alive_iff]
            rfl

/-- A pointer that is dropped from the hand may be forgotten if its node is
cancelled. -/
theorem Rep.drop {w : TimerWheel α} {lo : ℕ} {n : NodePtr} {q : List NodePtr} {node : Node α}
    (hrep : Rep w lo (n :: q)) (hn : w.nodes.lookup n = some node)
    (hc : node.canceled = true) : Rep w lo q where
  node_id := hrep.node_id
  l0_ok := hrep.l0_ok
  l1_ok := hrep.l1_ok
  q_ok := fun m hm => hrep.q_ok m (List.mem_cons_of_mem _ hm)
  l0_nodup := hrep.l0_nodup
  l1_nodup := hrep.l1_nodup
  q_nodup := (List.nodup_cons.mp hrep.q_nodup).2
  l0_l1 := hrep.l0_l1
  l0_q := fun i m hm h => hrep.l0_q i m hm (List.mem_cons_of_mem _ h)
  l1_q := fun j m hm h => hrep.l1_q j m hm (List.mem_cons_of_mem _ h)
  alive_iff := by
    intro id m
    rw [hrep.alive_iff]
    by_cases hmn : m = n
    · subst hmn
      simp [hn, hc]
    · simp [Held, hmn]

/-- The pointer that fires leaves the hand and `alive_` together. -/
theorem Rep.fire {w : TimerWheel α} {lo : ℕ} {n : NodePtr} {q : List NodePtr}
    (hrep : Rep w lo (n :: q)) : Rep { w with alive := w.alive.erase n } lo q where
  node_id := hrep.node_id
  l0_ok := hrep.l0_ok
  l1_ok := hrep.l1_ok
  q_ok := fun m hm => hrep.q_ok m (List.mem_cons_of_mem _ hm)
  l0_nodup := hrep.l0_nodup
  l1_nodup := hrep.l1_nodup
  q_nodup := (List.nodup_cons.mp hrep.q_nodup).2
  l0_l1 := hrep.l0_l1
  l0_q := fun i m hm h => hrep.l0_q i m hm (List.mem_cons_of_mem _ h)
  l1_q := fun j m hm h => hrep.l1_q j m hm (List.mem_cons_of_mem _ h)
  alive_iff := by
    intro id m
    rw [UnorderedMap.lookup_erase_eq]
    by_cases hid : id = n
    · subst hid
      -- nothing but the hand held the pointer, so it is held no longer
      simp only [if_true, reduceCtorEq, false_iff]
      rintro ⟨rfl, hheld, -⟩
      rcases hheld with ⟨i, h⟩ | ⟨j, h⟩ | h
      · exact hrep.l0_q i m h (List.mem_cons_self ..)
      · exact hrep.l1_q j m h (List.mem_cons_self ..)
      · exact (List.nodup_cons.mp hrep.q_nodup).1 h
    · rw [if_neg hid, hrep.alive_iff]
      simp only [Held, List.mem_cons]
      constructor
      · rintro ⟨rfl, hheld, hnode⟩
        refine ⟨rfl, ?_, hnode⟩
        rcases hheld with h | h | h | h
        · exact .inl h
        · exact .inr (.inl h)
        · exact absurd h hid
        · exact .inr (.inr h)
      · rintro ⟨rfl, hheld, hnode⟩
        refine ⟨rfl, ?_, hnode⟩
        rcases hheld with h | h | h
        · exact .inl h
        · exact .inr (.inl h)
        · exact .inr (.inr (.inr h))

/-! ### One tick -/

/-- The clock moves inside a turn of level 0: no slot of level 1 comes due. -/
theorem Rep.tick {w : TimerWheel α} (hrep : Rep w (w.nowTick + 1) [])
    (hturn : (w.nowTick + 1) % kSlots ≠ 0) :
    Rep { w with nowTick := w.nowTick + 1 } (w.nowTick + 1) [] where
  node_id := hrep.node_id
  l0_ok := by
    intro i m hm
    obtain ⟨node, h, hslot, hlo, hhi⟩ := hrep.l0_ok i m hm
    exact ⟨node, h, hslot, hlo, Nat.lt_of_lt_of_le hhi (by simp)⟩
  l1_ok := by
    intro j m hm
    obtain ⟨node, h, hslot, hlo, hhi⟩ := hrep.l1_ok j m hm
    have hdiv : (w.nowTick + 1) / kSlots = w.nowTick / kSlots := by
      simp only [kSlots] at hturn ⊢
      omega
    exact ⟨node, h, hslot, by rw [hdiv]; exact hlo, by rw [hdiv]; exact hhi⟩
  q_ok := hrep.q_ok
  l0_nodup := hrep.l0_nodup
  l1_nodup := hrep.l1_nodup
  q_nodup := hrep.q_nodup
  l0_l1 := hrep.l0_l1
  l0_q := hrep.l0_q
  l1_q := hrep.l1_q
  alive_iff := hrep.alive_iff

/-- The clock starts a turn of level 0: the current slot of level 1 is taken
out, and holds exactly what is due within the new turn. -/
theorem Rep.turn {w : TimerWheel α} (hrep : Rep w (w.nowTick + 1) [])
    (hturn : (w.nowTick + 1) % kSlots = 0) :
    Rep { w with
        nowTick := w.nowTick + 1
        l1 := Function.update w.l1 (slot ((w.nowTick + 1) / kSlots)) [] }
      (w.nowTick + 1) (w.l1 (slot ((w.nowTick + 1) / kSlots))) ∧
    ∀ n ∈ w.l1 (slot ((w.nowTick + 1) / kSlots)), ∀ node, w.nodes.lookup n = some node →
      w.nowTick + 1 ≤ node.expiryTick ∧ node.expiryTick < w.nowTick + 1 + kSlots := by
  let i := slot ((w.nowTick + 1) / kSlots)
  have hdiv : (w.nowTick + 1) / kSlots = w.nowTick / kSlots + 1 := by
    simp only [kSlots] at hturn ⊢
    omega
  have hrest : ∀ j m, m ∈ Function.update w.l1 i [] j → j ≠ i ∧ m ∈ w.l1 j :=
    fun _ _ => mem_clearSlot.mp
  refine ⟨⟨hrep.node_id, ?_, ?_, ?_, hrep.l0_nodup, ?_, hrep.l1_nodup i, ?_, ?_, ?_, ?_⟩, ?_⟩
  · intro j m hm
    obtain ⟨node, h, hslot, hlo, hhi⟩ := hrep.l0_ok j m hm
    exact ⟨node, h, hslot, hlo, Nat.lt_of_lt_of_le hhi (by simp)⟩
  · intro j m hm
    obtain ⟨hj, hm⟩ := hrest j m hm
    obtain ⟨node, h, hslot, hlo, hhi⟩ := hrep.l1_ok j m hm
    refine ⟨node, h, hslot, ?_, ?_⟩
    · -- in any other slot than the current one the turn is not the next one
      refine lt_of_le_of_ne (by rw [hdiv]; exact hlo) fun heq => hj ?_
      rw [← hslot, ← heq]
    · show _ ≤ (w.nowTick + 1) / kSlots + kSlots
      rw [hdiv]
      omega
  · intro m hm
    obtain ⟨node, h, -⟩ := hrep.l1_ok i m hm
    exact ⟨node, h⟩
  · exact clearSlot_nodup hrep.l1_nodup i
  · intro j k m hm hm'
    exact hrep.l0_l1 j k m hm (hrest k m hm').2
  · intro j m hm
    exact hrep.l0_l1 j i m hm
  · intro j m hm hm'
    obtain ⟨hj, hm⟩ := hrest j m hm
    exact hj (hrep.l1_unique hm' hm)
  · intro id m
    rw [hrep.alive_iff]
    have hheld : w.Held [] m ↔ TimerWheel.Held { w with
        nowTick := w.nowTick + 1
        l1 := Function.update w.l1 i [] } (w.l1 i) m := by
      constructor
      · rintro (h | ⟨j, h⟩ | h)
        · exact .inl h
        · by_cases hj : j = i
          · exact .inr (.inr (hj ▸ h))
          · exact .inr (.inl ⟨j, mem_clearSlot.mpr ⟨hj, h⟩⟩)
        · exact absurd h (List.not_mem_nil)
      · rintro (h | ⟨j, h⟩ | h)
        · exact .inl h
        · exact .inr (.inl ⟨j, (hrest j m h).2⟩)
        · exact .inr (.inl ⟨i, h⟩)
    rw [hheld]
  · intro n hn node hnode
    obtain ⟨node', h, hslot, hlo, hhi⟩ := hrep.l1_ok i n hn
    obtain rfl : node = node' := Option.some.inj (hnode.symm.trans h)
    -- the slot pins the turn modulo 64 and the bounds leave one turn only
    have hmod : node.expiryTick / kSlots % kSlots = (w.nowTick + 1) / kSlots % kSlots :=
      congrArg Fin.val hslot
    simp only [kSlots] at hmod hlo hhi hdiv hturn ⊢
    omega

theorem place_lookup_near {w : TimerWheel α} {n : NodePtr} {node : Node α}
    (hn : w.nodes.lookup n = some node) (hnear : node.expiryTick - w.nowTick < kSlots)
    (m : NodePtr) : (w.place n).nodes.lookup m = w.nodes.lookup m := by
  rw [place_lookup hn, placedExpiry_of_lt hnear]
  by_cases hm : m = n
  · subst hm
    simp [hn]
  · simp [hm]

/-- Cascading puts every node it is handed into level 0, and changes none. -/
theorem Rep.cascade {w : TimerWheel α} {lo : ℕ} {q : List NodePtr} (hrep : Rep w lo q)
    (hq : ∀ n ∈ q, ∀ node, w.nodes.lookup n = some node →
      lo ≤ node.expiryTick ∧ w.nowTick ≤ node.expiryTick ∧
        node.expiryTick < w.nowTick + kSlots) :
    Rep (w.cascade q) lo [] ∧ (w.cascade q).nowTick = w.nowTick ∧
      (w.cascade q).nextId = w.nextId ∧ (w.cascade q).alive = w.alive ∧
      ∀ m, (w.cascade q).nodes.lookup m = w.nodes.lookup m := by
  induction q generalizing w with
  | nil => exact ⟨hrep, rfl, rfl, rfl, fun _ => rfl⟩
  | cons n q ih =>
      obtain ⟨node, hn⟩ := hrep.q_ok n (List.mem_cons_self ..)
      have htail : ∀ m ∈ q, m ∈ n :: q := fun m hm => List.mem_cons_of_mem n hm
      simp only [TimerWheel.cascade, hn]
      cases hc : node.canceled with
      | true =>
          simpa using ih (hrep.drop hn hc) fun m hm => hq m (htail m hm)
      | false =>
          obtain ⟨hlo, hnow, hnear⟩ := hq n (List.mem_cons_self ..) node hn
          have hlook := place_lookup_near hn (by omega)
          obtain ⟨h₁, h₂, h₃, h₄, h₅⟩ := ih (hrep.place hn hlo hnow) fun m hm node' hm' => by
            rw [hlook] at hm'
            rw [place_nowTick]
            exact hq m (htail m hm) node' hm'
          simp only [Bool.false_eq_true, if_false]
          refine ⟨h₁, by simpa using h₂, by simpa using h₃, by simpa using h₄, fun m => ?_⟩
          rw [h₅, hlook]

/-- The state of the wheel while the callbacks of the current tick run: `q`
is what `fireSlot` has left to do, and all of it is due now. Between two
calls `q` is empty. -/
structure Ready (w : TimerWheel α) (q : List NodePtr) : Prop where
  rep : Rep w (w.nowTick + 1) q
  due : ∀ n ∈ q, ∀ node, w.nodes.lookup n = some node → node.expiryTick = w.nowTick

/-- Taking the current slot of level 0 out: it holds exactly what is due now. -/
theorem Rep.take_slot {w : TimerWheel α} {now : ℕ} (hnow : w.nowTick = now)
    (hrep : Rep w now []) :
    Ready { w with l0 := Function.update w.l0 (slot now) [] } (w.l0 (slot now)) := by
  subst hnow
  let i := slot w.nowTick
  have hrest : ∀ j m, m ∈ Function.update w.l0 i [] j → j ≠ i ∧ m ∈ w.l0 j :=
    fun _ _ => mem_clearSlot.mp
  refine ⟨⟨hrep.node_id, ?_, hrep.l1_ok, ?_, ?_, hrep.l1_nodup, hrep.l0_nodup i, ?_, ?_, ?_, ?_⟩,
    ?_⟩
  · intro j m hm
    obtain ⟨hj, hm⟩ := hrest j m hm
    obtain ⟨node, h, hslot, hlo, hhi⟩ := hrep.l0_ok j m hm
    refine ⟨node, h, hslot, Nat.lt_of_le_of_ne hlo fun heq => hj ?_, hhi⟩
    rw [← hslot, ← heq]
  · intro m hm
    obtain ⟨node, h, -⟩ := hrep.l0_ok i m hm
    exact ⟨node, h⟩
  · exact clearSlot_nodup hrep.l0_nodup i
  · intro j k m hm
    exact hrep.l0_l1 j k m (hrest j m hm).2
  · intro j m hm hm'
    obtain ⟨hj, hm⟩ := hrest j m hm
    obtain ⟨node, h, hslot, -⟩ := hrep.l0_ok j m hm
    obtain ⟨node', h', hslot', -⟩ := hrep.l0_ok i m hm'
    obtain rfl : node = node' := Option.some.inj (h.symm.trans h')
    exact hj (hslot.symm.trans hslot')
  · intro j m hm hm'
    exact hrep.l0_l1 i j m hm' hm
  · intro id m
    rw [hrep.alive_iff]
    have hheld : w.Held [] m ↔
        TimerWheel.Held { w with l0 := Function.update w.l0 i [] } (w.l0 i) m := by
      constructor
      · rintro (⟨j, h⟩ | h | h)
        · by_cases hj : j = i
          · exact .inr (.inr (hj ▸ h))
          · exact .inl ⟨j, mem_clearSlot.mpr ⟨hj, h⟩⟩
        · exact .inr (.inl h)
        · exact absurd h (List.not_mem_nil)
      · rintro (⟨j, h⟩ | h | h)
        · exact .inl ⟨j, (hrest j m h).2⟩
        · exact .inr (.inl h)
        · exact .inl ⟨i, h⟩
    rw [hheld]
  · intro n hn node hnode
    obtain ⟨node', h, hslot, hlo, hhi⟩ := hrep.l0_ok i n hn
    obtain rfl : node = node' := Option.some.inj (hnode.symm.trans h)
    have hmod : node.expiryTick % kSlots = w.nowTick % kSlots := congrArg Fin.val hslot
    show node.expiryTick = w.nowTick
    simp only [kSlots] at hmod hlo hhi
    omega

/-- One round of `advance` up to its callbacks changes no node. -/
theorem Ready.beginStep_lookup {w : TimerWheel α} (h : Ready w []) (m : NodePtr) :
    w.beginStep.1.nodes.lookup m = w.nodes.lookup m := by
  by_cases hturn : (w.nowTick + 1) % kSlots = 0
  · obtain ⟨hrep, hq⟩ := h.rep.turn hturn
    obtain ⟨-, -, -, -, hlook⟩ := hrep.cascade fun n hn node hnode =>
      ⟨(hq n hn node hnode).1, hq n hn node hnode⟩
    simp only [TimerWheel.beginStep, hturn, if_true]
    exact hlook m
  · simp only [TimerWheel.beginStep, hturn, if_false]

/-- One round of `advance` up to its callbacks: the clock moves by one, every
timer that is due is in hand, and no timer is gained, lost or changed. -/
theorem Ready.beginStep {w : TimerWheel α} (h : Ready w []) :
    Ready w.beginStep.1 w.beginStep.2 ∧ w.beginStep.1.nowTick = w.nowTick + 1 ∧
      w.beginStep.1.nextId = w.nextId ∧ ∀ id, w.beginStep.1.pending id = w.pending id := by
  by_cases hturn : (w.nowTick + 1) % kSlots = 0
  · obtain ⟨hrep, hq⟩ := h.rep.turn hturn
    obtain ⟨hrep, hnow, hnext, halive, hlook⟩ := hrep.cascade fun n hn node hnode =>
      ⟨(hq n hn node hnode).1, hq n hn node hnode⟩
    simp only [TimerWheel.beginStep, hturn, if_true]
    refine ⟨hrep.take_slot hnow, hnow, hnext, fun id => ?_⟩
    simp only [pending, halive]
    congr 1
    funext n
    exact hlook n
  · simp only [TimerWheel.beginStep, hturn, if_false]
    exact ⟨(h.rep.tick hturn).take_slot rfl, trivial, trivial, fun _ => rfl⟩

end TimerWheel

end GameServer.Timer
