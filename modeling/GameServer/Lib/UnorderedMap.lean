import Mathlib.Algebra.GroupWithZero.Nat
import Mathlib.Algebra.Order.BigOperators.Group.List
import Mathlib.Algebra.Order.Group.Nat
import Mathlib.Data.List.AList
import Mathlib.Data.List.Perm.Basic
import Mathlib.Logic.Equiv.Basic

/-!
Hash maps whose iteration order is unspecified.

A map is Mathlib's `AList`: a list of key–value entries with distinct
keys. The order of the entries is the order in which a loop over the map
visits them. A hash table gives no promise about that order and may change
it at every insertion, so an operation of a program that inserts is
followed by `reorder`, which permutes the entries as an arbitrary list of
choices says. A statement proved for every such list holds for every
hash function and every bucket layout.
-/

namespace GameServer.Lib

/-- Permute a list: the first choice picks the head of the result among all
elements, the next choice picks among the rest, and so on. Elements left
over when the choices run out keep their order. -/
def arrange {α : Type*} : List ℕ → List α → List α
  | [], l => l
  | k :: ks, l =>
      match l[k % l.length]? with
      | none => l
      | some a => a :: arrange ks (l.eraseIdx (k % l.length))

theorem arrange_perm {α : Type*} (ks : List ℕ) (l : List α) : (arrange ks l).Perm l := by
  induction ks generalizing l with
  | nil => exact .refl l
  | cons k ks ih =>
      simp only [arrange]
      cases h : l[k % l.length]? with
      | none => exact .refl l
      | some a =>
          obtain ⟨hk, rfl⟩ := List.getElem?_eq_some_iff.mp h
          exact ((ih _).cons _).trans (List.getElem_cons_eraseIdx_perm hk)

/-- No order is left out: every permutation is the result of some choices. -/
theorem exists_arrange {α : Type*} {l l' : List α} (h : l'.Perm l) :
    ∃ ks, arrange ks l = l' := by
  induction l' generalizing l with
  | nil => exact ⟨[], h.nil_eq.symm⟩
  | cons a l' ih =>
      obtain ⟨i, hi, rfl⟩ := List.getElem_of_mem (h.subset (List.mem_cons_self ..))
      have hrest : l'.Perm (l.eraseIdx i) :=
        (h.trans (List.getElem_cons_eraseIdx_perm hi).symm).cons_inv
      obtain ⟨ks, hks⟩ := ih hrest
      refine ⟨i :: ks, ?_⟩
      simp [arrange, Nat.mod_eq_of_lt hi, hi, hks]

/-- Things that are numbered in the order of a list, from `n` on, get other
numbers in another order of the list: there is a renaming of the numbers. -/
theorem exists_renaming {α : Type*} {l l' : List α} (h : l.Perm l') (n : ℕ) :
    ∃ σ : Equiv.Perm ℕ, (∀ k < n, σ k = k) ∧
      ∀ i, n ≤ σ (n + i) ∧ l'[σ (n + i) - n]? = l[i]? := by
  induction h generalizing n with
  | nil => exact ⟨.refl ℕ, fun _ _ => rfl, fun i => ⟨Nat.le_add_right n i, rfl⟩⟩
  | cons a _ ih =>
      obtain ⟨σ, hold, hnew⟩ := ih (n + 1)
      refine ⟨σ, fun k hk => hold k (by omega), fun i => ?_⟩
      cases i with
      | zero =>
          rw [Nat.add_zero, hold n (by omega)]
          simp
      | succ i =>
          obtain ⟨hle, hget⟩ := hnew i
          rw [show n + (i + 1) = n + 1 + i by omega]
          refine ⟨by omega, ?_⟩
          rw [show σ (n + 1 + i) - n = σ (n + 1 + i) - (n + 1) + 1 by omega,
            List.getElem?_cons_succ, List.getElem?_cons_succ, hget]
  | swap a b l =>
      refine ⟨Equiv.swap n (n + 1), fun k hk => Equiv.swap_apply_of_ne_of_ne (by omega) (by omega),
        fun i => ?_⟩
      match i with
      | 0 => simp
      | 1 => simp
      | i + 2 =>
          rw [Equiv.swap_apply_of_ne_of_ne (by omega) (by omega), Nat.add_sub_cancel_left]
          exact ⟨Nat.le_add_right n _, rfl⟩
  | trans _ _ ih ih' =>
      obtain ⟨σ, hold, hnew⟩ := ih n
      obtain ⟨σ', hold', hnew'⟩ := ih' n
      refine ⟨σ.trans σ', fun k hk => ?_, fun i => ?_⟩
      · rw [Equiv.trans_apply, hold k hk, hold' k hk]
      · obtain ⟨hle, hget⟩ := hnew i
        obtain ⟨hle', hget'⟩ := hnew' (σ (n + i) - n)
        rw [Nat.add_sub_of_le hle] at hle' hget'
        exact ⟨hle', hget'.trans hget⟩

/-- A map whose iteration order is the order of its entries. -/
abbrev UnorderedMap (κ ν : Type) := AList fun _ : κ => ν

namespace UnorderedMap

variable {κ ν : Type}

/-- The entries visited in the order that `ks` chooses. -/
def reorder (ks : List ℕ) (m : UnorderedMap κ ν) : UnorderedMap κ ν where
  entries := arrange ks m.entries
  nodupKeys := (List.perm_nodupKeys (arrange_perm ks m.entries)).mpr m.nodupKeys

/-- Replace every value, keeping keys and order. -/
def mapVal {μ : Type} (f : κ → ν → μ) (m : UnorderedMap κ ν) : UnorderedMap κ μ where
  entries := m.entries.map fun e => ⟨e.1, f e.1 e.2⟩
  nodupKeys := by
    have hkeys : (m.entries.map fun e => (⟨e.1, f e.1 e.2⟩ : Σ _ : κ, μ)).keys =
        m.entries.keys := by
      simp [List.keys, Function.comp_def]
    rw [List.NodupKeys, hkeys]
    exact m.nodupKeys

section

variable [DecidableEq κ]

/-- Update the value of one key in place; a map without the key stays as it is. -/
def modify (k : κ) (f : ν → ν) (m : UnorderedMap κ ν) : UnorderedMap κ ν :=
  mapVal (fun k' v => if k' = k then f v else v) m

@[simp] theorem lookup_reorder (ks : List ℕ) (m : UnorderedMap κ ν) (k : κ) :
    (reorder ks m).lookup k = m.lookup k :=
  AList.perm_lookup (arrange_perm ks m.entries)

@[simp] theorem lookup_mapVal {μ : Type} (f : κ → ν → μ) (m : UnorderedMap κ ν) (k : κ) :
    (mapVal f m).lookup k = (m.lookup k).map (f k) := by
  obtain ⟨l, hl⟩ := m
  simp only [mapVal, AList.lookup]
  clear hl
  induction l with
  | nil => rfl
  | cons e l ih =>
      obtain ⟨k', v⟩ := e
      by_cases h : k' = k
      · subst h
        simp
      · simp [List.dlookup_cons_ne, Ne.symm h, ih]

@[simp] theorem lookup_modify (k k' : κ) (f : ν → ν) (m : UnorderedMap κ ν) :
    (modify k f m).lookup k' = if k' = k then (m.lookup k').map f else m.lookup k' := by
  rw [modify, lookup_mapVal]
  by_cases h : k' = k
  · simp [h]
  · simp [h]

theorem modify_modify (k : κ) (f g : ν → ν) (m : UnorderedMap κ ν) :
    modify k g (modify k f m) = modify k (fun v => g (f v)) m := by
  apply AList.ext
  simp only [modify, mapVal, List.map_map]
  congr 1
  funext e
  by_cases h : e.1 = k
  · simp [h]
  · simp [h]

theorem lookup_insert_eq (k k' : κ) (v : ν) (m : UnorderedMap κ ν) :
    (AList.insert k v m).lookup k' = if k' = k then some v else m.lookup k' := by
  by_cases h : k' = k
  · subst h
    simp
  · simp [h, AList.lookup_insert_ne]

theorem lookup_erase_eq (k k' : κ) (m : UnorderedMap κ ν) :
    (AList.erase k m).lookup k' = if k' = k then none else m.lookup k' := by
  by_cases h : k' = k
  · subst h
    simp
  · simp [h, AList.lookup_erase_ne]

/-- A loop that skips every key but one looks only at that key. -/
theorem foldl_entries_of_skip {β : Type} {f : β → (Σ _ : κ, ν) → β} {m : UnorderedMap κ ν} {k : κ}
    (hskip : ∀ b, ∀ e ∈ m.entries, e.1 ≠ k → f b e = b) (b : β) :
    m.entries.foldl f b = match m.lookup k with
      | none => b
      | some v => f b ⟨k, v⟩ := by
  obtain ⟨l, hl⟩ := m
  simp only [AList.lookup] at hskip ⊢
  induction l generalizing b with
  | nil => rfl
  | cons e l ih =>
      obtain ⟨k', v⟩ := e
      rw [List.nodupKeys_cons] at hl
      have hrest := fun b => ih b hl.2 fun b e he => hskip b e (List.mem_cons_of_mem _ he)
      by_cases h : k' = k
      · subst h
        rw [List.foldl_cons, hrest, List.dlookup_cons_eq, List.dlookup_eq_none.mpr hl.1]
      · rw [List.foldl_cons, hskip b _ (List.mem_cons_self ..) h, hrest,
          List.dlookup_cons_ne _ _ (Ne.symm h)]

theorem mem_keys_iff {m : UnorderedMap κ ν} {k : κ} : k ∈ m.keys ↔ ∃ v, m.lookup k = some v := by
  rw [← AList.mem_keys, ← AList.lookup_isSome, Option.isSome_iff_exists]

theorem mem_entries_iff {m : UnorderedMap κ ν} {k : κ} {v : ν} :
    (⟨k, v⟩ : Σ _ : κ, ν) ∈ m.entries ↔ m.lookup k = some v :=
  AList.mem_lookup_iff.symm

/-- Two maps with the same values differ in the order of their entries. -/
theorem perm_of_lookup {m m' : UnorderedMap κ ν} (h : ∀ k, m'.lookup k = m.lookup k) :
    m'.entries.Perm m.entries :=
  List.lookup_ext m'.nodupKeys m.nodupKeys fun k v =>
    iff_of_eq (congrArg (v ∈ ·) (h k))

theorem mapVal_congr {μ : Type} {f g : κ → ν → μ} {m : UnorderedMap κ ν}
    (h : ∀ k v, m.lookup k = some v → f k v = g k v) : mapVal f m = mapVal g m := by
  refine AList.ext (List.map_congr_left fun e he => ?_)
  rw [h e.1 e.2 (mem_entries_iff.mp he)]

theorem mapVal_eq_self {f : κ → ν → ν} {m : UnorderedMap κ ν}
    (h : ∀ k v, m.lookup k = some v → f k v = v) : mapVal f m = m :=
  (mapVal_congr h).trans (AList.ext (List.map_id m.entries))

/-- Entries that are confined to a list of keys are at most as many as these. -/
theorem length_filter_le {m : UnorderedMap κ ν} {p : (Σ _ : κ, ν) → Bool} (keys : List κ)
    (h : ∀ k v, m.lookup k = some v → p ⟨k, v⟩ = true → k ∈ keys) :
    (m.entries.filter p).length ≤ keys.length := by
  have hnodup : ((m.entries.filter p).map Sigma.fst).Nodup :=
    List.Nodup.sublist (List.Sublist.map _ List.filter_sublist) m.nodupKeys
  have hsubset : (m.entries.filter p).map Sigma.fst ⊆ keys := by
    intro k hk
    obtain ⟨⟨k', v⟩, he, rfl⟩ := List.mem_map.mp hk
    obtain ⟨hmem, hp⟩ := List.mem_filter.mp he
    exact h _ v (mem_entries_iff.mp hmem) hp
  simpa using (List.subperm_of_subset hnodup hsubset).length_le

end

@[simp] theorem keys_mapVal {μ : Type} (f : κ → ν → μ) (m : UnorderedMap κ ν) :
    (mapVal f m).keys = m.keys := by
  simp [mapVal, AList.keys, List.keys, Function.comp_def]

theorem mapVal_mapVal {μ ρ : Type} (f : κ → ν → μ) (g : κ → μ → ρ) (m : UnorderedMap κ ν) :
    mapVal g (mapVal f m) = mapVal (fun k v => g k (f k v)) m :=
  AList.ext (by simp [mapVal])

/-! ### Weights -/

/-- The sum of a weight over the entries. -/
def weigh (w : κ → ν → ℕ) (m : UnorderedMap κ ν) : ℕ := (m.entries.map fun e => w e.1 e.2).sum

theorem weigh_reorder (w : κ → ν → ℕ) (ks : List ℕ) (m : UnorderedMap κ ν) :
    weigh w (reorder ks m) = weigh w m :=
  ((arrange_perm ks m.entries).map _).sum_eq

variable [DecidableEq κ]

theorem weigh_modify {w : κ → ν → ℕ} {f : ν → ν} (h : ∀ k v, w k (f v) = w k v) (k : κ)
    (m : UnorderedMap κ ν) : weigh w (modify k f m) = weigh w m := by
  simp only [weigh, modify, mapVal, List.map_map]
  congr 1
  refine List.map_congr_left fun e _ => ?_
  simp only [Function.comp_apply]
  split
  · exact h e.1 e.2
  · rfl

/-- The sum of a value over the entries, when one entry is updated. -/
theorem sum_modify {M : Type*} [AddCommMonoid M] (w : ν → M) (f : ν → ν)
    {m : UnorderedMap κ ν} {k : κ} {v : ν} (h : m.lookup k = some v) :
    ((modify k f m).entries.map fun e => w e.2).sum + w v =
      (m.entries.map fun e => w e.2).sum + w (f v) := by
  obtain ⟨l, hl⟩ := m
  simp only [AList.lookup, modify, mapVal, List.map_map] at h ⊢
  induction l with
  | nil => simp at h
  | cons e l ih =>
      obtain ⟨k', v'⟩ := e
      rw [List.nodupKeys_cons] at hl
      simp only [List.map_cons, List.sum_cons, Function.comp_apply]
      by_cases hk : k' = k
      · subst hk
        obtain rfl : v' = v := by simpa using h
        have hrest : (l.map ((fun e : Σ _ : κ, ν => w e.2) ∘ fun e : Σ _ : κ, ν =>
            (⟨e.1, if e.1 = k' then f e.2 else e.2⟩ : Σ _ : κ, ν))) = l.map fun e => w e.2 := by
          refine List.map_congr_left fun e he => ?_
          have hkeys : e.1 ∈ l.keys := List.mem_keys_of_mem he
          have hne : e.1 ≠ k' := fun heq => hl.1 (heq ▸ hkeys)
          simp [hne]
        rw [if_pos rfl, hrest, add_comm (w (f v')), add_comm (w v'), add_right_comm]
      · rw [List.dlookup_cons_ne _ _ (Ne.symm hk)] at h
        rw [if_neg hk, add_assoc, ih hl.2 h, add_assoc]

theorem sum_insert {M : Type*} [AddCommMonoid M] (w : ν → M) (ks : List ℕ)
    {m : UnorderedMap κ ν} {k : κ} (h : m.lookup k = none) (v : ν) :
    ((reorder ks (AList.insert k v m)).entries.map fun e => w e.2).sum =
      w v + (m.entries.map fun e => w e.2).sum := by
  have hnone : k ∉ m.entries.keys := AList.lookup_eq_none.mp h
  have hperm := (arrange_perm ks (AList.insert k v m).entries).map fun e : Σ _ : κ, ν => w e.2
  rw [reorder, hperm.sum_eq, AList.entries_insert, List.kerase_of_notMem_keys hnone,
    List.map_cons, List.sum_cons]

theorem weigh_insert_le (w : κ → ν → ℕ) (k : κ) (v : ν) (m : UnorderedMap κ ν) :
    weigh w (AList.insert k v m) ≤ w k v + weigh w m := by
  rw [weigh, AList.entries_insert, List.map_cons, List.sum_cons]
  exact Nat.add_le_add_left
    (((List.kerase_sublist k m.entries).map _).sum_le_sum fun _ _ => Nat.zero_le _) _

theorem weigh_erase (w : κ → ν → ℕ) {m : UnorderedMap κ ν} {k : κ} {v : ν}
    (h : m.lookup k = some v) : weigh w (AList.erase k m) + w k v = weigh w m := by
  have hmem : k ∈ m.entries.keys := mem_keys_iff.mpr ⟨v, h⟩
  obtain ⟨v', l₁, l₂, -, hentries, herase⟩ := List.exists_of_kerase hmem
  have hv : v' = v := by
    have hin : (⟨k, v'⟩ : Σ _ : κ, ν) ∈ m.entries := by simp [hentries]
    exact Option.some.inj ((mem_entries_iff.mp hin).symm.trans h)
  have hrest : (AList.erase k m).entries = l₁ ++ l₂ := herase
  subst hv
  simp only [weigh, hrest, hentries, List.map_append, List.map_cons, List.sum_append,
    List.sum_cons]
  omega

end UnorderedMap

end GameServer.Lib
