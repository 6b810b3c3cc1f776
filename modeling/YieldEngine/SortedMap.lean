import Mathlib.Data.List.Sort
import Mathlib.Algebra.Order.BigOperators.Group.List
import Mathlib.Tactic.Ring

/-! # Maps stored as sorted vectors

A `SortedMap κ ν` is a vector of key-value pairs in strictly increasing key order, with the
order carried as a field: a key occurs at most once and iteration visits the keys in
increasing order.  `set` replaces or inserts, `remove` deletes, `get` looks a key up.

The lookup laws (`get_set_self`, `get_set_ne`, `get_of_get_remove`) hold without side
conditions.  `total f m` sums an integer measure over the stored values;
`total_set` says how one write changes it, which is what conservation laws over all stored
values are proved with. -/

variable {κ ν : Type} [LinearOrder κ]

/-- Entry lists in strictly increasing key order. -/
def SortedEntries (l : List (κ × ν)) : Prop := l.Pairwise (fun p q => p.1 < q.1)

/-- A map kept as a vector of entries in increasing key order. -/
structure SortedMap (κ ν : Type) [LinearOrder κ] where
  entries : List (κ × ν)
  sorted : SortedEntries entries

namespace SortedMap

/-! ### Entry lists -/

def insertEntry (k : κ) (v : ν) : List (κ × ν) → List (κ × ν)
  | [] => [(k, v)]
  | (k', v') :: l =>
      if k < k' then (k, v) :: (k', v') :: l
      else if k = k' then (k, v) :: l
      else (k', v') :: insertEntry k v l

def findEntry (k : κ) : List (κ × ν) → Option ν
  | [] => none
  | (k', v') :: l => if k = k' then some v' else findEntry k l

theorem mem_insertEntry {k : κ} {v : ν} {p : κ × ν} :
    ∀ {l : List (κ × ν)}, p ∈ insertEntry k v l → p = (k, v) ∨ p ∈ l
  | [], h => by simpa [insertEntry] using h
  | (k', v') :: l, h => by
      unfold insertEntry at h
      split_ifs at h with h1 h2
      · rcases List.mem_cons.mp h with h | h
        · exact .inl h
        · exact .inr h
      · rcases List.mem_cons.mp h with h | h
        · exact .inl h
        · exact .inr (List.mem_cons_of_mem _ h)
      · rcases List.mem_cons.mp h with h | h
        · exact .inr (by simp [h])
        · exact (mem_insertEntry h).imp_right (List.mem_cons_of_mem _)

theorem sorted_insertEntry (k : κ) (v : ν) :
    ∀ {l : List (κ × ν)}, SortedEntries l → SortedEntries (insertEntry k v l)
  | [], _ => by simp [insertEntry, SortedEntries]
  | (k', v') :: l, h => by
      obtain ⟨hhead, htail⟩ := List.pairwise_cons.mp h
      unfold insertEntry
      split_ifs with h1 h2
      · refine List.pairwise_cons.mpr ⟨fun p hp => ?_, h⟩
        rcases List.mem_cons.mp hp with rfl | hp
        · exact h1
        · exact h1.trans (hhead p hp)
      · subst h2
        exact List.pairwise_cons.mpr ⟨hhead, htail⟩
      · refine List.pairwise_cons.mpr ⟨fun p hp => ?_, sorted_insertEntry k v htail⟩
        rcases mem_insertEntry hp with rfl | hp
        · exact lt_of_le_of_ne (not_lt.mp h1) (fun e => h2 e.symm)
        · exact hhead p hp

theorem findEntry_insertEntry_self (k : κ) (v : ν) :
    ∀ l : List (κ × ν), findEntry k (insertEntry k v l) = some v
  | [] => by simp [insertEntry, findEntry]
  | (k', v') :: l => by
      unfold insertEntry
      split_ifs with h1 h2
      · simp [findEntry]
      · simp [findEntry]
      · simp [findEntry, h2, findEntry_insertEntry_self k v l]

theorem findEntry_insertEntry_ne {k j : κ} (v : ν) (h : j ≠ k) :
    ∀ l : List (κ × ν), findEntry j (insertEntry k v l) = findEntry j l
  | [] => by simp [insertEntry, findEntry, h]
  | (k', v') :: l => by
      unfold insertEntry
      split_ifs with h1 h2
      · simp [findEntry, h]
      · subst h2
        simp [findEntry, h]
      · simp [findEntry, findEntry_insertEntry_ne v h l]

theorem mem_of_findEntry {k : κ} {v : ν} :
    ∀ {l : List (κ × ν)}, findEntry k l = some v → (k, v) ∈ l
  | [], h => by simp [findEntry] at h
  | (k', v') :: l, h => by
      unfold findEntry at h
      split_ifs at h with hk
      · simp only [Option.some.injEq] at h
        simp [hk, h]
      · exact List.mem_cons_of_mem _ (mem_of_findEntry h)

theorem findEntry_of_mem {k : κ} {v : ν} :
    ∀ {l : List (κ × ν)}, SortedEntries l → (k, v) ∈ l → findEntry k l = some v
  | [], _, h => by simp at h
  | (k', v') :: l, hs, h => by
      obtain ⟨hhead, htail⟩ := List.pairwise_cons.mp hs
      unfold findEntry
      rcases List.mem_cons.mp h with h | h
      · obtain ⟨rfl, rfl⟩ := Prod.mk.inj h
        simp
      · have hlt : k' < k := hhead (k, v) h
        rw [if_neg (ne_of_gt hlt)]
        exact findEntry_of_mem htail h

/-! ### Maps -/

def empty : SortedMap κ ν := ⟨[], List.Pairwise.nil⟩

def get (m : SortedMap κ ν) (k : κ) : Option ν := findEntry k m.entries

def set (m : SortedMap κ ν) (k : κ) (v : ν) : SortedMap κ ν :=
  ⟨insertEntry k v m.entries, sorted_insertEntry k v m.sorted⟩

def remove (m : SortedMap κ ν) (k : κ) : SortedMap κ ν :=
  ⟨m.entries.filter (fun p => p.1 ≠ k), m.sorted.filter _⟩

def contains (m : SortedMap κ ν) (k : κ) : Bool := (m.get k).isSome

/-- The stored values in key order. -/
def values (m : SortedMap κ ν) : List ν := m.entries.map Prod.snd

@[simp] theorem get_empty (k : κ) : (empty : SortedMap κ ν).get k = none := rfl

@[simp] theorem get_set_self (m : SortedMap κ ν) (k : κ) (v : ν) : (m.set k v).get k = some v :=
  findEntry_insertEntry_self k v m.entries

theorem get_set_ne (m : SortedMap κ ν) {k j : κ} (v : ν) (h : j ≠ k) :
    (m.set k v).get j = m.get j := findEntry_insertEntry_ne v h m.entries

theorem get_set (m : SortedMap κ ν) (k j : κ) (v : ν) :
    (m.set k v).get j = if j = k then some v else m.get j := by
  split_ifs with h
  · rw [h, get_set_self]
  · exact get_set_ne m v h

/-- A key is bound to `v` exactly when the entry is stored. -/
theorem get_eq_some_iff (m : SortedMap κ ν) (k : κ) (v : ν) :
    m.get k = some v ↔ (k, v) ∈ m.entries :=
  ⟨mem_of_findEntry, findEntry_of_mem m.sorted⟩

theorem insertEntry_of_findEntry {k : κ} {v : ν} :
    ∀ {l : List (κ × ν)}, SortedEntries l → findEntry k l = some v → insertEntry k v l = l
  | [], _, h => by simp [findEntry] at h
  | (k', v') :: l, hs, h => by
      obtain ⟨hhead, htail⟩ := List.pairwise_cons.mp hs
      unfold findEntry at h
      split_ifs at h with hk
      · obtain rfl := Option.some.inj h
        simp [insertEntry, hk]
      · have hlt : k' < k := hhead (k, v) (mem_of_findEntry h)
        rw [insertEntry, if_neg (not_lt.mpr hlt.le), if_neg hk, insertEntry_of_findEntry htail h]

/-- Writing a value leaves a map as it is exactly when the key is bound to it already. -/
theorem set_eq_self_iff (m : SortedMap κ ν) (k : κ) (v : ν) : m.set k v = m ↔ m.get k = some v := by
  constructor
  · intro h
    rw [← h, get_set_self]
  · intro h
    cases m with
    | mk l hl =>
        simp only [set, SortedMap.mk.injEq]
        exact insertEntry_of_findEntry hl h

theorem findEntry_filter_ne {k j : κ} (h : j ≠ k) :
    ∀ l : List (κ × ν), findEntry j (l.filter (fun p => p.1 ≠ k)) = findEntry j l
  | [] => rfl
  | (k', v') :: l => by
      have ih := findEntry_filter_ne h l
      by_cases hk : k' = k
      · subst hk
        simpa [findEntry, h] using ih
      · simp only [ne_eq, hk, not_false_eq_true, decide_true, List.filter_cons_of_pos, findEntry]
        rw [← ih]

@[simp] theorem get_remove_self (m : SortedMap κ ν) (k : κ) : (m.remove k).get k = none := by
  cases h : (m.remove k).get k with
  | none => rfl
  | some v =>
      have hmem := ((m.remove k).get_eq_some_iff k v).mp h
      simp [remove] at hmem

theorem get_remove_ne (m : SortedMap κ ν) {k j : κ} (h : j ≠ k) :
    (m.remove k).get j = m.get j := findEntry_filter_ne h m.entries

/-- Removing a bound key changes the map. -/
theorem remove_ne_self {m : SortedMap κ ν} {k : κ} {v : ν} (h : m.get k = some v) :
    m.remove k ≠ m := by
  intro heq
  have hnone := m.get_remove_self k
  rw [heq, h] at hnone
  cases hnone

/-- What is bound after a removal was bound before it. -/
theorem get_of_get_remove {m : SortedMap κ ν} {k j : κ} {v : ν}
    (h : (m.remove k).get j = some v) : m.get j = some v := by
  have hmem := ((m.remove k).get_eq_some_iff j v).mp h
  exact (m.get_eq_some_iff j v).mpr (List.mem_of_mem_filter hmem)

/-! ### Sums over the stored values -/

/-- The sum of `f` over the stored values. -/
def total (f : ν → ℤ) (m : SortedMap κ ν) : ℤ := (m.entries.map (fun p => f p.2)).sum

@[simp] theorem total_empty (f : ν → ℤ) : total f (empty : SortedMap κ ν) = 0 := rfl

theorem findEntry_eq_none_of_lt {k : κ} :
    ∀ {l : List (κ × ν)}, (∀ p ∈ l, k < p.1) → findEntry k l = none
  | [], _ => rfl
  | (k', v') :: l, h => by
      have hlt : k < k' := h (k', v') (by simp)
      rw [findEntry, if_neg (ne_of_lt hlt)]
      exact findEntry_eq_none_of_lt (fun p hp => h p (List.mem_cons_of_mem _ hp))

theorem sum_insertEntry (f : ν → ℤ) (k : κ) (v : ν) :
    ∀ {l : List (κ × ν)}, SortedEntries l →
      ((insertEntry k v l).map (fun p => f p.2)).sum =
        (l.map (fun p => f p.2)).sum - ((findEntry k l).map f).getD 0 + f v
  | [], _ => by simp [insertEntry, findEntry]
  | (k', v') :: l, h => by
      obtain ⟨hhead, htail⟩ := List.pairwise_cons.mp h
      unfold insertEntry findEntry
      split_ifs with h1 h2 h3
      · exact absurd h2 (ne_of_lt h1)
      · have hnone : findEntry k l = none :=
          findEntry_eq_none_of_lt (fun p hp => h1.trans (hhead p hp))
        simp only [List.map_cons, List.sum_cons, hnone, Option.map_none, Option.getD_none]
        ring
      · simp only [List.map_cons, List.sum_cons, Option.map_some, Option.getD_some]
        ring
      · simp only [List.map_cons, List.sum_cons, sum_insertEntry f k v htail]
        ring

/-- One write changes the sum by the new value less the value it replaces. -/
theorem total_set (f : ν → ℤ) (m : SortedMap κ ν) (k : κ) (v : ν) :
    total f (m.set k v) = total f m - ((m.get k).map f).getD 0 + f v :=
  sum_insertEntry f k v m.sorted

theorem total_eq_zero (f : ν → ℤ) (m : SortedMap κ ν) (hf : ∀ k v, m.get k = some v → f v = 0) :
    total f m = 0 := by
  refine List.sum_eq_zero ?_
  intro x hx
  obtain ⟨p, hp, rfl⟩ := List.mem_map.mp hx
  exact hf p.1 p.2 ((m.get_eq_some_iff p.1 p.2).mpr hp)

theorem total_nonneg (f : ν → ℤ) (m : SortedMap κ ν) (hf : ∀ k v, m.get k = some v → 0 ≤ f v) :
    0 ≤ total f m := by
  refine List.sum_nonneg ?_
  intro x hx
  obtain ⟨p, hp, rfl⟩ := List.mem_map.mp hx
  exact hf p.1 p.2 ((m.get_eq_some_iff p.1 p.2).mpr hp)

/-- A stored value contributes at most the sum, when no value contributes negatively. -/
theorem le_total (f : ν → ℤ) (m : SortedMap κ ν) (hf : ∀ k v, m.get k = some v → 0 ≤ f v)
    {k : κ} {v : ν} (h : m.get k = some v) : f v ≤ total f m := by
  have hmem := (m.get_eq_some_iff k v).mp h
  refine List.single_le_sum ?_ (f v) (List.mem_map.mpr ⟨(k, v), hmem, rfl⟩)
  intro x hx
  obtain ⟨p, hp, rfl⟩ := List.mem_map.mp hx
  exact hf p.1 p.2 ((m.get_eq_some_iff p.1 p.2).mpr hp)

end SortedMap
