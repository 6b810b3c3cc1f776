import YieldEngine.SortedMap
import Mathlib.Data.List.Induction

/-! # Totals by key

A loop over keyed amounts fills a map.  When it adds each amount to what the map holds under
its key, the map *tallies* the amounts (`Tallies`): its keys are the keys that occurred, each
bound to the sum of its amounts.  `Tallies.add` is one round of such a loop.

A loop that writes instead of adding (`overwrite`) keeps the last amount of each key.  With
positive amounts it tallies them exactly when no key occurs twice (`overwrite_tallies_iff`). -/

namespace SortedMap

variable {κ : Type} [LinearOrder κ]

/-- The sum of the amounts under one key. -/
def sumAt (k : κ) (amounts : List (κ × ℤ)) : ℤ :=
  (amounts.map fun p => if p.1 = k then p.2 else 0).sum

/-- The map holds the keys of the amounts, each with the sum of its amounts. -/
def Tallies (m : SortedMap κ ℤ) (amounts : List (κ × ℤ)) : Prop :=
  ∀ k, m.get k = if k ∈ amounts.map Prod.fst then some (sumAt k amounts) else none

/-- A loop that writes each amount under its key. -/
def overwrite (amounts : List (κ × ℤ)) : SortedMap κ ℤ :=
  amounts.foldl (fun m p => m.set p.1 p.2) empty

section sums
variable {k : κ} {amounts : List (κ × ℤ)}

theorem sumAt_append (k : κ) (amounts more : List (κ × ℤ)) :
    sumAt k (amounts ++ more) = sumAt k amounts + sumAt k more := by
  simp [sumAt]

theorem sumAt_singleton (k j : κ) (x : ℤ) : sumAt k [(j, x)] = if j = k then x else 0 := by
  simp [sumAt]

/-- A key that does not occur has no amounts. -/
theorem sumAt_of_not_mem (h : k ∉ amounts.map Prod.fst) : sumAt k amounts = 0 := by
  apply List.sum_eq_zero
  intro x hx
  obtain ⟨p, hp, rfl⟩ := List.mem_map.mp hx
  exact if_neg fun hk => h (List.mem_map.mpr ⟨p, hp, hk⟩)

/-- Positive amounts under a key that occurs have a positive sum. -/
theorem sumAt_pos (hpos : ∀ p ∈ amounts, 0 < p.2) (h : k ∈ amounts.map Prod.fst) :
    0 < sumAt k amounts := by
  obtain ⟨p, hp, rfl⟩ := List.mem_map.mp h
  have hnonneg : ∀ x ∈ amounts.map fun q => if q.1 = p.1 then q.2 else 0, 0 ≤ x := by
    intro x hx
    obtain ⟨q, hq, rfl⟩ := List.mem_map.mp hx
    split_ifs
    · exact (hpos q hq).le
    · exact le_rfl
  have hle := List.single_le_sum hnonneg p.2 (List.mem_map.mpr ⟨p, hp, if_pos rfl⟩)
  exact (hpos p hp).trans_le hle

end sums

/-! ### Adding -/

theorem tallies_empty : Tallies (empty : SortedMap κ ℤ) [] := fun _ => rfl

/-- The empty map tallies nothing but the empty list. -/
theorem tallies_empty_iff {amounts : List (κ × ℤ)} :
    Tallies (empty : SortedMap κ ℤ) amounts ↔ amounts = [] := by
  constructor
  · intro h
    rw [← List.map_eq_nil_iff (f := Prod.fst), List.eq_nil_iff_forall_not_mem]
    intro k hk
    have hkey := h k
    rw [if_pos hk, get_empty] at hkey
    cases hkey
  · rintro rfl
    exact tallies_empty

section rounds
variable {m : SortedMap κ ℤ} {amounts : List (κ × ℤ)}

/-- What a tally holds under a key, or zero. -/
theorem Tallies.getD (h : Tallies m amounts) (k : κ) : (m.get k).getD 0 = sumAt k amounts := by
  rw [h k]
  split_ifs with hk
  · rfl
  · exact (sumAt_of_not_mem hk).symm

/-- A tally is empty exactly when there is nothing to tally. -/
theorem Tallies.entries_eq_nil_iff (h : Tallies m amounts) : m.entries = [] ↔ amounts = [] := by
  constructor
  · intro hm
    rw [← List.map_eq_nil_iff (f := Prod.fst), List.eq_nil_iff_forall_not_mem]
    intro k hk
    have hget := h k
    rw [if_pos hk, get_eq_some_iff, hm] at hget
    cases hget
  · rintro rfl
    rw [List.eq_nil_iff_forall_not_mem]
    rintro ⟨k, v⟩ hmem
    have hget := h k
    rw [(m.get_eq_some_iff k v).mpr hmem] at hget
    cases hget

/-- One write of the sum with one more amount. -/
theorem Tallies.set_sum (h : Tallies m amounts) {k : κ} {x y : ℤ}
    (hy : y = sumAt k amounts + x) : Tallies (m.set k y) (amounts ++ [(k, x)]) := by
  intro j
  rw [get_set, sumAt_append, sumAt_singleton, List.map_append]
  by_cases hjk : j = k
  · subst hjk
    rw [if_pos rfl, if_pos rfl, if_pos (by simp), hy]
  · rw [if_neg hjk, if_neg (Ne.symm hjk), add_zero, h j]
    simp only [List.map_cons, List.map_nil, List.mem_append, List.mem_singleton, hjk, or_false]

/-- One round of a loop that adds. -/
theorem Tallies.add (h : Tallies m amounts) (k : κ) (x : ℤ) :
    Tallies (m.set k ((m.get k).getD 0 + x)) (amounts ++ [(k, x)]) := by
  apply h.set_sum
  rw [h.getD k]

end rounds

/-! ### Overwriting -/

theorem overwrite_concat (amounts : List (κ × ℤ)) (p : κ × ℤ) :
    overwrite (amounts ++ [p]) = (overwrite amounts).set p.1 p.2 := by
  rw [overwrite, List.foldl_append]
  rfl

theorem nodup_keys_concat {ι : Type} {amounts : List (ι × ℤ)} {p : ι × ℤ}
    (h : ((amounts ++ [p]).map Prod.fst).Nodup) :
    (amounts.map Prod.fst).Nodup ∧ p.1 ∉ amounts.map Prod.fst := by
  rw [List.map_append, List.map_singleton, List.nodup_append] at h
  obtain ⟨hnodup, -, hnew⟩ := h
  exact ⟨hnodup, fun hmem => hnew p.1 hmem p.1 (List.mem_singleton_self _) rfl⟩

/-- Without repeated keys there is nothing to add. -/
theorem overwrite_tallies {amounts : List (κ × ℤ)} (h : (amounts.map Prod.fst).Nodup) :
    Tallies (overwrite amounts) amounts := by
  induction amounts using List.reverseRecOn with
  | nil => exact tallies_empty
  | append_singleton amounts p ih =>
      obtain ⟨hnodup, hk⟩ := nodup_keys_concat h
      rw [overwrite_concat]
      apply (ih hnodup).set_sum
      rw [sumAt_of_not_mem hk, zero_add]

/-- The sum of all entries, when no key was written twice. -/
theorem total_overwrite {amounts : List (κ × ℤ)} (h : (amounts.map Prod.fst).Nodup) :
    total id (overwrite amounts) = (amounts.map Prod.snd).sum := by
  induction amounts using List.reverseRecOn with
  | nil => rfl
  | append_singleton amounts p ih =>
      obtain ⟨hnodup, hk⟩ := nodup_keys_concat h
      have hnone : (overwrite amounts).get p.1 = none := by
        rw [overwrite_tallies hnodup p.1, if_neg hk]
      rw [overwrite_concat, total_set, hnone, ih hnodup]
      simp

/-- An overwritten key is bound to at most the sum of its positive amounts, and to less once
the key has occurred before. -/
theorem get_overwrite_lt {amounts : List (κ × ℤ)} (hpos : ∀ p ∈ amounts, 0 < p.2) {k : κ} {y : ℤ}
    (hy : (overwrite amounts).get k = some y) :
    y ≤ sumAt k amounts ∧ (1 < (amounts.map Prod.fst).count k → y < sumAt k amounts) := by
  induction amounts using List.reverseRecOn with
  | nil => cases hy
  | append_singleton amounts p ih =>
      have hold : ∀ q ∈ amounts, 0 < q.2 := fun q hq => hpos q (List.mem_append_left _ hq)
      obtain ⟨j, x⟩ := p
      rw [overwrite_concat, get_set] at hy
      rw [sumAt_append, sumAt_singleton, List.map_append, List.count_append]
      split_ifs at hy with hkj
      · subst hkj
        obtain rfl := Option.some.inj hy
        rw [if_pos rfl]
        by_cases hk : k ∈ amounts.map Prod.fst
        · have hsum := sumAt_pos hold hk
          omega
        · rw [sumAt_of_not_mem hk, List.count_eq_zero_of_not_mem hk]
          simp
      · obtain ⟨hle, hlt⟩ := ih hold hy
        simpa [Ne.symm hkj] using ⟨hle, hlt⟩

/-- A loop that overwrites positive amounts tallies them exactly when no key occurs twice. -/
theorem overwrite_tallies_iff {amounts : List (κ × ℤ)} (hpos : ∀ p ∈ amounts, 0 < p.2) :
    Tallies (overwrite amounts) amounts ↔ (amounts.map Prod.fst).Nodup := by
  refine ⟨fun h => ?_, overwrite_tallies⟩
  rw [List.nodup_iff_count_le_one]
  intro k
  by_contra hcount
  have hk : k ∈ amounts.map Prod.fst := List.count_pos_iff.mp (by omega)
  have hget := h k
  rw [if_pos hk] at hget
  exact absurd ((get_overwrite_lt hpos hget).2 (by omega)) (lt_irrefl _)

end SortedMap
