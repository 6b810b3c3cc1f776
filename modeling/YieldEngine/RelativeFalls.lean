import Mathlib.Algebra.Order.Field.Basic
import Mathlib.Data.List.Pairwise
import Mathlib.Tactic.FieldSimp
import Mathlib.Tactic.Linarith

/-! # Relative falls in a sequence of values

`fall u v` is the part of `u` that is lost on the way to `v`, and `falls values` are those between a
place of the sequence and one that is not before it.  For positive values the fall to a fixed value
is larger from a larger one (`fall_le_fall_of_le`), so that the largest fall to the end of a
sequence is the one from its greatest value (`le_of_mem_falls_concat`).  None is positive exactly
when the sequence does not decrease (`falls_nonpos_iff`). -/

namespace RelativeFalls

variable {K : Type*} [Field K]

def fall (u v : K) : K := (u - v) / u

/-- The falls from a place of the sequence to a place that is not before it. -/
def falls (values : List K) : Set K :=
  {d | ∃ (i j : ℕ) (u v : K), i ≤ j ∧ values[i]? = some u ∧ values[j]? = some v ∧ fall u v = d}

@[simp] theorem fall_self (u : K) : fall u u = 0 := by simp [fall]

theorem zero_mem_falls {values : List K} (hne : values ≠ []) : 0 ∈ falls values := by
  obtain ⟨value, rest, rfl⟩ := List.exists_cons_of_ne_nil hne
  exact ⟨0, 0, value, value, le_rfl, rfl, rfl, fall_self value⟩

omit [Field K] in
theorem getElem?_concat {seen : List K} {i : ℕ} {u : K} (value : K) (h : seen[i]? = some u) :
    (seen ++ [value])[i]? = some u := by
  obtain ⟨hlt, -⟩ := List.getElem?_eq_some_iff.mp h
  rw [List.getElem?_append_left hlt, h]

/-- A fall in a longer sequence is one to its last value, or one in the sequence before. -/
theorem mem_falls_concat {seen : List K} {value d : K} (h : d ∈ falls (seen ++ [value])) :
    d ∈ falls seen ∨ ∃ u ∈ seen ++ [value], fall u value = d := by
  obtain ⟨i, j, u, v, hle, hu, hv, rfl⟩ := h
  obtain hlt | hge := lt_or_ge j seen.length
  · rw [List.getElem?_append_left hlt] at hv
    rw [List.getElem?_append_left (by omega)] at hu
    exact .inl ⟨i, j, u, v, hle, hu, hv, rfl⟩
  · rw [List.getElem?_append_right hge, List.getElem?_singleton] at hv
    split_ifs at hv
    obtain rfl := Option.some.inj hv
    exact .inr ⟨u, List.mem_of_getElem? hu, rfl⟩

section order
variable [LinearOrder K] [IsStrictOrderedRing K] {u u' v v' : K}

theorem fall_nonpos_iff (hu : 0 < u) : fall u v ≤ 0 ↔ u ≤ v := by
  rw [fall, div_le_iff₀ hu, zero_mul, sub_nonpos]

/-- From a larger value the fall to the same value is larger. -/
theorem fall_le_fall_of_le (hu : 0 < u) (hle : u ≤ u') (hv : 0 ≤ v) : fall u v ≤ fall u' v := by
  have hu' : 0 < u' := hu.trans_le hle
  have hscaled := mul_le_mul_of_nonneg_left hle hv
  unfold fall
  rw [div_le_div_iff₀ hu hu']
  linarith

/-- To a larger value the fall is smaller. -/
theorem fall_anti (hu : 0 < u) (hle : v ≤ v') : fall u v' ≤ fall u v := by
  unfold fall
  gcongr

/-- The falls to the last value are at most the one from the greatest value. -/
theorem le_of_mem_falls_concat {seen : List K} {value peak d : K}
    (hpos : ∀ u ∈ seen ++ [value], 0 < u) (hpeak : ∀ u ∈ seen ++ [value], u ≤ peak)
    (h : d ∈ falls (seen ++ [value])) : d ∈ falls seen ∨ d ≤ fall peak value := by
  refine (mem_falls_concat h).imp_right ?_
  rintro ⟨u, hu, rfl⟩
  exact fall_le_fall_of_le (hpos u hu) (hpeak u hu) (hpos value (by simp)).le

theorem falls_nonpos_iff {values : List K} (hpos : ∀ u ∈ values, 0 < u) :
    (∀ d ∈ falls values, d ≤ 0) ↔ values.Pairwise (· ≤ ·) := by
  rw [List.pairwise_iff_getElem]
  constructor
  · intro h i j hi hj hlt
    have hfall := h _ ⟨i, j, values[i], values[j], hlt.le, List.getElem?_eq_getElem hi,
      List.getElem?_eq_getElem hj, rfl⟩
    exact (fall_nonpos_iff (hpos _ (List.getElem_mem hi))).mp hfall
  · rintro h d ⟨i, j, u, v, hle, hu, hv, rfl⟩
    obtain ⟨hi, rfl⟩ := List.getElem?_eq_some_iff.mp hu
    obtain ⟨hj, rfl⟩ := List.getElem?_eq_some_iff.mp hv
    rw [fall_nonpos_iff (hpos _ (List.getElem_mem hi))]
    obtain hlt | rfl := lt_or_eq_of_le hle
    · exact h i j hi hj hlt
    · exact le_rfl

end order

end RelativeFalls
