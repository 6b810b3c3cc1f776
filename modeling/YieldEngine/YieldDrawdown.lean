import YieldEngine.RelativeFalls
import Mathlib.Data.Rat.Defs
import Mathlib.Algebra.Order.Field.Rat

/-! # Maximum drawdown

`calculateMaxDrawdown` goes through the values once.  It keeps the greatest value so far and the
lowest one after it, and computes a drawdown only where the lowest value falls.  The places it
passes over cannot hold a larger one (`passValue_tracks`), so `calculateMaxDrawdown_isGreatest`:
the result is the largest fall from a value to a later one, in percent.

Numbers are rationals. -/

namespace YieldEngine.YieldCalculator

open RelativeFalls

structure TimeInterval where
  start : ℕ
  «end» : ℕ
deriving DecidableEq, Repr

structure MaxDrawdown where
  maxDrawdown : ℚ
  maxDrawdownPeriod : TimeInterval
deriving DecidableEq, Repr

/-- The variables of the pass. -/
structure DrawdownPass where
  maxDrawdown : ℚ
  peak : ℚ
  trough : ℚ
  maxDrawdownStart : ℕ
  maxDrawdownEnd : ℕ

/-- The value at the place `i`. -/
def passValue (s : DrawdownPass) (i : ℕ) (value : ℚ) : DrawdownPass :=
  if s.peak < value then { s with peak := value, trough := value }
  else if value < s.trough then
    let drawdown := (s.peak - value) / s.peak
    if s.maxDrawdown < drawdown then
      { s with trough := value, maxDrawdown := drawdown, maxDrawdownStart := i - 1,
               maxDrawdownEnd := i }
    else { s with trough := value }
  else s

/-- The values from the place `i` on. -/
def passValues (s : DrawdownPass) (i : ℕ) : List ℚ → DrawdownPass
  | [] => s
  | value :: rest => passValues (passValue s i value) (i + 1) rest

def calculateMaxDrawdown : List ℚ → MaxDrawdown
  | [] => ⟨0, ⟨0, 0⟩⟩
  | first :: rest =>
      let s := passValues ⟨0, first, first, 0, 0⟩ 1 rest
      ⟨s.maxDrawdown * 100, ⟨s.maxDrawdownStart, s.maxDrawdownEnd⟩⟩

/-- What the pass knows of the values it has seen: the largest fall, which ends at
`maxDrawdownEnd`, and a bound on the fall from the peak to the trough. -/
structure Tracks (seen : List ℚ) (s : DrawdownPass) : Prop where
  positive : ∀ value ∈ seen, 0 < value
  peak : IsGreatest {value | value ∈ seen} s.peak
  attained : ∃ i u v, i ≤ s.maxDrawdownEnd ∧ seen[i]? = some u ∧
    seen[s.maxDrawdownEnd]? = some v ∧ fall u v = s.maxDrawdown
  largest : ∀ d ∈ falls seen, d ≤ s.maxDrawdown
  current : fall s.peak s.trough ≤ s.maxDrawdown

section pass
variable {seen : List ℚ} {s : DrawdownPass} {value : ℚ}

theorem Tracks.start (hpos : 0 < value) : Tracks [value] ⟨0, value, value, 0, 0⟩ where
  positive := by simpa using hpos
  peak := by simp [IsGreatest, upperBounds]
  attained := ⟨0, value, value, le_rfl, rfl, rfl, fall_self value⟩
  largest := by
    intro d hd
    obtain ⟨i, j, u, v, hle, hu, hv, rfl⟩ := hd
    obtain rfl := List.mem_singleton.mp (List.mem_of_getElem? hu)
    obtain rfl := List.mem_singleton.mp (List.mem_of_getElem? hv)
    exact (fall_self _).le
  current := (fall_self value).le

theorem Tracks.max_nonneg (h : Tracks seen s) : 0 ≤ s.maxDrawdown :=
  h.largest 0 (zero_mem_falls (List.ne_nil_of_mem h.peak.1))

/-- A peak for the longer sequence bounds its falls. -/
theorem Tracks.largest_concat (h : Tracks seen s) (hpos : 0 < value) {peak bound : ℚ}
    (hpeak : ∀ u ∈ seen ++ [value], u ≤ peak) (hbound : s.maxDrawdown ≤ bound)
    (hfall : fall peak value ≤ bound) : ∀ d ∈ falls (seen ++ [value]), d ≤ bound := by
  intro d hd
  have hall : ∀ u ∈ seen ++ [value], 0 < u := by
    simpa [or_imp, forall_and, hpos] using h.positive
  obtain hseen | hle := le_of_mem_falls_concat hall hpeak hd
  · exact (h.largest d hseen).trans hbound
  · exact hle.trans hfall

/-- The fall that is the largest so far is one of the longer sequence. -/
theorem Tracks.attained_concat (h : Tracks seen s) (value : ℚ) :
    ∃ i u v, i ≤ s.maxDrawdownEnd ∧ (seen ++ [value])[i]? = some u ∧
      (seen ++ [value])[s.maxDrawdownEnd]? = some v ∧ fall u v = s.maxDrawdown := by
  obtain ⟨i, u, v, hle, hu, hv, hfall⟩ := h.attained
  exact ⟨i, u, v, hle, getElem?_concat value hu, getElem?_concat value hv, hfall⟩

/-- A value keeps what the pass knows. -/
theorem passValue_tracks (h : Tracks seen s) (hpos : 0 < value) :
    Tracks (seen ++ [value]) (passValue s seen.length value) := by
  have hall : ∀ u ∈ seen ++ [value], 0 < u := by
    simpa [or_imp, forall_and, hpos] using h.positive
  unfold passValue
  dsimp only
  split_ifs with hpeak htrough hlarger
  · have hgreatest : IsGreatest {u | u ∈ seen ++ [value]} value := by
      refine ⟨by simp, fun u hu => ?_⟩
      obtain hseen | hlast := List.mem_append.mp hu
      · exact (h.peak.2 hseen).trans hpeak.le
      · exact (List.mem_singleton.mp hlast).le
    have hself : fall value value ≤ s.maxDrawdown := (fall_self value).trans_le h.max_nonneg
    exact ⟨hall, hgreatest, h.attained_concat value,
      h.largest_concat hpos (fun u hu => hgreatest.2 hu) le_rfl hself, hself⟩
  all_goals
    -- the peak stays
    have hgreatest : IsGreatest {u | u ∈ seen ++ [value]} s.peak := by
      refine ⟨List.mem_append_left _ h.peak.1, fun u hu => ?_⟩
      obtain hseen | hlast := List.mem_append.mp hu
      · exact h.peak.2 hseen
      · exact (List.mem_singleton.mp hlast).trans_le (not_lt.mp hpeak)
    have hbelow : ∀ u ∈ seen ++ [value], u ≤ s.peak := fun u hu => hgreatest.2 hu
  · obtain ⟨i, hi⟩ := List.mem_iff_getElem?.mp h.peak.1
    have hplace := (List.getElem?_eq_some_iff.mp hi).1
    exact ⟨hall, hgreatest,
      ⟨i, s.peak, value, hplace.le, getElem?_concat value hi, List.getElem?_concat_length, rfl⟩,
      h.largest_concat hpos hbelow hlarger.le le_rfl, le_rfl⟩
  · have hfall : fall s.peak value ≤ s.maxDrawdown := not_lt.mp hlarger
    exact ⟨hall, hgreatest, h.attained_concat value, h.largest_concat hpos hbelow le_rfl hfall,
      hfall⟩
  · have hfall : fall s.peak value ≤ s.maxDrawdown :=
      (fall_anti (h.positive _ h.peak.1) (not_lt.mp htrough)).trans h.current
    exact ⟨hall, hgreatest, h.attained_concat value, h.largest_concat hpos hbelow le_rfl hfall,
      h.current⟩

theorem passValues_tracks : ∀ {rest seen : List ℚ} {s : DrawdownPass}, Tracks seen s →
    (∀ value ∈ rest, 0 < value) → Tracks (seen ++ rest) (passValues s seen.length rest) := by
  intro rest
  induction rest with
  | nil =>
      intro seen s h _
      rwa [List.append_nil]
  | cons value rest ih =>
      intro seen s h hpos
      obtain ⟨hvalue, hrest⟩ := List.forall_mem_cons.mp hpos
      have hstep := ih (passValue_tracks h hvalue) hrest
      rwa [List.append_assoc, List.length_append] at hstep

end pass

/-- The fall that the result is ends at the end of its period. -/
theorem calculateMaxDrawdown_tracks {values : List ℚ} (hne : values ≠ [])
    (hpos : ∀ value ∈ values, 0 < value) : ∃ s, Tracks values s ∧
      calculateMaxDrawdown values =
        ⟨s.maxDrawdown * 100, ⟨s.maxDrawdownStart, s.maxDrawdownEnd⟩⟩ := by
  obtain ⟨first, rest, rfl⟩ := List.exists_cons_of_ne_nil hne
  obtain ⟨hfirst, hrest⟩ := List.forall_mem_cons.mp hpos
  exact ⟨_, passValues_tracks (Tracks.start hfirst) hrest, rfl⟩

/-- The result is the largest fall from a value to one that is not before it, in percent, and there
is none exactly when the values do not decrease. -/
theorem calculateMaxDrawdown_isGreatest {values : List ℚ} (hne : values ≠ [])
    (hpos : ∀ value ∈ values, 0 < value) :
    IsGreatest {d : ℚ | ∃ (i j : ℕ) (u v : ℚ), i ≤ j ∧ values[i]? = some u ∧
      values[j]? = some v ∧ d = 100 * ((u - v) / u)} (calculateMaxDrawdown values).maxDrawdown ∧
    ((calculateMaxDrawdown values).maxDrawdown = 0 ↔ values.Pairwise (· ≤ ·)) := by
  obtain ⟨s, h, hresult⟩ := calculateMaxDrawdown_tracks hne hpos
  rw [hresult]
  dsimp only
  refine ⟨⟨?_, ?_⟩, ?_⟩
  · obtain ⟨i, u, v, hle, hu, hv, hfall⟩ := h.attained
    exact ⟨i, _, u, v, hle, hu, hv, by rw [← hfall, fall, mul_comm]⟩
  · rintro d ⟨i, j, u, v, hle, hu, hv, rfl⟩
    have hfall := h.largest _ ⟨i, j, u, v, hle, hu, hv, rfl⟩
    rw [fall] at hfall
    linarith
  · rw [mul_eq_zero_iff_right (by norm_num), ← falls_nonpos_iff hpos]
    constructor
    · intro hzero d hd
      exact (h.largest d hd).trans_eq hzero
    · intro hnone
      obtain ⟨i, u, v, hle, hu, hv, hfall⟩ := h.attained
      exact le_antisymm (hnone _ ⟨i, _, u, v, hle, hu, hv, hfall⟩) h.max_nonneg

/-- A fall, a rise that stays below the peak, and a deeper fall. -/
theorem calculateMaxDrawdown_isGreatest_deeper :
    (calculateMaxDrawdown [100, 80, 90, 70]).maxDrawdown = 30 ∧
      (30 : ℚ) ∈ {d : ℚ | ∃ (i j : ℕ) (u v : ℚ), i ≤ j ∧ [100, 80, 90, 70][i]? = some u ∧
        [100, 80, 90, 70][j]? = some v ∧ d = 100 * ((u - v) / u)} := by
  have hvalue : (calculateMaxDrawdown [100, 80, 90, 70]).maxDrawdown = 30 := by decide +kernel
  have hpos : ∀ value ∈ [(100 : ℚ), 80, 90, 70], 0 < value := by decide +kernel
  exact ⟨hvalue, hvalue ▸ (calculateMaxDrawdown_isGreatest (by simp) hpos).1.1⟩

end YieldEngine.YieldCalculator
