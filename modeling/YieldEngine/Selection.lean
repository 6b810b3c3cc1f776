import Mathlib.Data.List.Sort

/-! # Selecting and ranking

`Selects R xs ys` says that `ys` holds, in order, one partner under `R` for each of `xs` that has
one; a loop that appends the partners it finds selects them (`selects_foldl`).  `RankedBy key ys zs`
says that `zs` holds the same values by falling key, as sorting by a comparator of the keys leaves
them (`rankedBy_sortBy`). -/

namespace Selection

variable {α β κ : Type*}

inductive Selects (R : α → β → Prop) : List α → List β → Prop where
  | nil : Selects R [] []
  | take {x : α} {y : β} {xs : List α} {ys : List β} :
      R x y → Selects R xs ys → Selects R (x :: xs) (y :: ys)
  | skip {x : α} {xs : List α} {ys : List β} :
      (∀ y, ¬ R x y) → Selects R xs ys → Selects R (x :: xs) ys

/-- What was selected is the partner of something. -/
theorem Selects.exists_of_mem {R : α → β → Prop} {xs : List α} {ys : List β}
    (h : Selects R xs ys) {y : β} (hy : y ∈ ys) : ∃ x ∈ xs, R x y := by
  induction h with
  | nil => cases hy
  | @take x _ xs _ hR _ ih =>
      obtain rfl | hy := List.mem_cons.mp hy
      · exact ⟨x, List.mem_cons_self, hR⟩
      · obtain ⟨x', hx', hR'⟩ := ih hy
        exact ⟨x', List.mem_cons_of_mem x hx', hR'⟩
  | @skip x _ _ _ _ ih =>
      obtain ⟨x', hx', hR'⟩ := ih hy
      exact ⟨x', List.mem_cons_of_mem x hx', hR'⟩

/-- A loop that appends the partner of every value that has one appends a selection. -/
theorem selects_foldl {R : α → β → Prop} {step : List β → α → List β}
    (htake : ∀ ys x y, R x y → step ys x = ys ++ [y])
    (hskip : ∀ ys x, (∀ y, ¬ R x y) → step ys x = ys) (xs : List α) (ys : List β) :
    ∃ zs, Selects R xs zs ∧ xs.foldl step ys = ys ++ zs := by
  induction xs generalizing ys with
  | nil => exact ⟨[], .nil, (List.append_nil ys).symm⟩
  | cons x xs ih =>
      by_cases hx : ∃ y, R x y
      · obtain ⟨y, hy⟩ := hx
        obtain ⟨zs, hzs, hfold⟩ := ih (ys ++ [y])
        refine ⟨y :: zs, .take hy hzs, ?_⟩
        rw [List.foldl_cons, htake ys x y hy, hfold, List.append_assoc, List.singleton_append]
      · have hnone : ∀ y, ¬ R x y := not_exists.mp hx
        obtain ⟨zs, hzs, hfold⟩ := ih ys
        refine ⟨zs, .skip hnone hzs, ?_⟩
        rw [List.foldl_cons, hskip ys x hnone, hfold]

section ranking
variable [LinearOrder κ]

structure RankedBy (key : α → κ) (ys zs : List α) : Prop where
  perm : zs.Perm ys
  falling : zs.Pairwise fun a b => key b ≤ key a

/-- A stable sort by a comparator, which is not positive where the first may stand before the
second. -/
def sortBy (compare : α → α → ℤ) (ys : List α) : List α :=
  ys.insertionSort fun a b => compare a b ≤ 0

/-- Sorting by a comparator of the keys, greatest first. -/
theorem rankedBy_sortBy {key : α → κ} {compare : α → α → ℤ}
    (hcompare : ∀ a b, compare a b ≤ 0 ↔ key b ≤ key a) (ys : List α) :
    RankedBy key ys (sortBy compare ys) := by
  have htotal : Std.Total fun a b => compare a b ≤ 0 :=
    ⟨fun a b => by simpa only [hcompare] using le_total (key b) (key a)⟩
  have htrans : IsTrans α fun a b => compare a b ≤ 0 := by
    refine ⟨fun a b c hab hbc => ?_⟩
    rw [hcompare] at hab hbc ⊢
    exact hbc.trans hab
  refine ⟨List.perm_insertionSort _ ys, ?_⟩
  exact (List.pairwise_insertionSort _ ys).imp fun h => (hcompare _ _).mp h

end ranking

end Selection
