import Mathlib.Data.List.Basic
import Mathlib.Data.List.Perm.Basic

/-! # Values carried along walks

The edges of a graph may transform a value: `step e u v a b` says that the edge `e` from `u`
to `v` turns `a` into `b`.  `Carries step vs es a b` composes them along the walk with the
nodes `vs` and the edges `es`.  A walk is simple when it repeats no node.

`bubbleSort` is the in-place sort by adjacent exchanges, with which a search orders the edges
it tries; it permutes its input, so it neither drops nor invents an edge. -/

namespace Walks

variable {V E A : Type} {step : E → V → V → A → A → Prop}

/-- The walk with nodes `vs` and edges `es` turns `a` into `b`. -/
inductive Carries (step : E → V → V → A → A → Prop) : List V → List E → A → A → Prop
  | done (v : V) (a : A) : Carries step [v] [] a a
  | leg {e : E} {u v : V} {vs : List V} {es : List E} {a b c : A} (h : step e u v a b)
      (rest : Carries step (v :: vs) es b c) : Carries step (u :: v :: vs) (e :: es) a c

namespace Carries

/-- A walk has one node more than edges. -/
theorem length_eq {vs : List V} {es : List E} {a b : A} (h : Carries step vs es a b) :
    es.length + 1 = vs.length := by
  induction h with
  | done v a => rfl
  | leg hstep hrest ih => simpa using ih

theorem ne_nil {u v : V} {vs : List V} {es : List E} {a b : A}
    (h : Carries step (u :: v :: vs) es a b) : es ≠ [] := by
  cases h with
  | leg hstep hrest => simp

theorem mono {step' : E → V → V → A → A → Prop}
    (hstep : ∀ e u v a b, step e u v a b → step' e u v a b) {vs : List V} {es : List E} {a b : A}
    (h : Carries step vs es a b) : Carries step' vs es a b := by
  induction h with
  | done v a => exact .done v a
  | leg hleg hrest ih => exact .leg (hstep _ _ _ _ _ hleg) ih

end Carries

/-! ### Sorting by adjacent exchanges -/

variable {α : Type} (outOfOrder : α → α → Bool)

/-- `k` comparisons of adjacent elements, exchanging those out of order. -/
def bubblePass : ℕ → List α → List α
  | k + 1, x :: y :: rest =>
      if outOfOrder x y then y :: bubblePass k (x :: rest) else x :: bubblePass k (y :: rest)
  | _, l => l

/-- Round `i` compares the first `n - i` elements. -/
def bubbleSort (l : List α) : List α :=
  (List.range l.length).foldl (fun l' i => bubblePass outOfOrder (l.length - i - 1) l') l

theorem bubblePass_perm (k : ℕ) (l : List α) : (bubblePass outOfOrder k l).Perm l := by
  induction k generalizing l with
  | zero => simp [bubblePass]
  | succ k ih =>
      match l with
      | [] => simp [bubblePass]
      | [x] => simp [bubblePass]
      | x :: y :: rest =>
          unfold bubblePass
          split_ifs
          · exact ((ih (x :: rest)).cons y).trans (List.Perm.swap x y rest)
          · exact (ih (y :: rest)).cons x

theorem bubbleSort_perm (l : List α) : (bubbleSort outOfOrder l).Perm l := by
  unfold bubbleSort
  generalize l.length = n
  generalize List.range n = rounds
  suffices h : ∀ l' : List α,
      (rounds.foldl (fun l' i => bubblePass outOfOrder (n - i - 1) l') l').Perm l' from h l
  induction rounds with
  | nil =>
      intro l'
      rfl
  | cons i rounds ih =>
      intro l'
      exact (ih _).trans (bubblePass_perm outOfOrder _ l')

end Walks
