import Mathlib.Data.List.Basic
import Mathlib.Data.List.Nodup

/-! # Passing items to receivers

Items are passed one after the other to the receivers that are called for them, in the order in
which these are registered.  A receiver may fail on an item, and then neither the receivers after
it nor the items after this one get anything: the calls are cut off there (`page`).

`page_failed_iff` says when a page is cut off, `page_of_quiet` what is called when it is not, and
`received_eq` what one receiver has then received. -/

namespace Dispatch

variable {ρ α : Type}

/-- The receivers called up to the first one that fails, and whether one did. -/
def callAll (fails : ρ → Bool) : List ρ → List ρ × Bool
  | [] => ([], false)
  | r :: rs =>
      if fails r then ([r], true)
      else
        let (called, failed) := callAll fails rs
        (r :: called, failed)

/-- The calls made for a list of items up to the first one that fails, and whether one did. -/
def page (calls : α → List ρ) (fails : ρ → α → Bool) : List α → List (ρ × α) × Bool
  | [] => ([], false)
  | x :: xs =>
      let (called, failed) := callAll (fun r => fails r x) (calls x)
      if failed then (called.map (fun r => (r, x)), true)
      else
        let (rest, failed) := page calls fails xs
        (called.map (fun r => (r, x)) ++ rest, failed)

/-- Every call that items of a list ask for, in order. -/
def allCalls (calls : α → List ρ) (xs : List α) : List (ρ × α) :=
  xs.flatMap fun x => (calls x).map fun r => (r, x)

theorem callAll_of_quiet {fails : ρ → Bool} {rs : List ρ} (h : ∀ r ∈ rs, fails r = false) :
    callAll fails rs = (rs, false) := by
  induction rs with
  | nil => rfl
  | cons r rs ih =>
      obtain ⟨hr, hrs⟩ := List.forall_mem_cons.mp h
      simp [callAll, hr, ih hrs]

theorem callAll_failed_iff {fails : ρ → Bool} {rs : List ρ} :
    (callAll fails rs).2 = true ↔ ∃ r ∈ rs, fails r = true := by
  induction rs with
  | nil => simp [callAll]
  | cons r rs ih =>
      cases hr : fails r with
      | true => simp [callAll, hr]
      | false => simpa [callAll, hr] using ih

section page
variable {calls : α → List ρ} {fails : ρ → α → Bool} {xs : List α}

theorem page_failed_iff :
    (page calls fails xs).2 = true ↔ ∃ x ∈ xs, ∃ r ∈ calls x, fails r x = true := by
  induction xs with
  | nil => simp [page]
  | cons x xs ih =>
      have hfirst : (callAll (fun r => fails r x) (calls x)).2 = true ↔ _ := callAll_failed_iff
      cases hcall : callAll (fun r => fails r x) (calls x) with
      | mk called failed =>
          rw [hcall] at hfirst
          cases failed with
          | true =>
              have hexists := hfirst.mp rfl
              simp only [page, hcall, if_true, List.exists_mem_cons_iff, true_iff]
              exact .inl hexists
          | false =>
              have hnone : ¬ ∃ r ∈ calls x, fails r x = true := fun h => by
                have hfailed := hfirst.mpr h
                cases hfailed
              simp only [page, hcall, Bool.false_eq_true, if_false, ih,
                List.exists_mem_cons_iff, or_iff_right hnone]

/-- Where no receiver fails, every call is made. -/
theorem page_of_quiet (h : ∀ x ∈ xs, ∀ r ∈ calls x, fails r x = false) :
    page calls fails xs = (allCalls calls xs, false) := by
  induction xs with
  | nil => rfl
  | cons x xs ih =>
      obtain ⟨hx, hxs⟩ := List.forall_mem_cons.mp h
      simp only [page, callAll_of_quiet hx, ih hxs, Bool.false_eq_true, if_false]
      rfl

theorem allCalls_append (calls : α → List ρ) (xs ys : List α) :
    allCalls calls (xs ++ ys) = allCalls calls xs ++ allCalls calls ys := List.flatMap_append

/-- The items a receiver was called with. -/
def receivedBy [DecidableEq ρ] (r : ρ) (called : List (ρ × α)) : List α :=
  (called.filter (fun c => c.1 = r)).map Prod.snd

theorem receivedBy_append [DecidableEq ρ] (r : ρ) (called called' : List (ρ × α)) :
    receivedBy r (called ++ called') = receivedBy r called ++ receivedBy r called' := by
  simp [receivedBy]

/-- Of the items of a list a receiver is called with those that are meant for it, once each. -/
theorem received_eq [DecidableEq ρ] {r : ρ} {meant : α → Bool} {xs : List α}
    (hnodup : ∀ x, (calls x).Nodup) (hmeant : ∀ x, r ∈ calls x ↔ meant x = true) :
    receivedBy r (allCalls calls xs) = xs.filter meant := by
  induction xs with
  | nil => rfl
  | cons x xs ih =>
      have hone : receivedBy r ((calls x).map fun r' => (r', x)) = if meant x then [x] else [] := by
        have hcount : (calls x).filter (fun r' => r' = r) = if meant x then [r] else [] := by
          by_cases hmem : r ∈ calls x
          · rw [List.filter_eq, List.count_eq_one_of_mem (hnodup x) hmem,
              if_pos ((hmeant x).mp hmem)]
            rfl
          · rw [List.filter_eq, List.count_eq_zero_of_not_mem hmem,
              if_neg (mt (hmeant x).mpr hmem)]
            rfl
        unfold receivedBy
        rw [List.filter_map]
        change (((calls x).filter fun r' => r' = r).map fun r' => (r', x)).map Prod.snd = _
        rw [hcount]
        split_ifs <;> rfl
      have hcons : allCalls calls (x :: xs) =
          ((calls x).map fun r' => (r', x)) ++ allCalls calls xs := rfl
      rw [hcons, receivedBy_append, ih, hone]
      cases hx : meant x <;> simp [hx]

end page
end Dispatch
