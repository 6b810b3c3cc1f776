import Mathlib.Data.List.Basic

/-! # Systems with silent calls

A system is called with `α`; each call leads to a next state and may answer something.
`answers step s as` is what the calls `as` answer from the state `s` on.

An abstract system sees only some of the calls (`view`), and answers each call it sees.
`Simulates` is the simulation of a system by such an abstract one: a call that is seen answers
what the abstract system answers, and a silent call answers nothing and leaves the abstract state
alone.  Then a run answers what the abstract run does (`Simulates.answers_eq`), and its silent
calls may be left out (`Simulates.answers_filter`). -/

namespace SilentCalls

variable {σ τ α β γ : Type}

/-- What the calls of a run answer. -/
def answers (step : σ → α → Option γ × σ) : σ → List α → List γ
  | _, [] => []
  | s, a :: as => (step s a).1.toList ++ answers step (step s a).2 as

/-- What a run of the abstract system answers. -/
def allAnswers (spec : τ → β → γ × τ) : τ → List β → List γ
  | _, [] => []
  | t, b :: bs => (spec t b).1 :: allAnswers spec (spec t b).2 bs

/-- Every call of the abstract run meets `Q` in the state it is made in. -/
def Admitted (spec : τ → β → γ × τ) (Q : τ → β → Prop) : τ → List β → Prop
  | _, [] => True
  | t, b :: bs => Q t b ∧ Admitted spec Q (spec t b).2 bs

/-- The abstract system sees what `view` shows of the calls, where they meet `Q`. -/
structure Simulates (step : σ → α → Option γ × σ) (spec : τ → β → γ × τ) (view : α → Option β)
    (Q : τ → β → Prop) (R : σ → τ → Prop) : Prop where
  seen : ∀ {s t a b}, R s t → view a = some b → Q t b →
    (step s a).1 = some (spec t b).1 ∧ R (step s a).2 (spec t b).2
  silent : ∀ {s t a}, R s t → view a = none → (step s a).1 = none ∧ R (step s a).2 t

variable {step : σ → α → Option γ × σ} {spec : τ → β → γ × τ} {view : α → Option β}
  {Q : τ → β → Prop} {R : σ → τ → Prop}

/-- A run answers what the abstract run answers. -/
theorem Simulates.answers_eq (h : Simulates step spec view Q R) (as : List α) :
    ∀ {s t}, R s t → Admitted spec Q t (as.filterMap view) →
      answers step s as = allAnswers spec t (as.filterMap view) := by
  induction as with
  | nil => exact fun _ _ => rfl
  | cons a as ih =>
      intro s t hrel hadmitted
      cases hview : view a with
      | none =>
          rw [List.filterMap_cons_none hview] at hadmitted ⊢
          obtain ⟨hanswer, hnext⟩ := h.silent hrel hview
          rw [answers, hanswer]
          exact ih hnext hadmitted
      | some b =>
          rw [List.filterMap_cons_some hview] at hadmitted ⊢
          obtain ⟨hanswer, hnext⟩ := h.seen hrel hview hadmitted.1
          rw [answers, hanswer, allAnswers]
          exact congrArg _ (ih hnext hadmitted.2)

theorem filterMap_filter_isSome (view : α → Option β) (as : List α) :
    (as.filter fun a => (view a).isSome).filterMap view = as.filterMap view := by
  rw [List.filterMap_filter]
  congr 1
  funext a
  cases view a <;> rfl

/-- Silent calls may be left out. -/
theorem Simulates.answers_filter (h : Simulates step spec view Q R) {as : List α} {s : σ} {t : τ}
    (hrel : R s t) (hadmitted : Admitted spec Q t (as.filterMap view)) :
    answers step s as = answers step s (as.filter fun a => (view a).isSome) := by
  rw [h.answers_eq as hrel hadmitted, h.answers_eq _ hrel, filterMap_filter_isSome]
  rwa [filterMap_filter_isSome]

/-- The induction for relations between a state and what a run from it answers. -/
theorem allAnswers_along (P : τ → List γ → Prop) (hnil : ∀ t, P t [])
    (hcons : ∀ t b answers, Q t b → P (spec t b).2 answers → P t ((spec t b).1 :: answers))
    (bs : List β) : ∀ t, Admitted spec Q t bs → P t (allAnswers spec t bs) := by
  induction bs with
  | nil => exact fun t _ => hnil t
  | cons b bs ih => exact fun t h => hcons t b _ h.1 (ih _ h.2)

end SilentCalls
