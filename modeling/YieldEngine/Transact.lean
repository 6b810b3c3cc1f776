import Mathlib.Data.List.Basic
import Mathlib.Data.List.Induction

/-! # Runs of transactions

A transactional system executes one call at a time.  A call either returns the next state or
fails, and a failed call is rolled back: it leaves the state it was made in (`commit`).
`run step s as` is the state after the calls `as`.

`Along step Q s as` says that every call of the run meets the condition `Q` in the state it
is made in.  The rule `run_invariant_along` is the induction for such runs; `run_invariant`
is its unconditional form, and `run_invariant_iff` the exact form for a condition that decides
whether a call keeps the invariant.

`ghostLog record s as` is the history of a run: what `record` notes of every call that
returns, in order.  `run_log_invariant` is the induction for relations between a history and
the state it leads to, and `run_log_invariant_iff` its exact form.

`Since step P Q s as` says that some call of the run meeting `P` returned, and that every
returning call after it meets `Q`.  By `since_of_step`, what holds at the end of a run but not
at its start has been brought about by some call and kept since. -/

namespace Transact

variable {σ α ε : Type} (step : σ → α → Except ε σ)

/-- The state after one call; a failed call is rolled back. -/
def commit (s : σ) (a : α) : σ :=
  match step s a with
  | .ok s' => s'
  | .error _ => s

/-- The state after a sequence of calls. -/
def run (s : σ) (as : List α) : σ := as.foldl (commit step) s

/-- Every call of the run meets `Q` in the state it is made in. -/
def Along (Q : σ → α → Prop) : σ → List α → Prop
  | _, [] => True
  | s, a :: as => Q s a ∧ Along Q (commit step s a) as

variable {step}

theorem commit_of_ok {s s' : σ} {a : α} (h : step s a = .ok s') : commit step s a = s' := by
  simp [commit, h]

theorem commit_of_error {s : σ} {a : α} {e : ε} (h : step s a = .error e) :
    commit step s a = s := by simp [commit, h]

@[simp] theorem run_nil (s : σ) : run step s [] = s := rfl

@[simp] theorem run_cons (s : σ) (a : α) (as : List α) :
    run step s (a :: as) = run step (commit step s a) as := rfl

theorem run_append (s : σ) (as bs : List α) :
    run step s (as ++ bs) = run step (run step s as) bs := List.foldl_append

/-- What holds of a state and is kept by every returning call holds after one call. -/
theorem commit_invariant {I : σ → Prop} {s : σ} {a : α} (h0 : I s)
    (hstep : ∀ s', step s a = .ok s' → I s') : I (commit step s a) := by
  cases h : step s a with
  | ok s' =>
      rw [commit_of_ok h]
      exact hstep s' h
  | error e =>
      rw [commit_of_error h]
      exact h0

/-- What every returning call meeting `Q` keeps holds after every run whose calls meet `Q`. -/
theorem run_invariant_along {Q : σ → α → Prop} {I : σ → Prop}
    (hstep : ∀ s a s', I s → Q s a → step s a = .ok s' → I s') :
    ∀ (as : List α) (s : σ), I s → Along step Q s as → I (run step s as)
  | [], _, h0, _ => h0
  | a :: as, s, h0, hQ =>
      run_invariant_along hstep as _ (commit_invariant h0 (fun s' => hstep s a s' h0 hQ.1)) hQ.2

theorem along_true : ∀ (as : List α) (s : σ), Along step (fun _ _ => True) s as
  | [], _ => trivial
  | _ :: as, _ => ⟨trivial, along_true as _⟩

/-- A condition on the calls alone. -/
theorem along_of_forall {Q : α → Prop} :
    ∀ (as : List α) (s : σ), (∀ a ∈ as, Q a) → Along step (fun _ => Q) s as
  | [], _, _ => trivial
  | a :: as, _, h =>
      ⟨h a List.mem_cons_self, along_of_forall as _ fun b hb => h b (List.mem_cons_of_mem a hb)⟩

/-- What a condition along a run says of the calls alone, it says of each of them. -/
theorem forall_of_along {Q : σ → α → Prop} {P : α → Prop} (h : ∀ s a, Q s a → P a) :
    ∀ (as : List α) (s : σ), Along step Q s as → ∀ a ∈ as, P a
  | [], _, _, _, hmem => by cases hmem
  | b :: as, s, hQ, a, hmem => by
      rcases List.mem_cons.mp hmem with rfl | htail
      · exact h s a hQ.1
      · exact forall_of_along h as _ hQ.2 a htail

/-- Conditions that agree on every call agree along every run. -/
theorem along_congr {Q Q' : σ → α → Prop} (h : ∀ s a, Q s a ↔ Q' s a) (as : List α) :
    ∀ s, Along step Q s as ↔ Along step Q' s as := by
  induction as with
  | nil => exact fun _ => Iff.rfl
  | cons a as ih => exact fun s => and_congr (h s a) (ih _)

/-- Conditions that agree in the states of an invariant, which calls meeting one of them keep, agree
along every run from such a state. -/
theorem along_iff_of_invariant {P Q : σ → α → Prop} {I : σ → Prop}
    (hiff : ∀ s a, I s → (P s a ↔ Q s a))
    (hstep : ∀ s a s', I s → Q s a → step s a = .ok s' → I s') (as : List α) :
    ∀ s, I s → (Along step P s as ↔ Along step Q s as) := by
  induction as with
  | nil => exact fun _ _ => Iff.rfl
  | cons a as ih =>
      intro s h0
      unfold Along
      rw [hiff s a h0]
      exact and_congr_right fun hq => ih _ (commit_invariant h0 fun s' => hstep s a s' h0 hq)

/-- What every returning call keeps holds after every run. -/
theorem run_invariant {I : σ → Prop} (hstep : ∀ s a s', I s → step s a = .ok s' → I s')
    (as : List α) {s : σ} (h0 : I s) : I (run step s as) :=
  run_invariant_along (fun s a s' hs _ => hstep s a s' hs) as s h0 (along_true as s)

/-- A system that does what another one does, seen through `f`, runs as it does. -/
theorem run_map_along {τ : Type} {step' : τ → α → Except ε τ} {f : τ → σ} {I : τ → Prop}
    {Q : τ → α → Prop} (hinv : ∀ t a t', I t → Q t a → step' t a = .ok t' → I t')
    (hstep : ∀ t a, I t → Q t a → step (f t) a = f <$> step' t a) :
    ∀ (as : List α) {t : τ}, I t → Along step' Q t as →
      run step (f t) as = f (run step' t as)
  | [], _, _, _ => rfl
  | a :: as, t, h0, hQ => by
      have hcommit : commit step (f t) a = f (commit step' t a) := by
        have h := hstep t a h0 hQ.1
        cases hcall : step' t a with
        | ok t' =>
            rw [hcall] at h
            rw [commit_of_ok h, commit_of_ok hcall]
        | error e =>
            rw [hcall] at h
            rw [commit_of_error h, commit_of_error hcall]
      rw [run_cons, run_cons, hcommit]
      exact run_map_along hinv hstep as
        (commit_invariant h0 fun t' => hinv t a t' h0 hQ.1) hQ.2

/-- Where a call does alike in states that look alike through `view`, runs from such states lead to
such states. -/
theorem run_view {τ : Type} {view : σ → τ}
    (h : ∀ s t a, view s = view t → view <$> step s a = view <$> step t a) (as : List α) :
    ∀ {s t : σ}, view s = view t → view (run step s as) = view (run step t as) := by
  induction as with
  | nil => exact id
  | cons a as ih =>
      intro s t hst
      rw [run_cons, run_cons]
      apply ih
      have ha := h s t a hst
      cases hs : step s a with
      | ok s' =>
          cases ht : step t a with
          | ok t' =>
              rw [hs, ht] at ha
              rw [commit_of_ok hs, commit_of_ok ht]
              exact Except.ok.inj ha
          | error e =>
              rw [hs, ht] at ha
              cases ha
      | error e =>
          cases ht : step t a with
          | ok t' =>
              rw [hs, ht] at ha
              cases ha
          | error e' => rwa [commit_of_error hs, commit_of_error ht]

/-- When `Q` decides whether a returning call meeting `P` keeps `I`, every state of a run whose
calls meet `P` satisfies `I` exactly when every returning call of the run meets `Q`. -/
theorem run_invariant_iff_along {P Q : σ → α → Prop} {I : σ → Prop}
    (hstep : ∀ s a s', I s → P s a → step s a = .ok s' → (I s' ↔ Q s a)) :
    ∀ (as : List α) (s : σ), I s → Along step P s as →
      ((∀ before, before <+: as → I (run step s before)) ↔
        Along step (fun s a => ∀ s', step s a = .ok s' → Q s a) s as) := by
  intro as
  induction as with
  | nil =>
      intro s h0 _
      refine iff_of_true (fun before hbefore => ?_) trivial
      obtain rfl := List.prefix_nil.mp hbefore
      exact h0
  | cons a as ih =>
      rintro s h0 ⟨hp, hps⟩
      have hcommit : I (commit step s a) ↔ ∀ s', step s a = .ok s' → Q s a := by
        cases h : step s a with
        | ok s' =>
            rw [commit_of_ok h, hstep s a s' h0 hp h]
            exact ⟨fun hq _ _ => hq, fun hq => hq s' rfl⟩
        | error e =>
            rw [commit_of_error h]
            exact iff_of_true h0 fun s' hs' => by cases hs'
      constructor
      · intro hall
        have hnext : I (commit step s a) := hall [a] ⟨as, rfl⟩
        refine ⟨hcommit.mp hnext, (ih _ hnext hps).mp fun before hbefore => ?_⟩
        exact hall (a :: before) (List.cons_prefix_cons.mpr ⟨rfl, hbefore⟩)
      · rintro ⟨hq, halong⟩ before hbefore
        cases before with
        | nil => exact h0
        | cons b before =>
            obtain ⟨rfl, htail⟩ := List.cons_prefix_cons.mp hbefore
            exact (ih _ (hcommit.mpr hq) hps).mpr halong before htail

/-- When `Q` decides whether a returning call keeps `I`, every state of a run satisfies `I`
exactly when every returning call of the run meets `Q`. -/
theorem run_invariant_iff {Q : σ → α → Prop} {I : σ → Prop}
    (hstep : ∀ s a s', I s → step s a = .ok s' → (I s' ↔ Q s a)) (as : List α) (s : σ)
    (h0 : I s) : (∀ before, before <+: as → I (run step s before)) ↔
      Along step (fun s a => ∀ s', step s a = .ok s' → Q s a) s as :=
  run_invariant_iff_along (fun s a s' hs _ => hstep s a s' hs) as s h0 (along_true as s)

/-! ### Histories -/

variable {β : Type}

/-- What `record` notes of the returning calls of a run. -/
def ghostLog (step : σ → α → Except ε σ) (record : σ → α → List β) : σ → List α → List β
  | _, [] => []
  | s, a :: as =>
      match step s a with
      | .ok s' => record s a ++ ghostLog step record s' as
      | .error _ => ghostLog step record s as

theorem ghostLog_cons_of_ok {record : σ → α → List β} {s s' : σ} {a : α} (h : step s a = .ok s')
    (as : List α) : ghostLog step record s (a :: as) = record s a ++ ghostLog step record s' as := by
  rw [ghostLog, h]

/-- A relation between history and state that every returning call meeting `Q` keeps holds
after every run whose calls meet `Q`. -/
theorem run_log_invariant {record : σ → α → List β} {Q : σ → α → Prop} {I : List β → σ → Prop}
    (hstep : ∀ log s a s', I log s → Q s a → step s a = .ok s' → I (log ++ record s a) s')
    (as : List α) : ∀ (s : σ) (log : List β), I log s → Along step Q s as →
      I (log ++ ghostLog step record s as) (run step s as) := by
  induction as with
  | nil =>
      intro s log h0 _
      rw [ghostLog, List.append_nil]
      exact h0
  | cons a as ih =>
      rintro s log h0 ⟨hq, halong⟩
      rw [run_cons, ghostLog]
      cases h : step s a with
      | ok s' =>
          rw [commit_of_ok h] at halong ⊢
          rw [← List.append_assoc]
          exact ih s' _ (hstep log s a s' h0 hq h) halong
      | error e =>
          rw [commit_of_error h] at halong ⊢
          exact ih s log h0 halong

/-- The system that carries its history along. -/
def recording (step : σ → α → Except ε σ) (record : σ → α → List β) (s : List β × σ) (a : α) :
    Except ε (List β × σ) := (fun s' => (s.1 ++ record s.2 a, s')) <$> step s.2 a

section recording
variable {record : σ → α → List β}

theorem recording_of_ok {s s' : σ} {a : α} (h : step s a = .ok s') (log : List β) :
    recording step record (log, s) a = .ok (log ++ record s a, s') := by
  rw [recording, h]
  rfl

theorem recording_of_error {s : σ} {a : α} {e : ε} (h : step s a = .error e) (log : List β) :
    recording step record (log, s) a = .error e := by
  rw [recording, h]
  rfl

/-- It runs as the system does, with the history beside it. -/
theorem run_recording (as : List α) : ∀ (s : σ) (log : List β),
    run (recording step record) (log, s) as =
      (log ++ ghostLog step record s as, run step s as) := by
  induction as with
  | nil =>
      intro s log
      rw [ghostLog, List.append_nil]
      rfl
  | cons a as ih =>
      intro s log
      rw [run_cons, run_cons, ghostLog]
      cases h : step s a with
      | ok s' =>
          rw [commit_of_ok h, commit_of_ok (recording_of_ok h log), ih, List.append_assoc]
      | error e => rw [commit_of_error h, commit_of_error (recording_of_error h log), ih]

theorem along_recording {Q : σ → α → Prop} (as : List α) : ∀ (s : σ) (log : List β),
    Along (recording step record) (fun s a => Q s.2 a) (log, s) as ↔ Along step Q s as := by
  induction as with
  | nil => exact fun _ _ => Iff.rfl
  | cons a as ih =>
      intro s log
      unfold Along
      apply and_congr_right
      intro _
      cases h : step s a with
      | ok s' => rw [commit_of_ok h, commit_of_ok (recording_of_ok h log), ih]
      | error e => rw [commit_of_error h, commit_of_error (recording_of_error h log), ih]

/-- When `Q` decides whether a returning call keeps a relation between history and state, every
state of a run is in it exactly when every returning call of the run meets `Q`. -/
theorem run_log_invariant_iff {Q : σ → α → Prop} {I : List β → σ → Prop}
    (hstep : ∀ log s a s', I log s → step s a = .ok s' → (I (log ++ record s a) s' ↔ Q s a))
    (as : List α) (s : σ) (h0 : I [] s) :
    (∀ before, before <+: as → I (ghostLog step record s before) (run step s before)) ↔
      Along step (fun s a => ∀ s', step s a = .ok s' → Q s a) s as := by
  have hpair : ∀ (t : List β × σ) a t', I t.1 t.2 → recording step record t a = .ok t' →
      (I t'.1 t'.2 ↔ Q t.2 a) := by
    rintro ⟨log, s⟩ a t' hI ht
    cases h : step s a with
    | ok s' =>
        rw [recording_of_ok h] at ht
        obtain rfl := Except.ok.inj ht
        exact hstep log s a s' hI h
    | error e =>
        rw [recording_of_error h] at ht
        cases ht
  have hreturns : ∀ (t : List β × σ) a, (∀ t', recording step record t a = .ok t' → Q t.2 a) ↔
      ∀ s', step t.2 a = .ok s' → Q t.2 a := by
    rintro ⟨log, s⟩ a
    cases h : step s a with
    | ok s' => simp [recording_of_ok h]
    | error e => simp [recording_of_error h]
  have hrun := run_invariant_iff hpair as ([], s) h0
  simp only [run_recording, List.nil_append] at hrun
  rw [hrun, along_congr hreturns]
  exact along_recording (Q := fun s a => ∀ s', step s a = .ok s' → Q s a) as s []

end recording

theorem ghostLog_append (record : σ → α → List β) (as bs : List α) :
    ∀ s, ghostLog step record s (as ++ bs) =
      ghostLog step record s as ++ ghostLog step record (run step s as) bs := by
  induction as with
  | nil => exact fun _ => rfl
  | cons a as ih =>
      intro s
      rw [List.cons_append, ghostLog, ghostLog, run_cons]
      cases h : step s a with
      | ok s' =>
          dsimp only
          rw [commit_of_ok h, ih, List.append_assoc]
      | error e =>
          dsimp only
          rw [commit_of_error h, ih]

/-- What every note of a call satisfies, every note of a run does. -/
theorem forall_mem_ghostLog {record : σ → α → List β} {P : β → Prop}
    (h : ∀ s a, ∀ b ∈ record s a, P b) (as : List α) :
    ∀ s, ∀ b ∈ ghostLog step record s as, P b := by
  induction as with
  | nil => exact fun _ _ hb => by cases hb
  | cons a as ih =>
      intro s b hb
      rw [ghostLog] at hb
      cases hcall : step s a with
      | ok s' =>
          rw [hcall] at hb
          rcases List.mem_append.mp hb with hb | hb
          · exact h s a b hb
          · exact ih s' b hb
      | error e =>
          rw [hcall] at hb
          exact ih s b hb

/-- What the notes of a run show is among what its calls show, in order. -/
theorem ghostLog_sublist_flatMap {γ : Type} {record : σ → α → List β} {f : α → List γ} {g : β → γ}
    (h : ∀ s a, ((record s a).map g).Sublist (f a)) (as : List α) :
    ∀ s, ((ghostLog step record s as).map g).Sublist (as.flatMap f) := by
  induction as with
  | nil => exact fun s => List.Sublist.refl _
  | cons a as ih =>
      intro s
      rw [ghostLog, List.flatMap_cons]
      cases step s a with
      | ok s' =>
          rw [List.map_append]
          exact (h s a).append (ih s')
      | error e => exact (ih s).trans (List.sublist_append_right _ _)

/-- Where the notes of a call show the call itself, those of a run show its calls in order. -/
theorem ghostLog_sublist {γ : Type} {record : σ → α → List β} {f : α → γ} {g : β → γ}
    (h : ∀ s a, ((record s a).map g).Sublist [f a]) (as : List α) (s : σ) :
    ((ghostLog step record s as).map g).Sublist (as.map f) := by
  have hmap : as.map f = as.flatMap fun a => [f a] := List.map_eq_flatMap
  rw [hmap]
  exact ghostLog_sublist_flatMap h as s

/-! ### Since the latest call of a kind -/

/-- A call meeting `P` returned, and every returning call of the run after it meets `Q`. -/
def Since (step : σ → α → Except ε σ) (P Q : σ → α → Prop) (s : σ) (as : List α) : Prop :=
  ∃ before a after s', as = before ++ a :: after ∧ P (run step s before) a ∧
    step (run step s before) a = .ok s' ∧
    Along step (fun s a => (∃ s', step s a = .ok s') → Q s a) s' after

theorem along_append {Q : σ → α → Prop} :
    ∀ (as bs : List α) (s : σ), Along step Q s (as ++ bs) ↔
      Along step Q s as ∧ Along step Q (run step s as) bs
  | [], _, _ => (iff_of_eq (true_and _)).symm
  | a :: as, bs, s => by
      rw [List.cons_append, Along, Along, run_cons, along_append as bs, and_assoc]

theorem Since.append {P Q : σ → α → Prop} {s : σ} {as : List α} {b : α}
    (h : Since step P Q s as)
    (hb : (∃ s', step (run step s as) b = .ok s') → Q (run step s as) b) :
    Since step P Q s (as ++ [b]) := by
  obtain ⟨before, a, after, s', rfl, hp, hreturns, halong⟩ := h
  have hrun : run step s (before ++ a :: after) = run step s' after := by
    rw [run_append, run_cons, commit_of_ok hreturns]
  rw [hrun] at hb
  refine ⟨before, a, after ++ [b], s', by rw [List.append_assoc, List.cons_append], hp,
    hreturns, ?_⟩
  exact (along_append _ _ _).mpr ⟨halong, hb, trivial⟩

/-- What a returning call can only bring about by `P` or keep by `Q`, and what does not hold
at the start of a run, holds at its end only if some call brought it about and every later one
kept it. -/
theorem since_of_step {P Q : σ → α → Prop} {A : σ → Prop} {s : σ} (h0 : ¬ A s)
    (hstep : ∀ s a s', step s a = .ok s' → A s' → P s a ∨ (A s ∧ Q s a)) (as : List α)
    (h : A (run step s as)) : Since step P Q s as := by
  induction as using List.reverseRecOn with
  | nil => exact absurd h h0
  | append_singleton as b ih =>
      rw [run_append, run_cons, run_nil] at h
      cases hb : step (run step s as) b with
      | error e =>
          rw [commit_of_error hb] at h
          exact (ih h).append fun ⟨s', hs'⟩ => by rw [hb] at hs'; cases hs'
      | ok s' =>
          rw [commit_of_ok hb] at h
          obtain hp | ⟨hA, hq⟩ := hstep _ _ _ hb h
          · exact ⟨as, b, [], s', rfl, hp, hb, trivial⟩
          · exact (ih hA).append fun _ => hq

/-! ### Calls of two kinds -/

/-- A system whose calls are those of `first` and those of `second`. -/
def either (first : σ → β → Except ε σ) (second : σ → α → Except ε σ) (s : σ) :
    β ⊕ α → Except ε σ :=
  Sum.elim (first s) (second s)

/-- In every state of every run from `s₀`, one more call `b` of the first kind changes nothing
exactly when it meets `Q`. -/
def IdleExactly (first : σ → β → Except ε σ) (second : σ → α → Except ε σ)
    (Q : σ → β → Prop) (s₀ : σ) : Prop :=
  ∀ calls b, commit first (run (either first second) s₀ calls) b =
    run (either first second) s₀ calls ↔ Q (run (either first second) s₀ calls) b

/-- What holds of a state decides the calls of the first kind after every run. -/
theorem idleExactly_of_iff {first : σ → β → Except ε σ} {second : σ → α → Except ε σ}
    {Q : σ → β → Prop} (h : ∀ s b, commit first s b = s ↔ Q s b) (s₀ : σ) :
    IdleExactly first second Q s₀ := fun _ _ => h _ _

end Transact
