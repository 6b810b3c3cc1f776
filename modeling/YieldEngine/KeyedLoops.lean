import Mathlib.Data.List.Nodup

/-! # Loops over distinct keys

A loop visits keys one after another, and the round for a key reads and writes the cell of that key
only (`Pointwise`).  Over distinct keys the order of the rounds then does not matter: the loop
returns exactly when every cell lets its round return (`Pointwise.returns_iff`), and it applies
`f` once to each visited cell and leaves the others (`Pointwise.cell_eq`). -/

namespace KeyedLoops

variable {σ κ ν ε : Type}

/-- In the states satisfying `I`, the round for a key returns exactly when `P` holds of the cell of
that key, and it replaces this cell by `f` of it and leaves the other cells and `I`. -/
structure Pointwise (round : σ → κ → Except ε σ) (cell : σ → κ → ν) (I : σ → Prop)
    (P : κ → ν → Prop) (f : κ → ν → ν) : Prop where
  returns : ∀ s k, I s → ((∃ s', round s k = .ok s') ↔ P k (cell s k))
  keeps : ∀ s k s', I s → round s k = .ok s' → I s'
  own : ∀ s k s', I s → round s k = .ok s' → cell s' k = f k (cell s k)
  other : ∀ s k s', I s → round s k = .ok s' → ∀ j, j ≠ k → cell s' j = cell s j

variable {round : σ → κ → Except ε σ} {cell : σ → κ → ν} {I : σ → Prop} {P : κ → ν → Prop}
  {f : κ → ν → ν}

theorem foldlM_cons_ok {s s' : σ} {k : κ} {keys : List κ} :
    (k :: keys).foldlM round s = .ok s' ↔
      ∃ mid, round s k = .ok mid ∧ keys.foldlM round mid = .ok s' := by
  rw [List.foldlM_cons]
  cases h : round s k with
  | error e => simp [bind, Except.bind]
  | ok mid => simp [bind, Except.bind]

/-- A loop whose rounds do what those of another loop do, seen through `f`, does what that one does. -/
theorem foldlM_map {τ : Type} {round' : τ → κ → Except ε τ} {f : τ → σ}
    (h : ∀ t k, round (f t) k = f <$> round' t k) (keys : List κ) :
    ∀ t, keys.foldlM round (f t) = f <$> keys.foldlM round' t := by
  induction keys with
  | nil => exact fun _ => rfl
  | cons k keys ih =>
      intro t
      rw [List.foldlM_cons, List.foldlM_cons, h, bind_map_left, map_bind]
      exact bind_congr fun mid => ih mid

theorem Pointwise.loop_keeps (h : Pointwise round cell I P f) (keys : List κ) :
    ∀ {s s' : σ}, I s → keys.foldlM round s = .ok s' → I s' := by
  induction keys with
  | nil =>
      intro s s' hs hrun
      obtain rfl := Except.ok.inj hrun
      exact hs
  | cons k keys ih =>
      intro s s' hs hrun
      obtain ⟨mid, hround, hrest⟩ := foldlM_cons_ok.mp hrun
      exact ih (h.keeps s k mid hs hround) hrest

/-- The loop applies `f` once to every visited cell. -/
theorem Pointwise.cell_eq (h : Pointwise round cell I P f) [DecidableEq κ] {keys : List κ}
    (hnodup : keys.Nodup) : ∀ {s s' : σ}, I s → keys.foldlM round s = .ok s' →
      ∀ j, cell s' j = if j ∈ keys then f j (cell s j) else cell s j := by
  induction keys with
  | nil =>
      intro s s' _ hrun j
      obtain rfl := Except.ok.inj hrun
      rfl
  | cons k keys ih =>
      intro s s' hs hrun j
      obtain ⟨hk, hkeys⟩ := List.nodup_cons.mp hnodup
      obtain ⟨mid, hround, hrest⟩ := foldlM_cons_ok.mp hrun
      rw [ih hkeys (h.keeps s k mid hs hround) hrest j]
      by_cases hj : j = k
      · subst hj
        rw [if_neg hk, if_pos List.mem_cons_self, h.own s j mid hs hround]
      · rw [h.other s k mid hs hround j hj]
        simp only [List.mem_cons, hj, false_or]

/-- The loop returns exactly when no visited cell stops its round. -/
theorem Pointwise.returns_iff (h : Pointwise round cell I P f) {keys : List κ}
    (hnodup : keys.Nodup) : ∀ {s : σ}, I s →
      ((∃ s', keys.foldlM round s = .ok s') ↔ ∀ k ∈ keys, P k (cell s k)) := by
  induction keys with
  | nil => exact fun _ => iff_of_true ⟨_, rfl⟩ (fun _ hk => by cases hk)
  | cons k keys ih =>
      intro s hs
      obtain ⟨hk, hkeys⟩ := List.nodup_cons.mp hnodup
      have hlater : ∀ mid, round s k = .ok mid →
          ((∃ s', keys.foldlM round mid = .ok s') ↔ ∀ j ∈ keys, P j (cell s j)) := by
        intro mid hround
        rw [ih hkeys (h.keeps s k mid hs hround)]
        refine forall₂_congr fun j hj => ?_
        rw [h.other s k mid hs hround j (fun hjk => hk (hjk ▸ hj))]
      simp only [foldlM_cons_ok, List.forall_mem_cons]
      rw [← h.returns s k hs]
      constructor
      · rintro ⟨s', mid, hround, hrest⟩
        exact ⟨⟨mid, hround⟩, (hlater mid hround).mp ⟨s', hrest⟩⟩
      · rintro ⟨⟨mid, hround⟩, hall⟩
        obtain ⟨s', hrest⟩ := (hlater mid hround).mpr hall
        exact ⟨s', mid, hround, hrest⟩

end KeyedLoops
