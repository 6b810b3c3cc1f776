import YieldEngine.CheckedArith
import Mathlib.Data.List.Basic

/-! # Pages of a list

`page l limit offset` is the part of a list that a reader asks for by a limit and an offset.
The pages at the multiples of a limit, one after the other, are the list (`flatMap_page`).

`paginate` is the loop that cuts a page on machine words: it computes the end of the page and
then copies the items in between.  It returns the page whenever it returns, and it stops exactly
where the end of a page that is not empty does not fit a word (`paginate_eq_ok_iff`).  What this
means for a reader who walks through the pages, or asks for everything at once, is `Paged`. -/

namespace Pages

open CheckedArith

variable {ε α : Type}

/-- At most `limit` items, from the position `offset` on. -/
def page (l : List α) (limit offset : ℕ) : List α := (l.drop offset).take limit

theorem page_of_short {l : List α} {limit offset : ℕ} (h : l.length ≤ offset + limit) :
    page l limit offset = l.drop offset := by
  apply List.take_of_length_le
  rw [List.length_drop]
  omega

/-- The first `n` pages are the first `n * limit` items. -/
theorem flatMap_page_take (l : List α) (limit n : ℕ) :
    ((List.range n).flatMap fun i => page l limit (i * limit)) = l.take (n * limit) := by
  induction n with
  | zero => rw [Nat.zero_mul, List.take_zero, List.range_zero, List.flatMap_nil]
  | succ n ih =>
      rw [List.range_succ, List.flatMap_append, ih, List.flatMap_singleton, page, Nat.succ_mul,
        List.take_add]

/-- The pages together are the list, without gap or repetition. -/
theorem flatMap_page {l : List α} {limit n : ℕ} (h : l.length ≤ n * limit) :
    ((List.range n).flatMap fun i => page l limit (i * limit)) = l := by
  rw [flatMap_page_take, List.take_of_length_le h]

/-! ### Cutting a page on machine words -/

/-- Copy `count` items from the position `i` on; a position past the end is `missing`. -/
def copyItems (missing : ε) (l : List α) : ℕ → ℕ → Outcome ε (List α)
  | 0, _ => pure []
  | count + 1, i => do
      let item ← orRaise l[i]? missing
      let rest ← copyItems missing l count (i + 1)
      pure (item :: rest)

/-- The items from `offset` to the end of the page, which is computed in 32 bits. -/
def paginate (missing : ε) (l : List α) (limit offset : ℕ) : Outcome ε (List α) :=
  if limit = 0 ∨ l.length ≤ offset then pure []
  else do
    let reach ← checkedU 32 ((offset : ℤ) + limit)
    let stop := min reach.toNat l.length
    copyItems missing l (stop - offset) offset

section paginate
variable {missing : ε} {l : List α}

theorem copyItems_eq {count : ℕ} :
    ∀ {i : ℕ}, i + count ≤ l.length → copyItems missing l count i = .ok (page l count i) := by
  induction count with
  | zero =>
      intro i _
      rw [page, List.take_zero]
      rfl
  | succ count ih =>
      intro i hinside
      have hi : i < l.length := by omega
      have hpage : page l (count + 1) i = l[i] :: page l count (i + 1) := by
        rw [page, List.drop_eq_getElem_cons hi, List.take_succ_cons, page]
      rw [copyItems, List.getElem?_eq_getElem hi, ih (by omega), hpage]
      rfl

/-- The end of a page fits a word, or the page is empty whatever its end. -/
def Reachable (l : List α) (limit offset : ℕ) : Prop :=
  limit = 0 ∨ l.length ≤ offset ∨ offset + limit < 2 ^ 32

instance (l : List α) (limit offset : ℕ) : Decidable (Reachable l limit offset) :=
  inferInstanceAs (Decidable (_ ∨ _ ∨ _))

theorem paginate_of_reachable {limit offset : ℕ} (h : Reachable l limit offset) :
    paginate missing l limit offset = .ok (page l limit offset) := by
  unfold paginate
  split_ifs with hempty
  · rcases hempty with rfl | hpast
    · rw [page, List.take_zero]
      rfl
    · rw [page, List.drop_of_length_le hpast, List.take_nil]
      rfl
  · push Not at hempty
    obtain ⟨hlimit, hinside⟩ := hempty
    have hend : offset + limit < 2 ^ 32 := by
      rcases h with hzero | hpast | hend
      · exact absurd hzero hlimit
      · omega
      · exact hend
    have hfits : FitsU 32 ((offset : ℤ) + limit) := ⟨by omega, by omega⟩
    have hreach : ((offset : ℤ) + limit).toNat = offset + limit := by omega
    refine bind_eq_ok.mpr ⟨_, checkedU_eq_ok.mpr ⟨hfits, rfl⟩, ?_⟩
    rw [hreach, copyItems_eq (by omega)]
    apply congrArg Except.ok
    -- a page that reaches past the end is cut there
    rcases Nat.le_total (offset + limit) l.length with hinner | hlast
    · rw [Nat.min_eq_left hinner, Nat.add_sub_cancel_left]
    · rw [Nat.min_eq_right hlast, page_of_short hlast, page_of_short (by omega)]

theorem paginate_of_not_reachable {limit offset : ℕ} (h : ¬ Reachable l limit offset) :
    paginate missing l limit offset = .error .overflow := by
  unfold Reachable at h
  push Not at h
  obtain ⟨hlimit, hinside, hend⟩ := h
  have hnonempty : ¬ (limit = 0 ∨ l.length ≤ offset) := by omega
  have hwide : ¬ FitsU 32 ((offset : ℤ) + limit) := by
    rintro ⟨-, hlt⟩
    omega
  rw [paginate, if_neg hnonempty, checkedU, if_neg hwide]
  rfl

/-- The page is returned exactly where its end fits. -/
theorem paginate_eq_ok_iff {limit offset : ℕ} :
    paginate missing l limit offset = .ok (page l limit offset) ↔ Reachable l limit offset := by
  constructor
  · intro h
    by_contra hnot
    rw [paginate_of_not_reachable hnot] at h
    cases h
  · exact paginate_of_reachable

/-- A list that is short enough for the limit is reachable at every page. -/
theorem reachable_of_short {limit : ℕ} (h : l.length + limit ≤ 2 ^ 32) (offset : ℕ) :
    Reachable l limit offset := by
  by_cases hpast : l.length ≤ offset
  · exact .inr (.inl hpast)
  · exact .inr (.inr (by omega))

end paginate

/-! ### Reading page after page -/

/-- The answers of a call at the offsets, one after the other. -/
def walk (call : ℕ → Outcome ε (List α)) : List ℕ → Outcome ε (List α)
  | [] => pure []
  | offset :: rest => do
      let items ← call offset
      let more ← walk call rest
      pure (items ++ more)

section walk
variable {call : ℕ → Outcome ε (List α)}

theorem walk_eq_ok {f : ℕ → List α} {offsets : List ℕ} (h : ∀ o ∈ offsets, call o = .ok (f o)) :
    walk call offsets = .ok (offsets.flatMap f) := by
  induction offsets with
  | nil => rfl
  | cons o rest ih =>
      obtain ⟨hfirst, hrest⟩ := List.forall_mem_cons.mp h
      rw [walk, hfirst, ih hrest, List.flatMap_cons]
      rfl

/-- A walk that returns has read every page. -/
theorem exists_of_walk_eq_ok {offsets : List ℕ} :
    ∀ {items : List α}, walk call offsets = .ok items → ∀ o ∈ offsets, ∃ r, call o = .ok r := by
  induction offsets with
  | nil =>
      intro _ _ o ho
      cases ho
  | cons first rest ih =>
      intro items h
      obtain ⟨r, hr, _, hmore, -⟩ := by
        simpa only [walk, bind_eq_ok] using h
      exact List.forall_mem_cons.mpr ⟨⟨r, hr⟩, ih hmore⟩

end walk

/-- What a paginated read of a list promises, and where. -/
structure Paged (call : ℕ → ℕ → Outcome ε (List α)) (l : List α) : Prop where
  /-- The page is returned exactly where its end fits a word. -/
  page_iff : ∀ limit offset, call limit offset = .ok (page l limit offset) ↔
    Reachable l limit offset
  /-- Enough pages of one limit make up the list exactly where each of them is returned. -/
  walk_iff : ∀ limit n, l.length ≤ n * limit →
    (walk (call limit) ((List.range n).map (· * limit)) = .ok l ↔
      ∀ i < n, Reachable l limit (i * limit))
  /-- The largest limit reads the rest of the list only from the start and past the end. -/
  rest_iff : l.length < 2 ^ 32 → ∀ offset,
    (call (2 ^ 32 - 1) offset = .ok (l.drop offset) ↔ offset = 0 ∨ l.length ≤ offset)

theorem paged_of_paginate {missing : ε} {call : ℕ → ℕ → Outcome ε (List α)} {l : List α}
    (h : ∀ limit offset, call limit offset = paginate missing l limit offset) : Paged call l := by
  have hpage : ∀ limit offset, call limit offset = .ok (page l limit offset) ↔
      Reachable l limit offset := by
    intro limit offset
    rw [h]
    exact paginate_eq_ok_iff
  refine ⟨hpage, fun limit n henough => ⟨fun hwalk i hi => ?_, fun hreach => ?_⟩,
    fun hshort offset => ?_⟩
  · by_contra hnot
    obtain ⟨r, hr⟩ := exists_of_walk_eq_ok hwalk (i * limit)
      (List.mem_map_of_mem (List.mem_range.mpr hi))
    rw [h, paginate_of_not_reachable hnot] at hr
    cases hr
  · have hread : ∀ o ∈ (List.range n).map (· * limit), call limit o = .ok (page l limit o) := by
      intro o ho
      obtain ⟨i, hi, rfl⟩ := List.mem_map.mp ho
      exact (hpage _ _).mpr (hreach i (List.mem_range.mp hi))
    rw [walk_eq_ok hread, List.flatMap_map, flatMap_page henough]
  · have hrest : page l (2 ^ 32 - 1) offset = l.drop offset := page_of_short (by omega)
    rw [← hrest, hpage, Reachable]
    omega

end Pages
