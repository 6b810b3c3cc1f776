import Mathlib.Data.List.DropRight

/-! # Logs that keep their newest entries

A bounded log is a list with its newest entry last, of which at most `limit` entries are kept:
`push limit log x` appends `x` and drops what is too old.  The newest entries of a list are
`List.rtake`.

Reading at most `limit` entries of a bounded log does not show that anything was dropped
(`rtake_push`), so a reader of a few newest entries sees the log as if it were unbounded.  A
backward search for a property that newer entries inherit needs the newest entry only
(`find?_reverse_of_upward`).  A log that is started afresh now and then keeps the newest entries
since it last was (`replay_push`). -/

namespace BoundedLog

variable {α β : Type}

/-- Append `x` and keep the newest `limit` entries. -/
def push (limit : ℕ) (log : List α) (x : α) : List α := (log ++ [x]).rtake limit

/-! ### The newest entries of a list -/

theorem rtake_rtake (m n : ℕ) (l : List α) : (l.rtake n).rtake m = l.rtake (min m n) := by
  simp [List.rtake_eq_reverse_take_reverse, List.take_take]

theorem map_rtake (f : α → β) (n : ℕ) (l : List α) : (l.rtake n).map f = (l.map f).rtake n := by
  simp [List.rtake_eq_reverse_take_reverse, List.map_take]

theorem length_rtake (n : ℕ) (l : List α) : (l.rtake n).length = min n l.length := by
  simp [List.rtake_eq_reverse_take_reverse]

theorem rtake_suffix (n : ℕ) (l : List α) : l.rtake n <:+ l := List.drop_suffix _ _

theorem rtake_of_length_le {n : ℕ} {l : List α} (h : l.length ≤ n) : l.rtake n = l := by
  rw [List.rtake, Nat.sub_eq_zero_of_le h, List.drop_zero]

/-- A list ending in `n` given entries has them as its newest `n`. -/
theorem rtake_of_suffix {l newest : List α} (h : newest <:+ l) :
    l.rtake newest.length = newest := by
  obtain ⟨older, rfl⟩ := h
  rw [List.rtake, List.length_append, Nat.add_sub_cancel, List.drop_left]

/-- Dropping old entries first does not change the newest ones after an append. -/
theorem rtake_append_rtake {m n : ℕ} (h : m ≤ n) (l more : List α) :
    (l.rtake n ++ more).rtake m = (l ++ more).rtake m := by
  have hmore : m - more.length ≤ n := by omega
  simp [List.rtake_eq_reverse_take_reverse, List.take_append, List.take_take,
    Nat.min_eq_left hmore]

/-- What a filter keeps of the newest entries are the newest of what it keeps. -/
theorem filter_rtake (q : α → Bool) (n : ℕ) (l : List α) :
    (l.rtake n).filter q = (l.filter q).rtake ((l.rtake n).filter q).length :=
  (rtake_of_suffix ((rtake_suffix n l).filter q)).symm

/-- A search from the newest entry on, for what is kept by every newer entry, looks at the
newest entry alone. -/
theorem find?_reverse_of_upward {p : α → Bool} {l : List α}
    (h : l.Pairwise fun older newer => p older = true → p newer = true) :
    l.reverse.find? p = l.getLast?.filter p := by
  induction l using List.reverseRecOn with
  | nil => rfl
  | append_singleton l newest _ =>
      rw [List.reverse_append, List.reverse_singleton, List.singleton_append, List.getLast?_concat,
        List.find?_cons, Option.filter_some]
      cases hnewest : p newest with
      | true => rfl
      | false =>
          refine List.find?_eq_none.mpr fun x hx hpx => ?_
          have hup := (List.pairwise_append.mp h).2.2 x (List.mem_reverse.mp hx) newest
            List.mem_cons_self hpx
          rw [hnewest] at hup
          cases hup

/-! ### Appending -/

/-- Dropping old entries before an append does not change what is kept after it. -/
theorem push_rtake (limit : ℕ) (log : List α) (x : α) :
    push limit (log.rtake limit) x = (log ++ [x]).rtake limit := rtake_append_rtake le_rfl log [x]

/-- Entries appended one by one, to a log within its limit. -/
theorem foldl_push {limit : ℕ} {log : List α} (h : log.length ≤ limit) (entries : List α) :
    entries.foldl (push limit) log = (log ++ entries).rtake limit := by
  induction entries using List.reverseRecOn with
  | nil => rw [List.foldl_nil, List.append_nil, rtake_of_length_le h]
  | append_singleton entries x ih =>
      rw [List.foldl_append, List.foldl_cons, List.foldl_nil, ih, push_rtake, List.append_assoc]

theorem length_foldl_push_le {limit : ℕ} {log : List α} (h : log.length ≤ limit)
    (entries : List α) : (entries.foldl (push limit) log).length ≤ limit := by
  rw [foldl_push h, length_rtake]
  exact Nat.min_le_left _ _

/-- What a log becomes by notes of two kinds: `none` starts it afresh, and `some x` appends `x`. -/
def replay (append : List α → α → List α) (log : List α) (notes : List (Option α)) : List α :=
  notes.foldl (fun log note => note.elim [] (append log)) log

/-- The entries since the log was last started afresh. -/
def sinceFresh (notes : List (Option α)) : List α := replay (fun log x => log ++ [x]) [] notes

/-- A bounded log keeps the newest of the entries since it was started afresh. -/
theorem replay_push (limit : ℕ) (notes : List (Option α)) :
    replay (push limit) [] notes = (sinceFresh notes).rtake limit := by
  have hempty : ([] : List α).rtake limit = [] := rtake_of_length_le (Nat.zero_le limit)
  induction notes using List.reverseRecOn with
  | nil => exact hempty.symm
  | append_singleton notes note ih =>
      unfold sinceFresh replay at *
      rw [List.foldl_append, List.foldl_append, ih]
      cases note with
      | none => exact hempty.symm
      | some x => exact push_rtake limit _ x

/-- A reader of at most `limit` entries does not see the bound. -/
theorem rtake_push {m limit : ℕ} (h : m ≤ limit) (log : List α) (x : α) :
    (push limit log x).rtake m = (log ++ [x]).rtake m := by
  rw [push, rtake_rtake, Nat.min_eq_left h]

/-- Appending leaves a list as it was only when it is full of one entry. -/
theorem push_eq_self_iff {limit : ℕ} {log : List α} {x : α} :
    push limit log x = log ↔ log = List.replicate limit x := by
  constructor
  · intro h
    have hlength : log.length = min limit (log.length + 1) := by
      conv_lhs => rw [← h, push, length_rtake, List.length_append, List.length_singleton]
    have hfull : limit = log.length := by omega
    subst hfull
    -- by the equation every entry of the log equals the one after it, and the last is `x`
    have hnext : ∀ i, (log ++ [x])[i + 1]? = log[i]? := by
      intro i
      conv_rhs => rw [← h, push, List.rtake, List.length_append, List.length_singleton,
        Nat.add_sub_cancel_left, List.getElem?_drop, Nat.add_comm]
    have hback : ∀ k, k < log.length → log[log.length - 1 - k]? = some x := by
      intro k
      induction k with
      | zero =>
          intro hk
          rw [← hnext, List.getElem?_append_right (by omega)]
          have hlast : log.length - 1 - 0 + 1 - log.length = 0 := by omega
          rw [hlast]
          rfl
      | succ k ih =>
          intro hk
          rw [← hnext, List.getElem?_append_left (by omega), ← ih (by omega)]
          congr 1
          omega
    apply List.eq_replicate_of_mem
    intro y hy
    obtain ⟨i, hi, rfl⟩ := List.getElem_of_mem hy
    have hlast := hback (log.length - 1 - i) (by omega)
    have hindex : log.length - 1 - (log.length - 1 - i) = i := by omega
    rw [hindex, List.getElem?_eq_getElem hi] at hlast
    exact Option.some.inj hlast
  · intro h
    rw [h, push, ← List.replicate_succ', List.rtake, List.length_replicate, List.drop_replicate,
      Nat.sub_sub_self (Nat.le_succ limit)]

end BoundedLog
