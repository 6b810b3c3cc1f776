import YieldEngine.BoundedLog
import YieldEngine.Pages

/-! # Loops over the newest entries of a log

A program keeps and reads the newest entries of a vector with one loop, which copies the entries
from a position to the end, one `get` after the other.  `trimmed` cuts a vector that has become too
long, and `newest` reads at most so many entries.  Neither loop passes the end, and what they copy
are the newest entries (`trimmed_concat`, `newest_eq`). -/

namespace LogLoops

open CheckedArith BoundedLog

variable {ε α : Type}

/-- Copy the items from the position `start` to the end. -/
def copyFrom (missing : ε) (l : List α) (start : ℕ) : Outcome ε (List α) :=
  Pages.copyItems missing l (l.length - start) start

/-- The vector, or a copy of its last `limit` items where it has more. -/
def trimmed (missing : ε) (limit : ℕ) (l : List α) : Outcome ε (List α) :=
  if limit < l.length then copyFrom missing l (l.length - limit) else pure l

/-- A copy of the last `limit` items, or of all of them. -/
def newest (missing : ε) (l : List α) (limit : ℕ) : Outcome ε (List α) :=
  copyFrom missing l (if limit < l.length then l.length - limit else 0)

section loops
variable (missing : ε) (l : List α)

theorem copyFrom_eq {start : ℕ} (h : start ≤ l.length) :
    copyFrom missing l start = .ok (l.drop start) := by
  rw [copyFrom, Pages.copyItems_eq (by omega), Pages.page, List.take_of_length_le]
  rw [List.length_drop]

/-- Appending and cutting is a push. -/
theorem trimmed_concat (limit : ℕ) (x : α) :
    trimmed missing limit (l ++ [x]) = .ok (push limit l x) := by
  unfold trimmed
  split_ifs with hlong
  · exact copyFrom_eq missing _ (Nat.sub_le _ _)
  · rw [push, rtake_of_length_le (not_lt.mp hlong)]
    rfl

theorem newest_eq (limit : ℕ) : newest missing l limit = .ok (l.rtake limit) := by
  unfold newest
  split_ifs with hlong
  · exact copyFrom_eq missing l (Nat.sub_le _ _)
  · rw [copyFrom_eq missing l (Nat.zero_le _), List.drop_zero,
      rtake_of_length_le (not_lt.mp hlong)]

end loops

end LogLoops
