import YieldEngine.SortedMap

/-! # Records under issued numbers

A store numbers its records: the next record gets the number `next`, numbers start at `first`,
and a record is never removed, though it may be replaced under its number.  `Issued` relates
such a store to the list of the numbers issued so far, oldest first.  Each number was issued
once, the stored keys are the issued numbers, and every record is good for its number.

The rules follow the life of a store: `Issued.start`, `Issued.create`, `Issued.replace`.  What is
issued next was never issued before (`Issued.next_not_mem`). -/

namespace IssuedNumbers

variable {ν : Type}

/-- The records are stored under the numbers `log`, issued in this order from `first` on, and
each of them is `good`. -/
structure Issued (good : ℕ → ν → Prop) (first next : ℕ) (log : List ℕ) (records : SortedMap ℕ ν) :
    Prop where
  first_le : first ≤ next
  range : ∀ id ∈ log, first ≤ id ∧ id < next
  ordered : log.Pairwise (· < ·)
  stored : ∀ id, records.contains id = true ↔ id ∈ log
  good : ∀ id record, records.get id = some record → good id record

theorem contains_set (records : SortedMap ℕ ν) (id key : ℕ) (record : ν) :
    (records.set id record).contains key = true ↔ key = id ∨ records.contains key = true := by
  rw [SortedMap.contains, SortedMap.get_set, SortedMap.contains]
  split_ifs with hkey
  · exact iff_of_true rfl (.inl hkey)
  · exact (or_iff_right hkey).symm

namespace Issued
variable {good : ℕ → ν → Prop} {first next : ℕ} {log : List ℕ} {records : SortedMap ℕ ν}

theorem start (good : ℕ → ν → Prop) (first : ℕ) : Issued good first first [] SortedMap.empty where
  first_le := le_rfl
  range := fun _ h => by cases h
  ordered := List.Pairwise.nil
  stored := fun _ => iff_of_false Bool.noConfusion List.not_mem_nil
  good := fun _ _ h => by cases h

theorem next_not_mem (h : Issued good first next log records) : next ∉ log :=
  fun hmem => lt_irrefl next (h.range next hmem).2

/-- A written record is good, the others are as they were. -/
theorem good_set (h : Issued good first next log records) {id : ℕ} {record : ν}
    (hrecord : good id record) :
    ∀ key found, (records.set id record).get key = some found → good key found := by
  intro key found hfound
  rw [SortedMap.get_set] at hfound
  split_ifs at hfound with hkey
  · obtain rfl := Option.some.inj hfound
    rwa [hkey]
  · exact h.good key found hfound

theorem create (h : Issued good first next log records) {record : ν}
    (hrecord : good next record) :
    Issued good first (next + 1) (log ++ [next]) (records.set next record) where
  first_le := h.first_le.trans (Nat.le_succ next)
  range := by
    intro id hid
    rcases List.mem_append.mp hid with hid | hid
    · have hrange := h.range id hid
      omega
    · have hfirst := h.first_le
      obtain rfl := List.mem_singleton.mp hid
      omega
  ordered := by
    refine List.pairwise_append.mpr ⟨h.ordered, List.pairwise_singleton _ _, ?_⟩
    intro id hid newest hnewest
    obtain rfl := List.mem_singleton.mp hnewest
    exact (h.range id hid).2
  stored := by
    intro id
    rw [contains_set, h.stored, List.mem_append, List.mem_singleton, or_comm]
  good := h.good_set hrecord

theorem replace (h : Issued good first next log records) {id : ℕ} {record : ν}
    (hknown : records.contains id = true) (hrecord : good id record) :
    Issued good first next log (records.set id record) where
  first_le := h.first_le
  range := h.range
  ordered := h.ordered
  stored := by
    intro key
    rw [contains_set, h.stored]
    constructor
    · rintro (rfl | hkey)
      · exact (h.stored key).mp hknown
      · exact hkey
    · exact .inr
  good := h.good_set hrecord

end Issued
end IssuedNumbers
