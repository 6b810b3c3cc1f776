import Mathlib.Data.List.Basic
import Mathlib.Data.List.Nodup
import Mathlib.Data.List.Range

/-! # Reading a log page by page

A `Log` holds items in numbered slots, and every item has a name of its own.  A reader
receives the items in order, some at a time, and keeps a position to resume at: the first slot
not read yet, or the name of the last item received, after which it continues.

`Resumes` says that a position fits what has been received from the slot `start` on.  A page
that was cut off leaves the position after its last item (`Resumes.cut`); a page with all that
was left up to a slot leaves it at the slot after that (`Resumes.drain`). -/

namespace PagedLog

variable {α ι : Type}

/-- The items of the slots from `a` up to but not including `b`. -/
def between (items : ℕ → List α) (a b : ℕ) : List α := (List.range' a (b - a)).flatMap items

/-- A log whose items know their slot and have names of their own. -/
structure Log (α ι : Type) where
  items : ℕ → List α
  slot : α → ℕ
  name : α → ι
  slotted : ∀ n x, x ∈ items n → slot x = n
  named : ∀ b, ((between items 0 b).map name).Nodup

/-- The items after the first one called `i`. -/
def following [DecidableEq ι] (name : α → ι) (i : ι) (l : List α) : List α :=
  (l.dropWhile (fun x => name x ≠ i)).tail

/-! ### Ranges of slots -/

section ranges
variable (items : ℕ → List α)

@[simp] theorem between_self (a : ℕ) : between items a a = [] := by simp [between]

theorem between_of_le {a b : ℕ} (h : b ≤ a) : between items a b = [] := by
  simp [between, Nat.sub_eq_zero_of_le h]

theorem between_append {a b c : ℕ} (hab : a ≤ b) (hbc : b ≤ c) :
    between items a b ++ between items b c = between items a c := by
  unfold between
  rw [← List.flatMap_append]
  congr 1
  have hrange := List.range'_append_1 (s := a) (m := b - a) (n := c - b)
  rw [Nat.add_sub_cancel' hab] at hrange
  rw [hrange]
  congr 1
  omega

theorem between_prefix {a b c : ℕ} (h : b ≤ c) : between items a b <+: between items a c := by
  rcases le_total a b with hab | hba
  · rw [← between_append items hab h]
    exact List.prefix_append _ _
  · rw [between_of_le items hba]
    exact List.nil_prefix

theorem mem_between {a b : ℕ} {x : α} :
    x ∈ between items a b ↔ ∃ n, a ≤ n ∧ n < b ∧ x ∈ items n := by
  simp only [between, List.mem_flatMap, List.mem_range'_1]
  constructor
  · rintro ⟨n, hn, hx⟩
    exact ⟨n, hn.1, by omega, hx⟩
  · rintro ⟨n, ha, hb, hx⟩
    exact ⟨n, ⟨ha, by omega⟩, hx⟩

/-- The items of a kind in a range are the range of the items of that kind. -/
theorem filter_between (p : α → Bool) (a b : ℕ) :
    (between items a b).filter p = between (fun n => (items n).filter p) a b :=
  List.filter_flatMap

end ranges

/-- What follows an item that is the first of its name. -/
theorem following_append [DecidableEq ι] {name : α → ι} {l rest : List α} {x : α}
    (h : name x ∉ l.map name) : following name (name x) (l ++ x :: rest) = rest := by
  have hl : ∀ y ∈ l, decide (name y ≠ name x) = true := by
    intro y hy
    simp only [decide_eq_true_eq]
    intro heq
    exact h (heq ▸ List.mem_map_of_mem hy)
  unfold following
  rw [List.dropWhile_append_of_pos hl, List.dropWhile_cons_of_neg (by simp), List.tail_cons]

/-- What follows an item among those of a kind is what follows it, less the others. -/
theorem following_filter [DecidableEq ι] {name : α → ι} {p : α → Bool} {i : ι} {l : List α}
    (hnames : (l.map name).Nodup) (h : i ∈ (l.filter p).map name) :
    following name i (l.filter p) = (following name i l).filter p := by
  obtain ⟨x, hx, rfl⟩ := List.mem_map.mp h
  obtain ⟨hmem, hkind⟩ := List.mem_filter.mp hx
  obtain ⟨before, after, rfl⟩ := List.append_of_mem hmem
  have hfresh : name x ∉ before.map name := by
    intro hbefore
    rw [List.map_append, List.map_cons] at hnames
    exact (List.nodup_append.mp hnames).2.2 _ hbefore _ List.mem_cons_self rfl
  have hfresh' : name x ∉ (before.filter p).map name := fun hbefore =>
    hfresh ((List.filter_sublist.map name).subset hbefore)
  rw [following_append hfresh, List.filter_append, List.filter_cons_of_pos hkind,
    following_append hfresh']

/-- A prefix that ends in an item of the first part is a prefix of that part. -/
theorem prefix_left_of_last {l a b : List α} {x : α} (h : l ++ [x] <+: a ++ b) (hx : x ∉ b) :
    l ++ [x] <+: a := by
  by_cases hlen : (l ++ [x]).length ≤ a.length
  · exact List.prefix_of_prefix_length_le h (List.prefix_append a b) hlen
  · have ha : a <+: l := by
      have hle : a.length ≤ l.length := by
        simp only [List.length_append, List.length_singleton] at hlen
        omega
      exact List.prefix_of_prefix_length_le (List.prefix_append a b)
        ((List.prefix_append l [x]).trans h) hle
    obtain ⟨t, rfl⟩ := ha
    rw [List.append_assoc, List.prefix_append_right_inj] at h
    exact absurd (h.subset (by simp)) hx

/-! ### Positions of a reader -/

/-- Where a reader resumes: at a slot, or after a named item. -/
inductive Position (ι : Type) where
  | slot (n : ℕ)
  | after (i : ι)

variable (log : Log α ι) (start : ℕ)

/-- The position fits what was received from `start` on. -/
def Resumes (received : List α) : Position ι → Prop
  | .slot n => start ≤ n ∧ received = between log.items start n
  | .after i => ∃ l x, received = l ++ [x] ∧ log.name x = i ∧
      received <+: between log.items start (log.slot x + 1)

/-- What the slots below `bound` hold beyond the position. -/
def remaining [DecidableEq ι] (bound : ℕ) : Position ι → List α
  | .slot n => between log.items n bound
  | .after i => following log.name i (between log.items 0 bound)

/-- The slot a reader that has received all of the slots below `bound` resumes at. -/
def drainedTo (bound : ℕ) : Position ι → ℕ
  | .slot n => max n bound
  | .after _ => bound

variable {log start} {received : List α} {position : Position ι} {bound : ℕ}

theorem mem_of_prefix_between {l : List α} {x : α} {a b : ℕ} (h : l <+: between log.items a b)
    (hx : x ∈ l) : a ≤ log.slot x ∧ log.slot x < b := by
  obtain ⟨n, ha, hb, hn⟩ := (mem_between log.items).mp (h.subset hx)
  rw [log.slotted n x hn]
  exact ⟨ha, hb⟩

/-- Only the slots below the bound are read. -/
theorem mem_remaining [DecidableEq ι] {x : α} (hx : x ∈ remaining log bound position) :
    ∃ n, n < bound ∧ x ∈ log.items n := by
  cases position with
  | slot n =>
      obtain ⟨k, -, hk, hmem⟩ := (mem_between log.items).mp hx
      exact ⟨k, hk, hmem⟩
  | after i =>
      have hsuffix := (List.dropWhile_suffix _).subset (List.mem_of_mem_tail hx)
      obtain ⟨k, -, hk, hmem⟩ := (mem_between log.items).mp hsuffix
      exact ⟨k, hk, hmem⟩

/-- Items with the names of others are not in their way: a name occurs once. -/
theorem name_not_mem {l rest : List α} {x : α} (h : between log.items 0 bound = l ++ x :: rest) :
    log.name x ∉ l.map log.name := by
  have hnodup := log.named bound
  rw [h, List.map_append, List.map_cons] at hnodup
  intro hmem
  exact (List.nodup_append.mp hnodup).2.2 _ hmem _ List.mem_cons_self rfl

variable [DecidableEq ι]

/-- What was received and what remains make up the log, without gap or repetition. -/
theorem Resumes.append_remaining (h : Resumes log start received position)
    (hbound : ∀ x ∈ received, log.slot x < bound) :
    received ++ remaining log bound position =
      between log.items start (drainedTo bound position) := by
  cases position with
  | slot n =>
      obtain ⟨hstart, rfl⟩ := h
      simp only [remaining, drainedTo]
      rcases le_total n bound with hle | hle
      · rw [max_eq_right hle]
        exact between_append log.items hstart hle
      · rw [max_eq_left hle, between_of_le log.items hle, List.append_nil]
  | after i =>
      obtain ⟨l, x, rfl, rfl, hcut⟩ := h
      obtain ⟨hstart, -⟩ := mem_of_prefix_between hcut (x := x) (by simp)
      have hx : log.slot x + 1 ≤ bound := hbound x (by simp)
      have hread : l ++ [x] <+: between log.items start bound := by
        rw [← between_append log.items (show start ≤ log.slot x + 1 by omega) hx]
        exact hcut.trans (List.prefix_append _ _)
      obtain ⟨rest, hrest⟩ := hread
      have hlog : between log.items 0 bound = (between log.items 0 start ++ l) ++ x :: rest := by
        rw [← between_append log.items (Nat.zero_le start) (show start ≤ bound by omega), ← hrest]
        simp
      simp only [remaining, drainedTo]
      rw [hlog, following_append (name_not_mem hlog), hrest]

omit [DecidableEq ι] in
theorem Resumes.start_le (h : Resumes log start received position)
    (hbound : ∀ x ∈ received, log.slot x < bound) : start ≤ drainedTo bound position := by
  cases position with
  | slot n => exact h.1.trans (le_max_left n bound)
  | after i =>
      obtain ⟨l, x, rfl, rfl, hcut⟩ := h
      obtain ⟨hstart, -⟩ := mem_of_prefix_between hcut (x := x) (by simp)
      exact hstart.trans (hbound x (by simp)).le

/-- After all that was left below `bound`, the reader resumes at the next slot. -/
theorem Resumes.drain (h : Resumes log start received position)
    (hbound : ∀ x ∈ received, log.slot x < bound) :
    Resumes log start (received ++ remaining log bound position)
      (.slot (drainedTo bound position)) :=
  ⟨h.start_le hbound, h.append_remaining hbound⟩

/-- After a page that was cut off, the reader resumes after its last item. -/
theorem Resumes.cut (h : Resumes log start received position)
    (hbound : ∀ x ∈ received, log.slot x < bound) {l : List α} {x : α}
    (hpage : l ++ [x] <+: remaining log bound position) :
    Resumes log start (received ++ (l ++ [x])) (.after (log.name x)) := by
  refine ⟨received ++ l, x, by simp, rfl, ?_⟩
  have hread : received ++ l ++ [x] <+: between log.items start (drainedTo bound position) := by
    rw [← h.append_remaining hbound, List.append_assoc]
    exact (List.prefix_append_right_inj received).mpr hpage
  obtain ⟨hstart, hlt⟩ := mem_of_prefix_between hread (x := x) (by simp)
  rw [← between_append log.items (show start ≤ log.slot x + 1 by omega) hlt] at hread
  rw [← List.append_assoc]
  refine prefix_left_of_last hread ?_
  intro hmem
  obtain ⟨n, hn, -, hx⟩ := (mem_between log.items).mp hmem
  rw [log.slotted n x hx] at hn
  omega

omit [DecidableEq ι] in
/-- A position does not fit what was received and something more. -/
theorem Resumes.more_eq_nil {more : List α} (h : Resumes log start received position)
    (h' : Resumes log start (received ++ more) position) : more = [] := by
  cases position with
  | slot n =>
      have heq : received ++ more = received := h'.2.trans h.2.symm
      simpa using heq
  | after i =>
      obtain ⟨l, x, rfl, rfl, -⟩ := h
      obtain ⟨l', x', hlast, hname, hcut⟩ := h'
      rcases List.eq_nil_or_concat more with rfl | ⟨init, y, rfl⟩
      · rfl
      · -- the last item would have the name of an earlier one
        rw [List.concat_eq_append, ← List.append_assoc] at hlast hcut
        obtain ⟨-, hy⟩ := List.append_inj' hlast rfl
        obtain rfl := List.singleton_inj.mp hy
        have hwhole : between log.items start (log.slot y + 1) <:+
            between log.items 0 (log.slot y + 1) := by
          obtain ⟨hstart, -⟩ := mem_of_prefix_between hcut (x := y) (by simp)
          rw [← between_append log.items (Nat.zero_le start) (show start ≤ log.slot y + 1 by omega)]
          exact List.suffix_append _ _
        have hnodup : ((l ++ [x] ++ init ++ [y]).map log.name).Nodup :=
          (log.named _).sublist ((hcut.sublist.trans hwhole.sublist).map log.name)
        rw [List.map_append] at hnodup
        have hdistinct := (List.nodup_append.mp hnodup).2.2
        exact absurd hname.symm (hdistinct (log.name x) (by simp) (log.name y) (by simp))

omit [DecidableEq ι] in
/-- What a fitting reader has received is a prefix of the log. -/
theorem Resumes.isPrefix (h : Resumes log start received position) :
    ∃ b, received <+: between log.items start b := by
  cases position with
  | slot n => exact ⟨n, h.2 ▸ List.prefix_refl _⟩
  | after i =>
      obtain ⟨l, x, -, -, hcut⟩ := h
      exact ⟨_, hcut⟩

end PagedLog
