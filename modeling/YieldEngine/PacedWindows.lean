import Mathlib.Algebra.BigOperators.Group.List.Basic
import Mathlib.Data.List.Induction
import Mathlib.Tactic.Ring

/-! # Charges paced by windows

A party's charges are split into windows.  A window opens at a charge and lasts until the
first charge at least `length` later, which opens the next one (`place`, `windows`).  A budget
bounds what may be charged to a window by what the party held when the window opened
(`Within`).  A log need not begin with a fresh window: `prior` is the window already open when
it begins, with the amount charged to it before.

`windows_isSplit` says that the windows are a split of the log: they contain its charges in
order, each window opens at least `length` after the one before, and each charge falls within
`length` of the opening of its window.  `Within.place` is the step of a budget argument: only
the window charged last has to be checked. -/

namespace PacedWindows

/-- A charge, with what the charged party held just before it. -/
structure Charge where
  time : ℕ
  amount : ℤ
  held : ℤ

/-- A window, with the charges of the log that fall into it and the amount `carried` from
before the log. -/
structure Window where
  openedAt : ℕ
  held : ℤ
  carried : ℤ
  charges : List Charge

/-- Everything charged to a window. -/
def Window.total (w : Window) : ℤ := w.carried + (w.charges.map Charge.amount).sum

/-- The window a charge opens. -/
def Charge.opens (c : Charge) : Window := ⟨c.time, c.held, 0, [c]⟩

def Window.add (w : Window) (c : Charge) : Window := { w with charges := w.charges ++ [c] }

/-- Put a charge into the newest window, or into a new one once that has run its length.  The
newest window stands first. -/
def place (length : ℕ) (c : Charge) : List Window → List Window
  | [] => [c.opens]
  | w :: ws => if w.openedAt + length ≤ c.time then c.opens :: w :: ws else w.add c :: ws

/-- The windows after the charges of a log. -/
def windows (length : ℕ) (prior : List Window) (log : List Charge) : List Window :=
  log.foldl (fun ws c => place length c ws) prior

/-- No window the log charges exceeds the budget of its opening. -/
def Within (budget : ℤ → ℤ) (ws : List Window) : Prop :=
  ∀ w ∈ ws, w.charges ≠ [] → w.total ≤ budget w.held

variable {length : ℕ} {budget : ℤ → ℤ} {ws prior : List Window} {c : Charge} {log : List Charge}

theorem Window.total_add (w : Window) (c : Charge) : (w.add c).total = w.total + c.amount := by
  simp only [total, add, List.map_append, List.map_cons, List.map_nil, List.sum_append,
    List.sum_cons, List.sum_nil]
  ring

theorem Charge.total_opens (c : Charge) : c.opens.total = c.amount := by
  simp [Window.total, Charge.opens]

theorem place_cons (length : ℕ) (c : Charge) (w : Window) (ws : List Window) :
    place length c (w :: ws) =
      if w.openedAt + length ≤ c.time then c.opens :: w :: ws else w.add c :: ws := rfl

theorem windows_snoc (length : ℕ) (prior : List Window) (log : List Charge) (c : Charge) :
    windows length prior (log ++ [c]) = place length c (windows length prior log) := by
  simp only [windows, List.foldl_append, List.foldl_cons, List.foldl_nil]

/-! ### Budgets -/

/-- A charge keeps the budget when the window it goes into is within it. -/
theorem Within.place (h : Within budget ws)
    (hnew : ∀ w ∈ (place length c ws).head?, w.total ≤ budget w.held) :
    Within budget (place length c ws) := by
  cases ws with
  | nil =>
      intro w hw _
      obtain rfl := List.mem_singleton.mp hw
      exact hnew _ rfl
  | cons v ws =>
      rw [place_cons] at hnew ⊢
      split_ifs at hnew ⊢ with hover
      · intro w hw hcharges
        obtain rfl | hw := List.mem_cons.mp hw
        · exact hnew _ rfl
        · exact h w hw hcharges
      · intro w hw hcharges
        obtain rfl | hw := List.mem_cons.mp hw
        · exact hnew _ rfl
        · exact h w (List.mem_cons_of_mem _ hw) hcharges

/-! ### The windows split the log -/

structure IsSplit (length : ℕ) (log : List Charge) (ws : List Window) : Prop where
  charges : ws.reverse.flatMap Window.charges = log
  apart : ws.Pairwise fun newer older => older.openedAt + length ≤ newer.openedAt
  live : ∀ w ∈ ws, ∀ c ∈ w.charges, c.time < w.openedAt + length

theorem IsSplit.place (hlength : 0 < length) (h : IsSplit length log ws) :
    IsSplit length (log ++ [c]) (place length c ws) := by
  cases ws with
  | nil =>
      have hlog : log = [] := h.charges.symm
      subst hlog
      refine ⟨rfl, List.pairwise_singleton _ _, fun w hw d hd => ?_⟩
      obtain rfl := List.mem_singleton.mp hw
      obtain rfl := List.mem_singleton.mp hd
      exact Nat.lt_add_of_pos_right hlength
  | cons v ws =>
      obtain ⟨hv, hws⟩ := List.pairwise_cons.mp h.apart
      have hcharges := h.charges
      simp only [List.reverse_cons, List.flatMap_append, List.flatMap_cons, List.flatMap_nil,
        List.append_nil] at hcharges
      rw [place_cons]
      split_ifs with hover
      · refine ⟨?_, List.pairwise_cons.mpr ⟨fun w hw => ?_, h.apart⟩, fun w hw d hd => ?_⟩
        · simp only [List.reverse_cons, List.flatMap_append, List.flatMap_cons, List.flatMap_nil,
            List.append_nil, hcharges]
          rfl
        · obtain rfl | hw := List.mem_cons.mp hw
          · exact hover
          · have hold := hv w hw
            change w.openedAt + length ≤ c.time
            omega
        · obtain rfl | hw := List.mem_cons.mp hw
          · obtain rfl := List.mem_singleton.mp hd
            exact Nat.lt_add_of_pos_right hlength
          · exact h.live w hw d hd
      · refine ⟨?_, List.pairwise_cons.mpr ⟨hv, hws⟩, fun w hw d hd => ?_⟩
        · simp only [List.reverse_cons, List.flatMap_append, List.flatMap_cons, List.flatMap_nil,
            List.append_nil, Window.add]
          rw [← List.append_assoc, hcharges]
        · obtain rfl | hw := List.mem_cons.mp hw
          · obtain hd | hd := List.mem_append.mp hd
            · exact h.live v List.mem_cons_self d hd
            · obtain rfl := List.mem_singleton.mp hd
              exact not_le.mp hover
          · exact h.live w (List.mem_cons_of_mem _ hw) d hd

/-- Where the charges of a log stand for its entries, the windows split the entries too. -/
theorem exists_blocks {α : Type} (charge : α → Charge) :
    ∀ {ws : List Window} {entries : List α},
      ws.flatMap Window.charges = entries.map charge →
      ∃ blocks : List (List α), blocks.flatten = entries ∧
        List.Forall₂ (fun block w => w.charges = block.map charge) blocks ws := by
  intro ws
  induction ws with
  | nil =>
      intro entries h
      obtain rfl := List.map_eq_nil_iff.mp h.symm
      exact ⟨[], rfl, .nil⟩
  | cons w ws ih =>
      intro entries h
      obtain ⟨block, rest, rfl, hblock, hrest⟩ := List.map_eq_append_iff.mp h.symm
      obtain ⟨blocks, rfl, hblocks⟩ := ih hrest.symm
      exact ⟨block :: blocks, rfl, .cons hblock.symm hblocks⟩

theorem windows_isSplit (hlength : 0 < length) (hprior : IsSplit length [] prior)
    (log : List Charge) : IsSplit length log (windows length prior log) := by
  induction log using List.reverseRecOn with
  | nil => exact hprior
  | append_singleton log c ih =>
      rw [windows_snoc]
      exact ih.place hlength

end PacedWindows
