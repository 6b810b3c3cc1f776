import Mathlib.Tactic.Ring
import Mathlib.Tactic.Linarith

/-! # Checked fixed-width arithmetic

Programs compiled with overflow checks compute on machine integers and stop at the first
result that does not fit.  Here such a program is a computation in `Outcome ε`: it ends with
a value or with a `Fault`, which is an arithmetic overflow, a division by zero, or an error
`ε` raised by the program.  Machine integers are integers of `ℤ` and each operation checks
its own result (`I128.add`, `I128.mul`, …).

Four rule sets reason about such programs.

* **Inversion** (`bind_eq_ok`, `require_eq_ok`, `I128.add_eq_ok`, …): what is known once a
  program has returned a value.  Every lemma is an equivalence, so that one `simp only` turns
  a returning program into the conjunction of the facts it checked and computed.
* **Progress** (`Guarded`): `Guarded x P` says that `x` returns a value satisfying `P` unless
  it stops at an overflow.  The rules run through a program forwards and leave exactly the
  checks of the program as goals.
* **Evaluation** (`ok_bind`, `I128.add_of_fits`, …): a program whose intermediate results are
  known to fit is rewritten, step by step, to its value.
* **Faults** (`Avoids`): `Avoids fault x` says that `x` does not stop with `fault`. -/

namespace CheckedArith

/-- Why a computation stopped. -/
inductive Fault (ε : Type) where
  | overflow
  | divByZero
  | raised (e : ε)
deriving DecidableEq, Repr

/-- The result of a checked computation. -/
abbrev Outcome (ε α : Type) := Except (Fault ε) α

variable {ε α β : Type}

/-! ### Raising and requiring -/

/-- Stop with the error `e`. -/
def raise (e : ε) : Outcome ε α := .error (.raised e)

/-- Stop with the error `e` unless `c` holds. -/
def require (c : Prop) [Decidable c] (e : ε) : Outcome ε Unit := if c then .ok () else raise e

/-- The value of an optional cell, or the error `e`. -/
def orRaise (o : Option α) (e : ε) : Outcome ε α := o.elim (raise e) .ok

theorem bind_eq_ok {x : Outcome ε α} {f : α → Outcome ε β} {b : β} :
    (x >>= f) = .ok b ↔ ∃ a, x = .ok a ∧ f a = .ok b := by
  cases x with
  | error e => simp [bind, Except.bind]
  | ok a => simp [bind, Except.bind]

theorem ok_bind {a : α} {f : α → Outcome ε β} : ((.ok a : Outcome ε α) >>= f) = f a := rfl

/-- A computation that has stopped does not go on. -/
theorem error_bind {fault : Fault ε} {f : α → Outcome ε β} :
    ((.error fault : Outcome ε α) >>= f) = .error fault := rfl

theorem map_eq_ok {f : α → β} {x : Outcome ε α} {b : β} :
    f <$> x = .ok b ↔ ∃ a, x = .ok a ∧ f a = b := by
  cases x <;> simp [Functor.map, Except.map]

theorem pure_eq_ok {a b : α} : (pure a : Outcome ε α) = .ok b ↔ a = b := by
  simp [pure, Except.pure]

theorem raise_eq_ok {e : ε} {a : α} : raise e = (.ok a : Outcome ε α) ↔ False := by simp [raise]

theorem require_eq_ok {c : Prop} [Decidable c] {e : ε} {u : Unit} :
    require c e = .ok u ↔ c := by
  unfold require
  split_ifs with h <;> simp [h, raise]

theorem orRaise_eq_ok {o : Option α} {e : ε} {a : α} : orRaise o e = .ok a ↔ o = some a := by
  cases o <;> simp [orRaise, raise]

theorem returns_of_isOk {x : Outcome ε α} (h : x.isOk) : ∃ a, x = .ok a := by
  cases x with
  | error e => cases h
  | ok a => exact ⟨a, rfl⟩

/-- A branch that returns has taken one of its two sides. -/
theorem ite_eq_ok {c : Prop} [Decidable c] {x y : Outcome ε α} {a : α} :
    (if c then x else y) = .ok a ↔ (c ∧ x = .ok a) ∨ (¬ c ∧ y = .ok a) := by
  split_ifs with h <;> simp [h]

/-! ### Faults that cannot occur -/

/-- `x` does not stop with `fault`. -/
def Avoids (fault : Fault ε) (x : Outcome ε α) : Prop := x ≠ .error fault

theorem Avoids.bind {fault : Fault ε} {x : Outcome ε α} {f : α → Outcome ε β}
    (hx : Avoids fault x) (hf : ∀ a, x = .ok a → Avoids fault (f a)) : Avoids fault (x >>= f) := by
  cases x with
  | error e => exact fun h => hx (congrArg Except.error (Except.error.inj h))
  | ok a => exact hf a rfl

theorem avoids_ok {fault : Fault ε} {a : α} : Avoids fault (.ok a : Outcome ε α) :=
  fun h => by cases h

theorem avoids_require {c : Prop} [Decidable c] {fault : Fault ε} {e : ε}
    (h : c ∨ .raised e ≠ fault) : Avoids fault (require c e) := by
  unfold require
  split_ifs with hc
  · exact avoids_ok
  · rcases h with h | h
    · exact absurd h hc
    · exact fun hraised => h (Except.error.inj hraised)

theorem avoids_orRaise {o : Option α} {fault : Fault ε} {e : ε} (h : .raised e ≠ fault) :
    Avoids fault (orRaise o e) := by
  cases o with
  | none => exact fun hraised => h (Except.error.inj hraised)
  | some a => exact avoids_ok

/-! ### Machine integers -/

/-- `x` is representable as a signed integer of `w` bits. -/
def Fits (w : ℕ) (x : ℤ) : Prop := -2 ^ (w - 1) ≤ x ∧ x < 2 ^ (w - 1)

/-- `x` is representable as an unsigned integer of `w` bits. -/
def FitsU (w : ℕ) (x : ℤ) : Prop := 0 ≤ x ∧ x < 2 ^ w

instance (w : ℕ) (x : ℤ) : Decidable (Fits w x) := inferInstanceAs (Decidable (_ ∧ _))
instance (w : ℕ) (x : ℤ) : Decidable (FitsU w x) := inferInstanceAs (Decidable (_ ∧ _))

/-- What lies between zero and a representable integer is representable. -/
theorem Fits.of_le {w : ℕ} {x y : ℤ} (h : Fits w y) (h0 : 0 ≤ x) (hle : x ≤ y) : Fits w x := by
  have hpos : (0 : ℤ) ≤ 2 ^ (w - 1) := by positivity
  exact ⟨by omega, hle.trans_lt h.2⟩

/-- Of a number that is not negative only the magnitude matters. -/
theorem fits_iff_lt {w : ℕ} {x : ℤ} (h0 : 0 ≤ x) : Fits w x ↔ x < 2 ^ (w - 1) := by
  have hpos : (0 : ℤ) ≤ 2 ^ (w - 1) := by positivity
  unfold Fits
  omega

/-- Truncated division by a positive number stays between its dividend and zero. -/
theorem Fits.tdiv {w : ℕ} {a b : ℤ} (h : Fits w a) (hb : 0 < b) : Fits w (a.tdiv b) := by
  rcases le_total 0 a with ha | ha
  · exact h.of_le (Int.tdiv_nonneg ha hb.le) (Int.tdiv_le_self b ha)
  · have hneg : 0 ≤ -a := by omega
    have hle := Int.tdiv_le_self b hneg
    have hpos := Int.tdiv_nonneg hneg hb.le
    have hwidth : (0 : ℤ) < 2 ^ (w - 1) := by positivity
    rw [Int.neg_tdiv] at hle hpos
    exact ⟨by have := h.1; omega, by omega⟩

theorem Fits.of_lt {x : ℤ} (h0 : 0 ≤ x) (h : x < 2 ^ 127) : Fits 128 x := (fits_iff_lt h0).mpr h

/-- The result `x` of a signed operation on `w` bits. -/
def checked (w : ℕ) (x : ℤ) : Outcome ε ℤ := if Fits w x then .ok x else .error .overflow

/-- The result `x` of an unsigned operation on `w` bits. -/
def checkedU (w : ℕ) (x : ℤ) : Outcome ε ℤ := if FitsU w x then .ok x else .error .overflow

theorem checked_eq_ok {w : ℕ} {x y : ℤ} :
    (checked w x : Outcome ε ℤ) = .ok y ↔ Fits w x ∧ x = y := by
  unfold checked
  split_ifs with h <;> simp [h]

theorem checkedU_eq_ok {w : ℕ} {x y : ℤ} :
    (checkedU w x : Outcome ε ℤ) = .ok y ↔ FitsU w x ∧ x = y := by
  unfold checkedU
  split_ifs with h <;> simp [h]

/-- Arithmetic raises nothing. -/
theorem avoids_checked {w : ℕ} {x : ℤ} {e : ε} :
    Avoids (.raised e) (checked w x : Outcome ε ℤ) := by
  unfold checked
  split_ifs with h
  · exact avoids_ok
  · exact fun h => by cases h

theorem avoids_checkedU {w : ℕ} {x : ℤ} {e : ε} :
    Avoids (.raised e) (checkedU w x : Outcome ε ℤ) := by
  unfold checkedU
  split_ifs with h
  · exact avoids_ok
  · exact fun h => by cases h

namespace I128

def add (a b : ℤ) : Outcome ε ℤ := checked 128 (a + b)
def sub (a b : ℤ) : Outcome ε ℤ := checked 128 (a - b)
def mul (a b : ℤ) : Outcome ε ℤ := checked 128 (a * b)

/-- Division truncates towards zero. -/
def div (a b : ℤ) : Outcome ε ℤ := if b = 0 then .error .divByZero else checked 128 (a.tdiv b)

def pow (a : ℤ) (n : ℕ) : Outcome ε ℤ := checked 128 (a ^ n)

/-- `checked_mul`: no result instead of an overflow. -/
def checkedMul (a b : ℤ) : Option ℤ := if Fits 128 (a * b) then some (a * b) else none

/-- `checked_add`. -/
def checkedAdd (a b : ℤ) : Option ℤ := if Fits 128 (a + b) then some (a + b) else none

theorem add_eq_ok {a b c : ℤ} : (add a b : Outcome ε ℤ) = .ok c ↔ Fits 128 (a + b) ∧ a + b = c :=
  checked_eq_ok

theorem sub_eq_ok {a b c : ℤ} : (sub a b : Outcome ε ℤ) = .ok c ↔ Fits 128 (a - b) ∧ a - b = c :=
  checked_eq_ok

theorem mul_eq_ok {a b c : ℤ} : (mul a b : Outcome ε ℤ) = .ok c ↔ Fits 128 (a * b) ∧ a * b = c :=
  checked_eq_ok

theorem div_eq_ok {a b c : ℤ} :
    (div a b : Outcome ε ℤ) = .ok c ↔ b ≠ 0 ∧ Fits 128 (a.tdiv b) ∧ a.tdiv b = c := by
  unfold div
  split_ifs with h
  · simp [h]
  · simp [h, checked_eq_ok]

theorem pow_eq_ok {a c : ℤ} {n : ℕ} :
    (pow a n : Outcome ε ℤ) = .ok c ↔ Fits 128 (a ^ n) ∧ a ^ n = c := checked_eq_ok

theorem add_of_fits {a b : ℤ} (h : Fits 128 (a + b)) : (add a b : Outcome ε ℤ) = .ok (a + b) :=
  if_pos h

theorem sub_of_fits {a b : ℤ} (h : Fits 128 (a - b)) : (sub a b : Outcome ε ℤ) = .ok (a - b) :=
  if_pos h

theorem mul_of_fits {a b : ℤ} (h : Fits 128 (a * b)) : (mul a b : Outcome ε ℤ) = .ok (a * b) :=
  if_pos h

theorem div_of_fits {a b : ℤ} (hb : b ≠ 0) (h : Fits 128 (a.tdiv b)) :
    (div a b : Outcome ε ℤ) = .ok (a.tdiv b) :=
  (if_neg hb).trans (if_pos h)

theorem avoids_div {a b : ℤ} {e : ε} : Avoids (.raised e) (div a b : Outcome ε ℤ) := by
  unfold div
  split_ifs with h
  · exact fun h => by cases h
  · exact avoids_checked

theorem checkedMul_eq_some {a b c : ℤ} :
    checkedMul a b = some c ↔ Fits 128 (a * b) ∧ a * b = c := by
  unfold checkedMul
  split_ifs with h <;> simp [h]

theorem checkedAdd_eq_some {a b c : ℤ} :
    checkedAdd a b = some c ↔ Fits 128 (a + b) ∧ a + b = c := by
  unfold checkedAdd
  split_ifs with h <;> simp [h]

end I128

/-! ### Progress up to overflow -/

/-- `x` returns a value satisfying `P`, unless it stops at an overflow. -/
def Guarded (x : Outcome ε α) (P : α → Prop) : Prop :=
  match x with
  | .ok a => P a
  | .error .overflow => True
  | .error _ => False

theorem Guarded.mono {x : Outcome ε α} {P Q : α → Prop} (h : Guarded x P)
    (hPQ : ∀ a, P a → Q a) : Guarded x Q := by
  cases x with
  | ok a => exact hPQ a h
  | error e => cases e <;> exact h

theorem Guarded.bind {x : Outcome ε α} {f : α → Outcome ε β} {P : β → Prop}
    (h : Guarded x (fun a => Guarded (f a) P)) : Guarded (x >>= f) P := by
  cases x with
  | ok a => exact h
  | error e => cases e <;> exact h

/-- A returned value satisfies the guarantee. -/
theorem Guarded.of_ok {x : Outcome ε α} {P : α → Prop} (h : Guarded x P) {a : α}
    (hx : x = .ok a) : P a := by
  subst hx
  exact h

/-- A guarded computation that did not overflow has returned. -/
theorem Guarded.returns {x : Outcome ε α} {P : α → Prop} (h : Guarded x P)
    (hx : x ≠ .error .overflow) : ∃ a, x = .ok a ∧ P a := by
  cases x with
  | ok a => exact ⟨a, rfl, h⟩
  | error e =>
      cases e with
      | overflow => exact absurd rfl hx
      | divByZero => exact h.elim
      | raised e => exact h.elim

theorem guarded_ok {a : α} {P : α → Prop} : Guarded (.ok a : Outcome ε α) P ↔ P a := Iff.rfl

theorem guarded_pure {a : α} {P : α → Prop} : Guarded (pure a : Outcome ε α) P ↔ P a := Iff.rfl

theorem guarded_require {c : Prop} [Decidable c] {e : ε} {P : Unit → Prop} (hc : c)
    (hP : P ()) : Guarded (require c e) P := by
  rw [require, if_pos hc]
  exact hP

theorem guarded_orRaise {o : Option α} {e : ε} {a : α} {P : α → Prop} (ho : o = some a)
    (hP : P a) : Guarded (orRaise o e) P := by
  subst ho
  exact hP

theorem guarded_checked {w : ℕ} {x : ℤ} {P : ℤ → Prop} (h : Fits w x → P x) :
    Guarded (checked w x : Outcome ε ℤ) P := by
  unfold checked
  split_ifs with hx
  · exact h hx
  · trivial

theorem I128.guarded_div {a b : ℤ} {P : ℤ → Prop} (hb : b ≠ 0)
    (h : Fits 128 (a.tdiv b) → P (a.tdiv b)) : Guarded (I128.div a b : Outcome ε ℤ) P := by
  rw [I128.div, if_neg hb]
  exact guarded_checked h

end CheckedArith
