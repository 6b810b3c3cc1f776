import Mathlib.Algebra.Order.Floor.Semifield
import Mathlib.Data.List.DropRight
import Mathlib.Data.Rat.Floor
import Mathlib.Tactic.FieldSimp
import Mathlib.Tactic.IntervalCases
import Mathlib.Tactic.Ring

/-! # Decimal numerals

Numerals are lists of decimal digits, `value` is the number that one is, and `numeral n` the one of
`n` without leading zeros (`numeral_value`).  A `Decimal` has digits behind a point as well, and an
exact rational value.

`units places` is the value in units of the last of `places` digits behind the point, where further
digits are cut off; by `units_eq_floor` it is rounded down.  `ofUnits places n` is the canonical
numeral of `n` such units, and there is only one of a value (`eq_of_canonical`). -/

namespace DecimalNumerals

/-- All characters are decimal digits. -/
def Digits (l : List Char) : Prop := ∀ c ∈ l, c.isDigit = true

instance (l : List Char) : Decidable (Digits l) :=
  List.decidableBAll (fun c : Char => c.isDigit = true) l

/-- The number that the digits are. -/
def value (l : List Char) : ℕ := Nat.ofDigitChars 10 l 0

/-- The digits of a number. -/
def numeral (n : ℕ) : List Char := Nat.toDigits 10 n

/-! ### Lists of digits -/

theorem digits_append {a b : List Char} : Digits (a ++ b) ↔ Digits a ∧ Digits b :=
  List.forall_mem_append

theorem Digits.sublist {a b : List Char} (h : Digits b) (hsub : a.Sublist b) : Digits a :=
  fun c hc => h c (hsub.mem hc)

theorem digits_zeros (n : ℕ) : Digits (List.replicate n '0') := by
  intro c hc
  rw [List.eq_of_mem_replicate hc]
  rfl

@[simp] theorem value_nil : value [] = 0 := Nat.ofDigitChars_nil

theorem value_append (a b : List Char) : value (a ++ b) = 10 ^ b.length * value a + value b := by
  unfold value
  rw [Nat.ofDigitChars_append, Nat.ofDigitChars_eq_ofDigitChars_zero]

@[simp] theorem value_zeros (n : ℕ) : value (List.replicate n '0') = 0 := by
  rw [value, Nat.ofDigitChars_replicate_zero, Nat.mul_zero]

theorem value_append_zeros (a : List Char) (n : ℕ) :
    value (a ++ List.replicate n '0') = 10 ^ n * value a := by
  rw [value_append, value_zeros, List.length_replicate, Nat.add_zero]

theorem value_singleton (c : Char) : value [c] = c.toNat - 48 := by
  rw [value, Nat.ofDigitChars_cons, Nat.ofDigitChars_nil, Nat.mul_zero, Nat.zero_add]
  rfl

theorem value_digit_lt {c : Char} (h : c.isDigit = true) : value [c] < 10 := by
  have hbounds : '0'.toNat ≤ c.toNat ∧ c.toNat ≤ '9'.toNat := Char.isDigit_iff_toNat.mp h
  have hnine : '9'.toNat = 57 := rfl
  rw [value_singleton]
  omega

/-- Digits are told apart by their values. -/
theorem eq_of_value_digit {c d : Char} (hc : c.isDigit = true) (hd : d.isDigit = true)
    (h : value [c] = value [d]) : c = d := by
  have hcbounds : '0'.toNat ≤ c.toNat ∧ _ := Char.isDigit_iff_toNat.mp hc
  have hdbounds : '0'.toNat ≤ d.toNat ∧ _ := Char.isDigit_iff_toNat.mp hd
  have hzero : '0'.toNat = 48 := rfl
  rw [value_singleton, value_singleton] at h
  exact Char.toNat_inj.mp (by omega)

theorem value_lt {l : List Char} (h : Digits l) : value l < 10 ^ l.length := by
  induction l using List.reverseRecOn with
  | nil => exact Nat.one_pos
  | append_singleton l c ih =>
      obtain ⟨hl, hc⟩ := digits_append.mp h
      have hprev := ih hl
      have hlast := value_digit_lt (hc c List.mem_cons_self)
      rw [value_append, List.length_append, List.length_singleton, pow_one, pow_succ]
      omega

/-- Numerals of one length are told apart by their values. -/
theorem eq_of_value {a : List Char} : ∀ {b : List Char}, Digits a → Digits b →
    a.length = b.length → value a = value b → a = b := by
  induction a using List.reverseRecOn with
  | nil =>
      intro b _ _ hlength _
      exact (List.length_eq_zero_iff.mp hlength.symm).symm
  | append_singleton a c ih =>
      intro b ha hb hlength hvalue
      induction b using List.reverseRecOn with
      | nil => simp at hlength
      | append_singleton b d _ =>
          obtain ⟨hal, hc⟩ := digits_append.mp ha
          obtain ⟨hbl, hd⟩ := digits_append.mp hb
          have hc' := hc c List.mem_cons_self
          have hd' := hd d List.mem_cons_self
          have hcten := value_digit_lt hc'
          have hdten := value_digit_lt hd'
          rw [value_append, value_append, List.length_singleton, List.length_singleton,
            pow_one] at hvalue
          rw [List.length_append, List.length_append] at hlength
          have hrest : a = b := ih hal hbl (by simpa using hlength) (by omega)
          rw [hrest, eq_of_value_digit hc' hd' (by omega)]

/-! ### Numerals of numbers -/

@[simp] theorem value_numeral (n : ℕ) : value (numeral n) = n := Nat.ofDigitChars_ten_toDigits

theorem digits_numeral (n : ℕ) : Digits (numeral n) :=
  fun _ hc => Nat.isDigit_of_mem_toDigits (by norm_num) le_rfl hc

theorem numeral_ne_nil (n : ℕ) : numeral n ≠ [] := Nat.toDigits_ne_nil

theorem length_numeral_le {n k : ℕ} (hk : 0 < k) (h : n < 10 ^ k) : (numeral n).length ≤ k :=
  (Nat.length_toDigits_le_iff (by norm_num) hk).mpr h

/-- The numeral is zero, or does not start with a zero. -/
def NoLeadingZero (l : List Char) : Prop := l = ['0'] ∨ l ≠ [] ∧ l.head? ≠ some '0'

instance (l : List Char) : Decidable (NoLeadingZero l) := inferInstanceAs (Decidable (_ ∨ _))

theorem NoLeadingZero.ne_nil {l : List Char} (h : NoLeadingZero l) : l ≠ [] := by
  obtain rfl | ⟨hne, -⟩ := h
  · exact List.cons_ne_nil _ _
  · exact hne

theorem noLeadingZero_numeral (n : ℕ) : NoLeadingZero (numeral n) := by
  induction n using Nat.strong_induction_on with
  | _ n ih =>
    have hsplit : numeral n = if n < 10 then [Nat.digitChar n]
        else numeral (n / 10) ++ [Nat.digitChar (n % 10)] := Nat.toDigits_eq_if (by norm_num)
    rw [hsplit]
    split_ifs with hsmall
    · interval_cases n <;> decide
    · obtain hzero | ⟨hne, hhead⟩ := ih (n / 10) (by omega)
      · -- a quotient of at least one is not zero
        have hvalue := congrArg value hzero
        rw [value_numeral] at hvalue
        change n / 10 = 0 at hvalue
        omega
      · exact .inr ⟨List.append_ne_nil_of_left_ne_nil hne _,
          by rwa [List.head?_append_of_ne_nil _ hne]⟩

theorem le_value {l : List Char} (hdigits : Digits l) (hne : l ≠ []) (hhead : l.head? ≠ some '0') :
    10 ^ (l.length - 1) ≤ value l := by
  obtain ⟨c, rest, rfl⟩ := List.exists_cons_of_ne_nil hne
  have hc : 1 ≤ value [c] := by
    by_contra hzero
    have heq : value [c] = value ['0'] := Nat.lt_one_iff.mp (not_le.mp hzero)
    obtain rfl := eq_of_value_digit (hdigits c List.mem_cons_self) rfl heq
    exact hhead rfl
  rw [← List.singleton_append, value_append, List.length_append, List.length_singleton,
    Nat.add_sub_cancel_left]
  have hmul := Nat.mul_le_mul_left (10 ^ rest.length) hc
  omega

/-- A numeral without leading zeros is not longer than one of the same value. -/
theorem length_le_of_value {a b : List Char} (ha : Digits a) (hb : Digits b) (hbne : b ≠ [])
    (hhead : b.head? ≠ some '0') (h : value a = value b) : b.length ≤ a.length := by
  by_contra hlonger
  have hle := le_value hb hbne hhead
  have hpow : 10 ^ a.length ≤ 10 ^ (b.length - 1) :=
    Nat.pow_le_pow_right (by norm_num) (by omega)
  have hlt := value_lt ha
  omega

/-- Numerals without leading zeros are told apart by their values. -/
theorem eq_of_value_of_noLeadingZero {a b : List Char} (ha : Digits a) (hb : Digits b)
    (hleada : NoLeadingZero a) (hleadb : NoLeadingZero b) (h : value a = value b) : a = b := by
  have hzero : ∀ {l : List Char}, Digits l → l ≠ [] → l.head? ≠ some '0' → value l ≠ 0 := by
    intro l hl hne hhead
    have hle := le_value hl hne hhead
    have hpos := Nat.pow_pos (n := l.length - 1) (show 0 < 10 by norm_num)
    omega
  obtain rfl | ⟨hane, hahead⟩ := hleada
  · obtain rfl | ⟨hbne, hbhead⟩ := hleadb
    · rfl
    · exact absurd h.symm (hzero hb hbne hbhead)
  · obtain rfl | ⟨hbne, hbhead⟩ := hleadb
    · exact absurd h (hzero ha hane hahead)
    · exact eq_of_value ha hb (le_antisymm (length_le_of_value hb ha hane hahead h.symm)
        (length_le_of_value ha hb hbne hbhead h)) h

/-! ### Numerals with a point -/

/-- Digits before and behind a point. -/
@[ext] structure Decimal where
  whole : List Char
  fraction : List Char
  whole_digits : Digits whole
  whole_ne_nil : whole ≠ []
  fraction_digits : Digits fraction

namespace Decimal

/-- The number that the digits are. -/
def exact (x : Decimal) : ℚ := value x.whole + value x.fraction / 10 ^ x.fraction.length

/-- The number in units of the last of `places` digits behind the point; further ones are cut. -/
def units (x : Decimal) (places : ℕ) : ℕ :=
  value x.whole * 10 ^ places + value ((x.fraction.take places).rightpad places '0')

/-- The text of the numeral; without digits behind it the point may be left out. -/
def Writes (x : Decimal) (text : List Char) : Prop :=
  text = x.whole ++ '.' :: x.fraction ∨ x.fraction = [] ∧ text = x.whole

/-- The text without a needless point. -/
def print (x : Decimal) : List Char :=
  if x.fraction = [] then x.whole else x.whole ++ '.' :: x.fraction

/-- No leading zeros before the point, and no trailing ones behind it. -/
structure Canonical (x : Decimal) : Prop where
  whole : NoLeadingZero x.whole
  fraction : x.fraction.getLast? ≠ some '0'

theorem writes_print (x : Decimal) : x.Writes x.print := by
  unfold print
  split_ifs with h
  · exact .inr ⟨h, rfl⟩
  · exact .inl rfl

/-- Cutting and padding the digits is a quotient. -/
theorem value_rightpad (f : List Char) (hf : Digits f) (places : ℕ) :
    value ((f.take places).rightpad places '0') = value f * 10 ^ places / 10 ^ f.length := by
  unfold List.rightpad
  rw [value_append_zeros, List.length_take]
  obtain hlong | hshort := le_total places f.length
  · have hcut := value_append (f.take places) (f.drop places)
    have hrest := value_lt (hf.sublist (List.drop_sublist places f))
    rw [List.take_append_drop, List.length_drop] at hcut
    rw [List.length_drop] at hrest
    have hsplit : 10 ^ f.length = 10 ^ places * 10 ^ (f.length - places) := by
      rw [← pow_add, Nat.add_sub_cancel' hlong]
    rw [Nat.min_eq_left hlong, Nat.sub_self, pow_zero, Nat.one_mul, hsplit, Nat.mul_comm (value f),
      Nat.mul_div_mul_left _ _ (Nat.pow_pos (by norm_num)), hcut,
      Nat.mul_add_div (Nat.pow_pos (by norm_num)), Nat.div_eq_of_lt hrest, Nat.add_zero]
  · have hsplit : 10 ^ places = 10 ^ f.length * 10 ^ (places - f.length) := by
      rw [← pow_add, Nat.add_sub_cancel' hshort]
    rw [Nat.min_eq_right hshort, List.take_of_length_le hshort, hsplit, Nat.mul_left_comm,
      Nat.mul_div_cancel_left _ (Nat.pow_pos (by norm_num)), Nat.mul_comm]

/-- Cutting the digits rounds down. -/
theorem units_eq_floor (x : Decimal) (places : ℕ) : x.units places = ⌊x.exact * 10 ^ places⌋₊ := by
  have hsum : x.exact * 10 ^ places = ((value x.fraction * 10 ^ places : ℕ) : ℚ) /
      ((10 ^ x.fraction.length : ℕ) : ℚ) + ((value x.whole * 10 ^ places : ℕ) : ℚ) := by
    unfold exact
    push_cast
    ring
  rw [units, value_rightpad _ x.fraction_digits, hsum, Nat.floor_add_natCast (by positivity),
    Nat.floor_div_eq_div, Nat.add_comm]

/-- All digits as one numeral. -/
theorem exact_eq_div (x : Decimal) :
    x.exact = value (x.whole ++ x.fraction) / 10 ^ x.fraction.length := by
  unfold exact
  rw [value_append]
  push_cast
  field_simp

/-! ### Canonical numerals -/

theorem floor_exact (x : Decimal) : ⌊x.exact⌋₊ = value x.whole := by
  have h := x.units_eq_floor 0
  rw [units, List.take_zero, pow_zero, Nat.mul_one, pow_zero, mul_one] at h
  exact h.symm

/-- A numeral without trailing zeros is not longer than one of the same part of one. -/
theorem length_le_of_fraction {f g : List Char} (hg : Digits g) (hlast : g.getLast? ≠ some '0')
    (h : value f * 10 ^ g.length = value g * 10 ^ f.length) : g.length ≤ f.length := by
  by_contra! hlonger
  obtain ⟨k, hk⟩ : ∃ k, g.length = f.length + (k + 1) := ⟨g.length - f.length - 1, by omega⟩
  have hvalue : value g = 10 * (value f * 10 ^ k) := by
    have hpos : 0 < 10 ^ f.length := Nat.pow_pos (by norm_num)
    refine Nat.eq_of_mul_eq_mul_right hpos ?_
    rw [← h, hk]
    ring
  obtain ⟨rest, c, rfl⟩ : ∃ rest c, g = rest ++ [c] :=
    ⟨_, _, (List.dropLast_append_getLast (List.ne_nil_of_length_pos (by omega))).symm⟩
  -- the last digit is what is left by the tens
  have hc := (digits_append.mp hg).2 c List.mem_cons_self
  have hten := value_digit_lt hc
  rw [value_append, List.length_singleton, pow_one] at hvalue
  have hcz : c = '0' := eq_of_value_digit hc rfl (show value [c] = 0 by omega)
  rw [hcz, List.getLast?_concat] at hlast
  exact hlast rfl

/-- There is one canonical numeral of a number. -/
theorem eq_of_canonical {x y : Decimal} (hx : x.Canonical) (hy : y.Canonical)
    (h : x.exact = y.exact) : x = y := by
  have hwhole : value x.whole = value y.whole := by rw [← floor_exact, ← floor_exact, h]
  have hfraction : value x.fraction * 10 ^ y.fraction.length =
      value y.fraction * 10 ^ x.fraction.length := by
    unfold exact at h
    rw [hwhole, add_right_inj, div_eq_div_iff (by positivity) (by positivity)] at h
    exact_mod_cast h
  have hlength : x.fraction.length = y.fraction.length :=
    le_antisymm (length_le_of_fraction x.fraction_digits hx.fraction hfraction.symm)
      (length_le_of_fraction y.fraction_digits hy.fraction hfraction)
  rw [hlength] at hfraction
  ext1
  · exact eq_of_value_of_noLeadingZero x.whole_digits y.whole_digits hx.whole hy.whole hwhole
  · exact eq_of_value x.fraction_digits y.fraction_digits hlength
      (Nat.eq_of_mul_eq_mul_right (Nat.pow_pos (by norm_num)) hfraction)

end Decimal

/-! ### Writing numbers of units -/

/-- Without trailing zeros. -/
def trimZeros (l : List Char) : List Char := l.rdropWhile (· = '0')

theorem trimZeros_append (l : List Char) : ∃ k, l = trimZeros l ++ List.replicate k '0' := by
  have hzeros : l.rtakeWhile (fun c => decide (c = '0')) =
      List.replicate (l.rtakeWhile fun c => decide (c = '0')).length '0' :=
    List.eq_replicate_of_mem fun c hc => by simpa using List.mem_rtakeWhile_imp hc
  refine ⟨(l.rtakeWhile fun c => decide (c = '0')).length, ?_⟩
  rw [← hzeros]
  exact List.rdropWhile_append_rtakeWhile.symm

theorem getLast?_trimZeros (l : List Char) : (trimZeros l).getLast? ≠ some '0' := by
  by_cases hnil : trimZeros l = []
  · rw [hnil]
    exact Option.some_ne_none _ ∘ Eq.symm
  · rw [List.getLast?_eq_some_getLast hnil]
    intro h
    have hlast := List.rdropWhile_last_not (fun c => decide (c = '0')) l hnil
    exact hlast (decide_eq_true (Option.some.inj h))

/-- The trimmed digits are the same part of one. -/
theorem value_trimZeros (l : List Char) :
    (value (trimZeros l) : ℚ) / 10 ^ (trimZeros l).length = value l / 10 ^ l.length := by
  obtain ⟨k, hk⟩ := trimZeros_append l
  have hvalue : value l = 10 ^ k * value (trimZeros l) := by
    conv_lhs => rw [hk, value_append_zeros]
  have hlength : l.length = (trimZeros l).length + k := by
    conv_lhs => rw [hk, List.length_append, List.length_replicate]
  rw [hvalue, hlength, pow_add]
  push_cast
  field_simp

theorem digits_trimZeros {l : List Char} (h : Digits l) : Digits (trimZeros l) :=
  h.sublist (List.rdropWhile_prefix _ l).sublist

theorem digits_leftpad {l : List Char} (h : Digits l) (n : ℕ) : Digits (l.leftpad n '0') :=
  digits_append.mpr ⟨digits_zeros _, h⟩

theorem value_leftpad (l : List Char) (n : ℕ) : value (l.leftpad n '0') = value l := by
  rw [List.leftpad, value_append, value_zeros, Nat.mul_zero, Nat.zero_add]

namespace Decimal

/-- The numeral of `n` units of the last of `places` digits behind the point. -/
def ofUnits (places n : ℕ) : Decimal where
  whole := numeral (n / 10 ^ places)
  fraction := trimZeros ((numeral (n % 10 ^ places)).leftpad places '0')
  whole_digits := digits_numeral _
  whole_ne_nil := numeral_ne_nil _
  fraction_digits := digits_trimZeros (digits_leftpad (digits_numeral _) places)

theorem canonical_ofUnits (places n : ℕ) : (ofUnits places n).Canonical :=
  ⟨noLeadingZero_numeral _, getLast?_trimZeros _⟩

theorem exact_ofUnits (places n : ℕ) : (ofUnits places n).exact = n / 10 ^ places := by
  have hpad : (value ((numeral (n % 10 ^ places)).leftpad places '0') : ℚ) /
      10 ^ ((numeral (n % 10 ^ places)).leftpad places '0').length =
        (n % 10 ^ places : ℕ) / 10 ^ places := by
    rw [value_leftpad, value_numeral]
    obtain rfl | hpos := Nat.eq_zero_or_pos places
    · rw [pow_zero, Nat.mod_one, Nat.cast_zero, zero_div, zero_div]
    · have hshort := length_numeral_le hpos (Nat.mod_lt n (Nat.pow_pos (by norm_num)))
      rw [List.length_leftpad, Nat.max_eq_left hshort]
  have hsplit : ((n / 10 ^ places : ℕ) : ℚ) * 10 ^ places + (n % 10 ^ places : ℕ) = n := by
    exact_mod_cast Nat.div_add_mod' n (10 ^ places)
  unfold exact ofUnits
  dsimp only
  rw [value_trimZeros, hpad, value_numeral, ← hsplit, add_div,
    mul_div_cancel_right₀ _ (by positivity)]

theorem units_ofUnits (places n : ℕ) : (ofUnits places n).units places = n := by
  rw [units_eq_floor, exact_ofUnits, div_mul_cancel₀ _ (by positivity), Nat.floor_natCast]

end Decimal

end DecimalNumerals
