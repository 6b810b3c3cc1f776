import YieldEngine.DecimalNumerals

/-! # Token amounts as texts

`formatAmount` writes an amount of base units as a decimal numeral, and `parseStroops` reads one.
Both work on the digits, never on a rounded number: what is read is the number written, rounded down
to a base unit (`parseText_of_writes`), and what is written is the canonical numeral of the amount
(`formatAmount_natCast`), so that reading it gives the amount again.

A number of JavaScript is taken by its text, `String(value)`.  The text may be in exponential
notation, which `numberToPlainDecimalString` expands without changing the number
(`plain_writes_exponential`). -/

namespace YieldEngine.TokenAmounts

open DecimalNumerals

/-! ### Writing -/

/-- `formatAmount`. -/
def formatAmount (amount : ℤ) (decimals : ℕ) : List Char :=
  let magnitude := amount.natAbs
  let divisor := 10 ^ decimals
  let whole := magnitude / divisor
  let fractional := trimZeros ((numeral (magnitude % divisor)).leftpad decimals '0')
  let sign := if amount < 0 then ['-'] else []
  if 0 < fractional.length then sign ++ numeral whole ++ '.' :: fractional
  else sign ++ numeral whole

/-! ### Reading -/

/-- White space and line ends, which `trim` removes. -/
def isSpace (c : Char) : Bool :=
  c.toNat ∈ [9, 10, 11, 12, 13, 32, 160, 5760, 8232, 8233, 8239, 8287, 12288, 65279] ||
    (8192 ≤ c.toNat && c.toNat ≤ 8202)

/-- Trimmed, and without commas. -/
def cleaned (s : List Char) : List Char :=
  ((s.dropWhile isSpace).rdropWhile isSpace).filter (· ≠ ',')

/-- The expression `^(\d+)(?:\.(\d*))?$`; a missing group is empty. -/
def matchAmount (text : List Char) : Option (List Char × List Char) :=
  let whole := text.takeWhile Char.isDigit
  if whole = [] then none
  else
    match text.dropWhile Char.isDigit with
    | [] => some (whole, [])
    | '.' :: fraction => if Digits fraction then some (whole, fraction) else none
    | _ => none

/-- What an amount is read from. -/
inductive AmountInput where
  | missing
  | text (s : List Char)
  /-- A number with its text. -/
  | number (finite : Bool) (shown : List Char)

/-- The number in an exponential notation. -/
structure Exponential where
  negative : Bool
  intPart : List Char
  fracPart : List Char
  exponent : ℤ

/-- The expression `([+-]?\d+)$`. -/
def matchExponent (text : List Char) : Option ℤ :=
  let unsigned (digits : List Char) : Option ℤ :=
    if digits ≠ [] ∧ Digits digits then some (value digits) else none
  match text with
  | '+' :: digits => unsigned digits
  | '-' :: digits => Neg.neg <$> unsigned digits
  | digits => unsigned digits

/-- The expression `[eE]([+-]?\d+)$`. -/
def matchMarked : List Char → Option ℤ
  | 'e' :: rest => matchExponent rest
  | 'E' :: rest => matchExponent rest
  | _ => none

/-- The expression `(?:\.(\d+))?[eE]([+-]?\d+)$`; a missing group is empty. -/
def matchFraction : List Char → Option (List Char × ℤ)
  | '.' :: rest =>
      let fracPart := rest.takeWhile Char.isDigit
      if fracPart = [] then none
      else (matchMarked (rest.dropWhile Char.isDigit)).map fun exponent => (fracPart, exponent)
  | rest => (matchMarked rest).map fun exponent => ([], exponent)

/-- The expression `^(-?)(\d+)(?:\.(\d+))?[eE]([+-]?\d+)$`. -/
def matchExponential (text : List Char) : Option Exponential :=
  let negative := text.head? = some '-'
  let unsigned := if negative then text.tail else text
  let intPart := unsigned.takeWhile Char.isDigit
  if intPart = [] then none
  else (matchFraction (unsigned.dropWhile Char.isDigit)).map
    fun m => ⟨negative, intPart, m.1, m.2⟩

/-- `numberToPlainDecimalString`, of the text of a number. -/
def numberToPlainDecimalString (text : List Char) : List Char :=
  match matchExponential text with
  | none => text
  | some ⟨negative, intPart, fracPart, exponent⟩ =>
      let sign := if negative then ['-'] else []
      let digits := intPart ++ fracPart
      let pointIndex := intPart.length + exponent
      if pointIndex ≤ 0 then
        sign ++ '0' :: '.' :: (List.replicate (-pointIndex).toNat '0' ++ digits)
      else if digits.length ≤ pointIndex then
        sign ++ (digits ++ List.replicate (pointIndex - digits.length).toNat '0')
      else sign ++ (digits.take pointIndex.toNat ++ '.' :: digits.drop pointIndex.toNat)

/-- The part of `parseStroops` after the text has been prepared; `shown` is the value in the
message. -/
def parseText (shown text : List Char) (decimals : ℕ) : Except String ℤ :=
  if text = [] ∨ text = ['.'] then .ok 0
  else
    match matchAmount text with
    | none => .error ("Cannot parse \"" ++ String.ofList shown ++
        "\" as a token amount: expected a non-negative decimal number")
    | some (whole, fraction) =>
        let fraction := if decimals < fraction.length then fraction.take decimals else fraction
        let fraction := fraction.rightpad decimals '0'
        .ok (value whole * 10 ^ decimals + value (if fraction = [] then ['0'] else fraction) : ℕ)

/-- `parseStroops`. -/
def parseStroops (input : AmountInput) (decimals : ℕ) : Except String ℤ :=
  match input with
  | .missing => .ok 0
  | .number finite shown =>
      if finite then parseText shown (numberToPlainDecimalString shown) decimals
      else .error ("Cannot parse \"" ++ String.ofList shown ++ "\" as a token amount")
  | .text s => parseText s (cleaned s) decimals

/-! ### The expressions -/

section expressions

/-- The digits that a text begins with, and the rest. -/
theorem digits_then {digits rest : List Char} (hdigits : Digits digits)
    (hrest : ∀ c ∈ rest.head?, c.isDigit = false) :
    (digits ++ rest).takeWhile Char.isDigit = digits ∧
      (digits ++ rest).dropWhile Char.isDigit = rest := by
  constructor
  · rw [List.takeWhile_append_of_pos hdigits]
    cases rest with
    | nil => rw [List.takeWhile_nil, List.append_nil]
    | cons c rest =>
        have hc : ¬ c.isDigit = true := by simpa using hrest c rfl
        rw [List.takeWhile_cons_of_neg hc, List.append_nil]
  · rw [List.dropWhile_append_of_pos hdigits]
    cases rest with
    | nil => rfl
    | cons c rest =>
        have hc : ¬ c.isDigit = true := by simpa using hrest c rfl
        rw [List.dropWhile_cons_of_neg hc]

theorem digits_takeWhile (text : List Char) : Digits (text.takeWhile Char.isDigit) :=
  fun _ hc => List.mem_takeWhile_imp hc

/-- The expression for amounts matches the texts of decimal numerals. -/
theorem matchAmount_eq_some {text whole fraction : List Char} :
    matchAmount text = some (whole, fraction) ↔
      ∃ x : Decimal, x.whole = whole ∧ x.fraction = fraction ∧ x.Writes text := by
  constructor
  · intro h
    have hsplit := List.takeWhile_append_dropWhile (p := Char.isDigit) (l := text)
    unfold matchAmount at h
    dsimp only at h
    split_ifs at h with hnone
    split at h
    · next hrest =>
        obtain ⟨rfl, rfl⟩ := Prod.mk.inj (Option.some.inj h)
        rw [hrest, List.append_nil] at hsplit
        exact ⟨⟨_, [], digits_takeWhile text, hnone, fun _ hc => by cases hc⟩, rfl, rfl,
          .inr ⟨rfl, hsplit.symm⟩⟩
    · next rest hrest =>
        split_ifs at h with hdigits
        obtain ⟨rfl, rfl⟩ := Prod.mk.inj (Option.some.inj h)
        rw [hrest] at hsplit
        exact ⟨⟨_, rest, digits_takeWhile text, hnone, hdigits⟩, rfl, rfl, .inl hsplit.symm⟩
    · cases h
  · rintro ⟨x, rfl, rfl, hwrites⟩
    have hne := x.whole_ne_nil
    unfold matchAmount
    dsimp only
    obtain rfl | ⟨hfraction, rfl⟩ := hwrites
    · have hpoint : ∀ c ∈ ('.' :: x.fraction).head?, c.isDigit = false := by simp
      obtain ⟨htake, hdrop⟩ := digits_then x.whole_digits hpoint
      rw [htake, hdrop, if_neg hne]
      exact if_pos x.fraction_digits
    · have hend : ∀ c ∈ ([] : List Char).head?, c.isDigit = false := by simp
      obtain ⟨htake, hdrop⟩ := digits_then x.whole_digits hend
      rw [List.append_nil] at htake hdrop
      rw [htake, hdrop, if_neg hne, hfraction]

/-- The text of a decimal exponent. -/
def WritesExponent (e : ℤ) (text : List Char) : Prop :=
  ∃ digits, digits ≠ [] ∧ Digits digits ∧
    ((text = digits ∨ text = '+' :: digits) ∧ e = value digits ∨
      text = '-' :: digits ∧ e = -value digits)

/-- The text of `x` times ten to the `e`. -/
def WritesExponential (x : Decimal) (e : ℤ) (text : List Char) : Prop :=
  ∃ mark exponent, (mark = 'e' ∨ mark = 'E') ∧ WritesExponent e exponent ∧
    text = x.print ++ mark :: exponent

theorem head_of_digits {l : List Char} (h : Digits l) {c : Char} (hc : c.isDigit = false) :
    l.head? ≠ some c := by
  intro hhead
  rw [h c (List.mem_of_mem_head? hhead)] at hc
  cases hc

theorem matchExponent_of_writes {e : ℤ} {text : List Char} (h : WritesExponent e text) :
    matchExponent text = some e := by
  obtain ⟨digits, hne, hdigits, ⟨rfl | rfl, rfl⟩ | ⟨rfl, rfl⟩⟩ := h
  · have hplus := head_of_digits hdigits (show '+'.isDigit = false from rfl)
    have hminus := head_of_digits hdigits (show '-'.isDigit = false from rfl)
    unfold matchExponent
    split
    · exact absurd rfl hplus
    · exact absurd rfl hminus
    · exact if_pos ⟨hne, hdigits⟩
  · exact if_pos ⟨hne, hdigits⟩
  · change Neg.neg <$> (if digits ≠ [] ∧ Digits digits then some (value digits : ℤ) else none) = _
    rw [if_pos ⟨hne, hdigits⟩]
    rfl

theorem matchMarked_of_writes {e : ℤ} {mark : Char} {exponent : List Char}
    (hmark : mark = 'e' ∨ mark = 'E') (h : WritesExponent e exponent) :
    matchMarked (mark :: exponent) = some e := by
  obtain rfl | rfl := hmark
  · exact matchExponent_of_writes h
  · exact matchExponent_of_writes h

theorem matchFraction_point (rest : List Char) : matchFraction ('.' :: rest) =
    if rest.takeWhile Char.isDigit = [] then none
    else (matchMarked (rest.dropWhile Char.isDigit)).map
      fun exponent => (rest.takeWhile Char.isDigit, exponent) := rfl

/-- The expression for exponential notations matches their texts. -/
theorem matchExponential_of_writes {x : Decimal} {e : ℤ} {text : List Char}
    (h : WritesExponential x e text) :
    matchExponential text = some ⟨false, x.whole, x.fraction, e⟩ := by
  obtain ⟨mark, exponent, hmark, hexponent, rfl⟩ := h
  have hmarked := matchMarked_of_writes hmark hexponent
  have hafter : ∀ c ∈ (mark :: exponent).head?, c.isDigit = false := by
    rintro c hc
    obtain rfl := Option.some.inj hc
    obtain rfl | rfl := hmark <;> rfl
  have hhead : (x.print ++ mark :: exponent).head? ≠ some '-' := by
    have hwhole := head_of_digits x.whole_digits (show '-'.isDigit = false from rfl)
    unfold Decimal.print
    split_ifs
    · rwa [List.head?_append_of_ne_nil _ x.whole_ne_nil]
    · rwa [List.append_assoc, List.head?_append_of_ne_nil _ x.whole_ne_nil]
  -- behind the digits before the point
  obtain ⟨rest, hprint, hrest, hmatch⟩ : ∃ rest, x.print ++ mark :: exponent = x.whole ++ rest ∧
      (∀ c ∈ rest.head?, c.isDigit = false) ∧ matchFraction rest = some (x.fraction, e) := by
    unfold Decimal.print
    by_cases hfraction : x.fraction = []
    · refine ⟨mark :: exponent, by rw [if_pos hfraction], hafter, ?_⟩
      rw [hfraction]
      obtain rfl | rfl := hmark
      · exact congrArg (Option.map fun e => ([], e)) hmarked
      · exact congrArg (Option.map fun e => ([], e)) hmarked
    · refine ⟨'.' :: (x.fraction ++ mark :: exponent), ?_, by simp, ?_⟩
      · rw [if_neg hfraction, List.append_assoc, List.cons_append]
      · obtain ⟨htake, hdrop⟩ := digits_then x.fraction_digits hafter
        rw [matchFraction_point, htake, hdrop, if_neg hfraction, hmarked]
        rfl
  obtain ⟨htake, hdrop⟩ := digits_then x.whole_digits hrest
  unfold matchExponential
  dsimp only
  rw [if_neg hhead, decide_eq_false hhead, hprint, htake, hdrop, if_neg x.whole_ne_nil, hmatch]
  rfl

end expressions

/-! ### What is read -/

section reading
variable {x : Decimal} {text : List Char}

theorem writes_ne_blank (h : x.Writes text) : ¬ (text = [] ∨ text = ['.']) := by
  obtain ⟨c, rest, hwhole⟩ := List.exists_cons_of_ne_nil x.whole_ne_nil
  have hc : c.isDigit = true := x.whole_digits c (by rw [hwhole]; exact List.mem_cons_self)
  have htext : ∃ more, text = c :: more := by
    obtain rfl | ⟨-, rfl⟩ := h
    · exact ⟨rest ++ '.' :: x.fraction, by rw [hwhole, List.cons_append]⟩
    · exact ⟨rest, hwhole⟩
  obtain ⟨more, rfl⟩ := htext
  rintro (hnil | hpoint)
  · cases hnil
  · obtain rfl := (List.cons.inj hpoint).1
    cases hc

/-- The text of a numeral is read as its units. -/
theorem parseText_of_writes (h : x.Writes text) (shown : List Char) (decimals : ℕ) :
    parseText shown text decimals = .ok (x.units decimals : ℕ) := by
  have hmatch : matchAmount text = some (x.whole, x.fraction) :=
    matchAmount_eq_some.mpr ⟨x, rfl, rfl, h⟩
  have hcut : (if decimals < x.fraction.length then x.fraction.take decimals else x.fraction) =
      x.fraction.take decimals := by
    split_ifs with hlong
    · rfl
    · rw [List.take_of_length_le (not_lt.mp hlong)]
  have hblank : ∀ l : List Char, value (if l = [] then ['0'] else l) = value l := by
    intro l
    split_ifs with hnil
    · rw [hnil]
      rfl
    · rfl
  unfold parseText
  rw [if_neg (writes_ne_blank h), hmatch]
  dsimp only
  rw [hcut, hblank]
  rfl

theorem parseText_of_blank (h : text = [] ∨ text = ['.']) (shown : List Char) (decimals : ℕ) :
    parseText shown text decimals = .ok 0 := if_pos h

/-- Only texts of numerals and blank ones are read. -/
theorem parseText_returns_iff (shown : List Char) (decimals : ℕ) :
    (∃ n, parseText shown text decimals = .ok n) ↔
      text = [] ∨ text = ['.'] ∨ ∃ x : Decimal, x.Writes text := by
  constructor
  · rintro ⟨n, h⟩
    by_contra hnone
    push Not at hnone
    obtain ⟨hnil, hpoint, hwrites⟩ := hnone
    have hmatch : matchAmount text = none := by
      cases hm : matchAmount text with
      | none => rfl
      | some m =>
          obtain ⟨x, -, -, hx⟩ := matchAmount_eq_some.mp hm
          exact absurd hx (hwrites x)
    rw [parseText, if_neg (not_or.mpr ⟨hnil, hpoint⟩), hmatch] at h
    cases h
  · rintro (hnil | hpoint | ⟨x, hx⟩)
    · exact ⟨0, parseText_of_blank (.inl hnil) shown decimals⟩
    · exact ⟨0, parseText_of_blank (.inr hpoint) shown decimals⟩
    · exact ⟨_, parseText_of_writes hx shown decimals⟩

end reading

/-! ### What is written -/

theorem formatAmount_natCast (n decimals : ℕ) :
    formatAmount n decimals = (Decimal.ofUnits decimals n).print := by
  have hsign : ¬ (n : ℤ) < 0 := by omega
  unfold formatAmount Decimal.print Decimal.ofUnits
  dsimp only
  rw [Int.natAbs_natCast, if_neg hsign, List.nil_append]
  split_ifs with hlong hnil hnil
  · rw [hnil] at hlong
    cases hlong
  · rfl
  · rfl
  · exact absurd (List.length_pos_of_ne_nil hnil) hlong

/-- A text without spaces and commas is left alone. -/
theorem cleaned_eq_self {s : List Char} (h : ∀ c ∈ s, isSpace c = false ∧ c ≠ ',') :
    cleaned s = s := by
  have hdrop : s.dropWhile isSpace = s := by
    rw [List.dropWhile_eq_self_iff]
    intro hl
    simp [(h _ (List.getElem_mem hl)).1]
  have hrdrop : s.rdropWhile isSpace = s := by
    rw [List.rdropWhile_eq_self_iff]
    intro hl
    simp [(h _ (List.getLast_mem hl)).1]
  unfold cleaned
  rw [hdrop, hrdrop, List.filter_eq_self]
  exact fun c hc => decide_eq_true (h c hc).2

theorem digit_not_space {c : Char} (hc : c.isDigit = true) : isSpace c = false ∧ c ≠ ',' := by
  have hbounds : 48 ≤ c.toNat ∧ c.toNat ≤ 57 := Char.isDigit_iff_toNat.mp hc
  constructor
  · simp [isSpace]
    omega
  · rintro rfl
    cases hc

theorem cleaned_print (x : Decimal) : cleaned x.print = x.print := by
  apply cleaned_eq_self
  intro c hc
  unfold Decimal.print at hc
  split_ifs at hc
  · exact digit_not_space (x.whole_digits c hc)
  · obtain hwhole | hrest := List.mem_append.mp hc
    · exact digit_not_space (x.whole_digits c hwhole)
    · obtain rfl | hfraction := List.mem_cons.mp hrest
      · decide
      · exact digit_not_space (x.fraction_digits c hfraction)

/-! ### Exponential notation -/

/-- The value of all digits, moved to where the point is. -/
theorem exact_mul_zpow (x : Decimal) (e : ℤ) : x.exact * 10 ^ e =
    value (x.whole ++ x.fraction) *
      10 ^ (x.whole.length + e - (x.whole ++ x.fraction).length : ℤ) := by
  have hexponent : (x.whole.length + e - (x.whole ++ x.fraction).length : ℤ) =
      e - x.fraction.length := by
    rw [List.length_append]
    push_cast
    ring
  rw [hexponent, zpow_sub₀ (by norm_num), zpow_natCast, x.exact_eq_div]
  ring

section expansion
variable {digits : List Char}

/-- Digits behind the point and further zeros. -/
theorem writes_below_point (hdigits : Digits digits) (k : ℕ) :
    ∃ y : Decimal, y.Writes ('0' :: '.' :: (List.replicate k '0' ++ digits)) ∧
      y.exact = value digits * 10 ^ (-(k : ℤ) - digits.length) := by
  refine ⟨⟨['0'], List.replicate k '0' ++ digits, by decide, List.cons_ne_nil _ _,
    digits_append.mpr ⟨digits_zeros k, hdigits⟩⟩, .inl rfl, ?_⟩
  have hexponent : -(k : ℤ) - digits.length = -((k + digits.length : ℕ) : ℤ) := by
    push_cast
    ring
  rw [Decimal.exact, value_append, value_zeros, List.length_append, List.length_replicate,
    hexponent, zpow_neg, zpow_natCast, show value ['0'] = 0 from rfl, ← div_eq_mul_inv]
  norm_num

/-- Digits and further zeros before the point. -/
theorem writes_above_point (hdigits : Digits digits) (hne : digits ≠ []) (k : ℕ) :
    ∃ y : Decimal, y.Writes (digits ++ List.replicate k '0') ∧
      y.exact = value digits * 10 ^ (k : ℤ) := by
  refine ⟨⟨digits ++ List.replicate k '0', [], digits_append.mpr ⟨hdigits, digits_zeros k⟩,
    List.append_ne_nil_of_left_ne_nil hne _, by decide⟩, .inr ⟨rfl, rfl⟩, ?_⟩
  rw [Decimal.exact, value_append_zeros, zpow_natCast]
  push_cast
  norm_num
  ring

/-- The point between the digits. -/
theorem writes_around_point (hdigits : Digits digits) {k : ℕ} (hk : 0 < k)
    (hlt : k < digits.length) :
    ∃ y : Decimal, y.Writes (digits.take k ++ '.' :: digits.drop k) ∧
      y.exact = value digits * 10 ^ ((k : ℤ) - digits.length) := by
  have hwhole : digits.take k ≠ [] := List.ne_nil_of_length_pos (by rw [List.length_take]; omega)
  refine ⟨⟨digits.take k, digits.drop k, hdigits.sublist (List.take_sublist _ _), hwhole,
    hdigits.sublist (List.drop_sublist _ _)⟩, .inl rfl, ?_⟩
  have hexponent : (k : ℤ) - digits.length = -((digits.length - k : ℕ) : ℤ) := by omega
  rw [Decimal.exact_eq_div, hexponent, zpow_neg, zpow_natCast, ← div_eq_mul_inv]
  dsimp only
  rw [List.take_append_drop, List.length_drop]

end expansion

/-- The expansion is a numeral of the same number. -/
theorem plain_writes_exponential {x : Decimal} {e : ℤ} {text : List Char}
    (h : WritesExponential x e text) :
    ∃ y : Decimal, y.Writes (numberToPlainDecimalString text) ∧ y.exact = x.exact * 10 ^ e := by
  have hdigits : Digits (x.whole ++ x.fraction) :=
    digits_append.mpr ⟨x.whole_digits, x.fraction_digits⟩
  have hne : x.whole ++ x.fraction ≠ [] := List.append_ne_nil_of_left_ne_nil x.whole_ne_nil _
  unfold numberToPlainDecimalString
  rw [matchExponential_of_writes h, exact_mul_zpow]
  dsimp only
  rw [if_neg Bool.false_ne_true, List.nil_append, List.nil_append, List.nil_append]
  generalize x.whole ++ x.fraction = digits at *
  generalize (x.whole.length : ℤ) + e = point at *
  split_ifs with hsmall hlarge
  · have hpoint : point = -((-point).toNat : ℤ) := by omega
    have hwrites := writes_below_point hdigits (-point).toNat
    rwa [← hpoint] at hwrites
  · have hpoint : ((point - digits.length).toNat : ℤ) = point - digits.length := by omega
    have hwrites := writes_above_point hdigits hne (point - digits.length).toNat
    rwa [hpoint] at hwrites
  · have hpoint : (point.toNat : ℤ) = point := by omega
    have hwrites := writes_around_point (k := point.toNat) hdigits (by omega) (by omega)
    rwa [hpoint] at hwrites

/-! ### Reading and writing -/

/-- The text is the one canonical numeral of the number. -/
def IsCanonicalText (q : ℚ) (text : List Char) : Prop :=
  ∃ y : Decimal, y.Canonical ∧ y.exact = q ∧ text = y.print ∧
    ∀ z : Decimal, z.Canonical → z.exact = q → z = y

theorem isCanonicalText_formatAmount (n decimals : ℕ) :
    IsCanonicalText (n / 10 ^ decimals) (formatAmount n decimals) :=
  ⟨Decimal.ofUnits decimals n, Decimal.canonical_ofUnits decimals n,
    Decimal.exact_ofUnits decimals n, formatAmount_natCast n decimals,
    fun _ hz hexact => Decimal.eq_of_canonical hz (Decimal.canonical_ofUnits decimals n)
      (hexact.trans (Decimal.exact_ofUnits decimals n).symm)⟩

theorem parseStroops_formatAmount (n decimals : ℕ) :
    parseStroops (.text (formatAmount n decimals)) decimals = .ok n := by
  have hwrites : (Decimal.ofUnits decimals n).Writes (cleaned (formatAmount n decimals)) := by
    rw [formatAmount_natCast, cleaned_print]
    exact Decimal.writes_print _
  have hread := parseText_of_writes hwrites (formatAmount n decimals) decimals
  rwa [Decimal.units_ofUnits] at hread

theorem parseStroops_of_writes {s : List Char} {x : Decimal} (h : x.Writes (cleaned s))
    (decimals : ℕ) :
    parseStroops (.text s) decimals = .ok (⌊x.exact * 10 ^ decimals⌋₊ : ℕ) := by
  rw [← x.units_eq_floor]
  exact parseText_of_writes h s decimals

theorem parseStroops_of_exponential {x : Decimal} {e : ℤ} {text : List Char}
    (h : WritesExponential x e text) (decimals : ℕ) :
    parseStroops (.number true text) decimals =
      .ok (⌊x.exact * 10 ^ e * 10 ^ decimals⌋₊ : ℕ) := by
  obtain ⟨y, hwrites, hexact⟩ := plain_writes_exponential h
  rw [← hexact, ← y.units_eq_floor]
  exact parseText_of_writes hwrites text decimals

/-- What is written is read again; only blank texts and numerals are read, rounded down to a unit;
and what has been read is written as the canonical numeral.  An exponential notation is read as the
number it is. -/
theorem token_amounts_exact (decimals : ℕ) :
    (∀ n : ℕ, parseStroops (.text (formatAmount n decimals)) decimals = .ok n) ∧
    (∀ s, (∃ n, parseStroops (.text s) decimals = .ok n) ↔
      cleaned s = [] ∨ cleaned s = ['.'] ∨ ∃ x : Decimal, x.Writes (cleaned s)) ∧
    (∀ s, cleaned s = [] ∨ cleaned s = ['.'] → parseStroops (.text s) decimals = .ok 0) ∧
    (∀ s (x : Decimal), x.Writes (cleaned s) →
      ∃ n : ℕ, n = ⌊x.exact * 10 ^ decimals⌋₊ ∧ parseStroops (.text s) decimals = .ok n ∧
        IsCanonicalText (n / 10 ^ decimals) (formatAmount n decimals)) ∧
    ∀ (x : Decimal) (e : ℤ) text, WritesExponential x e text →
      parseStroops (.number true text) decimals =
        .ok (⌊x.exact * 10 ^ e * 10 ^ decimals⌋₊ : ℕ) :=
  ⟨fun n => parseStroops_formatAmount n decimals, fun s => parseText_returns_iff s decimals,
    fun s h => parseText_of_blank h s decimals,
    fun _ _ h => ⟨_, rfl, parseStroops_of_writes h decimals,
      isCanonicalText_formatAmount _ decimals⟩,
    fun _ _ _ h => parseStroops_of_exponential h decimals⟩

/-- An amount as it is typed, and one in exponential notation. -/
theorem token_amounts_exact_typed :
    (∃ n : ℕ, parseStroops (.text " 1,234.5 ".toList) 7 = .ok n ∧
      IsCanonicalText (n / 10 ^ 7) (formatAmount n 7)) ∧
    parseStroops (.number true "1e-7".toList) 7 =
      .ok (⌊(1 * 10 ^ (-7 : ℤ) * 10 ^ 7 : ℚ)⌋₊ : ℕ) := by
  have hspec := (token_amounts_exact 7).2.2.2
  constructor
  · obtain ⟨n, -, hn⟩ := hspec.1 " 1,234.5 ".toList
      ⟨['1', '2', '3', '4'], ['5'], by decide, by decide, by decide⟩ (.inl (by decide))
    exact ⟨n, hn⟩
  · have hread := hspec.2 ⟨['1'], [], by decide, by decide, by decide⟩ (-7) "1e-7".toList
      ⟨'e', ['-', '7'], .inl rfl, ⟨['7'], by decide, by decide, .inr ⟨rfl, rfl⟩⟩, by decide⟩
    have hone : Decimal.exact ⟨['1'], [], by decide, by decide, by decide⟩ = 1 := by
      decide +kernel
    rwa [hone] at hread

/-- A point with no digits behind it is accepted. -/
theorem trailing_point_accepted :
    ¬ ∀ (decimals : ℕ) (s : List Char), (∃ n, parseStroops (.text s) decimals = .ok n) ↔
      cleaned s = [] ∨ cleaned s = ['.'] ∨ ∃ whole, whole ≠ [] ∧ Digits whole ∧
        (cleaned s = whole ∨
          ∃ fraction, fraction ≠ [] ∧ Digits fraction ∧ cleaned s = whole ++ '.' :: fraction) := by
  intro h
  have hcleaned : cleaned "12.".toList = ['1', '2', '.'] := by decide
  have hread : ∃ n, parseStroops (.text "12.".toList) 7 = .ok n := ⟨120000000, by decide⟩
  rw [h, hcleaned] at hread
  obtain hnil | hpoint | ⟨whole, -, hwhole, heq | ⟨fraction, hne, hfraction, heq⟩⟩ := hread
  · cases hnil
  · exact absurd hpoint (by decide)
  · exact absurd (hwhole '.' (heq ▸ by decide)) (by decide)
  · -- the last character is a digit
    have hlast := congrArg List.getLast? heq
    rw [List.getLast?_append_of_ne_nil _ (List.cons_ne_nil _ _),
      List.getLast?_cons_of_ne_nil hne] at hlast
    exact absurd (hfraction '.' (List.mem_of_getLast? hlast.symm)) (by decide)

end YieldEngine.TokenAmounts
