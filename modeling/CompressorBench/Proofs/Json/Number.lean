import CompressorBench.Json.Printer
import CompressorBench.Json.Reader
import CompressorBench.Text.Split
import CompressorBench.Proofs.Decimal.Shortest

/-!
# Numbers are read back

The text of a number has parts: digits, a fraction behind a point, and an exponent. However the
digits and the point are placed, the coefficient and the exponent that are read off the parts make
the number that was written; and the number with the fewest digits is rounded to the floating point
number that it was made from. So a finite number is read back as it is.

* `Parts.IsNumber.readUnsigned?_json`: what is read off the parts of a number.
* `exists_parts`: the parts of the text of a decimal number keep its value.
* `isNumberText_floatChars`, `isNumberText_intChars`: numbers are read back.
-/

namespace CompressorBench

open Decimal Decimal.Binary64

/-! ## Digits -/

namespace Decimal.Literal

/-- A list of characters is all digits. -/
def AllDigits (cs : List Char) : Prop := ∀ c ∈ cs, isDigit c = true

theorem isDigit_iff {c : Char} : isDigit c = true ↔ c.isDigit = true := by
  simp [isDigit, Char.isDigit, Char.le_def]

theorem allDigits_natChars (n : ℕ) : AllDigits (natChars n) := by
  intro c hc
  exact isDigit_iff.mpr (isDigit_of_mem_natChars hc)

theorem allDigits_replicate (n : ℕ) : AllDigits (List.replicate n '0') := by
  intro c hc
  rw [List.eq_of_mem_replicate hc]
  decide

theorem AllDigits.append {front rest : List Char} (hfront : AllDigits front)
    (hrest : AllDigits rest) : AllDigits (front ++ rest) := by
  intro c hc
  rcases List.mem_append.mp hc with hc | hc
  · exact hfront c hc
  · exact hrest c hc

theorem digitsValue_eq_ofDigitChars (digits : List Char) :
    digitsValue digits = Nat.ofDigitChars 10 digits 0 := by
  simp only [digitsValue, Nat.ofDigitChars_eq_foldl, Nat.mul_comm]

theorem digitsValue_natChars (n : ℕ) : digitsValue (natChars n) = n := by
  rw [digitsValue_eq_ofDigitChars]
  exact Nat.ofDigitChars_ten_toDigits

/-- Zeros in front do not count. -/
theorem digitsValue_replicate_append (n : ℕ) (digits : List Char) :
    digitsValue (List.replicate n '0' ++ digits) = digitsValue digits := by
  rw [digitsValue_eq_ofDigitChars, digitsValue_eq_ofDigitChars, Nat.ofDigitChars_append,
    Nat.ofDigitChars_replicate_zero, Nat.mul_zero]

/-- Zeros behind count as powers of ten. -/
theorem digitsValue_append_replicate (digits : List Char) (n : ℕ) :
    digitsValue (digits ++ List.replicate n '0') = digitsValue digits * 10 ^ n := by
  rw [digitsValue_eq_ofDigitChars, digitsValue_eq_ofDigitChars, Nat.ofDigitChars_append,
    Nat.ofDigitChars_replicate_zero, Nat.mul_comm]

/-- A run of digits is taken as a whole. -/
theorem AllDigits.takeWhile_append {digits rest : List Char} (h : AllDigits digits)
    (hend : ∀ c, rest.head? = some c → isDigit c = false) :
    (digits ++ rest).takeWhile isDigit = digits ∧ (digits ++ rest).dropWhile isDigit = rest :=
  Text.takeWhile_append_of_head? h hend

end Decimal.Literal

/-! ## The parts of a number -/

namespace Decimal

open Literal

/-- The parts of the text of a number without its sign. -/
structure Parts where
  whole : List Char
  fraction : List Char
  /-- The exponent as it is written, with the letter in front of it. -/
  scale : List Char
  exponent : ℤ

namespace Parts

/-- The fraction with its point, if there is one. -/
def pointed (fraction : List Char) : List Char :=
  if fraction = [] then [] else '.' :: fraction

/-- The text. -/
def chars (p : Parts) : List Char := p.whole ++ (pointed p.fraction ++ p.scale)

/-- The coefficient that the digits before and after the point make together. -/
def coefficient (p : Parts) : ℕ := digitsValue (p.whole ++ p.fraction)

/-- The exponent that goes with the coefficient. -/
def shifted (p : Parts) : ℤ := p.exponent - p.fraction.length

/-- The parts are what a number may be made of. -/
structure IsNumber (p : Parts) : Prop where
  whole : Json.isWhole p.whole = true
  digits : AllDigits p.whole
  fraction : AllDigits p.fraction
  scale : readExponent? p.scale = some p.exponent
  numberChars : ∀ c ∈ p.scale, Json.isNumberChar c = true

variable {p : Parts}

/-- An exponent starts with a letter. -/
theorem IsNumber.head?_scale (h : p.IsNumber) {c : Char} (hc : p.scale.head? = some c) :
    c = 'e' ∨ c = 'E' := by
  have hscale := h.scale
  cases hp : p.scale with
  | nil => rw [hp] at hc; cases hc
  | cons d rest =>
    rw [hp] at hc hscale
    cases hc
    by_contra hletter
    rw [readExponent?, if_neg hletter] at hscale
    cases hscale

theorem IsNumber.isDigit_head?_scale (h : p.IsNumber) {c : Char} (hc : p.scale.head? = some c) :
    isDigit c = false := by
  rcases h.head?_scale hc with rfl | rfl <;> decide

theorem IsNumber.takeWhile_chars (h : p.IsNumber) :
    p.chars.takeWhile isDigit = p.whole ∧
      p.chars.dropWhile isDigit = pointed p.fraction ++ p.scale := by
  refine h.digits.takeWhile_append fun c hc => ?_
  unfold pointed at hc
  split at hc
  · exact h.isDigit_head?_scale hc
  · cases hc
    decide

theorem IsNumber.whole_ne_nil (h : p.IsNumber) : p.whole ≠ [] := by
  intro hnil
  have := h.whole
  rw [hnil] at this
  cases this

/-- **The literal of a number is made of its digits and its exponent.** -/
theorem IsNumber.readUnsigned? (h : p.IsNumber) (negative : Bool) :
    Literal.readUnsigned? negative p.chars = some (.number negative p.coefficient p.shifted) := by
  obtain ⟨hwhole, hrest⟩ := h.takeWhile_chars
  have hsplit : splitFraction (pointed p.fraction ++ p.scale) = (p.fraction, p.scale) := by
    unfold pointed
    split
    · next hnil =>
      rw [hnil, List.nil_append]
      unfold splitFraction
      split
      · next rest hp =>
        have hpoint : p.scale.head? = some '.' := by rw [hp]; rfl
        exact absurd (h.head?_scale hpoint) (by decide)
      · rfl
    · obtain ⟨htake, hdrop⟩ := h.fraction.takeWhile_append fun c => h.isDigit_head?_scale
      rw [List.cons_append, splitFraction, htake, hdrop]
  have hsome : ¬ (p.whole = [] ∧ p.fraction = []) := fun hnil => h.whole_ne_nil hnil.1
  simp only [Literal.readUnsigned?, hwhole, hrest, hsplit, if_neg hsome, h.scale, Option.map_some]
  rfl

theorem isFraction_pointed {fraction : List Char} (h : AllDigits fraction) :
    Json.isFraction (pointed fraction) = true := by
  unfold pointed
  split
  · rfl
  · next hne =>
    have hall : fraction.all isDigit = true := List.all_eq_true.mpr h
    have hsome : fraction.isEmpty = false := by rwa [List.isEmpty_eq_false_iff]
    simp [Json.isFraction, hall, hsome]

/-- **A number with a point or an exponent is a floating point number.** -/
theorem IsNumber.readUnsigned?_json (h : p.IsNumber) (hmore : p.fraction ≠ [] ∨ p.scale ≠ [])
    (keeps : ℤ → Bool) (negative : Bool) :
    Json.readUnsigned? keeps negative p.chars =
      some (.float (Literal.number negative p.coefficient p.shifted).toFloat) := by
  obtain ⟨hwhole, hrest⟩ := h.takeWhile_chars
  have hfraction : (pointed p.fraction ++ p.scale).takeWhile
      (fun c => c == '.' || isDigit c) = pointed p.fraction := by
    have hall : ∀ c ∈ pointed p.fraction, (c == '.' || isDigit c) = true := by
      intro c hc
      unfold pointed at hc
      split at hc
      · cases hc
      · rcases List.mem_cons.mp hc with rfl | hc
        · decide
        · rw [h.fraction c hc, Bool.or_true]
    refine (Text.takeWhile_append_of_head? hall fun c hc => ?_).1
    rcases h.head?_scale hc with rfl | rfl <;> decide
  have hsome : (pointed p.fraction ++ p.scale).isEmpty = false := by
    rw [List.isEmpty_eq_false_iff]
    intro hnil
    obtain ⟨hpoint, hscale⟩ := List.append_eq_nil_iff.mp hnil
    rcases hmore with hmore | hmore
    · rw [pointed, if_neg hmore] at hpoint
      cases hpoint
    · exact hmore hscale
  simp only [Json.readUnsigned?, hwhole, hrest, hfraction, h.whole, isFraction_pointed h.fraction,
    hsome, Bool.and_self, if_true, Bool.false_eq_true, if_false, h.readUnsigned?, Option.map_some]

theorem isNumberChar_of_isDigit {c : Char} (h : isDigit c = true) : Json.isNumberChar c = true := by
  simp [Json.isNumberChar, h]

/-- A number holds no other characters. -/
theorem IsNumber.isNumberChar (h : p.IsNumber) : ∀ c ∈ p.chars, Json.isNumberChar c = true := by
  intro c hc
  rcases List.mem_append.mp hc with hc | hc
  · exact isNumberChar_of_isDigit (h.digits c hc)
  · rcases List.mem_append.mp hc with hc | hc
    · unfold pointed at hc
      split at hc
      · cases hc
      · rcases List.mem_cons.mp hc with rfl | hc
        · decide
        · exact isNumberChar_of_isDigit (h.fraction c hc)
    · exact h.numberChars c hc

end Parts

/-! ## Digits of natural numbers -/

/-- The first digit of a positive number is not zero. -/
theorem exists_natChars {n : ℕ} (hn : 0 < n) : ∃ c rest, natChars n = c :: rest ∧ c ≠ '0' := by
  induction n using Nat.strongRecOn with
  | ind n ih =>
    unfold natChars at ih ⊢
    rcases Nat.lt_or_ge n 10 with hlt | hge
    · have hdigit : ∀ n < 10, 0 < n → n.digitChar ≠ '0' := by decide
      exact ⟨n.digitChar, [], Nat.toDigits_of_lt_base hlt, hdigit n hlt hn⟩
    · obtain ⟨c, rest, hchars, hc⟩ := ih (n / 10) (by omega) (by omega)
      rw [Nat.toDigits_of_base_le (by decide) hge, hchars]
      exact ⟨c, rest ++ [(n % 10).digitChar], rfl, hc⟩

theorem isWhole_cons {c : Char} {rest : List Char} (hc : c ≠ '0') (h : AllDigits (c :: rest)) :
    Json.isWhole (c :: rest) = true := by
  have hall : (c :: rest).all isDigit = true := List.all_eq_true.mpr h
  unfold Json.isWhole
  split
  · next heq => cases heq
  · rfl
  · next heq =>
    cases heq
    rw [hall, Bool.and_true, bne_iff_ne]
    exact hc

theorem isWhole_natChars (n : ℕ) : Json.isWhole (natChars n) = true := by
  rcases Nat.eq_zero_or_pos n with rfl | hn
  · decide
  · have hdigits := allDigits_natChars n
    obtain ⟨c, rest, hchars, hc⟩ := exists_natChars hn
    rw [hchars] at hdigits ⊢
    exact isWhole_cons hc hdigits

/-! ## The text of a floating point number -/

theorem readExponent?_positive (n : ℕ) :
    readExponent? ('e' :: '+' :: natChars n) = some (n : ℤ) := by
  have hall : (natChars n).all isDigit = true := List.all_eq_true.mpr (allDigits_natChars n)
  simp [readExponent?, splitSign, natChars_ne_nil, hall, digitsValue_natChars]

theorem readExponent?_negative (n : ℕ) :
    readExponent? ('e' :: '-' :: natChars n) = some (-(n : ℤ)) := by
  have hall : (natChars n).all isDigit = true := List.all_eq_true.mpr (allDigits_natChars n)
  simp [readExponent?, splitSign, natChars_ne_nil, hall, digitsValue_natChars]

/-- The parts of a number with digits before and after the point, and no exponent. -/
theorem isNumber_of_digits {whole fraction : List Char} (hwhole : Json.isWhole whole = true)
    (hdigits : AllDigits whole) (hfraction : AllDigits fraction) :
    Parts.IsNumber ⟨whole, fraction, [], 0⟩ :=
  ⟨hwhole, hdigits, hfraction, rfl, fun _ hc => absurd hc List.not_mem_nil⟩

/-- The value of digits before and after the point. -/
theorem decimalValue_of_digits (whole fraction : List Char) :
    decimalValue (Parts.coefficient ⟨whole, fraction, [], 0⟩)
        (Parts.shifted ⟨whole, fraction, [], 0⟩) =
      decimalValue (digitsValue (whole ++ fraction)) (-fraction.length) := by
  rw [Parts.coefficient, Parts.shifted, zero_sub]

/-- Zeros between the point and the digits. -/
theorem decimalValue_leadingZeros (digits : List Char) (zeros : ℕ) :
    decimalValue (digitsValue (['0'] ++ (List.replicate zeros '0' ++ digits)))
        (-(List.replicate zeros '0' ++ digits).length) =
      decimalValue (digitsValue digits) (-(zeros + digits.length : ℕ)) := by
  rw [List.length_append, List.length_replicate, List.singleton_append, ← List.cons_append,
    ← List.replicate_succ, digitsValue_replicate_append]

/-- Zeros between the digits and the point, and one behind it. -/
theorem decimalValue_trailingZeros (digits : List Char) (zeros : ℕ) :
    decimalValue (digitsValue (digits ++ List.replicate zeros '0' ++ ['0'])) (-['0'].length) =
      decimalValue (digitsValue digits) zeros := by
  rw [List.append_assoc, ← List.replicate_succ', digitsValue_append_replicate]
  unfold decimalValue
  rw [zpow_natCast, List.length_singleton]
  push_cast
  rw [pow_succ]
  norm_num
  ring

/-- **A positional text keeps the value.** -/
theorem exists_parts_positional {c : ℕ} (hc : 0 < c) (k : ℤ) :
    ∃ p : Parts, p.IsNumber ∧ p.fraction ≠ [] ∧
      positionalChars (natChars c) ((natChars c).length + k) = p.chars ∧
      decimalValue p.coefficient p.shifted = decimalValue c k := by
  have hdigits := allDigits_natChars c
  have hvalue := digitsValue_natChars c
  obtain ⟨d, rest, hchars, hd⟩ := exists_natChars hc
  generalize natChars c = digits at *
  rw [← hvalue]
  unfold positionalChars
  split
  · -- the point stands before the digits
    next hpoint =>
    generalize hz : (-((digits.length : ℤ) + k)).toNat = zeros
    have hfraction := (allDigits_replicate zeros).append hdigits
    have hne : List.replicate zeros '0' ++ digits ≠ [] := by simp [hchars]
    refine ⟨_, isNumber_of_digits rfl (allDigits_replicate 1) hfraction, hne, ?_, ?_⟩
    · rw [Parts.chars, Parts.pointed, if_neg hne, List.append_nil]
      rfl
    · rw [decimalValue_of_digits, List.replicate_one, decimalValue_leadingZeros]
      congr 1
      omega
  · next hpoint =>
    split
    · -- the point stands behind the digits
      next hlength =>
      generalize hz : ((digits.length : ℤ) + k).toNat - digits.length = zeros
      have hwhole := hdigits.append (allDigits_replicate zeros)
      have hnumber : Json.isWhole (digits ++ List.replicate zeros '0') = true := by
        rw [hchars] at hwhole ⊢
        exact isWhole_cons hd hwhole
      refine ⟨_, isNumber_of_digits hnumber hwhole (allDigits_replicate 1), List.cons_ne_nil _ _,
        ?_, ?_⟩
      · simp [Parts.chars, Parts.pointed]
      · rw [decimalValue_of_digits, List.replicate_one, decimalValue_trailingZeros]
        congr 1
        omega
    · -- the point stands between the digits
      next hlength =>
      generalize hz : ((digits.length : ℤ) + k).toNat = before
      have hwhole : AllDigits (digits.take before) := fun c hc =>
        hdigits c (List.mem_of_mem_take hc)
      have hfraction : AllDigits (digits.drop before) := fun c hc =>
        hdigits c (List.mem_of_mem_drop hc)
      have hnumber : Json.isWhole (digits.take before) = true := by
        obtain ⟨j, rfl⟩ : ∃ j, before = j + 1 := ⟨before - 1, by omega⟩
        rw [hchars, List.take_succ_cons] at hwhole ⊢
        exact isWhole_cons hd hwhole
      have hne : digits.drop before ≠ [] := by
        rw [ne_eq, List.drop_eq_nil_iff]
        omega
      refine ⟨_, isNumber_of_digits hnumber hwhole hfraction, hne, ?_, ?_⟩
      · rw [Parts.chars, Parts.pointed, if_neg hne, List.append_nil]
      · rw [decimalValue_of_digits, List.take_append_drop, List.length_drop]
        congr 1
        omega

/-- **A text with an exponent keeps the value.** -/
theorem exists_parts_scientific {c : ℕ} (hc : 0 < c) (leading : ℤ) :
    ∃ p : Parts, p.IsNumber ∧ p.scale ≠ [] ∧
      mantissaChars (natChars c) ++ ['e'] ++ (if leading < 0 then '-' :: natChars (-leading).toNat
        else ['+'] ++ natChars leading.toNat) = p.chars ∧
      decimalValue p.coefficient p.shifted =
        decimalValue c (leading - ((natChars c).length - 1 : ℤ)) := by
  have hdigits := allDigits_natChars c
  have hvalue := digitsValue_natChars c
  obtain ⟨d, rest, hchars, hd⟩ := exists_natChars hc
  rw [hchars] at hdigits hvalue ⊢
  generalize hscale : (if leading < 0 then '-' :: natChars (-leading).toNat
    else ['+'] ++ natChars leading.toNat) = scale
  have hexponent : readExponent? ('e' :: scale) = some leading ∧
      ∀ c ∈ 'e' :: scale, Json.isNumberChar c = true := by
    have hnumber : ∀ (sign : Char) (n : ℕ), Json.isNumberChar sign = true →
        ∀ c ∈ 'e' :: sign :: natChars n, Json.isNumberChar c = true := by
      intro sign n hsign c hc
      rcases List.mem_cons.mp hc with rfl | hc
      · decide
      · rcases List.mem_cons.mp hc with rfl | hc
        · exact hsign
        · exact Parts.isNumberChar_of_isDigit (allDigits_natChars n c hc)
    subst hscale
    split
    · rw [readExponent?_negative, Int.toNat_of_nonneg (by omega), neg_neg]
      exact ⟨rfl, hnumber '-' _ (by decide)⟩
    · rw [List.singleton_append, readExponent?_positive, Int.toNat_of_nonneg (by omega)]
      exact ⟨rfl, hnumber '+' _ (by decide)⟩
  have hrest : AllDigits rest := fun c hc => hdigits c (List.mem_cons_of_mem d hc)
  have hfirst : AllDigits [d] := fun c hc => by
    rw [List.mem_singleton.mp hc]
    exact hdigits d List.mem_cons_self
  refine ⟨⟨[d], rest, 'e' :: scale, leading⟩, ⟨isWhole_cons hd hfirst, hfirst, hrest,
    hexponent.1, hexponent.2⟩, List.cons_ne_nil _ _, ?_, ?_⟩
  · cases rest with
    | nil => rfl
    | cons c rest => simp [mantissaChars, Parts.chars, Parts.pointed]
  · show decimalValue (digitsValue (d :: rest)) (leading - rest.length) = _
    rw [hvalue, List.length_cons]
    congr 1
    push_cast
    ring

/-- **The text of a decimal number keeps its value.** -/
theorem exists_parts (x : Scientific) :
    ∃ p : Parts, p.IsNumber ∧ (p.fraction ≠ [] ∨ p.scale ≠ []) ∧ Json.floatForm.chars x = p.chars ∧
      decimalValue p.coefficient p.shifted = decimalValue x.coefficient x.exponent := by
  obtain ⟨c, k⟩ := x
  unfold FloatForm.chars
  dsimp only
  split
  · next hzero =>
    subst hzero
    refine ⟨⟨['0'], ['0'], [], 0⟩, isNumber_of_digits rfl (allDigits_replicate 1)
      (allDigits_replicate 1), .inl (List.cons_ne_nil _ _), rfl, ?_⟩
    simp [decimalValue, Parts.coefficient, digitsValue]
  · next hc =>
    have hpos := Nat.pos_of_ne_zero hc
    split
    · obtain ⟨p, hp, hne, hchars, hvalue⟩ := exists_parts_positional hpos k
      refine ⟨p, hp, .inl hne, ?_, hvalue⟩
      rw [← hchars]
      congr 1
      ring
    · obtain ⟨p, hp, hne, hchars, hvalue⟩ :=
        exists_parts_scientific hpos ((natChars c).length - 1 + k)
      refine ⟨p, hp, .inr hne, hchars, hvalue.trans ?_⟩
      congr 1
      ring

end Decimal

/-! ## Floating point numbers -/

namespace Decimal.Binary64

theorem finite_lt_limit {m : ℕ} {e : ℤ} (h : IsStandard m e) (hle : e ≤ 971) :
    (m : ℚ) * 2 ^ e < 2 ^ 1024 := by
  have hm : (m : ℚ) < 2 ^ 53 := by exact_mod_cast h.lt
  calc (m : ℚ) * 2 ^ e < 2 ^ 53 * 2 ^ e := by gcongr
    _ ≤ 2 ^ 53 * 2 ^ (971 : ℤ) := by
      gcongr
      norm_num
    _ = 2 ^ 1024 := by
      rw [← zpow_natCast, ← zpow_natCast, ← zpow_add₀ two_ne_zero]
      rfl

/-- **A literal that is rounded to a number is that number**, with the sign of the literal. -/
theorem toFloat_of_rounds {x : Float} {negative : Bool} {m : ℕ} {e : ℤ}
    (h : ofFloat x = .finite negative m e) {c : ℕ} {k : ℤ}
    (hrounds : Rounds (decimalValue c k) (m * 2 ^ e)) :
    (Literal.number negative c k).toFloat = x := by
  obtain ⟨hstandard, hle⟩ := isStandard_of_ofBits h
  obtain ⟨n, f, hmagnitude, heq⟩ := denotes_magnitude hrounds (finite_lt_limit hstandard hle)
  obtain ⟨rfl, rfl⟩ := hstandard.unique (isStandard_of_ofBits hmagnitude).1 heq
  cases negative with
  | false => exact eq_of_ofFloat hmagnitude h
  | true => exact eq_of_ofFloat (ofFloat_neg hmagnitude) h

end Decimal.Binary64

namespace Json

open Decimal.Literal (isDigit allDigits_natChars allDigits_replicate digitsValue_natChars)

/-- A text that is the text of a number: it is read as a value, and no other character belongs to
it. -/
structure IsNumberText (keeps : ℤ → Bool) (cs : List Char) (value : Json) : Prop where
  ne_nil : cs ≠ []
  numberChars : ∀ c ∈ cs, isNumberChar c = true
  read : readNumber? keeps cs = some value

variable {keeps : ℤ → Bool}

theorem IsNumberText.exists_cons {cs : List Char} {value : Json} (h : IsNumberText keeps cs value) :
    ∃ c tail, cs = c :: tail ∧ isNumberChar c = true := by
  obtain ⟨c, tail, rfl⟩ := List.exists_cons_of_ne_nil h.ne_nil
  exact ⟨c, tail, rfl, h.numberChars c List.mem_cons_self⟩

/-- A number that starts with a digit has no sign. -/
theorem readNumber?_of_isNumber {p : Parts} (hp : p.IsNumber) :
    readNumber? keeps p.chars = readUnsigned? keeps false p.chars := by
  unfold readNumber?
  split
  · next rest heq =>
    obtain ⟨c, tail, hwhole⟩ := List.exists_cons_of_ne_nil hp.whole_ne_nil
    have hc : isDigit c = true := hp.digits c (by rw [hwhole]; exact List.mem_cons_self)
    rw [Parts.chars, hwhole] at heq
    cases heq
    exact absurd hc (by decide)
  · rfl

/-- A sign is put in front of a number. -/
theorem isNumberText_of_isNumber {p : Parts} (hp : p.IsNumber) {negative : Bool} {value : Json}
    (h : readUnsigned? keeps negative p.chars = some value) :
    IsNumberText keeps ((if negative then ['-'] else []) ++ p.chars) value := by
  have hne : p.chars ≠ [] := fun hnil => hp.whole_ne_nil (List.append_eq_nil_iff.mp hnil).1
  cases negative with
  | false => exact ⟨hne, hp.isNumberChar, (readNumber?_of_isNumber hp).trans h⟩
  | true =>
    refine ⟨List.cons_ne_nil _ _, fun c hc => ?_, h⟩
    rcases List.mem_cons.mp hc with rfl | hc
    · decide
    · exact hp.isNumberChar c hc

/-- **A finite number is read back as it is.** -/
theorem isNumberText_floatChars {x : Float} {negative : Bool} {m : ℕ} {e : ℤ}
    (h : ofFloat x = .finite negative m e) : IsNumberText keeps (floatChars x) (.float x) := by
  obtain ⟨p, hp, hmore, hchars, hvalue⟩ := exists_parts (shortest m e)
  have hrounds := rounds_shortest (isStandard_of_ofBits h).1
  rw [← hvalue] at hrounds
  have htext : floatChars x = (if negative then ['-'] else []) ++ p.chars := by
    simp only [floatChars, FloatForm.chars?, h, hchars, Option.getD_some]
  rw [htext]
  refine isNumberText_of_isNumber hp ?_
  rw [hp.readUnsigned?_json hmore, toFloat_of_rounds h hrounds]

/-- How a whole number is read: as it is, or as the nearest floating point number. -/
def intAsRead (keeps : ℤ → Bool) (n : ℤ) : Json :=
  if keeps n then .int n else .float (Literal.number (decide (n < 0)) n.natAbs 0).toFloat

theorem readUnsigned?_natChars (negative : Bool) (n : ℕ) (h : negative = true → 0 < n) :
    readUnsigned? keeps negative (natChars n) =
      some (intAsRead keeps (if negative then -(n : ℤ) else n)) := by
  have hp := isNumber_of_digits (isWhole_natChars n) (allDigits_natChars n) (allDigits_replicate 0)
  obtain ⟨hwhole, hrest⟩ := hp.takeWhile_chars
  have hchars : Parts.chars ⟨natChars n, [], [], 0⟩ = natChars n := List.append_nil _
  change List.takeWhile _ (Parts.chars ⟨natChars n, [], [], 0⟩) = natChars n at hwhole
  change List.dropWhile _ (Parts.chars ⟨natChars n, [], [], 0⟩) = [] at hrest
  rw [hchars] at hwhole hrest
  simp only [readUnsigned?, hwhole, hrest, isWhole_natChars, List.takeWhile_nil, isFraction,
    Bool.and_self, if_true, List.isEmpty_nil, digitsValue_natChars, Int.toNat_natCast]
  generalize hvalue : (if negative then -(n : ℤ) else n) = value
  have hzero : (negative && value == 0) = false := by
    cases negative with
    | false => rfl
    | true =>
      have := h rfl
      simp only [if_true] at hvalue
      simp
      omega
  have hsign : decide (value < 0) = negative := by
    cases negative with
    | false =>
      simp only [Bool.false_eq_true, if_false] at hvalue
      simp
      omega
    | true =>
      have := h rfl
      simp only [if_true] at hvalue
      simp
      omega
  have habs : value.natAbs = n := by
    rw [← hvalue]
    split <;> omega
  rw [hzero, intAsRead, hsign, habs, Bool.not_false, Bool.and_true]
  split <;> rfl

theorem isNumberText_natChars (negative : Bool) (n : ℕ) (h : negative = true → 0 < n) :
    IsNumberText keeps ((if negative then ['-'] else []) ++ natChars n)
      (intAsRead keeps (if negative then -(n : ℤ) else n)) := by
  have hnumber := isNumber_of_digits (isWhole_natChars n) (allDigits_natChars n)
    (allDigits_replicate 0)
  have hchars : natChars n = Parts.chars ⟨natChars n, [], [], 0⟩ := (List.append_nil _).symm
  have hread : readUnsigned? keeps negative (natChars n) = some _ :=
    readUnsigned?_natChars negative n h
  rw [hchars] at hread ⊢
  exact isNumberText_of_isNumber hnumber hread

/-- **A whole number is read back**, if the reader keeps it. -/
theorem isNumberText_intChars (n : ℤ) : IsNumberText keeps (intChars n) (intAsRead keeps n) := by
  cases n with
  | ofNat n => exact isNumberText_natChars false n nofun
  | negSucc n => exact isNumberText_natChars true (n + 1) fun _ => Nat.succ_pos n

end Json

end CompressorBench
