import Merkle.Json

/-!
# Decimals: numbers written and read again

What is written for a number is digits only, without a zero in front of others, so reading takes all
of them and stops where something else follows. Reading gives the number again as long as it stays
below the limit of 64 bits (`run_number_decimal`); beyond it no integer is read
(`run_number_decimal_of_large`).
-/
namespace Merkle.Json

/-! ## Written digits -/

theorem toNat_digit {d : Nat} (small : d < 10) : (UInt8.ofNat (0x30 + d)).toNat = 0x30 + d := by
  rw [UInt8.toNat_ofNat']
  omega

theorem isDigit_iff {b : UInt8} : isDigit b = true ↔ 0x30 ≤ b.toNat ∧ b.toNat ≤ 0x39 := by
  simp only [isDigit, Bool.and_eq_true, decide_eq_true_eq, UInt8.le_iff_toNat_le]
  rfl

theorem isDigit_digit {d : Nat} (small : d < 10) : isDigit (UInt8.ofNat (0x30 + d)) = true := by
  rw [isDigit_iff, toNat_digit small]
  omega

theorem digitValue_digit {d : Nat} (small : d < 10) :
    digitValue (UInt8.ofNat (0x30 + d)) = d := by
  rw [digitValue, toNat_digit small]
  omega

theorem isDigit_of_mem_decimal {n : Nat} {b : UInt8} (here : b ∈ decimal n) :
    isDigit b = true := by
  fun_induction decimal n with
  | case1 n small =>
    rw [List.mem_singleton.mp here]
    exact isDigit_digit small
  | case2 n large ih =>
    rcases List.mem_append.mp here with here | here
    · exact ih here
    · rw [List.mem_singleton.mp here]
      exact isDigit_digit (Nat.mod_lt n (by decide))

theorem decimal_ne_nil (n : Nat) : decimal n ≠ [] := by
  rw [decimal]
  split <;> simp

/-- Only zero starts with a zero. -/
theorem eq_zero_of_head?_decimal {n : Nat} (zero : (decimal n).head? = some 0x30) : n = 0 := by
  fun_induction decimal n with
  | case1 n small =>
    have same : UInt8.ofNat (0x30 + n) = 0x30 := by simpa using zero
    have value := toNat_digit small
    rw [same] at value
    change 0x30 = 0x30 + n at value
    omega
  | case2 n large ih =>
    obtain ⟨first, more, written⟩ := List.exists_cons_of_ne_nil (decimal_ne_nil (n / 10))
    rw [written, List.cons_append] at zero
    have tenth := ih (by rw [written]; exact zero)
    omega

/-- A first digit with digits behind it; none behind a zero. -/
theorem exists_decimal_eq_cons (n : Nat) :
    ∃ first more, decimal n = first :: more ∧ isDigit first = true ∧
      (∀ b ∈ more, isDigit b = true) ∧ (first = 0x30 → more = []) := by
  cases written : decimal n with
  | nil => exact absurd written (decimal_ne_nil n)
  | cons first more =>
    have digits : ∀ b ∈ first :: more, isDigit b = true := by
      rw [← written]
      exact fun _ => isDigit_of_mem_decimal
    simp only [List.mem_cons, forall_eq_or_imp] at digits
    refine ⟨first, more, rfl, digits.1, digits.2, ?_⟩
    rintro rfl
    obtain rfl : n = 0 := eq_zero_of_head?_decimal (by rw [written]; rfl)
    simpa [decimal] using written

/-! ## Digits read -/

/-- What has been read of digits below the limit is read on from there. -/
theorem appendDigits_append {limit n value : Nat} {digits more : List UInt8}
    (read : appendDigits limit n digits = (value, [])) :
    appendDigits limit n (digits ++ more) = appendDigits limit value more := by
  induction digits generalizing n with
  | nil =>
    cases read
    rfl
  | cons b digits ih =>
    rw [List.cons_append]
    simp only [appendDigits] at read ⊢
    split at read
    next below =>
      rw [if_pos below]
      exact ih read
    next => cases read

theorem appendDigits_decimal {limit n : Nat} (small : n < limit) :
    appendDigits limit 0 (decimal n) = (n, []) := by
  fun_induction decimal n with
  | case1 n digit =>
    simp only [appendDigits, digitValue_digit digit, Nat.mul_zero, Nat.zero_add, if_pos small]
  | case2 n large ih =>
    have last : n % 10 < 10 := Nat.mod_lt n (by decide)
    have whole : 10 * (n / 10) + n % 10 = n := Nat.div_add_mod n 10
    rw [appendDigits_append (ih (by omega))]
    simp only [appendDigits, digitValue_digit last, whole, if_pos small]

/-- Digits that are left over stay in front of what follows them. -/
theorem appendDigits_append_of_left {limit n value : Nat} {digits left more : List UInt8}
    {b : UInt8} (read : appendDigits limit n digits = (value, b :: left)) :
    appendDigits limit n (digits ++ more) = (value, b :: (left ++ more)) := by
  induction digits generalizing n with
  | nil => cases read
  | cons c digits ih =>
    rw [List.cons_append]
    simp only [appendDigits] at read ⊢
    split at read
    next below =>
      rw [if_pos below]
      exact ih read
    next reached =>
      cases read
      rw [if_neg reached]

/-- Of a number that is not below the limit some digits are left over. -/
theorem appendDigits_decimal_of_large {limit n : Nat} (large : limit ≤ n) :
    ∃ value b left, appendDigits limit 0 (decimal n) = (value, b :: left) := by
  fun_induction decimal n with
  | case1 n digit =>
    refine ⟨0, UInt8.ofNat (0x30 + n), [], ?_⟩
    simp only [appendDigits, digitValue_digit digit, Nat.mul_zero, Nat.zero_add,
      if_neg (Nat.not_lt_of_le large)]
  | case2 n many ih =>
    have last : n % 10 < 10 := Nat.mod_lt n (by decide)
    have whole : 10 * (n / 10) + n % 10 = n := Nat.div_add_mod n 10
    by_cases below : n / 10 < limit
    · refine ⟨n / 10, UInt8.ofNat (0x30 + n % 10), [], ?_⟩
      rw [appendDigits_append (appendDigits_decimal below)]
      simp only [appendDigits, digitValue_digit last, whole, if_neg (Nat.not_lt_of_le large)]
    · obtain ⟨value, b, left, read⟩ := ih (Nat.le_of_not_lt below)
      exact ⟨value, b, _, appendDigits_append_of_left read⟩

/-- Neither a digit nor the start of a fraction or an exponent comes next. -/
def EndsNumber (text : List UInt8) : Prop :=
  ∀ b, text.head? = some b → isDigit b = false ∧ b ≠ point ∧ b ≠ letterE ∧ b ≠ capitalE

variable {n : Nat} {rest : List UInt8}

/-- No digit comes next. -/
def NoDigit (text : List UInt8) : Prop := ∀ b, text.head? = some b → isDigit b = false

theorem EndsNumber.noDigit (ends : EndsNumber rest) : NoDigit rest := fun b here => (ends b here).1

theorem takeWhile_isDigit {digits : List UInt8} (all : ∀ b ∈ digits, isDigit b = true)
    (ends : NoDigit rest) :
    (digits ++ rest).takeWhile isDigit = digits ∧ (digits ++ rest).dropWhile isDigit = rest := by
  rw [List.takeWhile_append_of_pos all, List.dropWhile_append_of_pos all]
  cases rest with
  | nil => simp
  | cons b rest => simp [ends b rfl]

/-! ## Numerals -/

/-- Decimal digits, at least one. -/
def Digits (text : List UInt8) : Prop := text ≠ [] ∧ ∀ b ∈ text, isDigit b = true

instance (text : List UInt8) : Decidable (Digits text) :=
  @instDecidableAnd _ _ inferInstance (List.decidableBAll _ text)

/-- The digits of a number before its point. A zero stands alone. -/
def WholePart (text : List UInt8) : Prop := Digits text ∧ (text.head? = some 0x30 → text = [0x30])

/-- A point with digits, or nothing. -/
def FractionPart (text : List UInt8) : Prop :=
  text = [] ∨ ∃ digits, Digits digits ∧ text = point :: digits

/-- A power of ten in digits, with or without a sign, or nothing. -/
def ExponentPart (text : List UInt8) : Prop :=
  text = [] ∨ ∃ mark sign digits, mark ∈ [letterE, capitalE] ∧ sign ∈ [[], [plus], [minus]] ∧
    Digits digits ∧ text = mark :: (sign ++ digits)

/-- Any number as it may be written. -/
def NumberToken (text : List UInt8) : Prop :=
  ∃ sign whole fraction exponent, sign ∈ [[], [minus]] ∧ WholePart whole ∧
    FractionPart fraction ∧ ExponentPart exponent ∧ text = sign ++ (whole ++ (fraction ++ exponent))

theorem wholePart_decimal (n : Nat) : WholePart (decimal n) := by
  refine ⟨⟨decimal_ne_nil n, fun _ => isDigit_of_mem_decimal⟩, ?_⟩
  intro zero
  rw [eq_zero_of_head?_decimal zero]
  simp [decimal]

/-- Written numbers are numbers. -/
theorem numberToken_decimal (n : Nat) : NumberToken (decimal n) :=
  ⟨[], decimal n, [], [], by decide, wholePart_decimal n, .inl rfl, .inl rfl, by simp⟩

variable {whole fraction exponent : List UInt8}

theorem run_scanWhole (atEnd : Fault) (valid : WholePart whole) (ends : NoDigit rest) :
    (scanWhole atEnd).run (whole ++ rest) = .ok (whole, rest) := by
  obtain ⟨⟨nonempty, digits⟩, lone⟩ := valid
  obtain ⟨first, more, rfl⟩ := List.exists_cons_of_ne_nil nonempty
  obtain ⟨digit, digits⟩ := List.forall_mem_cons.mp digits
  obtain ⟨taken, left⟩ := takeWhile_isDigit digits ends
  rw [List.cons_append, scanWhole, Reader.run_bind, Reader.run_next?_cons]
  by_cases zero : first = 0x30
  · subst zero
    obtain rfl : more = [] := List.tail_eq_of_cons_eq (lone rfl)
    have no_digit : (rest.head?.any isDigit) = false := by
      cases rest with
      | nil => rfl
      | cons b rest => exact ends b rfl
    simp [Reader.run_bind, no_digit]
  · simp [zero, digit, Reader.run_bind, taken, left]

theorem run_scanFraction (atEnd : Fault) (valid : FractionPart fraction) (ends : NoDigit rest)
    (no_point : rest.head? ≠ some point) :
    ∃ digits, (scanFraction atEnd).run (fraction ++ rest) = .ok (digits, rest) := by
  rcases valid with rfl | ⟨digits, ⟨nonempty, all⟩, rfl⟩
  · exact ⟨none, by simp [scanFraction, Reader.run_bind, no_point]⟩
  · obtain ⟨taken, left⟩ := takeWhile_isDigit all ends
    exact ⟨some digits, by simp [scanFraction, Reader.run_bind, taken, left, nonempty]⟩

theorem run_scanFraction_none (atEnd : Fault) (ends : EndsNumber rest) :
    (scanFraction atEnd).run rest = .ok (none, rest) := by
  have no_point : rest.head? ≠ some point := fun here => (ends _ here).2.1 rfl
  simp [scanFraction, Reader.run_bind, no_point]

theorem run_scanExponent_none (atEnd : Fault) (ends : EndsNumber rest) :
    (scanExponent atEnd).run rest = .ok (none, rest) := by
  have no_mark : ¬ (rest.head? = some letterE ∨ rest.head? = some capitalE) := by
    rintro (here | here)
    · exact (ends _ here).2.2.1 rfl
    · exact (ends _ here).2.2.2 rfl
  simp [scanExponent, Reader.run_bind, no_mark]

theorem run_scanSign {sign : List UInt8} (known : sign ∈ [[], [plus], [minus]])
    (ends : rest.head? ≠ some plus ∧ rest.head? ≠ some minus) :
    ∃ negative, scanSign.run (sign ++ rest) = .ok (negative, rest) := by
  simp only [List.mem_cons, List.not_mem_nil, or_false] at known
  rcases known with rfl | rfl | rfl
  · exact ⟨false, by simp [scanSign, Reader.run_bind, ends.1, ends.2]⟩
  · exact ⟨false, by simp [scanSign, Reader.run_bind, (by decide : plus ≠ minus)]⟩
  · exact ⟨true, by simp [scanSign, Reader.run_bind]⟩

theorem Digits.head?_ne {digits : List UInt8} (valid : Digits digits) (rest : List UInt8)
    {b : UInt8} (other : isDigit b = false) : (digits ++ rest).head? ≠ some b := by
  obtain ⟨nonempty, all⟩ := valid
  obtain ⟨first, more, rfl⟩ := List.exists_cons_of_ne_nil nonempty
  rintro ⟨rfl⟩
  exact absurd (all b List.mem_cons_self) (by simp [other])

theorem run_scanExponent (atEnd : Fault) (valid : ExponentPart exponent) (ends : EndsNumber rest) :
    ∃ read, (scanExponent atEnd).run (exponent ++ rest) = .ok (read, rest) := by
  rcases valid with rfl | ⟨mark, sign, digits, mark_known, sign_known, digits_valid, rfl⟩
  · exact ⟨none, run_scanExponent_none atEnd ends⟩
  · obtain ⟨negative, read⟩ := run_scanSign sign_known
      ⟨digits_valid.head?_ne rest (by decide), digits_valid.head?_ne rest (by decide)⟩
    obtain ⟨nonempty, all⟩ := digits_valid
    obtain ⟨first, more, rfl⟩ := List.exists_cons_of_ne_nil nonempty
    obtain ⟨digit, all⟩ := List.forall_mem_cons.mp all
    obtain ⟨taken, left⟩ := takeWhile_isDigit all ends.noDigit
    have marked : mark = letterE ∨ mark = capitalE := by simpa using mark_known
    refine ⟨some ⟨negative, first :: more⟩, ?_⟩
    rw [List.cons_append] at read
    rw [scanExponent, List.cons_append, List.append_assoc, List.cons_append, Reader.run_bind,
      Reader.run_peek]
    simp [marked, Reader.run_bind, read, digit, taken, left]

/-- What stands behind the digits of a number is no digit. -/
theorem noDigit_fraction (valid : FractionPart fraction) (ends : NoDigit rest) :
    NoDigit (fraction ++ rest) := by
  rcases valid with rfl | ⟨digits, -, rfl⟩
  · exact ends
  · rintro _ ⟨rfl⟩
    decide

/-- What stands behind the fraction of a number continues neither digits nor a fraction. -/
theorem noDigit_exponent (valid : ExponentPart exponent) (ends : EndsNumber rest) :
    NoDigit (exponent ++ rest) ∧ (exponent ++ rest).head? ≠ some point := by
  rcases valid with rfl | ⟨mark, sign, digits, mark_known, -, -, rfl⟩
  · exact ⟨ends.noDigit, fun here => (ends _ here).2.1 rfl⟩
  · have marked : mark = letterE ∨ mark = capitalE := by simpa using mark_known
    refine ⟨?_, ?_⟩
    · rintro _ ⟨rfl⟩
      rcases marked with rfl | rfl <;> decide
    · rintro ⟨rfl⟩
      revert marked
      decide

/-- Every number is scanned to its end and no further. -/
theorem run_scan {token : List UInt8} (atEnd : Fault) (valid : NumberToken token)
    (ends : EndsNumber rest) :
    ∃ numeral, (scan atEnd).run (token ++ rest) = .ok (numeral, rest) := by
  obtain ⟨sign, whole, fraction, exponent, sign_known, whole_valid, fraction_valid,
    exponent_valid, rfl⟩ := valid
  obtain ⟨no_digit, no_point⟩ := noDigit_exponent exponent_valid ends
  have read_whole := run_scanWhole atEnd whole_valid (noDigit_fraction fraction_valid no_digit)
  obtain ⟨digits, read_fraction⟩ := run_scanFraction atEnd fraction_valid no_digit no_point
  obtain ⟨power, read_exponent⟩ := run_scanExponent atEnd exponent_valid ends
  have no_sign (behind : List UInt8) : (whole ++ behind).head? ≠ some minus :=
    whole_valid.1.head?_ne _ (by decide)
  simp only [List.mem_cons, List.not_mem_nil, or_false] at sign_known
  rcases sign_known with rfl | rfl
  · refine ⟨⟨false, whole, digits, power⟩, ?_⟩
    rw [List.nil_append, List.append_assoc, List.append_assoc, scan, Reader.run_bind,
      Reader.run_peek]
    simp only [no_sign, decide_false, if_false, Reader.run_bind, read_whole,
      read_fraction, read_exponent, Reader.run_pure]
  · refine ⟨⟨true, whole, digits, power⟩, ?_⟩
    rw [scan, Reader.run_bind, Reader.run_peek]
    simp [Reader.run_bind, read_whole, read_fraction, read_exponent]

/-- A written number is scanned to its end and no further. -/
theorem run_scan_decimal (atEnd : Fault) (ends : EndsNumber rest) :
    (scan atEnd).run (decimal n ++ rest) = .ok (⟨false, decimal n, none, none⟩, rest) := by
  have no_sign : (decimal n ++ rest).head? ≠ some minus := by
    obtain ⟨first, more, written, digit, -⟩ := exists_decimal_eq_cons n
    rw [written]
    rintro ⟨rfl⟩
    exact absurd digit (by decide)
  rw [scan, Reader.run_bind, Reader.run_peek]
  simp only [no_sign, decide_false, if_false, Reader.run_bind,
    run_scanWhole atEnd (wholePart_decimal n) ends.noDigit, run_scanFraction_none atEnd ends,
    run_scanExponent_none atEnd ends, Reader.run_pure]

theorem run_number_decimal (small : n < UInt64.size) (ends : EndsNumber rest) :
    number.run (decimal n ++ rest) = .ok (.integer n, rest) := by
  have value : Numeral.value ⟨false, decimal n, none, none⟩ = .ok (.integer n) := by
    simp [Numeral.value, Numeral.integer?, appendDigits_decimal small]
  rw [number, Reader.run_bind, run_scan_decimal _ ends]
  simp [value]

theorem value_decimal_of_large (large : UInt64.size ≤ n) :
    (∃ bits, Numeral.value ⟨false, decimal n, none, none⟩ = .ok (.double bits)) ∨
      ∃ ignored, Numeral.value ⟨false, decimal n, none, none⟩ = .error ignored := by
  obtain ⟨value, b, left, read⟩ := appendDigits_decimal_of_large large
  have no_integer : Numeral.integer? ⟨false, decimal n, none, none⟩ = none := by
    simp only [Numeral.integer?, read]
  unfold Numeral.value
  rw [no_integer]
  simp only [Option.getD_none, appendDigits]
  split
  · exact .inl ⟨_, rfl⟩
  · exact .inr ⟨_, rfl⟩

/-- A number beyond 64 bits is a double, or out of the range of doubles as well. -/
theorem run_number_decimal_of_large (large : UInt64.size ≤ n) (ends : EndsNumber rest) :
    (∃ bits, number.run (decimal n ++ rest) = .ok (.double bits, rest)) ∨
      ∃ unread, number.run (decimal n ++ rest) = .error ⟨.numberOutOfRange, unread⟩ := by
  rcases value_decimal_of_large large with ⟨bits, value⟩ | ⟨ignored, value⟩
  · refine .inl ⟨bits, ?_⟩
    rw [number, Reader.run_bind, run_scan_decimal _ ends]
    simp [value]
  · refine .inr ⟨rest.length + ignored, ?_⟩
    rw [number, Reader.run_bind, run_scan_decimal _ ends]
    simp [value]

end Merkle.Json
