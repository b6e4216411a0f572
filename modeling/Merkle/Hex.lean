import Merkle.Text.Encoding
import Merkle.Text.Quoted

/-!
# Hexadecimal text: two digits a byte, high half first

Writing uses lower-case digits; reading takes either case and names the first fault. A text of an
even count of digits stands for bytes, and written again these give the text with its letters in
lower case (`decode_of_digits`). Otherwise the fault that is found is an odd length, or else the
first byte that is no digit, whichever half of a pair it is in (`decode_of_firstBad`).
-/
namespace Merkle.Hex

/-- The lower-case digit of a value below sixteen. -/
def digit (value : Nat) : UInt8 := UInt8.ofNat (if value < 10 then 48 + value else 87 + value)

/-- The value of a digit `0`-`9`, `a`-`f` or `A`-`F`. -/
def digitValue? (b : UInt8) : Option Nat :=
  if 48 ≤ b ∧ b ≤ 57 then some (b.toNat - 48)
  else if 97 ≤ b ∧ b ≤ 102 then some (b.toNat - 87)
  else if 65 ≤ b ∧ b ≤ 70 then some (b.toNat - 55)
  else none

/-- The two digits of each byte, as ASCII. -/
def encode : List UInt8 → List UInt8
  | [] => []
  | b :: rest => digit (b.toNat / 16) :: digit (b.toNat % 16) :: encode rest

/-- Why a text is no hexadecimal text. -/
inductive Fault where
  | oddLength
  | badCharacter (byte : UInt8) (position : Nat)
  deriving DecidableEq, Repr

/-- A byte is shown as the character with its number, also inside a longer UTF-8 sequence. -/
def Fault.text : Fault → String
  | .oddLength => "Odd number of digits"
  | .badCharacter byte position =>
    "Invalid character " ++ Text.quoteChar (Char.ofNat byte.toNat) ++ " at position "
      ++ toString position

/-- Digits two by two from the left; `position` counts the bytes before them. -/
def decodePairs (position : Nat) : List UInt8 → Except Fault (List UInt8)
  | [] => .ok []
  | [_] => .error .oddLength
  | high :: low :: rest =>
    match digitValue? high, digitValue? low with
    | none, _ => .error (.badCharacter high position)
    | some _, none => .error (.badCharacter low (position + 1))
    | some h, some l => (decodePairs (position + 2) rest).map (UInt8.ofNat (16 * h + l) :: ·)

/-- The bytes of a text. Its length is looked at before its characters. -/
def decode (text : List UInt8) : Except Fault (List UInt8) :=
  if text.length % 2 = 1 then .error .oddLength else decodePairs 0 text

@[simp] theorem length_encode (bytes : List UInt8) : (encode bytes).length = 2 * bytes.length := by
  induction bytes with
  | nil => rfl
  | cons b rest ih => simp [encode, ih]; omega

theorem digitValue?_digit {value : Nat} (h : value < 16) :
    digitValue? (digit value) = some value := by
  have all : ∀ v : Fin 16, digitValue? (digit v.val) = some v.val := by decide
  exact all ⟨value, h⟩

theorem decodePairs_encode (bytes : List UInt8) (position : Nat) :
    decodePairs position (encode bytes) = .ok bytes := by
  induction bytes generalizing position with
  | nil => rfl
  | cons b rest ih =>
    have hb := b.toNat_lt
    have whole : UInt8.ofNat (16 * (b.toNat / 16) + b.toNat % 16) = b := by
      rw [Nat.div_add_mod, UInt8.ofNat_toNat]
    simp only [encode, decodePairs, digitValue?_digit (show b.toNat / 16 < 16 by omega),
      digitValue?_digit (show b.toNat % 16 < 16 by omega), ih, Except.map, whole]

/-- Reading undoes writing. -/
theorem decode_encode (bytes : List UInt8) : decode (encode bytes) = .ok bytes := by
  have even : ¬ 2 * bytes.length % 2 = 1 := by omega
  simp only [decode, length_encode, if_neg even, decodePairs_encode]

/-! ## Digits, and the first byte that is none -/

/-- The digits that are read. -/
def digits : List UInt8 := Text.utf8 "0123456789abcdefABCDEF"

/-- One of the digits, in either case. -/
def IsDigit (b : UInt8) : Prop := b ∈ digits

instance (b : UInt8) : Decidable (IsDigit b) := inferInstanceAs (Decidable (b ∈ digits))

/-- The letters `A` to `F` in lower case; other bytes stay. -/
def lowerByte (b : UInt8) : UInt8 := if 65 ≤ b ∧ b ≤ 70 then b + 32 else b

/-- The first byte of a text that is no digit. -/
structure FirstBad (text : List UInt8) (position : Nat) (byte : UInt8) : Prop where
  here : text[position]? = some byte
  bad : ¬ IsDigit byte
  before : ∀ b ∈ text.take position, IsDigit b

variable {text : List UInt8} {b c byte : UInt8} {position : Nat}

/-! ## Single digits -/

/-- The value of a digit; the digit of the value is the same in lower case. -/
theorem exists_digitValue? (digit : IsDigit b) :
    ∃ value, digitValue? b = some value ∧ value < 16 ∧ Hex.digit value = lowerByte b := by
  have all : ∀ b ∈ digits, ((digitValue? b).any fun value =>
      value < 16 ∧ Hex.digit value = lowerByte b) = true := by decide +kernel
  obtain ⟨value, read, found⟩ := (Option.any_eq_true ..).mp (all b digit)
  obtain ⟨small, written⟩ := of_decide_eq_true found
  exact ⟨value, read, small, written⟩

theorem digitValue?_of_not_digit (bad : ¬ IsDigit b) : digitValue? b = none := by
  have all : ∀ n : Fin 256, ¬ IsDigit (UInt8.ofNat n) → digitValue? (UInt8.ofNat n) = none := by
    decide +kernel
  have none_here := all ⟨b.toNat, b.toNat_lt⟩
  rw [UInt8.ofNat_toNat] at none_here
  exact none_here bad

/-! ## The first bad byte -/

theorem FirstBad.cons (digit : IsDigit c) (first : FirstBad text position byte) :
    FirstBad (c :: text) (position + 1) byte where
  here := first.here
  bad := first.bad
  before := by
    rw [List.take_succ_cons]
    exact List.forall_mem_cons.mpr ⟨digit, first.before⟩

theorem firstBad_zero (bad : ¬ IsDigit byte) (rest : List UInt8) :
    FirstBad (byte :: rest) 0 byte :=
  ⟨rfl, bad, List.forall_mem_nil _⟩

/-- The first byte of a text is the bad one, or it is a digit in front of the bad one. -/
theorem FirstBad.cases_cons (first : FirstBad (c :: text) position byte) :
    (position = 0 ∧ c = byte) ∨
      ∃ behind, position = behind + 1 ∧ IsDigit c ∧ FirstBad text behind byte := by
  cases position with
  | zero => exact .inl ⟨rfl, Option.some.inj first.here⟩
  | succ behind =>
    have before := first.before
    rw [List.take_succ_cons] at before
    obtain ⟨digit, before⟩ := List.forall_mem_cons.mp before
    exact .inr ⟨behind, rfl, digit, first.here, first.bad, before⟩

/-- A text that is not all digits has a first byte that is none. -/
theorem exists_firstBad (some_bad : ∃ b ∈ text, ¬ IsDigit b) :
    ∃ position byte, FirstBad text position byte := by
  induction text with
  | nil =>
    obtain ⟨b, here, -⟩ := some_bad
    cases here
  | cons c text ih =>
    by_cases digit : IsDigit c
    · obtain ⟨b, here, bad⟩ := some_bad
      have behind : b ∈ text := by
        rcases List.mem_cons.mp here with same | behind
        · rw [same] at bad
          exact absurd digit bad
        · exact behind
      obtain ⟨position, byte, first⟩ := ih ⟨b, behind, bad⟩
      exact ⟨position + 1, byte, first.cons digit⟩
    · exact ⟨0, c, firstBad_zero digit text⟩

/-! ## Decoding -/

theorem even_of_cons_cons (even : (b :: c :: text).length % 2 = 0) : text.length % 2 = 0 := by
  simp only [List.length_cons] at even
  omega

/-- Digits are read two by two; written again they are in lower case. -/
theorem decodePairs_of_digits (even : text.length % 2 = 0) (all : ∀ b ∈ text, IsDigit b)
    (start : Nat) :
    ∃ bytes, decodePairs start text = .ok bytes ∧ encode bytes = text.map lowerByte := by
  fun_induction decodePairs start text with
  | case1 => exact ⟨[], rfl, rfl⟩
  | case2 => simp at even
  | case3 start high low rest no_high =>
    obtain ⟨value, read, -⟩ := exists_digitValue? (all high List.mem_cons_self)
    rw [read] at no_high
    cases no_high
  | case4 start high low rest h no_low =>
    obtain ⟨value, read, -⟩ := exists_digitValue? (all low (by simp))
    rw [read] at no_low
    cases no_low
  | case5 start high low rest h l low_read high_read ih =>
    simp only [List.forall_mem_cons] at all
    obtain ⟨high_digit, low_digit, rest_digits⟩ := all
    obtain ⟨value, read_high, high_small, high_written⟩ := exists_digitValue? high_digit
    obtain ⟨value', read_low, low_small, low_written⟩ := exists_digitValue? low_digit
    obtain rfl : value = h := by simpa [read_high] using high_read
    obtain rfl : value' = l := by simpa [read_low] using low_read
    obtain ⟨bytes, read, written⟩ := ih (even_of_cons_cons even) rest_digits
    have whole : (UInt8.ofNat (16 * value + value')).toNat = 16 * value + value' := by
      rw [UInt8.toNat_ofNat']
      omega
    have half : (16 * value + value') / 16 = value := by omega
    have other_half : (16 * value + value') % 16 = value' := by omega
    refine ⟨UInt8.ofNat (16 * value + value') :: bytes, by rw [read]; rfl, ?_⟩
    rw [encode, whole, half, other_half, high_written, low_written, written]
    rfl

/-- The first byte that is no digit is named with its position, in either half of a pair. -/
theorem decodePairs_of_firstBad (even : text.length % 2 = 0)
    (first : FirstBad text position byte) (start : Nat) :
    decodePairs start text = .error (.badCharacter byte (start + position)) := by
  fun_induction decodePairs start text generalizing position with
  | case1 => cases first.here
  | case2 => simp at even
  | case3 start high low rest no_high =>
    rcases first.cases_cons with ⟨rfl, rfl⟩ | ⟨behind, -, digit, -⟩
    · rfl
    · obtain ⟨value, read, -⟩ := exists_digitValue? digit
      rw [read] at no_high
      cases no_high
  | case4 start high low rest h no_low high_read =>
    rcases first.cases_cons with ⟨-, rfl⟩ | ⟨behind, rfl, -, first⟩
    · rw [digitValue?_of_not_digit first.bad] at high_read
      cases high_read
    · rcases first.cases_cons with ⟨rfl, rfl⟩ | ⟨further, -, digit, -⟩
      · rfl
      · obtain ⟨value, read, -⟩ := exists_digitValue? digit
        rw [read] at no_low
        cases no_low
  | case5 start high low rest h l low_read high_read ih =>
    rcases first.cases_cons with ⟨-, rfl⟩ | ⟨behind, rfl, -, first⟩
    · rw [digitValue?_of_not_digit first.bad] at high_read
      cases high_read
    · rcases first.cases_cons with ⟨-, rfl⟩ | ⟨further, rfl, -, first⟩
      · rw [digitValue?_of_not_digit first.bad] at low_read
        cases low_read
      · rw [ih (even_of_cons_cons even) first, Nat.add_assoc, Nat.add_comm 2]
        rfl

theorem decode_of_odd (odd : text.length % 2 = 1) : decode text = .error .oddLength := by
  rw [decode, if_pos odd]

theorem decode_of_firstBad (even : text.length % 2 = 0) (first : FirstBad text position byte) :
    decode text = .error (.badCharacter byte position) := by
  rw [decode, if_neg (by omega), decodePairs_of_firstBad even first, Nat.zero_add]

theorem decode_of_digits (even : text.length % 2 = 0) (all : ∀ b ∈ text, IsDigit b) :
    ∃ bytes, decode text = .ok bytes ∧ encode bytes = text.map lowerByte := by
  rw [decode, if_neg (by omega)]
  exact decodePairs_of_digits even all 0

end Merkle.Hex
