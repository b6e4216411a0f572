import Merkle.Proofs.Json.Grammar
import Merkle.Proofs.Json.Reading

/-!
# Strings: every way to spell a string is read

The loop that reads a string takes one piece at a time: from each way to spell a character it gets
the UTF-8 bytes of that character (`CharSpelling.stringFrom`). So a token of a string, escaped or
not, gives the bytes of the string (`Quoted.spells`), and a token of any string is passed over
(`StringToken.run_skipString`).
-/
namespace Merkle.Json

variable {c : Char} {piece rest whole : List UInt8}

/-! ## Escapes -/

theorem HexDigit.digitValue? {b : UInt8} {value : Nat} (hex : HexDigit b value) :
    Hex.digitValue? b = some value := by
  have known : ∀ digits ∈ hexDigits, ∀ value : Fin digits.length,
      Hex.digitValue? digits[value] = some value.val := by decide
  obtain ⟨digits, here, there⟩ := hex
  obtain ⟨inside, rfl⟩ := List.getElem?_eq_some_iff.mp there
  exact known digits here ⟨value, inside⟩

theorem run_fourDigits {digits : List UInt8} {value : Nat} (hex : FourHex digits value)
    (rest : List UInt8) : fourDigits.run (digits ++ rest) = .ok (value, rest) := by
  cases hex with
  | digits first second third fourth =>
    simp only [Reader.run, List.cons_append, List.nil_append, fourDigits, first.digitValue?,
      second.digitValue?, third.digitValue?, fourth.digitValue?]

/-- The code point of a character is no surrogate. -/
theorem toNat_lt_or_lt (c : Char) : c.toNat < 0xd800 ∨ 0xdfff < c.toNat := by
  rcases c.valid with low | ⟨high, -⟩
  · exact .inl low
  · exact .inr high

theorem run_codePoint_unit {digits : List UInt8} (hex : FourHex digits c.toNat)
    (rest : List UInt8) : codePoint.run (digits ++ rest) = .ok (c.toNat, rest) := by
  have scalar := toNat_lt_or_lt c
  rw [codePoint, Reader.run_bind_of_ok (run_fourDigits hex rest), if_neg (by omega),
    if_pos (by omega), Reader.run_pure]

theorem run_codePoint_pair {high low : Nat} {digits digits' : List UInt8}
    (high_lt : high < 0x400) (low_lt : low < 0x400) (hex : FourHex digits (0xd800 + high))
    (hex' : FourHex digits' (0xdc00 + low)) (rest : List UInt8) :
    codePoint.run (digits ++ (backslash :: letterU :: (digits' ++ rest))) =
      .ok (0x10000 + high * 0x400 + low, rest) := by
  have between (b : UInt8) (rest : List UInt8) : (pairByte b).run (b :: rest) = .ok ((), rest) := by
    rw [pairByte, Reader.run_bind_of_ok (Reader.run_next?_cons b rest)]
    simp
  rw [codePoint, Reader.run_bind_of_ok (run_fourDigits hex _), if_neg (by omega),
    if_neg (by omega), Reader.run_bind_of_ok (between _ _), Reader.run_bind_of_ok (between _ _),
    Reader.run_bind_of_ok (run_fourDigits hex' rest), if_neg (by omega), Reader.run_pure,
    Nat.add_sub_cancel_left, Nat.add_sub_cancel_left]

/-- An escape of more than one letter gives its character. -/
theorem run_escape_codePoint {text : List UInt8} (read : codePoint.run text = .ok (c.toNat, rest)) :
    escape.run (letterU :: text) = .ok (String.utf8EncodeChar c, rest) := by
  rw [escape, Reader.run_bind_of_ok (Reader.run_next?_cons letterU text)]
  simp only [if_true]
  rw [Reader.run_bind_of_ok read, Char.ofNat_toNat, Reader.run_pure]

/-- What the letter of a short escape stands for; it is none of the letters of other escapes. -/
theorem shortEscape?_of_mem {b : UInt8} (known : (b, c) ∈ shortEscapes) :
    b ≠ letterU ∧ ∃ byte, shortEscape? b = some byte ∧ String.utf8EncodeChar c = [byte] := by
  have all : ∀ entry ∈ shortEscapes, entry.1 ≠ letterU ∧
      (shortEscape? entry.1).map ([·]) = some (String.utf8EncodeChar entry.2) := by decide
  obtain ⟨other, found⟩ := all _ known
  obtain ⟨byte, short, bytes⟩ := Option.map_eq_some_iff.mp found
  exact ⟨other, byte, short, bytes.symm⟩

theorem run_escape_short {b : UInt8} (known : (b, c) ∈ shortEscapes) (rest : List UInt8) :
    escape.run (b :: rest) = .ok (String.utf8EncodeChar c, rest) := by
  obtain ⟨other, byte, short, bytes⟩ := shortEscape?_of_mem known
  rw [escape, Reader.run_bind_of_ok (Reader.run_next?_cons b rest)]
  simp only [if_neg other, short, bytes, Reader.run_pure]

/-! ## Characters -/

/-- The bytes of a character: one for a character of ASCII, else some that are not ASCII. -/
theorem utf8EncodeChar_cases (c : Char) :
    (c.toNat < 0x80 ∧ String.utf8EncodeChar c = [UInt8.ofNat c.toNat]) ∨
      ∀ b ∈ String.utf8EncodeChar c, 0x80 ≤ b.toNat := by
  have value : c.val.toNat = c.toNat := rfl
  by_cases ascii : c.toNat ≤ 127
  · left
    refine ⟨by omega, ?_⟩
    simp only [String.utf8EncodeChar, value, if_pos ascii]
  · right
    intro b here
    simp only [String.utf8EncodeChar, value, if_neg ascii] at here
    split at here
    · simp only [List.mem_cons, List.not_mem_nil, or_false] at here
      rcases here with rfl | rfl <;> rw [UInt8.toNat_ofNat'] <;> omega
    · split at here
      · simp only [List.mem_cons, List.not_mem_nil, or_false] at here
        rcases here with rfl | rfl | rfl <;> rw [UInt8.toNat_ofNat'] <;> omega
      · simp only [List.mem_cons, List.not_mem_nil, or_false] at here
        rcases here with rfl | rfl | rfl | rfl <;> rw [UInt8.toNat_ofNat'] <;> omega

/-- A character that stands for itself has no byte that means something else. -/
theorem plain_utf8EncodeChar (plain : PlainChar c) : Plain (String.utf8EncodeChar c) := by
  obtain ⟨no_quote, no_escape, no_control⟩ := plain
  intro b here
  rcases utf8EncodeChar_cases c with ⟨ascii, alone⟩ | beyond
  · rw [alone, List.mem_singleton] at here
    have value : b.toNat = c.toNat := by
      rw [here, UInt8.toNat_ofNat']
      omega
    have other {d : Char} {e : UInt8} (same : d.toNat = e.toNat) (different : c ≠ d) : b ≠ e := by
      rintro rfl
      exact different (Char.toNat_inj.mp (value.symm.trans same.symm))
    refine ⟨other rfl no_quote, other rfl no_escape, ?_⟩
    rw [UInt8.lt_iff_toNat_lt, value]
    exact Nat.not_lt.mpr no_control
  · have high := beyond b here
    have other {e : UInt8} (low : e.toNat < 0x80) : b ≠ e := by
      rintro rfl
      omega
    refine ⟨other (by decide), other (by decide), ?_⟩
    rw [UInt8.lt_iff_toNat_lt]
    exact Nat.not_lt.mpr (Nat.le_trans (by decide) high)

theorem stringFrom_escape {bytes : List UInt8} (read : List UInt8)
    (escaped : escape.run piece = .ok (bytes, rest)) (le : Within (backslash :: piece) whole) :
    ∃ within, stringFrom read whole (backslash :: piece) le =
      stringFrom (bytes.reverse ++ read) whole rest within := by
  obtain ⟨within, result⟩ := Reader.exists_eq_of_run escaped
  refine ⟨within.trans (.of_cons le), ?_⟩
  rw [stringFrom]
  simp only [if_neg (by decide : ¬ backslash = quoteMark), if_true, result]

/-- One round of the loop for each way to spell a character. -/
theorem CharSpelling.stringFrom (spelling : CharSpelling c piece) (read : List UInt8)
    (le : Within (piece ++ rest) whole) :
    ∃ within, Json.stringFrom read whole (piece ++ rest) le =
      Json.stringFrom ((String.utf8EncodeChar c).reverse ++ read) whole rest within := by
  cases spelling with
  | plain plain => exact stringFrom_plain (plain_utf8EncodeChar plain) read le
  | short known => exact stringFrom_escape read (run_escape_short known rest) le
  | unit hex =>
    exact stringFrom_escape read (run_escape_codePoint (run_codePoint_unit hex rest)) le
  | pair high_lt low_lt code hex hex' =>
    have point := run_codePoint_pair high_lt low_lt hex hex' rest
    rw [← code] at point
    simp only [List.cons_append, List.append_assoc] at le ⊢
    exact stringFrom_escape read (run_escape_codePoint point) le

theorem stringFrom_pieces {chars : List Char} {pieces : List (List UInt8)}
    (spelled : List.Forall₂ CharSpelling chars pieces) (read : List UInt8)
    (le : Within (pieces.flatten ++ rest) whole) :
    ∃ within, stringFrom read whole (pieces.flatten ++ rest) le =
      stringFrom ((chars.flatMap String.utf8EncodeChar).reverse ++ read) whole rest within := by
  induction spelled generalizing read with
  | nil => exact ⟨le, rfl⟩
  | @cons c piece chars pieces spelling _ ih =>
    simp only [List.flatten_cons, List.append_assoc] at le ⊢
    obtain ⟨middle, first⟩ := spelling.stringFrom read le
    obtain ⟨within, others⟩ := ih ((String.utf8EncodeChar c).reverse ++ read) middle
    refine ⟨within, ?_⟩
    rw [first, others, List.flatMap_cons, List.reverse_append, List.append_assoc]

/-- A token of a string starts with a quote, and what stands behind it spells the string. -/
theorem Quoted.spells {s : String} {token : Token} (quoted : Quoted s token) :
    ∃ behind, token = quoteMark :: behind ∧ Spells behind (Text.utf8 s) := by
  obtain ⟨pieces, spelled, rfl⟩ := quoted
  refine ⟨_, rfl, ?_⟩
  intro rest
  rw [List.append_assoc, List.singleton_append]
  obtain ⟨within, result⟩ := stringFrom_pieces spelled [] (.refl (_ ++ quoteMark :: rest))
  rw [stringFrom_quote, List.append_nil, List.reverse_reverse, ← Text.utf8_ofList,
    String.ofList_toList] at result
  exact Reader.run_of_eq result

/-! ## Strings that nobody asked for -/

theorem run_discard {α : Type} {reader : Reader α} {value : α} {text : List UInt8}
    (read : reader.run text = .ok (value, rest)) : (discard reader).run text = .ok ((), rest) :=
  Reader.run_bind_of_ok read

theorem skipStringFrom_plain {bytes : List UInt8} (plain : Plain bytes)
    (le : Within (bytes ++ rest) whole) :
    ∃ within, skipStringFrom whole (bytes ++ rest) le = skipStringFrom whole rest within := by
  induction bytes with
  | nil => exact ⟨le, rfl⟩
  | cons b bytes ih =>
    obtain ⟨no_quote, no_escape, no_control⟩ := plain b List.mem_cons_self
    have behind : Plain bytes := fun c here => plain c (List.mem_cons_of_mem b here)
    obtain ⟨within, result⟩ := ih behind (.of_cons le)
    refine ⟨within, ?_⟩
    rw [← result]
    simp [skipStringFrom, no_quote, no_escape, no_control]

theorem skipStringFrom_escape (escaped : skipEscape.run piece = .ok ((), rest))
    (le : Within (backslash :: piece) whole) :
    ∃ within, skipStringFrom whole (backslash :: piece) le = skipStringFrom whole rest within := by
  obtain ⟨within, result⟩ := Reader.exists_eq_of_run escaped
  refine ⟨within.trans (.of_cons le), ?_⟩
  rw [skipStringFrom]
  simp only [if_neg (by decide : ¬ backslash = quoteMark), if_true, result]

/-- One round of the loop for each piece; an escape may be half of a surrogate pair. -/
theorem Piece.skipStringFrom (valid : Piece piece) (le : Within (piece ++ rest) whole) :
    ∃ within, Json.skipStringFrom whole (piece ++ rest) le =
      Json.skipStringFrom whole rest within := by
  cases valid with
  | plain plain => exact skipStringFrom_plain (plain_utf8EncodeChar plain) le
  | @short b c known =>
    apply skipStringFrom_escape _ le
    obtain ⟨other, byte, short, -⟩ := shortEscape?_of_mem known
    rw [skipEscape]
    simp [Reader.run_bind, other, short]
  | @unit digits value hex =>
    simp only [List.cons_append] at le ⊢
    apply skipStringFrom_escape _ le
    rw [skipEscape, Reader.run_bind_of_ok (Reader.run_next?_cons letterU _)]
    simp only [if_true]
    exact run_discard (run_fourDigits hex rest)

theorem StringToken.run_skipString {token : Token} (string : StringToken token) :
    ∃ behind, token = quoteMark :: behind ∧
      ∀ rest, skipString.run (behind ++ rest) = .ok ((), rest) := by
  obtain ⟨pieces, valid, rfl⟩ := string
  refine ⟨_, rfl, ?_⟩
  intro rest
  rw [List.append_assoc, List.singleton_append]
  suffices ∀ whole, ∀ le : Within (pieces.flatten ++ quoteMark :: rest) whole,
      ∃ within, skipStringFrom whole (pieces.flatten ++ quoteMark :: rest) le =
        .ok ⟨(), rest, within⟩ by
    obtain ⟨within, result⟩ := this _ (.refl _)
    exact Reader.run_of_eq result
  intro whole le
  induction pieces with
  | nil => exact ⟨.of_cons le, by simp [skipStringFrom]⟩
  | cons piece pieces ih =>
    obtain ⟨first, others⟩ := List.forall_mem_cons.mp valid
    simp only [List.flatten_cons, List.append_assoc] at le ⊢
    obtain ⟨middle, passed⟩ := first.skipStringFrom le
    rw [passed]
    exact ih others middle

end Merkle.Json
