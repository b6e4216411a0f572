import Merkle.Digest.Hex

/-!
# Faults: what is said of a text that is no digest

More than one thing can be wrong with a text. An odd length is told first, then the first byte that
is no digit, then the count of bytes; what comes later in this order may be wrong as well
(`ofHex_reports`).
-/
namespace Merkle.Digest
open Hex (IsDigit FirstBad)

variable {text : String} {error : Error}

/-- An error of number 1001 for a reason, in the given words, with the text of the fault underneath.
-/
structure Reports (error : Error) (reason : Reason) (words : String) (source? : Option String) :
    Prop where
  reason : error.reason = reason
  message : error.message = "[E1001] invalid hash: " ++ words
  source : error.source? = source?

theorem tag_invalidHash : ErrorKind.invalidHash.tag = "E1001" := by decide +kernel

/-- The message is the reason behind the number and the words for the kind. -/
theorem reports_reason (reason : Reason) :
    Reports { kind := .invalidHash, reason } reason reason.text reason.source? where
  reason := rfl
  message := by
    simp only [Error.message, tag_invalidHash]
    rfl
  source := rfl

/-- A bad byte is told by what stands for the character with its number. -/
theorem text_badCharacter (byte : UInt8) (position : Nat) :
    Hex.Fault.text (.badCharacter byte position) =
      "Invalid character \x27" ++
        String.ofList (Text.escapeChar .single (Char.ofNat byte.toNat)) ++ "\x27 at position " ++
        toString position := by
  have opening : "Invalid character \x27" = "Invalid character " ++ "\x27" := by decide +kernel
  have closing : "\x27 at position " = "\x27" ++ " at position " := by decide +kernel
  have regroup (a b c d e f : String) :
      a ++ (b ++ c ++ d) ++ e ++ f = a ++ b ++ c ++ (d ++ e) ++ f := by
    simp only [String.append_assoc]
  rw [opening, closing]
  change "Invalid character " ++ Text.quoteChar (Char.ofNat byte.toNat) ++ " at position " ++
    toString position = _
  rw [Text.quoteChar_eq, regroup]

/-- Every rejection is about the text. -/
theorem reason_of_ofHex (rejected : ofHex text = .error error) :
    ∃ reason, error = { kind := .invalidHash, reason } := by
  unfold ofHex at rejected
  cases read : Hex.decode (Text.utf8 text) with
  | error fault =>
    rw [read] at rejected
    exact ⟨.hexText fault, (Except.error.inj rejected).symm⟩
  | ok bytes =>
    simp only [read, ofDecoded] at rejected
    split at rejected
    · cases rejected
    · exact ⟨.digestWidth bytes.length, (Except.error.inj rejected).symm⟩

/-- Each rejected text gets the error of the first thing that is wrong with it, always with number
1001. A byte that is no digit is named with its position, by what is shown for the character with
its number and for no other; bytes of longer characters are named like others. -/
theorem ofHex_reports (text : String) :
    ((∃ error, ofHex text = .error error) ↔
      (Text.utf8 text).length ≠ 64 ∨ ∃ b ∈ Text.utf8 text, ¬ IsDigit b) ∧
    ∀ error, ofHex text = .error error →
      error.kind = .invalidHash ∧ error.code.code = 1001 ∧
      ((Text.utf8 text).length % 2 = 1 →
        Reports error (.hexText .oddLength) "Odd number of digits" (some "Odd number of digits")) ∧
      ((Text.utf8 text).length % 2 = 0 → (∃ b ∈ Text.utf8 text, ¬ IsDigit b) →
        ∃ position byte c shown words, FirstBad (Text.utf8 text) position byte ∧
          Char.toNat c = byte.toNat ∧
          Text.Shows .single c shown ∧
          (∀ other, Text.Shows .single other shown → other = c) ∧
          words = "Invalid character \x27" ++ String.ofList shown ++ "\x27 at position " ++
            toString position ∧
          Reports error (.hexText (.badCharacter byte position)) words (some words)) ∧
      ((Text.utf8 text).length % 2 = 0 → (∀ b ∈ Text.utf8 text, IsDigit b) →
        (Text.utf8 text).length / 2 ≠ 32 ∧
        Reports error (.digestWidth ((Text.utf8 text).length / 2))
          ("expected 32 bytes, got " ++ toString ((Text.utf8 text).length / 2)) none) := by
  refine ⟨rejected_iff, ?_⟩
  intro error rejected
  obtain ⟨reason, about⟩ := reason_of_ofHex rejected
  refine ⟨by rw [about], by rw [about]; rfl, ?_, ?_, ?_⟩
  · intro odd
    rw [ofHex_of_odd odd] at rejected
    obtain rfl := Except.error.inj rejected
    exact reports_reason (.hexText .oddLength)
  · intro even some_bad
    obtain ⟨position, byte, first⟩ := Hex.exists_firstBad some_bad
    rw [ofHex_of_firstBad even first] at rejected
    obtain rfl := Except.error.inj rejected
    have shows := Text.shows_escapeChar .single (Char.ofNat byte.toNat)
    have reports := reports_reason (.hexText (.badCharacter byte position))
    simp only [Reason.text, Reason.source?, text_badCharacter] at reports
    exact ⟨position, byte, Char.ofNat byte.toNat, _, _, first, Text.toNat_ofNat_byte byte, shows,
      fun _ same => same.char_inj shows, rfl, reports⟩
  · intro even all
    have other : (Text.utf8 text).length / 2 ≠ 32 := by
      intro width
      have wrong := rejected_iff.mp ⟨error, rejected⟩
      rcases wrong with length | ⟨b, here, bad⟩
      · omega
      · exact bad (all b here)
    rw [ofHex_of_width even all other] at rejected
    obtain rfl := Except.error.inj rejected
    exact ⟨other, reports_reason (.digestWidth _)⟩

/-- An odd length with a character that is no digit, such characters in texts that are too short,
one of them visible and one not, and digits that are too few. -/
theorem ofHex_reports_each_fault :
    (∃ error, ofHex "0é" = .error error ∧
      Reports error (.hexText .oddLength) "Odd number of digits" (some "Odd number of digits")) ∧
    (∃ error, ofHex "0é0" = .error error ∧
      error.reason = .hexText (.badCharacter 0xC3 1) ∧
      error.message = "[E1001] invalid hash: Invalid character 'Ã' at position 1" ∧
      error.source? = some "Invalid character 'Ã' at position 1") ∧
    (∃ error, ofHex "00\x7f0" = .error error ∧
      error.reason = .hexText (.badCharacter 0x7f 2) ∧
      error.message = "[E1001] invalid hash: Invalid character '\\u\x7b7f\x7d' at position 2") ∧
    ∃ error, ofHex "abcd" = .error error ∧
      Reports error (.digestWidth 2) "expected 32 bytes, got 2" none := by
  refine ⟨⟨_, rfl, ?_⟩, ⟨_, rfl, ?_⟩, ⟨_, rfl, ?_⟩, ⟨_, rfl, ?_⟩⟩
  · obtain ⟨-, -, odd, -⟩ := (ofHex_reports "0é").2 _ rfl
    exact odd rfl
  · obtain ⟨-, -, -, bad, -⟩ := (ofHex_reports "0é0").2 _ rfl
    obtain ⟨position, byte, c, shown, words, -, number, shows, -, said, reports⟩ :=
      bad rfl ⟨0xC3, by decide +kernel, by decide +kernel⟩
    obtain ⟨rfl, rfl⟩ : byte = 0xC3 ∧ position = 1 := by
      simpa [Error.ofHexFault] using reports.reason.symm
    obtain rfl : c = 'Ã' := Char.toNat_inj.mp number
    obtain rfl : shown = ['Ã'] := (Text.shows_iff.mp shows).trans (by decide +kernel)
    have literal : words = "Invalid character 'Ã' at position 1" :=
      said.trans (by decide +kernel)
    rw [literal] at reports
    exact ⟨reports.reason, reports.message.trans (by decide +kernel), reports.source⟩
  · obtain ⟨-, -, -, bad, -⟩ := (ofHex_reports "00\x7f0").2 _ rfl
    obtain ⟨position, byte, c, shown, words, -, number, shows, -, said, reports⟩ :=
      bad rfl ⟨0x7f, by decide +kernel, by decide +kernel⟩
    obtain ⟨rfl, rfl⟩ : byte = 0x7f ∧ position = 2 := by
      simpa [Error.ofHexFault] using reports.reason.symm
    obtain rfl : c = '\x7f' := Char.toNat_inj.mp number
    obtain rfl : shown = ['\\', 'u', '{', '7', 'f', '}'] :=
      (Text.shows_iff.mp shows).trans (by decide +kernel)
    rw [said] at reports
    exact ⟨reports.reason, reports.message.trans (by decide +kernel)⟩
  · obtain ⟨-, -, -, -, width⟩ := (ofHex_reports "abcd").2 _ rfl
    exact (width rfl (by decide +kernel)).2

end Merkle.Digest
