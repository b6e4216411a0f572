import Merkle.Hex
import Merkle.Json.Reader

/-!
# Strings: from behind the opening quote to behind the closing one

`string` gives the bytes that a string stands for. `skipString` only passes over one: it takes any
four hexadecimal digits for a character, and leaves a control character unread.
-/
namespace Merkle.Json

theorem within_four (a b c d : UInt8) (rest : List UInt8) :
    Within rest (a :: b :: c :: d :: rest) := by
  simp only [Within, List.length_cons]
  omega

/-- Four hexadecimal digits. All four are taken before they are looked at. -/
def fourDigits : Reader Nat
  | a :: b :: c :: d :: rest =>
    match Hex.digitValue? a, Hex.digitValue? b, Hex.digitValue? c, Hex.digitValue? d with
    | some h, some i, some j, some k =>
      .ok ⟨((h * 16 + i) * 16 + j) * 16 + k, rest, within_four a b c d rest⟩
    | _, _, _, _ => .error ⟨.invalidEscape, rest.length⟩
  | _ => .error ⟨.endOfInput .string, 0⟩

/-- A byte that has to come between the halves of a surrogate pair. -/
def pairByte (wanted : UInt8) : Reader Unit := do
  match ← Reader.next? with
  | none => Reader.fail (.endOfInput .string)
  | some b => if b = wanted then pure () else Reader.fail .unfinishedSurrogatePair

/-- The code point of an escape, behind its `u`: one unit, or a high and a low surrogate. -/
def codePoint : Reader Nat := do
  let high ← fourDigits
  if 0xdc00 ≤ high ∧ high ≤ 0xdfff then Reader.fail .loneSurrogate
  else if high < 0xd800 ∨ 0xdbff < high then pure high
  else
    pairByte backslash
    pairByte letterU
    let low ← fourDigits
    if low < 0xdc00 ∨ 0xdfff < low then Reader.fail .loneSurrogate
    else pure (0x10000 + (high - 0xd800) * 0x400 + (low - 0xdc00))

/-- The character of an escape of one letter. -/
def shortEscape? (b : UInt8) : Option UInt8 :=
  if b = quoteMark ∨ b = backslash ∨ b = 0x2f then some b
  else if b = 0x62 then some 0x08
  else if b = letterF then some 0x0c
  else if b = letterN then some 0x0a
  else if b = 0x72 then some 0x0d
  else if b = letterT then some 0x09
  else none

/-- The bytes of an escape, behind its backslash. -/
def escape : Reader (List UInt8) := do
  match ← Reader.next? with
  | none => Reader.fail (.endOfInput .string)
  | some b =>
    if b = letterU then return String.utf8EncodeChar (Char.ofNat (← codePoint))
    else
      match shortEscape? b with
      | some c => pure [c]
      | none => Reader.fail .invalidEscape

/-- The rest of a string of which some bytes have been read, the last first. -/
def stringFrom (read whole text : List UInt8) (le : Within text whole) :
    Outcome (List UInt8) whole :=
  match text with
  | [] => .error ⟨.endOfInput .string, 0⟩
  | b :: rest =>
    have inside : Within rest whole := .of_cons le
    if b = quoteMark then .ok ⟨read.reverse, rest, inside⟩
    else if b = backslash then
      match escape rest with
      | .error stop => .error stop
      | .ok ⟨bytes, behind, h⟩ => stringFrom (bytes.reverse ++ read) whole behind (h.trans inside)
    else if b < 0x20 then .error ⟨.controlCharacter, rest.length⟩
    else stringFrom (b :: read) whole rest inside
termination_by text.length
decreasing_by
  · exact Nat.lt_succ_of_le h
  · exact Nat.lt_succ_self _

/-- The bytes of a string. -/
def string : Reader (List UInt8) := Reader.loop (stringFrom [])

/-- Passes over an escape, behind its backslash. -/
def skipEscape : Reader Unit := do
  match ← Reader.next? with
  | none => Reader.fail (.endOfInput .string)
  | some b =>
    if b = letterU then discard fourDigits
    else if (shortEscape? b).isSome then pure ()
    else Reader.fail .invalidEscape

/-- Passes over the rest of a string. -/
def skipStringFrom (whole text : List UInt8) (le : Within text whole) : Outcome Unit whole :=
  match text with
  | [] => .error ⟨.endOfInput .string, 0⟩
  | b :: rest =>
    have inside : Within rest whole := .of_cons le
    if b = quoteMark then .ok ⟨(), rest, inside⟩
    else if b = backslash then
      match skipEscape rest with
      | .error stop => .error stop
      | .ok ⟨_, behind, h⟩ => skipStringFrom whole behind (h.trans inside)
    else if b < 0x20 then .error ⟨.controlCharacter, rest.length + 1⟩
    else skipStringFrom whole rest inside
termination_by text.length
decreasing_by
  · exact Nat.lt_succ_of_le h
  · exact Nat.lt_succ_self _

/-- Passes over a string. -/
def skipString : Reader Unit := Reader.loop skipStringFrom

end Merkle.Json
