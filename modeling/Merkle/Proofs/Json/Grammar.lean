import Mathlib.Data.List.Forall2
import Merkle.Proofs.Json.Spacing

/-!
# Grammar: strings and values as tokens

What a well-formed value is, said without any reader. A character of a string may be spelled in
several ways (`CharSpelling`), so one string has many tokens; a string that is not asked for may
also hold escapes that are no characters, such as half of a surrogate pair (`Piece`). All that is
written is well-formed (`wellFormed_configTokens`, `wellFormed_proofTokens`).
-/
namespace Merkle.Json

/-! ## Strings -/

/-- The hexadecimal digits in the order of their values, once in each case. -/
def hexDigits : List (List UInt8) := [Text.utf8 "0123456789abcdef", Text.utf8 "0123456789ABCDEF"]

/-- A hexadecimal digit and its value. -/
def HexDigit (b : UInt8) (value : Nat) : Prop := ∃ digits ∈ hexDigits, digits[value]? = some b

/-- Four hexadecimal digits and their value. -/
inductive FourHex : List UInt8 → Nat → Prop
  | digits {a b c d : UInt8} {h i j k : Nat} (first : HexDigit a h) (second : HexDigit b i)
      (third : HexDigit c j) (fourth : HexDigit d k) :
      FourHex [a, b, c, d] (((h * 16 + i) * 16 + j) * 16 + k)

/-- The letter of each escape of one letter, and the character it stands for. -/
def shortEscapes : List (UInt8 × Char) :=
  [(quoteMark, '"'), (backslash, '\\'), (0x2f, '/'), (0x62, '\x08'), (letterF, '\x0c'),
    (letterN, '\n'), (0x72, '\r'), (letterT, '\t')]

/-- A character that may stand for itself. -/
def PlainChar (c : Char) : Prop := c ≠ '"' ∧ c ≠ '\\' ∧ 0x20 ≤ c.toNat

instance (c : Char) : Decidable (PlainChar c) := inferInstanceAs (Decidable (_ ∧ _))

/-- Characters that may all stand for themselves. -/
def PlainChars (chars : List Char) : Prop := ∀ c ∈ chars, PlainChar c

instance (chars : List Char) : Decidable (PlainChars chars) := List.decidableBAll _ chars

/-- The ways to write a character in a string: as itself, as an escape of one letter, as its code
point, or as the two surrogates of its code point. -/
inductive CharSpelling : Char → List UInt8 → Prop
  | plain {c : Char} (plain : PlainChar c) : CharSpelling c (String.utf8EncodeChar c)
  | short {b : UInt8} {c : Char} (known : (b, c) ∈ shortEscapes) : CharSpelling c [backslash, b]
  | unit {c : Char} {digits : List UInt8} (hex : FourHex digits c.toNat) :
      CharSpelling c (backslash :: letterU :: digits)
  | pair {c : Char} {high low : Nat} {digits digits' : List UInt8} (high_lt : high < 0x400)
      (low_lt : low < 0x400) (code : c.toNat = 0x10000 + high * 0x400 + low)
      (hex : FourHex digits (0xd800 + high)) (hex' : FourHex digits' (0xdc00 + low)) :
      CharSpelling c (backslash :: letterU :: (digits ++ backslash :: letterU :: digits'))

/-- A token of a string: its characters, spelled in any way, between quotes. -/
def Quoted (s : String) (token : Token) : Prop :=
  ∃ pieces, List.Forall₂ CharSpelling s.toList pieces ∧
    token = quoteMark :: (pieces.flatten ++ [quoteMark])

/-- A piece of a string whose characters do not matter. Any four digits make an escape. -/
inductive Piece : List UInt8 → Prop
  | plain {c : Char} (plain : PlainChar c) : Piece (String.utf8EncodeChar c)
  | short {b : UInt8} {c : Char} (known : (b, c) ∈ shortEscapes) : Piece [backslash, b]
  | unit {digits : List UInt8} {value : Nat} (hex : FourHex digits value) :
      Piece (backslash :: letterU :: digits)

/-- A token of some string. -/
def StringToken (token : Token) : Prop :=
  ∃ pieces : List (List UInt8), (∀ piece ∈ pieces, Piece piece) ∧
    token = quoteMark :: (pieces.flatten ++ [quoteMark])

/-! ## Values -/

/-- The tokens that are words. -/
def literals : List Token := [Text.utf8 "null", Text.utf8 "true", Text.utf8 "false"]

/-- The token of a value that holds no others. -/
inductive Scalar : Token → Prop
  | literal {token : Token} (known : token ∈ literals) : Scalar token
  | number {token : Token} (number : NumberToken token) : Scalar token
  | string {token : Token} (string : StringToken token) : Scalar token

/-- The tokens of a well-formed value, nested to any depth. A key may come more than once. -/
inductive WellFormed : List Token → Prop
  | scalar {token : Token} (scalar : Scalar token) : WellFormed [token]
  | list {items : List (List Token)} (elements : ∀ item ∈ items, WellFormed item) :
      WellFormed (enclosedTokens openBracket closeBracket items)
  | object {members : List (Token × List Token)} (keys : ∀ m ∈ members, StringToken m.1)
      (values : ∀ m ∈ members, WellFormed m.2) :
      WellFormed (enclosedTokens openBrace closeBrace
        (members.map fun m => m.1 :: [colonMark] :: m.2))

/-! ## Strings that are written are among them -/

/-- Each character as itself. -/
theorem forall₂_spelling_plain {chars : List Char} (plain : PlainChars chars) :
    List.Forall₂ CharSpelling chars (chars.map String.utf8EncodeChar) := by
  rw [List.forall₂_map_right_iff, List.forall₂_same]
  exact fun c here => .plain (plain c here)

theorem quoted_encodeName {s : String} (plain : PlainChars s.toList) :
    Quoted s (encodeName s) := by
  refine ⟨s.toList.map String.utf8EncodeChar, forall₂_spelling_plain plain, ?_⟩
  have bytes : Text.utf8 s = s.toList.flatMap String.utf8EncodeChar := by
    rw [← Text.utf8_ofList, String.ofList_toList]
  rw [encodeName, bytes, List.flatMap_def, List.cons_append]

/-- A string is a string whatever it says. -/
theorem Quoted.stringToken {s : String} {token : Token} (quoted : Quoted s token) :
    StringToken token := by
  obtain ⟨pieces, spelled, rfl⟩ := quoted
  suffices ∃ all : List (List UInt8), (∀ piece ∈ all, Piece piece) ∧
      all.flatten = pieces.flatten by
    obtain ⟨all, valid, same⟩ := this
    exact ⟨all, valid, by rw [same]⟩
  generalize s.toList = chars at spelled
  induction spelled with
  | nil => exact ⟨[], List.forall_mem_nil _, rfl⟩
  | @cons c piece chars pieces spelling _ ih =>
    obtain ⟨all, valid, same⟩ := ih
    cases spelling with
    | plain plain =>
      exact ⟨_ :: all, List.forall_mem_cons.mpr ⟨.plain plain, valid⟩, by simp [same]⟩
    | short known =>
      exact ⟨_ :: all, List.forall_mem_cons.mpr ⟨.short known, valid⟩, by simp [same]⟩
    | unit hex => exact ⟨_ :: all, List.forall_mem_cons.mpr ⟨.unit hex, valid⟩, by simp [same]⟩
    | pair _ _ _ hex hex' =>
      exact ⟨_ :: _ :: all,
        List.forall_mem_cons.mpr ⟨.unit hex, List.forall_mem_cons.mpr ⟨.unit hex', valid⟩⟩,
        by simp [same]⟩

/-! ## Written values are well-formed -/

theorem wellFormed_decimal (n : Nat) : WellFormed [decimal n] :=
  .scalar (.number (numberToken_decimal n))

theorem wellFormed_members {members : List (String × List Token)}
    (keys : ∀ m ∈ members, PlainChars m.1.toList)
    (values : ∀ m ∈ members, WellFormed m.2) :
    WellFormed (enclosedTokens openBrace closeBrace
      (members.map fun m => memberTokens m.1 m.2)) := by
  have named : members.map (fun m => memberTokens m.1 m.2) =
      (members.map fun m => (encodeName m.1, m.2)).map fun m => m.1 :: [colonMark] :: m.2 := by
    rw [List.map_map]
    rfl
  rw [named]
  constructor
  · exact List.forall_mem_map.mpr fun m here => (quoted_encodeName (keys m here)).stringToken
  · exact List.forall_mem_map.mpr values

theorem wellFormed_digestTokens (d : Digest) : WellFormed (digestTokens d) :=
  .list (List.forall_mem_map.mpr fun b _ => wellFormed_decimal b.toNat)

theorem wellFormed_algorithmTokens (algorithm : Algorithm) :
    WellFormed (algorithmTokens algorithm) := by
  have plain : PlainChars algorithm.name.toList := by cases algorithm <;> decide
  exact .scalar (.string (quoted_encodeName plain).stringToken)

theorem wellFormed_configTokens (config : Config) : WellFormed (configTokens config) := by
  apply @wellFormed_members [(algorithmKey, algorithmTokens config.algorithm),
    (thresholdKey, [decimal config.parallelThreshold.toNat])]
  · rw [List.forall_mem_cons, List.forall_mem_singleton]
    dsimp only
    decide
  · rw [List.forall_mem_cons, List.forall_mem_singleton]
    exact ⟨wellFormed_algorithmTokens _, wellFormed_decimal _⟩

theorem wellFormed_proofTokens (proof : InclusionProof) : WellFormed (proofTokens proof) := by
  have siblings : WellFormed (siblingsTokens proof.siblings) :=
    .list (List.forall_mem_map.mpr fun d _ => wellFormed_digestTokens d)
  apply @wellFormed_members [(leafKey, digestTokens proof.leaf),
    (indexKey, [decimal proof.leafIndex.toNat]), (siblingsKey, siblingsTokens proof.siblings)]
  · rw [List.forall_mem_cons, List.forall_mem_cons, List.forall_mem_singleton]
    dsimp only
    decide
  · rw [List.forall_mem_cons, List.forall_mem_cons, List.forall_mem_singleton]
    exact ⟨wellFormed_digestTokens _, wellFormed_decimal _, siblings⟩

end Merkle.Json
