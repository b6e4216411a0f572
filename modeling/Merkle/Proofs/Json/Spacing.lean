import Mathlib.Data.List.TakeWhile
import Merkle.Proofs.Json.Decimals

/-!
# Spacing: JSON texts as tokens with white space around them

The compact form of a value is its tokens one behind the other. The texts of the value are those
tokens in the same order with any white space before, between and behind them (`Spaced`); the
compact text is the one without any (`spaced_flatten`).
-/
namespace Merkle.Json

/-- A token as it is written. -/
abbrev Token : Type := List UInt8

/-- Nothing but white space. -/
def Blank (text : List UInt8) : Prop := ∀ b ∈ text, isSpace b = true

instance (text : List UInt8) : Decidable (Blank text) := List.decidableBAll _ text

/-- A text of tokens in order, with any white space before each and behind the last. -/
inductive Spaced : List Token → List UInt8 → Prop
  | done {space : List UInt8} (blank : Blank space) : Spaced [] space
  | token {space text : List UInt8} {token : Token} {tokens : List Token} (blank : Blank space)
      (behind : Spaced tokens text) : Spaced (token :: tokens) (space ++ (token ++ text))

variable {tokens : List Token} {token : Token} {text : List UInt8}

theorem blank_nil : Blank [] := fun _ absent => absurd absent List.not_mem_nil

theorem Spaced.here (behind : Spaced tokens text) : Spaced (token :: tokens) (token ++ text) :=
  .token blank_nil behind

theorem spaced_flatten (tokens : List Token) : Spaced tokens tokens.flatten := by
  induction tokens with
  | nil => exact .done blank_nil
  | cons token tokens ih => exact .here ih

/-- The end of a text is white space. -/
theorem Spaced.dropWhile_nil (spaced : Spaced [] text) : text.dropWhile isSpace = [] := by
  cases spaced with
  | done blank => exact List.dropWhile_eq_nil_iff.mpr blank

/-- Behind white space stands the next token. -/
theorem Spaced.dropWhile_cons {b : UInt8} (spaced : Spaced ((b :: token) :: tokens) text)
    (visible : isSpace b = false) :
    ∃ rest, text.dropWhile isSpace = b :: (token ++ rest) ∧ Spaced tokens rest := by
  cases spaced with
  | @token space rest _ _ blank behind =>
    refine ⟨rest, ?_, behind⟩
    rw [List.dropWhile_append_of_pos blank, List.cons_append, List.dropWhile_cons_of_neg]
    simp [visible]

/-! ## The tokens of values -/

/-- Items with a comma before each; the first of all needs none. -/
def separated (first : Bool) : List (List Token) → List Token
  | [] => []
  | item :: items => (if first then item else [comma] :: item) ++ separated false items

theorem separated_first (item : List Token) (items : List (List Token)) (more : List Token) :
    separated true (item :: items) ++ more = item ++ (separated false items ++ more) := by
  rw [separated, if_pos rfl, List.append_assoc]

theorem separated_next (item : List Token) (items : List (List Token)) (more : List Token) :
    separated false (item :: items) ++ more =
      [comma] :: (item ++ (separated false items ++ more)) := by
  rw [separated, if_neg Bool.false_ne_true, List.cons_append, List.cons_append,
    List.append_assoc]

/-- Items in brackets of some kind. -/
def enclosedTokens (opening closing : UInt8) (items : List (List Token)) :
    List Token :=
  [opening] :: (separated true items ++ [[closing]])

/-- A key with its value. -/
def memberTokens (key : String) (value : List Token) : List Token :=
  encodeName key :: [colonMark] :: value

/-- A bracket, 32 numbers with commas between them, a bracket. -/
def digestTokens (d : Digest) : List Token :=
  enclosedTokens openBracket closeBracket (d.bytes.map fun b => [decimal b.toNat])

/-- The name. -/
def algorithmTokens (algorithm : Algorithm) : List Token := [encodeName algorithm.name]

/-- Both members in braces. -/
def configTokens (config : Config) : List Token :=
  enclosedTokens openBrace closeBrace
    [memberTokens algorithmKey (algorithmTokens config.algorithm),
      memberTokens thresholdKey [decimal config.parallelThreshold.toNat]]

/-- Digests with commas between them, in brackets. -/
def siblingsTokens (siblings : List Digest) : List Token :=
  enclosedTokens openBracket closeBracket (siblings.map digestTokens)

/-- All three members in braces. -/
def proofTokens (proof : InclusionProof) : List Token :=
  enclosedTokens openBrace closeBrace
    [memberTokens leafKey (digestTokens proof.leaf),
      memberTokens indexKey [decimal proof.leafIndex.toNat],
      memberTokens siblingsKey (siblingsTokens proof.siblings)]

/-! ## The compact form is the tokens without white space -/

theorem flatten_separated (item : List Token) (items : List (List Token)) :
    (separated true (item :: items)).flatten =
      [comma].intercalate ((item :: items).map List.flatten) := by
  induction items generalizing item with
  | nil => simp [separated]
  | cons next items ih =>
    have behind := ih next
    simp only [separated, if_true, List.flatten_append] at behind ⊢
    rw [List.map_cons, List.map_cons, List.intercalate_cons_cons, ← List.map_cons, ← behind]
    simp

theorem flatten_enclosedTokens (opening closing : UInt8) (items : List (List Token)) :
    (enclosedTokens opening closing items).flatten =
      enclose opening closing (items.map List.flatten) := by
  cases items with
  | nil => simp [enclosedTokens, enclose, separated]
  | cons item items => simp [enclosedTokens, enclose, flatten_separated]

theorem flatten_digestTokens (d : Digest) : (digestTokens d).flatten = encodeDigest d := by
  rw [digestTokens, flatten_enclosedTokens, encodeDigest, encodeList, List.map_map]
  simp [Function.comp_def]

theorem flatten_algorithmTokens (algorithm : Algorithm) :
    (algorithmTokens algorithm).flatten = encodeAlgorithm algorithm := by
  simp [algorithmTokens, encodeAlgorithm]

theorem flatten_memberTokens (key : String) (value : List Token) :
    (memberTokens key value).flatten = encodeName key ++ colonMark :: value.flatten := by
  simp [memberTokens]

theorem flatten_siblingsTokens (siblings : List Digest) :
    (siblingsTokens siblings).flatten = encodeList (siblings.map encodeDigest) := by
  rw [siblingsTokens, flatten_enclosedTokens, encodeList, List.map_map]
  simp [Function.comp_def, flatten_digestTokens]

theorem flatten_configTokens (config : Config) :
    (configTokens config).flatten = encodeConfig config := by
  rw [configTokens, flatten_enclosedTokens, encodeConfig, encodeObject]
  simp [flatten_memberTokens, flatten_algorithmTokens]

theorem flatten_proofTokens (proof : InclusionProof) :
    (proofTokens proof).flatten = encodeProof proof := by
  rw [proofTokens, flatten_enclosedTokens, encodeProof, encodeObject]
  simp [flatten_memberTokens, flatten_digestTokens, flatten_siblingsTokens]

/-! ## All tokens are ASCII -/

/-- Bytes that are characters of their own. -/
def Ascii (tokens : List Token) : Prop := ∀ token ∈ tokens, ∀ b ∈ token, b < 128

instance (tokens : List Token) : Decidable (Ascii tokens) :=
  @List.decidableBAll _ _ (fun token => List.decidableBAll _ token) tokens

theorem ascii_append {tokens tokens' : List Token} :
    Ascii (tokens ++ tokens') ↔ Ascii tokens ∧ Ascii tokens' := List.forall_mem_append

theorem ascii_separated {first : Bool} {items : List (List Token)}
    (ascii : ∀ item ∈ items, Ascii item) : Ascii (separated first items) := by
  induction items generalizing first with
  | nil => exact List.forall_mem_nil _
  | cons item items ih =>
    obtain ⟨item_ascii, items_ascii⟩ := List.forall_mem_cons.mp ascii
    rw [separated, ascii_append]
    refine ⟨?_, ih items_ascii⟩
    cases first with
    | true => exact item_ascii
    | false =>
      change Ascii ([[comma]] ++ item)
      exact ascii_append.mpr ⟨by decide, item_ascii⟩

theorem ascii_enclosedTokens {opening closing : UInt8} (opening_ascii : Ascii [[opening]])
    (closing_ascii : Ascii [[closing]]) {items : List (List Token)}
    (ascii : ∀ item ∈ items, Ascii item) : Ascii (enclosedTokens opening closing items) := by
  change Ascii ([[opening]] ++ (separated true items ++ [[closing]]))
  exact ascii_append.mpr ⟨opening_ascii,
    ascii_append.mpr ⟨ascii_separated ascii, closing_ascii⟩⟩

theorem ascii_memberTokens {key : String} (key_ascii : Ascii [encodeName key])
    {value : List Token} (ascii : Ascii value) : Ascii (memberTokens key value) := by
  change Ascii ([encodeName key] ++ ([[colonMark]] ++ value))
  exact ascii_append.mpr ⟨key_ascii, ascii_append.mpr ⟨by decide, ascii⟩⟩

theorem ascii_decimal (n : Nat) : Ascii [decimal n] := by
  intro token here b written
  rw [List.mem_singleton.mp here] at written
  have digit := isDigit_iff.mp (isDigit_of_mem_decimal written)
  rw [UInt8.lt_iff_toNat_lt]
  exact Nat.lt_of_le_of_lt digit.2 (by decide)

theorem ascii_digestTokens (d : Digest) : Ascii (digestTokens d) := by
  apply ascii_enclosedTokens (by decide) (by decide)
  intro item here
  obtain ⟨b, -, rfl⟩ := List.mem_map.mp here
  exact ascii_decimal b.toNat

theorem ascii_algorithmTokens (algorithm : Algorithm) : Ascii (algorithmTokens algorithm) := by
  cases algorithm <;> decide

theorem ascii_siblingsTokens (siblings : List Digest) : Ascii (siblingsTokens siblings) := by
  apply ascii_enclosedTokens (by decide) (by decide)
  intro item here
  obtain ⟨d, -, rfl⟩ := List.mem_map.mp here
  exact ascii_digestTokens d

theorem ascii_configTokens (config : Config) : Ascii (configTokens config) := by
  apply ascii_enclosedTokens (by decide) (by decide)
  simp only [List.forall_mem_cons, List.not_mem_nil, false_imp_iff, implies_true, and_true]
  exact ⟨ascii_memberTokens (by decide) (ascii_algorithmTokens _),
    ascii_memberTokens (by decide) (ascii_decimal _)⟩

theorem ascii_proofTokens (proof : InclusionProof) : Ascii (proofTokens proof) := by
  apply ascii_enclosedTokens (by decide) (by decide)
  simp only [List.forall_mem_cons, List.not_mem_nil, false_imp_iff, implies_true, and_true]
  exact ⟨ascii_memberTokens (by decide) (ascii_digestTokens _),
    ascii_memberTokens (by decide) (ascii_decimal _),
    ascii_memberTokens (by decide) (ascii_siblingsTokens _)⟩

/-- A text of ASCII tokens has their bytes. -/
theorem utf8_ofAscii_flatten (ascii : Ascii tokens) :
    Text.utf8 (Text.ofAscii tokens.flatten) = tokens.flatten := by
  apply Text.utf8_ofAscii
  intro b here
  obtain ⟨token, member, inside⟩ := List.mem_flatten.mp here
  exact ascii token member b inside

end Merkle.Json
