import Merkle.Decimal
import Merkle.Text.Quoted

/-!
# Faults of JSON texts

A fault says what is wrong, a failure also where. Input that ends too early is told apart from all
other faults.
-/
namespace Merkle.Json

/-- What was not finished when the input ended. -/
inductive Unfinished where
  | list | object | string | value
  deriving DecidableEq, Repr

/-- What stood where something else was wanted. A number is a double, given by its bits, when it has
a fraction or an exponent or does not fit 64 bits. -/
inductive Found where
  | null
  | boolean (value : Bool)
  | integer (value : Int)
  | double (bits : UInt64)
  | string (value : String)
  | list
  | object
  deriving DecidableEq, Repr

/-- What the reader wanted; `wholeProof` is a proof with all its fields. -/
inductive Wanted where
  | byte | index | threshold | nothing | digest | siblings | config | proof | wholeProof
  deriving DecidableEq, Repr

/-- What is wrong with a text. -/
inductive Fault where
  | endOfInput (inside : Unfinished)
  | expectedColon
  | expectedListCommaOrEnd
  | expectedObjectCommaOrEnd
  | expectedLiteral
  | expectedValue
  | invalidEscape
  | invalidNumber
  | numberOutOfRange
  | controlCharacter
  | keyNotString
  | loneSurrogate
  | unfinishedSurrogatePair
  | trailingComma
  | trailingCharacters
  | wrongType (found : Found) (wanted : Wanted)
  | integerOutOfRange (value : Int) (wanted : Wanted)
  | wrongLength (length : Nat) (wanted : Wanted)
  | unknownName (name : String) (known : List String)
  | missingField (name : String)
  | duplicateField (name : String)
  deriving DecidableEq, Repr

/-- Doubles have an exponent from `1e+16` on and below `0.00001`. -/
def doubleLayout : Decimal.Layout where
  plainFrom := -5
  plainTo := 15
  mark := "e"

/-- The words for it in messages. -/
def Unfinished.text : Unfinished → String
  | .list => "a list"
  | .object => "an object"
  | .string => "a string"
  | .value => "a value"

/-- Words of a message that name something in the text stand between backticks. -/
def ticked (s : String) : String := "`" ++ s ++ "`"

/-- The words for it in messages. -/
def Found.text : Found → String
  | .null => "null"
  | .boolean value => "boolean " ++ ticked (toString value)
  | .integer value => "integer " ++ ticked (toString value)
  | .double bits => "floating point " ++ ticked (doubleLayout.renderBits bits)
  | .string value => "string " ++ Text.quoteString value
  | .list => "sequence"
  | .object => "map"

/-- The words for it in messages. -/
def Wanted.text : Wanted → String
  | .byte => "u8"
  | .index => "u32"
  | .threshold => "usize"
  | .nothing => "unit"
  | .digest => "an array of length 32"
  | .siblings => "a sequence"
  | .config => "struct MerkleConfig"
  | .proof => "struct InclusionProof"
  | .wholeProof => "struct InclusionProof with 3 elements"

/-- The message without its place. -/
def Fault.text : Fault → String
  | .endOfInput inside => "EOF while parsing " ++ inside.text
  | .expectedColon => "expected " ++ ticked ":"
  | .expectedListCommaOrEnd => "expected " ++ ticked "," ++ " or " ++ ticked "]"
  | .expectedObjectCommaOrEnd => "expected " ++ ticked "," ++ " or " ++ ticked "\x7d"
  | .expectedLiteral => "expected ident"
  | .expectedValue => "expected value"
  | .invalidEscape => "invalid escape"
  | .invalidNumber => "invalid number"
  | .numberOutOfRange => "number out of range"
  | .controlCharacter => "control character (\\u0000-\\u001F) found while parsing a string"
  | .keyNotString => "key must be a string"
  | .loneSurrogate => "lone leading surrogate in hex escape"
  | .unfinishedSurrogatePair => "unexpected end of hex escape"
  | .trailingComma => "trailing comma"
  | .trailingCharacters => "trailing characters"
  | .wrongType found wanted => "invalid type: " ++ found.text ++ ", expected " ++ wanted.text
  | .integerOutOfRange value wanted =>
    "invalid value: integer " ++ ticked (toString value) ++ ", expected " ++ wanted.text
  | .wrongLength length wanted =>
    "invalid length " ++ toString length ++ ", expected " ++ wanted.text
  | .unknownName name known =>
    "unknown variant " ++ ticked name ++ ", expected one of "
      ++ ", ".intercalate (known.map ticked)
  | .missingField name => "missing field " ++ ticked name
  | .duplicateField name => "duplicate field " ++ ticked name

/-- Whether the input ended too early, so that more of it might have been read. -/
def Fault.isEndOfInput : Fault → Bool
  | .endOfInput _ => true
  | _ => false

/-- A fault and its place: lines count from one, columns are bytes since the last line feed. -/
structure Failure where
  fault : Fault
  line : Nat
  column : Nat
  deriving DecidableEq, Repr

/-- The whole message. -/
def Failure.text (failure : Failure) : String :=
  failure.fault.text ++ " at line " ++ toString failure.line ++ " column "
    ++ toString failure.column

end Merkle.Json
