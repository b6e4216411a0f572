import Merkle.Json.Token

/-!
# Members: objects with known and unknown keys, read and written

The members of an object are folded into a draft of its value, in the order in which they come. A
known key may not come twice, and the value of an unknown one is skipped. A value with fields may
also be written as the list of its fields in order. Writing puts nothing between tokens.
-/
namespace Merkle.Json

/-! ## Reading -/

/-- Folds the members of an object, behind its opening brace, into a draft of its value. A member
that follows starts with the quote of its key, so the case of no text is never met. -/
def membersFrom {σ : Type} (field : List UInt8 → σ → Reader σ) (first : Bool) (draft : σ)
    (whole text : List UInt8) (le : Within text whole) : Outcome σ whole :=
  match member first text with
  | .error stop => .error stop
  | .ok ⟨false, rest, h⟩ => .ok ⟨draft, rest.tail, .tail (h.trans le)⟩
  | .ok ⟨true, [], _⟩ => .error ⟨.endOfInput .object, 0⟩
  | .ok ⟨true, _ :: rest, h⟩ =>
    match string rest with
    | .error stop => .error stop
    | .ok ⟨key, behind, h'⟩ =>
      match field key draft behind with
      | .error stop => .error stop
      | .ok ⟨draft, next, h''⟩ =>
        membersFrom field false draft whole next (h''.trans (h'.trans (.of_cons (h.trans le))))
termination_by text.length
decreasing_by exact Nat.lt_of_lt_of_le (Nat.lt_succ_of_le (h''.trans h')) h

/-- The members of an object, behind its opening brace and up to behind its closing one. -/
def members {σ : Type} (field : List UInt8 → σ → Reader σ) (empty : σ) : Reader σ :=
  Reader.loop (membersFrom field true empty)

/-- The value of a field that comes for the first time. -/
def fieldValue {α : Type} (name : String) (earlier : Option α) (value : Reader α) : Reader α := do
  if earlier.isSome then duplicateField name
  else
    colon
    value

/-- A member that no field has. -/
def unknownField : Reader Unit := do
  colon
  skipValue

/-- A value with fields: an object with its members, or the list of its fields in order. -/
def fields {α : Type} (wanted : Wanted) (fromObject fromList : Reader α) : Reader α := do
  match ← Reader.peekToken with
  | none => Reader.failNext (.endOfInput .value)
  | some b =>
    if b = openBracket then
      Reader.skip
      fromList
    else if b = openBrace then
      Reader.skip
      fromObject
    else wrongType wanted

/-! ## Writing -/

/-- The decimal digits of a number, without leading zeros. -/
def decimal (n : Nat) : List UInt8 :=
  if n < 10 then [UInt8.ofNat (0x30 + n)] else decimal (n / 10) ++ [UInt8.ofNat (0x30 + n % 10)]

/-- Items in brackets of some kind, with commas between them. -/
def enclose (opening closing : UInt8) (items : List (List UInt8)) : List UInt8 :=
  opening :: [comma].intercalate items ++ [closing]

/-- A list of written items. -/
def encodeList (items : List (List UInt8)) : List UInt8 := enclose openBracket closeBracket items

/-- A text between quotes; only for texts that need no escape. -/
def encodeName (name : String) : List UInt8 := quoteMark :: Text.utf8 name ++ [quoteMark]

/-- An object with the given keys and written values, in that order. -/
def encodeObject (members : List (String × List UInt8)) : List UInt8 :=
  enclose openBrace closeBrace
    (members.map fun (key, value) => encodeName key ++ colonMark :: value)

end Merkle.Json
