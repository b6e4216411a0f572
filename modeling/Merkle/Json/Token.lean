import Merkle.Json.Skip

/-!
# Tokens: punctuation of lists and objects, and scalars of a wanted type

A value of the wrong type is read, if it is a scalar, and named in the fault. A list or an object in
its place is not entered.
-/
namespace Merkle.Json

/-- A number as what was found. -/
def Number.found : Number → Found
  | .integer value => .integer value
  | .double bits => .double bits

/-- The fault for a value that is not of the wanted type. -/
def wrongType {α : Type} (wanted : Wanted) : Reader α := do
  match ← Reader.peekToken with
  | none => Reader.failNext (.endOfInput .value)
  | some b =>
    if b = letterN then
      Reader.skip
      restOfNull
      Reader.fail (.wrongType .null wanted)
    else if b = letterT then
      Reader.skip
      restOfTrue
      Reader.fail (.wrongType (.boolean true) wanted)
    else if b = letterF then
      Reader.skip
      restOfFalse
      Reader.fail (.wrongType (.boolean false) wanted)
    else if b = quoteMark then
      Reader.skip
      let bytes ← string
      Reader.fail (.wrongType (.string (Text.ofUtf8 bytes)) wanted)
    else if b = openBracket then Reader.fail (.wrongType .list wanted)
    else if b = openBrace then Reader.fail (.wrongType .object wanted)
    else if b = minus ∨ isDigit b then
      let n ← number
      Reader.fail (.wrongType n.found wanted)
    else Reader.failNext .expectedValue

/-- An integer from zero up to a limit. -/
def natural (wanted : Wanted) (limit : Nat) : Reader Nat := do
  match ← Reader.peekToken with
  | none => Reader.failNext (.endOfInput .value)
  | some b =>
    if b = minus ∨ isDigit b then
      match ← number with
      | .integer value =>
        if 0 ≤ value ∧ value ≤ limit then pure value.toNat
        else Reader.fail (.integerOutOfRange value wanted)
      | .double bits => Reader.fail (.wrongType (.double bits) wanted)
    else wrongType wanted

/-- Whether an element of a list follows; the first needs no comma. The closing bracket stays
unread. -/
def element (first : Bool) : Reader Bool := do
  match ← Reader.peekToken with
  | none => Reader.failNext (.endOfInput .list)
  | some b =>
    if b = closeBracket then pure false
    else if first then pure true
    else if b = comma then
      Reader.skip
      match ← Reader.peekToken with
      | none => Reader.failNext (.endOfInput .value)
      | some c => if c = closeBracket then Reader.failNext .trailingComma else pure true
    else Reader.failNext .expectedListCommaOrEnd

/-- The end of a list that has no place for another element. -/
def endOfList : Reader Unit := do
  match ← Reader.peekToken with
  | none => Reader.failNext (.endOfInput .list)
  | some b =>
    if b = closeBracket then Reader.skip
    else if b = comma then
      Reader.skip
      if (← Reader.peekToken) = some closeBracket then Reader.failNext .trailingComma
      else Reader.failNext .trailingCharacters
    else Reader.failNext .trailingCharacters

/-- Whether a member of an object follows; the first needs no comma. The quote of its key, or the
closing brace, stays unread. -/
def member (first : Bool) : Reader Bool := do
  match ← Reader.peekToken with
  | none => Reader.failNext (.endOfInput .object)
  | some b =>
    if b = closeBrace then pure false
    else if first then
      if b = quoteMark then pure true else Reader.failNext .keyNotString
    else if b = comma then
      Reader.skip
      match ← Reader.peekToken with
      | none => Reader.failNext (.endOfInput .value)
      | some c =>
        if c = quoteMark then pure true
        else if c = closeBrace then Reader.failNext .trailingComma
        else Reader.failNext .keyNotString
    else Reader.failNext .expectedObjectCommaOrEnd

/-- The fault for a key that has been there before. It stands behind the key, the white space that
follows, and a brace that ends the object there. -/
def duplicateField {α : Type} (name : String) : Reader α := do
  if (← Reader.peekToken) = some closeBrace then Reader.skip
  Reader.fail (.duplicateField name)

end Merkle.Json
