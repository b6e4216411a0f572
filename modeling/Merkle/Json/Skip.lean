import Merkle.Json.Number
import Merkle.Json.Text

/-!
# Skipping: values that nobody asked for

A value under an unknown key is checked for its syntax and dropped. It may be nested to any depth:
the containers that are open are kept in a list, innermost first.
-/
namespace Merkle.Json

/-- An open container. -/
inductive Frame where
  | list | object
  deriving DecidableEq, Repr

namespace Frame

/-- The byte that ends the container. -/
def closing : Frame → UInt8
  | .list => closeBracket
  | .object => closeBrace

/-- What is not finished while the container is open. -/
def unfinished : Frame → Unfinished
  | .list => .list
  | .object => .object

/-- What is wrong when an element is followed by neither a comma nor the end. -/
def expectedEnd : Frame → Fault
  | .list => .expectedListCommaOrEnd
  | .object => .expectedObjectCommaOrEnd

end Frame

/-- The letters of a literal, behind its first. -/
def letters : List UInt8 → Reader Unit
  | [] => pure ()
  | wanted :: more => do
    match ← Reader.next? with
    | none => Reader.fail (.endOfInput .value)
    | some b => if b = wanted then letters more else Reader.fail .expectedLiteral

/-- Behind the `n` of `null`. -/
def restOfNull : Reader Unit := letters [letterU, 0x6c, 0x6c]

/-- Behind the `t` of `true`. -/
def restOfTrue : Reader Unit := letters [0x72, letterU, letterE]

/-- Behind the `f` of `false`. -/
def restOfFalse : Reader Unit := letters [0x61, 0x6c, 0x73, letterE]

/-- The colon between a key and its value. -/
def colon : Reader Unit := do
  match ← Reader.peekToken with
  | none => Reader.failNext (.endOfInput .object)
  | some b => if b = colonMark then Reader.skip else Reader.failNext .expectedColon

/-- A key with its colon, where a key has to come. -/
def skipKey : Reader Unit := do
  match ← Reader.peekToken with
  | none => Reader.failNext (.endOfInput .object)
  | some b =>
    if b = quoteMark then
      Reader.skip
      skipString
      colon
    else Reader.failNext .keyNotString

/-- What comes in front of an element of an open container. -/
def Frame.lead : Frame → Reader Unit
  | .list => pure ()
  | .object => skipKey

/-- A value that is no container. -/
def skipScalar : Reader Unit := do
  match ← Reader.peekToken with
  | none => Reader.failNext (.endOfInput .value)
  | some b =>
    if b = letterN then Reader.skip; restOfNull
    else if b = letterT then Reader.skip; restOfTrue
    else if b = letterF then Reader.skip; restOfFalse
    else if b = quoteMark then Reader.skip; skipString
    else if b = minus ∨ isDigit b then discard (scan .invalidNumber)
    else Reader.failNext .expectedValue

/-- The container that a byte opens. -/
def Frame.openedBy? (b : UInt8) : Option Frame :=
  if b = openBracket then some .list else if b = openBrace then some .object else none

/-- Whether the byte behind white space ends the container. -/
def Frame.ended? (frame : Frame) : Reader Bool := do
  match ← Reader.peekToken with
  | none => Reader.failNext (.endOfInput frame.unfinished)
  | some b => pure (b = frame.closing)

/-- What skipping waits for: a value, or what may follow one. -/
inductive Phase where
  | value | follow
  deriving DecidableEq, Repr

/-- A value has to be read before what follows it. -/
def Phase.weight : Phase → Nat
  | .value => 1
  | .follow => 0

/-- Skips to the end of the outermost value. -/
def skipFrom (phase : Phase) (frames : List Frame) (whole text : List UInt8)
    (le : Within text whole) : Outcome Unit whole :=
  match phase with
  | .value =>
    match space : text.dropWhile isSpace with
    | [] => .error ⟨.endOfInput .value, 0⟩
    | b :: rest =>
      have shorter : rest.length < text.length := Within.of_dropWhile space
      have inside : Within rest whole := .of_cons (b := b) (.trans shorter le)
      match Frame.openedBy? b with
      | some frame =>
        match frame.ended? rest with
        | .error stop => .error stop
        | .ok ⟨true, behind, h⟩ =>
          skipFrom .follow frames whole behind.tail (.tail (h.trans inside))
        | .ok ⟨false, behind, h⟩ =>
          match frame.lead behind with
          | .error stop => .error stop
          | .ok ⟨_, element, h'⟩ =>
            skipFrom .value (frame :: frames) whole element (h'.trans (h.trans inside))
      | none =>
        match skipScalar text with
        | .error stop => .error stop
        | .ok ⟨_, behind, h⟩ => skipFrom .follow frames whole behind (h.trans le)
  | .follow =>
    match frames with
    | [] => .ok ⟨(), text, le⟩
    | frame :: outer =>
      match space : text.dropWhile isSpace with
      | [] => .error ⟨.endOfInput frame.unfinished, 0⟩
      | b :: rest =>
        have shorter : rest.length < text.length := Within.of_dropWhile space
        have inside : Within rest whole := .of_cons (b := b) (.trans shorter le)
        if b = comma then
          match frame.lead rest with
          | .error stop => .error stop
          | .ok ⟨_, element, h⟩ => skipFrom .value frames whole element (h.trans inside)
        else if b = frame.closing then skipFrom .follow outer whole rest inside
        else .error ⟨frame.expectedEnd, rest.length⟩
termination_by 2 * text.length + phase.weight
decreasing_by
  all_goals simp only [Phase.weight, List.length_tail] at *
  all_goals omega

/-- Passes over a value. -/
def skipValue : Reader Unit := Reader.loop (skipFrom .value [])

end Merkle.Json
