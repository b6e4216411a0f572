import Merkle.Json.Fault
import Merkle.Text.Encoding

/-!
# Readers of JSON text

A reader takes bytes from the front of a text. That what it leaves is no longer than the text is
part of what it gives, so loops over readers end. A fault stands at the next unread byte (`fail`) or
behind that byte (`failNext`).
-/
namespace Merkle.Json

/-! The bytes that the grammar names. -/

abbrev quoteMark : UInt8 := 0x22
abbrev backslash : UInt8 := 0x5c
abbrev comma : UInt8 := 0x2c
abbrev colonMark : UInt8 := 0x3a
abbrev openBracket : UInt8 := 0x5b
abbrev closeBracket : UInt8 := 0x5d
abbrev openBrace : UInt8 := 0x7b
abbrev closeBrace : UInt8 := 0x7d
abbrev minus : UInt8 := 0x2d
abbrev plus : UInt8 := 0x2b
abbrev point : UInt8 := 0x2e
abbrev letterE : UInt8 := 0x65
abbrev capitalE : UInt8 := 0x45
abbrev letterN : UInt8 := 0x6e
abbrev letterT : UInt8 := 0x74
abbrev letterF : UInt8 := 0x66
abbrev letterU : UInt8 := 0x75

/-- Space, line feed, tab and carriage return. -/
def isSpace (b : UInt8) : Bool := b = 0x20 || b = 0x0a || b = 0x09 || b = 0x0d

/-- A decimal digit. -/
def isDigit (b : UInt8) : Bool := 0x30 ≤ b && b ≤ 0x39

/-- A fault, and how many bytes of the text come after its place. -/
structure Stop where
  fault : Fault
  unread : Nat
  deriving DecidableEq, Repr

/-- A rest of a text is no longer than the text. -/
abbrev Within (rest text : List UInt8) : Prop := rest.length ≤ text.length

namespace Within

theorem refl (text : List UInt8) : Within text text := Nat.le_refl _

theorem trans {rest text whole : List UInt8} (h : Within rest text) (le : Within text whole) :
    Within rest whole := Nat.le_trans h le

theorem tail {rest text : List UInt8} (h : Within rest text) : Within rest.tail text := by
  simp only [Within, List.length_tail]
  omega

theorem of_cons {b : UInt8} {rest text : List UInt8} (h : Within (b :: rest) text) :
    Within rest text := Nat.le_of_succ_le h

theorem dropWhile (p : UInt8 → Bool) (text : List UInt8) : Within (text.dropWhile p) text :=
  (List.dropWhile_suffix p).length_le

/-- What stands behind the first byte that is not of a class. -/
theorem of_dropWhile {p : UInt8 → Bool} {text : List UInt8} {b : UInt8} {rest : List UInt8}
    (h : text.dropWhile p = b :: rest) : Within (b :: rest) text := h ▸ dropWhile p text

end Within

/-- A value, and the rest of the text behind it. -/
structure Reading (α : Type) (text : List UInt8) where
  value : α
  rest : List UInt8
  within : Within rest text

/-- A value with a rest of the text, or a fault. -/
abbrev Outcome (α : Type) (text : List UInt8) : Type := Except Stop (Reading α text)

/-- Reads a value from the front of a text. -/
def Reader (α : Type) : Type := (text : List UInt8) → Outcome α text

/-- An outcome seen from a longer text. -/
def Outcome.widen {α : Type} {text whole : List UInt8} (le : Within text whole) :
    Outcome α text → Outcome α whole
  | .error stop => .error stop
  | .ok ⟨value, rest, h⟩ => .ok ⟨value, rest, h.trans le⟩

namespace Reader

/-- The value and the rest of the text, without the bound. -/
def run {α : Type} (reader : Reader α) (text : List UInt8) : Except Stop (α × List UInt8) :=
  match reader text with
  | .error stop => .error stop
  | .ok ⟨value, rest, _⟩ => .ok (value, rest)

/-- Reads nothing. -/
protected def pure {α : Type} (value : α) : Reader α := fun text => .ok ⟨value, text, .refl text⟩

/-- Reads on where the first reader ended. -/
protected def bind {α β : Type} (first : Reader α) (next : α → Reader β) : Reader β := fun text =>
  match first text with
  | .error stop => .error stop
  | .ok ⟨value, rest, h⟩ => Outcome.widen h (next value rest)

/-- A loop over the rests of a text, from the whole text on. -/
def loop {α : Type} (run : (whole text : List UInt8) → Within text whole → Outcome α whole) :
    Reader α := fun text => run text text (.refl text)

instance : Monad Reader where
  pure := Reader.pure
  bind := Reader.bind

/-- A fault at the next unread byte. -/
def fail {α : Type} (fault : Fault) : Reader α := fun text => .error ⟨fault, text.length⟩

/-- A fault behind the next unread byte, or at the end of the text. -/
def failNext {α : Type} (fault : Fault) : Reader α := fun text => .error ⟨fault, text.length - 1⟩

/-- A fault that was there when so many more bytes were unread. -/
def failEarlier {α : Type} (bytes : Nat) (fault : Fault) : Reader α := fun text =>
  .error ⟨fault, text.length + bytes⟩

/-- The next byte, which stays unread. -/
def peek : Reader (Option UInt8) := fun text => .ok ⟨text.head?, text, .refl text⟩

/-- The next byte. -/
def next? : Reader (Option UInt8)
  | [] => .ok ⟨none, [], .refl []⟩
  | b :: rest => .ok ⟨some b, rest, .of_cons (.refl (b :: rest))⟩

/-- Passes over the next byte. -/
def skip : Reader Unit := fun text => .ok ⟨(), text.tail, .tail (.refl text)⟩

/-- The longest run of bytes of a class. -/
def takeWhile (p : UInt8 → Bool) : Reader (List UInt8) := fun text =>
  .ok ⟨text.takeWhile p, text.dropWhile p, .dropWhile p text⟩

/-- Passes over white space. -/
def skipSpace : Reader Unit := fun text =>
  .ok ⟨(), text.dropWhile isSpace, .dropWhile isSpace text⟩

/-- Passes over white space and shows the byte behind it. -/
def peekToken : Reader (Option UInt8) := do
  skipSpace
  peek

@[simp] theorem run_pure {α : Type} (value : α) (text : List UInt8) :
    (pure value : Reader α).run text = .ok (value, text) := rfl

theorem run_bind {α β : Type} (first : Reader α) (next : α → Reader β) (text : List UInt8) :
    (first >>= next).run text =
      match first.run text with
      | .error stop => .error stop
      | .ok (value, rest) => (next value).run rest := by
  change (Reader.bind first next).run text = _
  unfold run Reader.bind
  cases first text with
  | error stop => rfl
  | ok result =>
    obtain ⟨value, rest, h⟩ := result
    simp only
    cases next value rest <;> rfl

@[simp] theorem run_fail {α : Type} (fault : Fault) (text : List UInt8) :
    (fail fault : Reader α).run text = .error ⟨fault, text.length⟩ := rfl

@[simp] theorem run_failNext {α : Type} (fault : Fault) (text : List UInt8) :
    (failNext fault : Reader α).run text = .error ⟨fault, text.length - 1⟩ := rfl

@[simp] theorem run_failEarlier {α : Type} (bytes : Nat) (fault : Fault) (text : List UInt8) :
    (failEarlier bytes fault : Reader α).run text = .error ⟨fault, text.length + bytes⟩ := rfl

@[simp] theorem run_peek (text : List UInt8) : peek.run text = .ok (text.head?, text) := rfl

@[simp] theorem run_next?_nil : next?.run [] = .ok (none, []) := rfl

@[simp] theorem run_next?_cons (b : UInt8) (rest : List UInt8) :
    next?.run (b :: rest) = .ok (some b, rest) := rfl

@[simp] theorem run_skip (text : List UInt8) : skip.run text = .ok ((), text.tail) := rfl

@[simp] theorem run_takeWhile (p : UInt8 → Bool) (text : List UInt8) :
    (takeWhile p).run text = .ok (text.takeWhile p, text.dropWhile p) := rfl

@[simp] theorem run_skipSpace (text : List UInt8) :
    skipSpace.run text = .ok ((), text.dropWhile isSpace) := rfl

@[simp] theorem run_peekToken (text : List UInt8) :
    peekToken.run text = .ok ((text.dropWhile isSpace).head?, text.dropWhile isSpace) := rfl

/-- A fault with its line and column in the whole text. -/
def locate (text : List UInt8) (stop : Stop) : Failure :=
  let before := text.take (text.length - stop.unread)
  let column := (before.reverse.takeWhile (· ≠ 0x0a)).length
  ⟨stop.fault, before.count 0x0a + 1, column⟩

/-- The value that a whole text stands for; only white space may follow it. -/
def readAll {α : Type} (reader : Reader α) (text : List UInt8) : Except Failure α :=
  match reader.run text with
  | .error stop => .error (locate text stop)
  | .ok (value, rest) =>
    match rest.dropWhile isSpace with
    | [] => .ok value
    | _ :: behind => .error (locate text ⟨.trailingCharacters, behind.length⟩)

end Reader
end Merkle.Json
