import Merkle.Batch
import Merkle.ByteOrder

/-!
# The binary form of digests, algorithms, configurations and proofs

Numbers have a fixed width and come least significant byte first; fields follow one another in
order, and a list comes behind its length. A value is read from the front of the bytes, and what
follows it is left alone.
-/
namespace Merkle.Binary

/-- Why bytes do not start with a value. -/
inductive Fault where
  | endOfInput
  | unknownAlgorithm (number : Nat)
  deriving DecidableEq, Repr

/-- The fault in words. -/
def Fault.text : Fault → String
  | .endOfInput => "io error: unexpected end of file"
  | .unknownAlgorithm number =>
    "invalid value: integer `" ++ toString number ++ "`, expected variant index 0 <= i < "
      ++ toString Algorithm.all.length

/-- How values of a type are written, and read from the front of bytes. -/
structure Codec (α : Type) where
  encode : α → List UInt8
  decode : List UInt8 → Except Fault (α × List UInt8)

namespace Codec

/-- A number of `width` bytes. -/
def number (width : Nat) : Codec Nat where
  encode := ByteOrder.littleEndian width
  decode bytes :=
    if width ≤ bytes.length then
      .ok (ByteOrder.ofLittleEndian (bytes.take width), bytes.drop width)
    else .error .endOfInput

/-- Two values, the first in front. -/
def pair {α β : Type} (first : Codec α) (second : Codec β) : Codec (α × β) where
  encode value := first.encode value.1 ++ second.encode value.2
  decode bytes := do
    let (a, rest) ← first.decode bytes
    let (b, rest) ← second.decode rest
    pure ((a, b), rest)

/-- Values of one type by way of those of another. -/
def via {α β : Type} (codec : Codec α) (back : β → α) (forth : α → β) : Codec β where
  encode value := codec.encode (back value)
  decode bytes := do
    let (a, rest) ← codec.decode bytes
    pure (forth a, rest)

/-- As many values as `count` says, the last read first in `read`. -/
def decodeMany {α : Type} (item : Codec α) (read : List α) :
    Nat → List UInt8 → Except Fault (List α × List UInt8)
  | 0, bytes => .ok (read.reverse, bytes)
  | count + 1, bytes =>
    match item.decode bytes with
    | .error fault => .error fault
    | .ok (value, rest) => decodeMany item (value :: read) count rest

/-- A list behind its length in eight bytes. -/
def list {α : Type} (item : Codec α) : Codec (List α) where
  encode values := (number 8).encode values.length ++ values.flatMap item.encode
  decode bytes := do
    let (count, rest) ← (number 8).decode bytes
    decodeMany item [] count rest

end Codec

/-- A number of four bytes. -/
def uint32 : Codec UInt32 := (Codec.number 4).via UInt32.toNat UInt32.ofNat

/-- A number of eight bytes. -/
def uint64 : Codec UInt64 := (Codec.number 8).via UInt64.toNat UInt64.ofNat

/-- The 32 bytes as they are. -/
def digest : Codec Digest where
  encode := Digest.bytes
  decode bytes :=
    if h : 32 ≤ bytes.length then
      .ok (⟨bytes.take 32, by rw [List.length_take]; omega⟩, bytes.drop 32)
    else .error .endOfInput

/-- The position among all algorithms, in four bytes. -/
def algorithm : Codec Algorithm where
  encode value := (Codec.number 4).encode (Algorithm.all.idxOf value)
  decode bytes := do
    let (position, rest) ← (Codec.number 4).decode bytes
    match Algorithm.all[position]? with
    | some value => .ok (value, rest)
    | none => .error (.unknownAlgorithm position)

/-- The algorithm, then the threshold. -/
def config : Codec Config :=
  (algorithm.pair uint64).via
    (fun config => (config.algorithm, config.parallelThreshold)) (fun (a, t) => ⟨a, t⟩)

/-- The leaf, its index, then the siblings. -/
def proof : Codec InclusionProof :=
  (digest.pair (uint32.pair (Codec.list digest))).via
    (fun proof => (proof.leaf, proof.leafIndex, proof.siblings)) (fun (l, i, s) => ⟨l, i, s⟩)

end Merkle.Binary
