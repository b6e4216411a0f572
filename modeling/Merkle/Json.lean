import Merkle.Batch
import Merkle.Json.Members

/-!
# JSON texts of the values of this library

A digest is a list of 32 numbers below 256. An algorithm is a name, or an object whose only key is
the name. Configurations and proofs are objects, or the lists of their fields in order; fields of a
configuration that are missing have their defaults, those of a proof all have to be there.
-/
namespace Merkle.Json

/-! ## Digests -/

/-- A number below 256. -/
def byte : Reader UInt8 := do
  return UInt8.ofNat (← natural .byte 255)

/-- Bytes in a list, as many as are still wanted. -/
def bytes (first : Bool) : (count : Nat) → Reader { l : List UInt8 // l.length = count }
  | 0 => pure ⟨[], rfl⟩
  | count + 1 => do
    if ← element first then
      let b ← byte
      let ⟨more, length⟩ ← bytes false count
      pure ⟨b :: more, by rw [List.length_cons, length]⟩
    else
      Reader.skip
      Reader.fail (.wrongLength (Digest.size - (count + 1)) .digest)

/-- A digest, behind its opening bracket. -/
def digestElements : Reader Digest := do
  let ⟨bytes, length⟩ ← bytes true 32
  endOfList
  pure ⟨bytes, length⟩

/-- A list of exactly 32 bytes. -/
def digest : Reader Digest := do
  if (← Reader.peekToken) = some openBracket then
    Reader.skip
    digestElements
  else wrongType .digest

/-- The rest of a list of digests of which some have been read, the last first. An element that
follows has a first byte, so the case of no text is never met. -/
def digestsFrom (first : Bool) (read : List Digest) (whole text : List UInt8)
    (le : Within text whole) : Outcome (List Digest) whole :=
  match element first text with
  | .error stop => .error stop
  | .ok ⟨false, rest, h⟩ => .ok ⟨read.reverse, rest.tail, .tail (h.trans le)⟩
  | .ok ⟨true, [], _⟩ => .error ⟨.endOfInput .value, 0⟩
  | .ok ⟨true, b :: rest, h⟩ =>
    if b = openBracket then
      match digestElements rest with
      | .error stop => .error stop
      | .ok ⟨d, behind, h'⟩ =>
        digestsFrom false (d :: read) whole behind (h'.trans (.of_cons (h.trans le)))
    else Outcome.widen (h.trans le) (wrongType .digest (b :: rest))
termination_by text.length
decreasing_by exact Nat.lt_of_lt_of_le (Nat.lt_succ_of_le h') h

/-- A list of digests of any length. -/
def siblings : Reader (List Digest) := do
  if (← Reader.peekToken) = some openBracket then
    Reader.skip
    Reader.loop (digestsFrom true [])
  else wrongType .siblings

/-- A digest with its 32 numbers in order. -/
def encodeDigest (d : Digest) : List UInt8 := encodeList (d.bytes.map fun b => decimal b.toNat)

/-! ## Algorithms -/

/-- The algorithm of a name that has just been read. -/
def algorithmNamed (name : List UInt8) : Reader Algorithm :=
  match Algorithm.ofName? (Text.ofUtf8 name) with
  | some algorithm => pure algorithm
  | none => Reader.fail (.unknownName (Text.ofUtf8 name) (Algorithm.all.map Algorithm.name))

/-- Nothing but null. -/
def null : Reader Unit := do
  if (← Reader.peekToken) = some letterN then
    Reader.skip
    restOfNull
  else wrongType .nothing

/-- An algorithm as the only key of an object, behind its opening brace; its value has to be null.
-/
def algorithmMember : Reader Algorithm := do
  match ← Reader.peekToken with
  | none => Reader.failNext (.endOfInput .object)
  | some b =>
    if b = quoteMark then
      Reader.skip
      let algorithm ← algorithmNamed (← string)
      colon
      null
      match ← Reader.peekToken with
      | none => Reader.fail (.endOfInput .object)
      | some c =>
        if c = closeBrace then
          Reader.skip
          pure algorithm
        else Reader.fail .expectedValue
    else if b = closeBrace then Reader.failNext .expectedValue
    else Reader.failNext .keyNotString

/-- An algorithm in either form. -/
def algorithm : Reader Algorithm := do
  match ← Reader.peekToken with
  | none => Reader.failNext (.endOfInput .value)
  | some b =>
    if b = quoteMark then
      Reader.skip
      algorithmNamed (← string)
    else if b = openBrace then
      Reader.skip
      algorithmMember
    else Reader.failNext .expectedValue

/-- An algorithm is always written as its name. -/
def encodeAlgorithm (algorithm : Algorithm) : List UInt8 := encodeName algorithm.name

/-! ## Configurations -/

/-! The keys of the fields. -/

def algorithmKey : String := "algorithm"

def thresholdKey : String := "parallel_threshold"

/-- A number that fits 64 bits. -/
def threshold : Reader UInt64 := do
  return UInt64.ofNat (← natural .threshold (UInt64.size - 1))

/-- The fields of a configuration that have been read. -/
structure ConfigDraft where
  algorithm : Option Algorithm := none
  threshold : Option UInt64 := none

/-- Fields that have not been read have their defaults. -/
def ConfigDraft.config (draft : ConfigDraft) : Config :=
  ⟨draft.algorithm.getD default, draft.threshold.getD Config.defaultThreshold⟩

/-- The member of a configuration with a given key, behind the key. -/
def configField (key : List UInt8) (draft : ConfigDraft) : Reader ConfigDraft := do
  if key = Text.utf8 algorithmKey then
    let value ← fieldValue algorithmKey draft.algorithm algorithm
    pure { draft with algorithm := some value }
  else if key = Text.utf8 thresholdKey then
    let value ← fieldValue thresholdKey draft.threshold threshold
    pure { draft with threshold := some value }
  else
    unknownField
    pure draft

/-- The members in any order, behind the opening brace. -/
def configObject : Reader Config := do
  return (← members configField {}).config

/-- The fields in order, behind the opening bracket; the last ones may be missing. -/
def configList : Reader Config := do
  if !(← element true) then
    Reader.skip
    return ConfigDraft.config {}
  let first ← algorithm
  if !(← element false) then
    Reader.skip
    return ConfigDraft.config { algorithm := some first }
  let second ← threshold
  endOfList
  return ⟨first, second⟩

/-- A configuration in either form; a threshold of zero is read like any other. -/
def config : Reader Config := fields .config configObject configList

/-- Both fields are always written. -/
def encodeConfig (config : Config) : List UInt8 :=
  encodeObject
    [(algorithmKey, encodeAlgorithm config.algorithm),
      (thresholdKey, decimal config.parallelThreshold.toNat)]

/-! ## Inclusion proofs -/

/-! The keys of the fields. -/

def leafKey : String := "leaf"

def indexKey : String := "leaf_index"

def siblingsKey : String := "siblings"

/-- A number that fits 32 bits. -/
def index : Reader UInt32 := do
  return UInt32.ofNat (← natural .index (UInt32.size - 1))

/-- The fields of a proof that have been read. -/
structure ProofDraft where
  leaf : Option Digest := none
  leafIndex : Option UInt32 := none
  siblings : Option (List Digest) := none

/-- The member of a proof with a given key, behind the key. -/
def proofField (key : List UInt8) (draft : ProofDraft) : Reader ProofDraft := do
  if key = Text.utf8 leafKey then
    let value ← fieldValue leafKey draft.leaf digest
    pure { draft with leaf := some value }
  else if key = Text.utf8 indexKey then
    let value ← fieldValue indexKey draft.leafIndex index
    pure { draft with leafIndex := some value }
  else if key = Text.utf8 siblingsKey then
    let value ← fieldValue siblingsKey draft.siblings siblings
    pure { draft with siblings := some value }
  else
    unknownField
    pure draft

/-- All fields have to be there; the first one missing is named. -/
def ProofDraft.proof (draft : ProofDraft) : Reader InclusionProof :=
  match draft.leaf, draft.leafIndex, draft.siblings with
  | none, _, _ => Reader.fail (.missingField leafKey)
  | some _, none, _ => Reader.fail (.missingField indexKey)
  | some _, some _, none => Reader.fail (.missingField siblingsKey)
  | some leaf, some leafIndex, some siblings => pure ⟨leaf, leafIndex, siblings⟩

/-- The members in any order, behind the opening brace. -/
def proofObject : Reader InclusionProof := do
  (← members proofField {}).proof

/-- The next field of a proof in list form; `count` are there already. -/
def listedField {α : Type} (count : Nat) (value : Reader α) : Reader α := do
  if ← element (count = 0) then value
  else
    Reader.skip
    Reader.fail (.wrongLength count .wholeProof)

/-- The fields in order, behind the opening bracket. -/
def proofList : Reader InclusionProof := do
  let leaf ← listedField 0 digest
  let leafIndex ← listedField 1 index
  let siblings ← listedField 2 siblings
  endOfList
  pure ⟨leaf, leafIndex, siblings⟩

/-- A proof in either form. -/
def proof : Reader InclusionProof := fields .proof proofObject proofList

/-- The fields in order. -/
def encodeProof (proof : InclusionProof) : List UInt8 :=
  encodeObject
    [(leafKey, encodeDigest proof.leaf),
      (indexKey, decimal proof.leafIndex.toNat),
      (siblingsKey, encodeList (proof.siblings.map encodeDigest))]

end Merkle.Json

/-! ## Whole texts -/

namespace Merkle

/-- The value that a whole text stands for. -/
def Json.parse {α : Type} (reader : Json.Reader α) (text : String) : Except Error α :=
  (reader.readAll (Text.utf8 text)).mapError Error.ofJsonFailure

namespace Digest

/-- The compact text. -/
def toJson (d : Digest) : String := Text.ofAscii (Json.encodeDigest d)

/-- The digest that a text stands for. -/
def ofJson (text : String) : Except Error Digest := Json.parse Json.digest text

end Digest

namespace Algorithm

/-- The name between quotes. -/
def toJson (algorithm : Algorithm) : String := Text.ofAscii (Json.encodeAlgorithm algorithm)

/-- The algorithm that a text stands for. -/
def ofJson (text : String) : Except Error Algorithm := Json.parse Json.algorithm text

end Algorithm

namespace Config

/-- The compact text, with both fields. -/
def toJson (config : Config) : String := Text.ofAscii (Json.encodeConfig config)

/-- A configuration as it is written, which may have a threshold of zero. -/
def ofJson (text : String) : Except Error Config := Json.parse Json.config text

/-- A configuration that has passed `validate`. -/
def load (text : String) : Except Error Config := do
  let config ← ofJson text
  config.validate
  pure config

end Config

namespace InclusionProof

/-- The compact text. -/
def toJson (proof : InclusionProof) : String := Text.ofAscii (Json.encodeProof proof)

/-- The proof that a text stands for. -/
def ofJson (text : String) : Except Error InclusionProof := Json.parse Json.proof text

end InclusionProof
end Merkle
