import Merkle.Digest
import Merkle.Hex
import Merkle.Json.Fault

/-!
# Errors: kinds, codes and reasons

An error has a kind, the code that it carries, and its reason as a value; its texts are functions of
these. Codes from 1000 to 4999 are the client's fault, codes from 5000 on the server's. Proof
generation and verification give no errors: they answer with `none` and `false`.
-/
namespace Merkle

/-- What an error is about. Each kind has a code of its own. -/
inductive ErrorKind where
  | invalidHash | invalidProof | invalidFormat | invalidConfig | serialization
  deriving DecidableEq, Repr

namespace ErrorKind

def all : List ErrorKind :=
  [.invalidHash, .invalidProof, .invalidFormat, .invalidConfig, .serialization]

/-- The number that programs look at; 1000 and up for validation, 6000 and up for serialization. -/
def code : ErrorKind → UInt16
  | .invalidHash => 1001
  | .invalidProof => 1006
  | .invalidFormat => 1008
  | .invalidConfig => 1009
  | .serialization => 6001

/-- The kind with a given code. -/
def ofCode? (code : UInt16) : Option ErrorKind := all.find? (·.code = code)

/-- Whether the caller is to blame. -/
def isClient (kind : ErrorKind) : Bool := 1000 ≤ kind.code ∧ kind.code < 5000

/-- Whether the serving side is to blame. -/
def isServer (kind : ErrorKind) : Bool := 5000 ≤ kind.code

/-- The code as it stands in messages, in at least four digits. -/
def tag (kind : ErrorKind) : String :=
  let digits := toString kind.code
  "E" ++ "".pushn '0' (4 - digits.length) ++ digits

/-- The words for the kind in messages. -/
def label : ErrorKind → String
  | .invalidHash => "invalid hash"
  | .invalidProof => "invalid proof"
  | .invalidFormat => "invalid format"
  | .invalidConfig => "invalid config"
  | .serialization => "serialization error"

end ErrorKind

/-- Why an operation failed. -/
inductive Reason where
  /-- In the caller's words. -/
  | note (text : String)
  | hexText (fault : Hex.Fault)
  /-- Hexadecimal text of another count of bytes than a digest has. -/
  | digestWidth (bytes : Nat)
  | rootMismatch
  | zeroThreshold
  | jsonText (failure : Json.Failure)
  deriving DecidableEq, Repr

namespace Reason

/-- The reason in words. -/
def text : Reason → String
  | .note text => text
  | .hexText fault => fault.text
  | .digestWidth bytes => "expected " ++ toString Digest.size ++ " bytes, got " ++ toString bytes
  | .rootMismatch => "inclusion proof does not match root"
  | .zeroThreshold => "parallel threshold must be at least 1"
  | .jsonText failure => failure.text

/-- The text of the fault underneath, where one of another format is the reason. -/
def source? : Reason → Option String
  | .hexText fault => some fault.text
  | .jsonText failure => some failure.text
  | _ => none

end Reason

/-- A failure of an operation. -/
structure Error where
  kind : ErrorKind
  /-- Usually the kind's own. -/
  code : ErrorKind := kind
  reason : Reason
  deriving DecidableEq, Repr

namespace Error

/-- The whole message: code, kind and reason. -/
def message (e : Error) : String :=
  "[" ++ e.code.tag ++ "] " ++ e.kind.label ++ ": " ++ e.reason.text

def source? (e : Error) : Option String := e.reason.source?

def isClient (e : Error) : Bool := e.code.isClient

def isServer (e : Error) : Bool := e.code.isServer

/-! Errors in the caller's words. -/

def invalidHash (text : String) : Error := { kind := .invalidHash, reason := .note text }

def invalidProof (text : String) : Error := { kind := .invalidProof, reason := .note text }

def invalidConfig (text : String) : Error := { kind := .invalidConfig, reason := .note text }

/-- Text that should have been hexadecimal. -/
def ofHexFault (fault : Hex.Fault) : Error := { kind := .invalidHash, reason := .hexText fault }

/-- Malformed text is the client's fault; text that ends too early is not. -/
def ofJsonFailure (failure : Json.Failure) : Error :=
  { kind := if failure.fault.isEndOfInput then .serialization else .invalidFormat
    reason := .jsonText failure }

end Error
end Merkle
