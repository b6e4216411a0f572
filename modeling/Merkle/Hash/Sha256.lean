import Merkle.ByteOrder

/-!
# SHA-256

The message is padded to whole blocks of 64 bytes, each block is expanded to sixty-four words, and
sixty-four rounds mix them into eight words of state.
-/
namespace Merkle.Hash.Sha256

/-- One constant a round: the first 32 fractional bits of the cube roots of the first 64 primes. -/
def roundConstants : Vector UInt32 64 :=
  #v[0x428a2f98, 0x71374491, 0xb5c0fbcf, 0xe9b5dba5, 0x3956c25b, 0x59f111f1, 0x923f82a4, 0xab1c5ed5,
    0xd807aa98, 0x12835b01, 0x243185be, 0x550c7dc3, 0x72be5d74, 0x80deb1fe, 0x9bdc06a7, 0xc19bf174,
    0xe49b69c1, 0xefbe4786, 0x0fc19dc6, 0x240ca1cc, 0x2de92c6f, 0x4a7484aa, 0x5cb0a9dc, 0x76f988da,
    0x983e5152, 0xa831c66d, 0xb00327c8, 0xbf597fc7, 0xc6e00bf3, 0xd5a79147, 0x06ca6351, 0x14292967,
    0x27b70a85, 0x2e1b2138, 0x4d2c6dfc, 0x53380d13, 0x650a7354, 0x766a0abb, 0x81c2c92e, 0x92722c85,
    0xa2bfe8a1, 0xa81a664b, 0xc24b8b70, 0xc76c51a3, 0xd192e819, 0xd6990624, 0xf40e3585, 0x106aa070,
    0x19a4c116, 0x1e376c08, 0x2748774c, 0x34b0bcb5, 0x391c0cb3, 0x4ed8aa4a, 0x5b9cca4f, 0x682e6ff3,
    0x748f82ee, 0x78a5636f, 0x84c87814, 0x8cc70208, 0x90befffa, 0xa4506ceb, 0xbef9a3f7, 0xc67178f2]

/-- The working variables of one block. -/
structure State where
  a : UInt32
  b : UInt32
  c : UInt32
  d : UInt32
  e : UInt32
  f : UInt32
  g : UInt32
  h : UInt32
  deriving DecidableEq, Repr

/-- The working variables as words. -/
def State.words (s : State) : Chaining := #v[s.a, s.b, s.c, s.d, s.e, s.f, s.g, s.h]

/-- Words as working variables. -/
def State.ofWords (v : Chaining) : State :=
  ⟨v.get 0, v.get 1, v.get 2, v.get 3, v.get 4, v.get 5, v.get 6, v.get 7⟩

/-- One round, with its constant and its word of the schedule. -/
def State.round (s : State) (constant word : UInt32) : State :=
  let sum1 := rotateRight s.e 6 ^^^ rotateRight s.e 11 ^^^ rotateRight s.e 25
  let choice := (s.e &&& s.f) ^^^ (~~~s.e &&& s.g)
  let t1 := s.h + sum1 + choice + constant + word
  let sum0 := rotateRight s.a 2 ^^^ rotateRight s.a 13 ^^^ rotateRight s.a 22
  let majority := (s.a &&& s.b) ^^^ (s.a &&& s.c) ^^^ (s.b &&& s.c)
  ⟨t1 + sum0 + majority, s.a, s.b, s.c, s.d + t1, s.e, s.f, s.g⟩

/-- The sixty-four words of a block: its sixteen own, then each from four earlier ones. -/
def schedule (block : Block) : Vector UInt32 64 :=
  Fin.foldl 48
    (fun (w : Vector UInt32 64) i =>
      let early := w[i.val + 1]
      let late := w[i.val + 14]
      let sigma0 := rotateRight early 7 ^^^ rotateRight early 18 ^^^ (early >>> 3)
      let sigma1 := rotateRight late 17 ^^^ rotateRight late 19 ^^^ (late >>> 10)
      w.set (i.val + 16) (w[i.val] + sigma0 + w[i.val + 9] + sigma1))
    (block ++ (Vector.replicate 48 0 : Vector UInt32 48))

/-- The state after one more block. -/
def compress (state : Chaining) (block : Block) : Chaining :=
  let w := schedule block
  let mixed := Fin.foldl 64 (fun (s : State) i => s.round roundConstants[i] w[i]) (.ofWords state)
  state.zipWith (· + ·) mixed.words

/-- The message, a bit that ends it, zeros to fill the last block, and the length in bits. -/
def pad (message : List UInt8) : List UInt8 :=
  message ++ 0x80 :: List.replicate ((119 - message.length % 64) % 64) 0
    ++ ByteOrder.bigEndian 8 (8 * message.length)

/-- The state after the blocks that the bytes make up. -/
def absorb (state : Chaining) : List UInt8 → Chaining
  | [] => state
  | b :: rest => absorb (compress state (bigEndianBlock (b :: rest.take 63))) (rest.drop 63)
termination_by bytes => bytes.length
decreasing_by
  simp only [List.length_drop, List.length_cons]
  omega

/-- The SHA-256 digest of a message. -/
def hash (message : List UInt8) : Digest := bigEndianDigest (absorb initial (pad message))

/-- Padding fills whole blocks. -/
theorem length_pad (message : List UInt8) : (pad message).length % 64 = 0 := by
  simp only [pad, List.length_append, List.length_cons, List.length_replicate,
    ByteOrder.length_bigEndian]
  omega

end Merkle.Hash.Sha256
