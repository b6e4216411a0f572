import Merkle.ByteOrder

/-!
# BLAKE3, 32 bytes of output

Input is cut into chunks of 1024 bytes, chunks into blocks of 64, and the chunks become the leaves
of a binary tree whose left subtrees are full. Input is taken byte by byte, so that a message may
come in parts (`absorb_append`); what is complete is compressed as soon as another byte shows that
it is not the end.
-/
namespace Merkle.Hash.Blake3

/-! The flags that tell the uses of the compression function apart: the first and the last block of
a chunk, inner nodes, and the root. -/

def chunkStart : UInt32 := 1
def chunkEnd : UInt32 := 2
def innerNode : UInt32 := 4
def rootNode : UInt32 := 8

/-- Which word of the message takes each place in the next round. -/
def permutation : Vector (Fin 16) 16 := #v[2, 6, 3, 10, 7, 0, 4, 13, 1, 11, 12, 5, 9, 14, 15, 8]

/-- Mixes two words of the message into four words of the state. -/
def mix (v : Block) (a b c d : Fin 16) (x y : UInt32) : Block :=
  let wa := v[a] + v[b] + x
  let wd := rotateRight (v[d] ^^^ wa) 16
  let wc := v[c] + wd
  let wb := rotateRight (v[b] ^^^ wc) 12
  let wa := wa + wb + y
  let wd := rotateRight (wd ^^^ wa) 8
  let wc := wc + wd
  let wb := rotateRight (wb ^^^ wc) 7
  (((v.set a.val wa).set b.val wb).set c.val wc).set d.val wd

/-- One round: the columns, then the diagonals. -/
def round (v m : Block) : Block :=
  let v := mix v 0 4 8 12 m[0] m[1]
  let v := mix v 1 5 9 13 m[2] m[3]
  let v := mix v 2 6 10 14 m[4] m[5]
  let v := mix v 3 7 11 15 m[6] m[7]
  let v := mix v 0 5 10 15 m[8] m[9]
  let v := mix v 1 6 11 12 m[10] m[11]
  let v := mix v 2 7 8 13 m[12] m[13]
  mix v 3 4 9 14 m[14] m[15]

/-- Rounds with the message permuted from one to the next. -/
def rounds : Nat → Block → Block → Block
  | 0, v, _ => v
  | n + 1, v, m => rounds n (round v m) (.ofFn fun i => m[permutation[i]])

/-- An input of the compression function: a block in its place in the tree. -/
structure Node where
  chaining : Chaining
  block : Block
  /-- Number of the chunk; zero for inner nodes. -/
  counter : UInt64
  /-- Count of input bytes in the block. -/
  length : UInt32
  flags : UInt32

/-- The chaining value that a node hands on. -/
def Node.output (n : Node) : Chaining :=
  let tail : Vector UInt32 8 :=
    #v[initial[0], initial[1], initial[2], initial[3],
      n.counter.toUInt32, (n.counter >>> 32).toUInt32, n.length, n.flags]
  let v := rounds 7 (n.chaining ++ tail) n.block
  .ofFn fun i => v[i.val] ^^^ v[i.val + 8]

/-- The output of the whole tree, when the node is its root. -/
def Node.rootOutput (n : Node) : Chaining := { n with flags := n.flags ||| rootNode }.output

/-- The inner node over two subtrees. -/
def Node.parent (left right : Chaining) : Node := ⟨initial, left ++ right, 0, 64, innerNode⟩

/-- Adds a complete subtree to those on its left, nearest first; two of one height become one that
is higher. -/
def addSubtree (height : Nat) (value : Chaining) : List (Nat × Chaining) → List (Nat × Chaining)
  | [] => [(height, value)]
  | (h, left) :: rest =>
    if h = height then addSubtree (height + 1) (Node.parent left value).output rest
    else (height, value) :: (h, left) :: rest

/-- What has been taken in so far. -/
structure Stream where
  /-- Height and value of the complete subtrees, nearest first. -/
  subtrees : List (Nat × Chaining)
  /-- Number of the current chunk. -/
  counter : UInt64
  /-- Chaining value of the current chunk. -/
  chaining : Chaining
  /-- Count of blocks of the current chunk that are in its chaining value. -/
  blocks : Nat
  /-- Bytes of the current block. -/
  pending : Array UInt8

namespace Stream

/-- Nothing taken in. -/
def start : Stream := ⟨[], 0, initial, 0, #[]⟩

/-- The current block in its place, with the flag of a chunk's first block where it is one. -/
def node (s : Stream) (flags : UInt32) : Node :=
  let first := if s.blocks = 0 then chunkStart else 0
  ⟨s.chaining, littleEndianBlock s.pending.toList, s.counter, s.pending.size.toUInt32,
    first ||| flags⟩

/-- Takes one byte. -/
def push (s : Stream) (b : UInt8) : Stream :=
  if s.pending.size < 64 then { s with pending := s.pending.push b }
  else if s.blocks < 15 then
    { s with chaining := (s.node 0).output, blocks := s.blocks + 1, pending := #[b] }
  else
    { subtrees := addSubtree 0 (s.node chunkEnd).output s.subtrees
      counter := s.counter + 1, chaining := initial, blocks := 0, pending := #[b] }

/-- Takes bytes one after the other. -/
def absorb (s : Stream) (bytes : List UInt8) : Stream := bytes.foldl push s

/-- The root over the current chunk and the complete subtrees. -/
def finish (s : Stream) : Digest :=
  let last := s.node chunkEnd
  let root := s.subtrees.foldl (fun node (_, left) => Node.parent left node.output) last
  littleEndianDigest root.rootOutput

/-- Two parts taken one after the other are as good as both at once. -/
theorem absorb_append (s : Stream) (first second : List UInt8) :
    (s.absorb first).absorb second = s.absorb (first ++ second) :=
  List.foldl_append.symm

end Stream

/-- The BLAKE3 digest of a message. -/
def hash (message : List UInt8) : Digest := (Stream.start.absorb message).finish

end Merkle.Hash.Blake3
