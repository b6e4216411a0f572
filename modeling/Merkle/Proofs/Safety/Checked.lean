import Merkle.InclusionProof
import Merkle.Proofs.Levels
import Merkle.Proofs.Logarithm
import Merkle.Proofs.Safety.Rounds
import Merkle.Proofs.Verify

/-!
# Checked runs: the operations that may have no result

Indexing, shifts, sums and differences are checked here where they are made, with the width of each
type: a run stops with a fault at the first one that is out of range. Lengths and slots are words of
`bits` bits, levels and leaf indices have the widths that they have in `Merkle.Tree`.
-/
namespace Merkle.Checked

variable {α β : Type}

/-! ## Operations -/

theorem bind_of_ok {run : Except Fault α} {value : α} (done : run = .ok value)
    (rest : α → Except Fault β) : run >>= rest = rest value := by
  rw [done]
  rfl

/-- A result that exists under a condition. -/
def demand (condition : Prop) [Decidable condition] (fault : Fault) (result : α) :
    Except Fault α :=
  if condition then .ok result else .error fault

/-- What a shift by some amount gives in a type of `width` bits. -/
def shift (width amount : Nat) (result : α) : Except Fault α :=
  demand (amount < width) .shift result

/-- What a sum gives in an unsigned type of `width` bits. -/
def sum (width a b : Nat) (result : α) : Except Fault α :=
  demand (a + b < 2 ^ width) .overflow result

/-- What a difference gives in an unsigned type. -/
def difference (a b : Nat) (result : α) : Except Fault α := demand (b ≤ a) .overflow result

/-- The digest in a slot. -/
def read (level : Tree.Level) (slot : Nat) : Except Fault Digest :=
  if inside : slot < level.size then .ok level[slot] else .error .index

/-- The level with another digest in a slot. -/
def write (level : Tree.Level) (slot : Nat) (digest : Digest) : Except Fault Tree.Level :=
  if inside : slot < level.size then .ok (level.set slot digest) else .error .index

/-- The lower `bits` bits of a number. -/
def word (bits n : Nat) : Nat := n % 2 ^ bits

/-- So many digests have room next to one another in a memory of words of `bits` bits: they take up
less than half of the bytes that a word can count. -/
def Addressable (bits count : Nat) : Prop := Digest.size * count < 2 ^ (bits - 1)

instance (bits count : Nat) : Decidable (Addressable bits count) :=
  inferInstanceAs (Decidable (_ < _))

theorem demand_of {condition : Prop} [Decidable condition] {fault : Fault} {result : α}
    (met : condition) : demand condition fault result = .ok result :=
  if_pos met

theorem shift_of {width amount : Nat} {result : α} (narrow : amount < width) :
    shift width amount result = .ok result :=
  demand_of narrow

theorem sum_of {width a b : Nat} {result : α} (fits : a + b < 2 ^ width) :
    sum width a b result = .ok result :=
  demand_of fits

theorem difference_of {a b : Nat} {result : α} (le : b ≤ a) : difference a b result = .ok result :=
  demand_of le

theorem read_of {level : Tree.Level} {slot : Nat} (inside : slot < level.size) :
    read level slot = .ok level[slot] :=
  dif_pos inside

theorem write_of {level : Tree.Level} {slot : Nat} (inside : slot < level.size) (digest : Digest) :
    write level slot digest = .ok (level.set slot digest) :=
  dif_pos inside

theorem word_of {bits n : Nat} (fits : n < 2 ^ bits) : word bits n = n := Nat.mod_eq_of_lt fits

theorem Addressable.mono {bits count fewer : Nat} (addressable : Addressable bits count)
    (le : fewer ≤ count) : Addressable bits fewer :=
  Nat.lt_of_le_of_lt (Nat.mul_le_mul_left _ le) addressable

/-- No count is too large for every width. -/
theorem exists_addressable (count : Nat) : ∃ bits, Addressable bits count :=
  ⟨Digest.size * count + 1, Nat.lt_two_pow_self⟩

/-- There is room for one more in the count. -/
theorem Addressable.succ_lt {bits count : Nat} (addressable : Addressable bits count)
    (nonempty : 0 < count) : count + 1 < 2 ^ bits := by
  unfold Addressable Digest.size at addressable
  have half : 2 ^ (bits - 1) ≤ 2 ^ bits := Nat.pow_le_pow_right (by decide) (Nat.sub_le bits 1)
  omega

/-! ## The logarithm -/

/-- As `Tree.Descent.step`. -/
def descend (d : Tree.Descent) (mask : UInt32) (exponent : UInt8) : Except Fault Tree.Descent :=
  if d.number &&& mask ≠ 0 then do
    let log ← sum 8 d.log.toNat exponent.toNat (d.log + exponent)
    let number ← shift 32 exponent.toNat (d.number >>> exponent.toUInt32)
    return ⟨number, log⟩
  else return d

/-- One step for each mask. The exponent is halved after it. -/
def descents (d : Tree.Descent) (exponent : UInt8) : List UInt32 → Except Fault Tree.Descent
  | [] => return d
  | mask :: masks => do
    let next ← descend d mask exponent
    let half ← shift 8 1 (exponent >>> 1)
    descents next half masks

/-- As `Tree.ceilLog2`, for positive numbers only. -/
def ceilLog2 (n : UInt32) : Except Fault UInt8 := do
  let start ← demand (n ≠ 0) .zeroCount (Tree.Descent.start n)
  let last ← descents start 16 (Tree.halvings.map Tree.Halving.mask)
  return last.log

/-! ## Folding -/

variable (bits : Nat) (hasher : Hasher)

/-- Parent `i` is written over slot `i`. -/
def foldSlot (level : Tree.Level) (i : Nat) : Except Fault Tree.Level := do
  -- A shift may lose high bits without a fault; a sum may not.
  let even ← shift bits 1 (word bits (i <<< 1))
  let left ← read level even
  let odd ← sum bits even 1 (even + 1)
  let right ← read level odd
  write level i (hasher.pair left right)

/-- As `Tree.Level.fold`. -/
def fold (level : Tree.Level) : Except Fault Tree.Level := do
  let padded := level.pad
  let count ← shift bits 1 (padded.size >>> 1)
  let folded ← (List.range count).foldlM (foldSlot bits hasher) padded
  return folded.shrink count

/-- The leaves, in a buffer with room for one more if their number is odd. -/
def workingCopy (leaves : List Digest) : Except Fault Tree.Level :=
  sum bits leaves.length (leaves.length &&& 1) leaves.toArray

/-- As `Tree.root`. -/
def root : List Digest → Except Fault Digest
  | [] => return .zero
  | [leaf] => return leaf
  | first :: second :: rest => do
    let level ← workingCopy bits (first :: second :: rest)
    let last ← rounds Array.size (fold bits hasher) level
    read last 0

/-- As `Tree.combinedRoot`. -/
def combinedRoot (first second : List Digest) : Except Fault Digest := do
  let left ← root bits hasher first
  let right ← root bits hasher second
  return hasher.pair left right

/-! ## Generation -/

/-- On the way from a leaf to the root: the level reached, the index there, and the siblings met. -/
structure Walk where
  level : Tree.Level
  index : UInt32
  siblings : List Digest

/-- One level up, with the sibling of the padded level. -/
def Walk.up (walk : Walk) : Except Fault Walk := do
  let padded := walk.level.pad
  let sibling ← read padded (word bits (walk.index ^^^ 1).toNat)
  let above ← fold bits hasher padded
  let index ← shift 32 1 (walk.index >>> 1)
  return ⟨above, index, walk.siblings ++ [sibling]⟩

/-- As `Tree.siblings?`. The logarithm says how many siblings to make room for. -/
def siblings? (leaves : List Digest) (index : UInt32) : Except Fault (Option (List Digest)) :=
  if leaves.length > Tree.maxLeaves then return none
  else
    let count := UInt32.ofNat leaves.length
    if count = 0 ∨ count ≤ index then return none
    else do
      let level ← workingCopy bits leaves
      let _levels ← ceilLog2 count
      let last ← rounds (Array.size ∘ Walk.level) (Walk.up bits hasher) ⟨level, index, []⟩
      return some last.siblings

/-- As `InclusionProof.generate?`. -/
def generate? (leaves : List Digest) (index : UInt32) : Except Fault (Option InclusionProof) := do
  match ← siblings? bits hasher leaves index with
  | none => return none
  | some siblings =>
    let leaf ← read leaves.toArray (word bits index.toNat)
    return some ⟨leaf, index, siblings⟩

/-! ## Verification -/

/-- As `Tree.lastIndex`. -/
def lastIndex (depth : Nat) : Except Fault UInt64 := do
  let power ← shift 64 depth ((1 : UInt64) <<< UInt64.ofNat depth)
  difference power.toNat 1 (power - 1)

/-- As `Tree.climb`. -/
def climb (index : UInt32) (node : Digest) : List Digest → Except Fault Digest
  | [] => return node
  | sibling :: rest => do
    let above ← shift 32 1 (index >>> 1)
    climb above (Tree.joinSibling hasher index node sibling) rest

/-- As `Tree.verify`. -/
def verify (root leaf : Digest) (index : UInt32) (siblings : List Digest) : Except Fault Bool :=
  if siblings.length > Tree.maxDepth then return false
  else do
    let last ← lastIndex siblings.length
    if index.toUInt64 > last then return false
    else
      let node ← climb hasher index leaf siblings
      return node == root

/-- As `InclusionProof.maxLeafIndex?`. -/
def maxLeafIndex? (proof : InclusionProof) : Except Fault (Option UInt32) :=
  if proof.depth > Tree.maxDepth then return none
  else do
    let last ← lastIndex proof.depth
    return Tree.toIndex? last

end Merkle.Checked
