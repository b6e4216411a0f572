import Merkle.Proofs.Acceptance
import Merkle.Proofs.Path

/-!
# Replacement: proofs after one leaf has been replaced

Another leaf changes the nodes above it and no others (`getElem?_levelAt_set`). So a proof keeps
every sibling that does not stand above the replaced leaf. The proof of the leaf itself keeps all of
them as long as no node above the leaf is its own sibling; the proof of any other leaf keeps all but
one, the sibling where the ways of the two leaves meet (`replace_leaf`).
-/
namespace Merkle.Tree

variable {hasher : Hasher} {leaves : List Digest} {index other : UInt32} {bit height place : Nat}

/-! ## The bit where two ways meet -/

theorem exists_highestDifference (different : index ≠ other) :
    ∃ bit, HighestDifference index other bit := by
  have nonzero : index.toNat ^^^ other.toNat ≠ 0 := by
    intro zero
    exact different (UInt32.toNat_inj.mp (Nat.xor_eq_zero_iff.mp zero))
  obtain ⟨bit, here, above⟩ := Nat.exists_most_significant_bit nonzero
  refine ⟨bit, ?_, ?_⟩
  · intro same
    rw [Nat.testBit_xor, same, Bool.xor_self] at here
    exact Bool.false_ne_true here
  · intro k higher
    have agree := above k higher
    rw [Nat.testBit_xor] at agree
    exact bne_eq_false_iff_eq.mp agree

/-- Above that bit the two ways are one. -/
theorem HighestDifference.div_eq (highest : HighestDifference index other bit)
    (above : bit < height) : index.toNat / 2 ^ height = other.toNat / 2 ^ height := by
  apply Nat.eq_of_testBit_eq
  intro k
  rw [Nat.testBit_div_two_pow, Nat.testBit_div_two_pow]
  exact highest.agrees_above (k + height) (by omega)

/-- Up to that bit they are apart. -/
theorem HighestDifference.div_ne (highest : HighestDifference index other bit)
    (low : height ≤ bit) : index.toNat / 2 ^ height ≠ other.toNat / 2 ^ height := by
  intro same
  apply highest.differs
  obtain ⟨k, rfl⟩ := Nat.exists_eq_add_of_le low
  rw [Nat.add_comm, ← Nat.testBit_div_two_pow, ← Nat.testBit_div_two_pow, same]

/-- Two leaves of one tree meet below its root. -/
theorem HighestDifference.lt_depth (highest : HighestDifference index other bit) {count : Nat}
    (inside : index.toNat < count) (inside' : other.toNat < count) : bit < depth count := by
  apply Nat.lt_of_not_le
  intro low
  apply highest.div_ne low
  rw [Nat.div_eq_of_lt (lt_two_pow_depth inside), Nat.div_eq_of_lt (lt_two_pow_depth inside')]

/-! ## Nodes that stay -/

/-- A node that is not above the replaced leaf stays. -/
theorem getElem?_levelAt_set (hasher : Hasher) (leaves : List Digest) (leaf : Digest)
    {number : Nat} (aside : number ≠ place / 2 ^ height) :
    (levelAt hasher (leaves.set place leaf) height)[number]? =
      (levelAt hasher leaves height)[number]? := by
  induction height generalizing number with
  | zero =>
    rw [Nat.pow_zero, Nat.div_one] at aside
    change (leaves.set place leaf).toArray[number]? = leaves.toArray[number]?
    rw [List.getElem?_toArray, List.getElem?_toArray, List.getElem?_set_ne (Ne.symm aside)]
  | succ height ih =>
    have size := size_levelAt hasher leaves height
    have size' := size_levelAt hasher (leaves.set place leaf) height
    rw [List.length_set] at size'
    rw [Nat.pow_succ, ← Nat.div_div_eq_div_mul] at aside
    rw [levelAt_succ, levelAt_succ]
    by_cases inside : 2 * number < width leaves.length height
    · -- Neither child is above the leaf, as their parent is not.
      have left : (levelAt hasher (leaves.set place leaf) height)[2 * number]? =
          (levelAt hasher leaves height)[2 * number]? := ih (by omega)
      have right : (levelAt hasher (leaves.set place leaf) height)[
          min (2 * number + 1) (width leaves.length height - 1)]? =
            (levelAt hasher leaves height)[
              min (2 * number + 1) (width leaves.length height - 1)]? := ih (by omega)
      rw [Array.getElem?_eq_getElem (by omega), Array.getElem?_eq_getElem (by omega),
        Option.some.injEq] at left right
      rw [Level.getElem?_fold hasher _ number (by omega) (by omega),
        Level.getElem?_fold hasher _ number (by omega) (by omega)]
      simp only [size, size', left, right]
    · rw [Array.getElem?_eq_none (by rw [Level.size_fold]; omega),
        Array.getElem?_eq_none (by rw [Level.size_fold]; omega)]

/-! ## Siblings that stay -/

/-- On the way up from a leaf no node is the last one of an odd level, its own neighbour. -/
def Paired (count index : Nat) : Prop :=
  ∀ height, height < depth count →
    ¬ (width count height % 2 = 1 ∧ index / 2 ^ height = width count height - 1)

/-- A sibling stays unless it is the node above the replaced leaf. -/
theorem getElem?_siblings_set {siblings siblings' : List Digest} {leaf : Digest}
    (found : siblings? hasher leaves index = some siblings)
    (found' : siblings? hasher (leaves.set place leaf) index = some siblings')
    (aside : height < depth leaves.length →
      neighbour (width leaves.length height) (index.toNat / 2 ^ height) ≠ place / 2 ^ height) :
    siblings'[height]? = siblings[height]? := by
  have length_eq := length_of_siblings? found
  have length_eq' := length_of_siblings? found'
  rw [List.length_set] at length_eq'
  by_cases below : height < depth leaves.length
  · rw [getElem?_siblings found below, getElem?_siblings found' (by rwa [List.length_set]),
      List.length_set]
    exact getElem?_levelAt_set hasher leaves leaf (aside below)
  · rw [List.getElem?_eq_none (by omega), List.getElem?_eq_none (by omega)]

/-- The leaf's own siblings are none of the nodes above it. -/
theorem Paired.neighbour_ne {count number : Nat} (paired : Paired count number)
    (inside : number < count) (below : height < depth count) :
    neighbour (width count height) (number / 2 ^ height) ≠ number / 2 ^ height := by
  intro alone
  rw [neighbour_eq_self_iff (div_lt_width inside height)] at alone
  exact paired height below alone

/-- Where two ways are not about to meet, no sibling of the one stands on the other. -/
theorem HighestDifference.neighbour_ne {count : Nat} (highest : HighestDifference index other bit)
    (paired : Paired count index.toNat) (inside : index.toNat < count)
    (inside' : other.toNat < count)
    (elsewhere : height ≠ bit) (below : height < depth count) :
    neighbour (width count height) (other.toNat / 2 ^ height) ≠ index.toNat / 2 ^ height := by
  rcases Nat.lt_or_gt_of_ne elsewhere with low | high
  · -- The parents are different nodes.
    intro meets
    apply highest.div_ne (Nat.succ_le_of_lt low)
    rw [Nat.pow_succ, ← Nat.div_div_eq_div_mul, ← Nat.div_div_eq_div_mul, ← meets,
      neighbour_half (div_lt_width inside' height)]
  · rw [← highest.div_eq high]
    exact paired.neighbour_ne inside below

/-- Where two ways are about to meet, each takes the other's node as its sibling. -/
theorem HighestDifference.neighbour_eq {count : Nat} (highest : HighestDifference index other bit)
    (inside : index.toNat < count) :
    neighbour (width count bit) (other.toNat / 2 ^ bit) = index.toNat / 2 ^ bit := by
  apply Tree.neighbour_eq (div_lt_width inside bit)
  · exact Ne.symm (highest.div_ne (Nat.le_refl bit))
  · rw [Nat.div_div_eq_div_mul, Nat.div_div_eq_div_mul, ← Nat.pow_succ,
      highest.div_eq (Nat.lt_succ_self bit)]

/-- The proof of the replaced leaf stays as it is. -/
theorem siblings?_set {siblings : List Digest} (leaf : Digest) (few : leaves.length ≤ maxLeaves)
    (paired : Paired leaves.length index.toNat)
    (found : siblings? hasher leaves index = some siblings) :
    siblings? hasher (leaves.set index.toNat leaf) index = some siblings := by
  have inside := lt_length_of_siblings? found
  have few' : (leaves.set index.toNat leaf).length ≤ maxLeaves := by rwa [List.length_set]
  obtain ⟨siblings', found'⟩ := exists_siblings? hasher few' (by rwa [List.length_set])
  have same : siblings' = siblings := by
    apply List.ext_getElem?
    intro height
    exact getElem?_siblings_set found found' (paired.neighbour_ne inside)
  rw [found', same]

/-- Let a leaf have no node above it that is its own sibling. With another leaf in its place, its
proof is the same and is accepted for the new leaf against the new root. The proof of any other leaf
has one entry that may differ, at the highest bit in which the two indices differ; there the new
proof has the node that the new leaf reaches with as many of its siblings. -/
theorem replace_leaf (hasher : Hasher) {leaves : List Digest} (few : leaves.length ≤ maxLeaves)
    {d : Nat} (levels : d = (ceilLog2 (UInt32.ofNat leaves.length)).toNat) {index : UInt32}
    (inside : index.toNat < leaves.length)
    (paired : ∀ height, height < d → ¬ (width leaves.length height % 2 = 1 ∧
      index.toNat / 2 ^ height = width leaves.length height - 1)) (leaf : Digest) :
    ∃ siblings, siblings? hasher leaves index = some siblings ∧
      siblings? hasher (leaves.set index.toNat leaf) index = some siblings ∧
      verify hasher (root hasher (leaves.set index.toNat leaf)) leaf index siblings = true ∧
      ∀ other : UInt32, other.toNat < leaves.length → other ≠ index →
        ∃ bit before after, HighestDifference index other bit ∧
          siblings? hasher leaves other = some before ∧
          siblings? hasher (leaves.set index.toNat leaf) other = some after ∧
          after.length = before.length ∧
          (∀ height, height ≠ bit → after[height]? = before[height]?) ∧
          after[bit]? = some (climb hasher index leaf (siblings.take bit)) := by
  rw [toNat_ceilLog2_ofNat (Nat.zero_lt_of_lt inside) few] at levels
  subst levels
  have few' : (leaves.set index.toNat leaf).length ≤ maxLeaves := by rwa [List.length_set]
  have leaf_at : (leaves.set index.toNat leaf)[index.toNat]? = some leaf :=
    List.getElem?_set_self inside
  obtain ⟨siblings, found⟩ := exists_siblings? hasher few inside
  have found' := siblings?_set leaf few paired found
  refine ⟨siblings, found, found', verify_of_siblings? few' found' leaf_at, ?_⟩
  intro other inside' different
  obtain ⟨bit, highest⟩ := exists_highestDifference (Ne.symm different)
  obtain ⟨before, found_before⟩ := exists_siblings? hasher few inside'
  have inside_after : other.toNat < (leaves.set index.toNat leaf).length := by
    rwa [List.length_set]
  obtain ⟨after, found_after⟩ := exists_siblings? hasher few' inside_after
  have below := highest.lt_depth inside inside'
  refine ⟨bit, before, after, highest, found_before, found_after, ?_, ?_, ?_⟩
  · rw [length_of_siblings? found_before, length_of_siblings? found_after, List.length_set]
  · intro height elsewhere
    exact getElem?_siblings_set found_before found_after
      (highest.neighbour_ne paired inside inside' elsewhere)
  · rw [getElem?_siblings found_after (by rwa [List.length_set]), List.length_set,
      highest.neighbour_eq inside]
    exact getElem?_path found' leaf_at (by rw [List.length_set]; exact Nat.le_of_lt below)

/-- The fourth of five leaves: the last leaf, which is its own sibling twice, takes the fourth one's
subtree as its last sibling. -/
theorem replace_leaf_fourth_of_five :
    let leaves := [filled 1, filled 2, filled 3, filled 4, filled 5]
    let changed := leaves.set (3 : UInt32).toNat (filled 9)
    leaves.length ≤ maxLeaves ∧ 3 = (ceilLog2 (UInt32.ofNat leaves.length)).toNat ∧
      (3 : UInt32).toNat < leaves.length ∧
      (∀ height, height < 3 → ¬ (width leaves.length height % 2 = 1 ∧
        (3 : UInt32).toNat / 2 ^ height = width leaves.length height - 1)) ∧
      ((4 : UInt32).toNat < leaves.length ∧ (4 : UInt32) ≠ 3) ∧
      ∃ siblings, siblings? .sha256 leaves 3 = some siblings ∧
        siblings? .sha256 changed 3 = some siblings ∧
        verify .sha256 (root .sha256 changed) (filled 9) 3 siblings = true ∧
        ∃ bit before after, HighestDifference 3 4 bit ∧
          siblings? .sha256 leaves 4 = some before ∧ siblings? .sha256 changed 4 = some after ∧
          after.length = before.length ∧
          (∀ height, height ≠ bit → after[height]? = before[height]?) ∧
          after[bit]? = some (climb .sha256 3 (filled 9) (siblings.take bit)) := by
  intro leaves changed
  have few : leaves.length ≤ maxLeaves := by decide
  have levels : 3 = (ceilLog2 (UInt32.ofNat leaves.length)).toNat := by decide
  have inside : (3 : UInt32).toNat < leaves.length := by decide
  have paired : ∀ height, height < 3 → ¬ (width leaves.length height % 2 = 1 ∧
      (3 : UInt32).toNat / 2 ^ height = width leaves.length height - 1) := by decide
  have last : (4 : UInt32).toNat < leaves.length := by decide
  obtain ⟨siblings, found, kept, accepted, others⟩ :=
    replace_leaf .sha256 few levels inside paired (filled 9)
  exact ⟨few, levels, inside, paired, ⟨last, by decide⟩, siblings, found, kept, accepted,
    others 4 last (by decide)⟩

end Merkle.Tree
