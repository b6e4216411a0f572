import Merkle.Proofs.Acceptance
import Merkle.Proofs.Binding

/-!
# Homomorphisms: digests are seen only through the hash of a pair

Let a map of digests turn the pairs of one hasher into the pairs of another. Then every loop of the
tree, run with the one hasher on digests and with the other on their images, stays in step: levels,
roots, siblings and climbs correspond entry by entry. So nothing in the tree compares or reorders
digests, singles out a value or asks for the hash of bytes.
-/
namespace Merkle.Tree

/-- A map of digests under which pairs of the one hasher become pairs of the other. What the two
make of bytes is free. -/
structure Homomorphism (source target : Hasher) (f : Digest → Digest) : Prop where
  map_pair (left right : Digest) : f (source.pair left right) = target.pair (f left) (f right)

/-- The hasher that pairs the originals of two digests under a map that is its own inverse. -/
def conjugate (hasher : Hasher) (f : Digest → Digest) : Hasher where
  hash bytes := f (hasher.hash bytes)
  pair left right := f (hasher.pair (f left) (f right))

/-- Every map that is its own inverse is a homomorphism from any hasher. -/
theorem homomorphism_conjugate (hasher : Hasher) {f : Digest → Digest}
    (involutive : Function.Involutive f) : Homomorphism hasher (conjugate hasher f) f where
  map_pair left right := by simp only [conjugate, involutive left, involutive right]

theorem homomorphism_id {source target : Hasher} (same : source.pair = target.pair) :
    Homomorphism source target id where
  map_pair left right := by rw [same, id, id, id]

/-- The copy of the last node of an odd level is a copy under any map. -/
theorem Level.map_pad (f : Digest → Digest) (level : Level) :
    Level.pad (level.map f) = level.pad.map f := by
  by_cases odd : level.size % 2 = 1
  · rw [pad, pad, dif_pos odd, dif_pos (by rwa [Array.size_map]), Array.map_push]
    simp only [Array.size_map, Array.getElem_map]
  · rw [pad, pad, dif_neg odd, dif_neg (by rwa [Array.size_map])]

namespace Homomorphism

variable {source target : Hasher} {f : Digest → Digest} (hom : Homomorphism source target f)
include hom

/-! ## Levels and roots -/

theorem parents_map (level : List Digest) :
    parents target (level.map f) = (parents source level).map f := by
  fun_induction parents source level with
  | case1 => rfl
  | case2 last => simp only [List.map_cons, List.map_nil, parents, hom.map_pair]
  | case3 left right rest ih => simp only [List.map_cons, parents, hom.map_pair, ih]

theorem fold_map (level : Level) :
    Level.fold target (level.map f) = (level.fold source).map f := by
  apply Array.toList_inj.mp
  rw [Level.toList_fold, Array.toList_map, Array.toList_map, Level.toList_fold, hom.parents_map]

theorem collapse_map (level : Level) (nonempty : 0 < level.size)
    (nonempty' : 0 < (level.map f).size) :
    collapse target (level.map f) nonempty' = f (collapse source level nonempty) := by
  fun_induction collapse source level nonempty with
  | case1 level nonempty single =>
    rw [collapse, dif_pos (by rwa [Array.size_map]), Array.getElem_map]
  | case2 level nonempty many ih =>
    rw [collapse, dif_neg (by rwa [Array.size_map])]
    simp only [hom.fold_map]
    exact ih _

/-- The empty tree is left out: its root is the zero digest, whatever the hasher. -/
theorem root_map {leaves : List Digest} (nonempty : leaves ≠ []) :
    root target (leaves.map f) = f (root source leaves) := by
  have occupied := size_toArray_pos nonempty
  have occupied' : 0 < (leaves.toArray.map f).size := by rwa [Array.size_map]
  rw [root_eq_collapse occupied, ← hom.collapse_map leaves.toArray occupied occupied',
    root_eq_collapse (by simpa using occupied)]
  simp only [List.map_toArray]

theorem combinedRoot_map {first second : List Digest} (nonempty : first ≠ [])
    (nonempty' : second ≠ []) :
    combinedRoot target (first.map f) (second.map f) = f (combinedRoot source first second) := by
  rw [combinedRoot, combinedRoot, hom.root_map nonempty, hom.root_map nonempty', hom.map_pair]

/-! ## Siblings -/

theorem climbSiblings_map (level : Level) (index : UInt32) (inside : index.toNat < level.size)
    (inside' : index.toNat < (level.map f).size) :
    climbSiblings target (level.map f) index inside' =
      (climbSiblings source level index inside).map f := by
  fun_induction climbSiblings source level index inside with
  | case1 level index inside single =>
    rw [climbSiblings_single (by rwa [Array.size_map]), List.map_nil]
  | case2 level index inside many beside above padded ih =>
    have beside' : (index ^^^ 1).toNat < (Level.pad (level.map f)).size := toNat_xor_one_lt inside'
    have above' : (index >>> 1).toNat < ((padded.fold source).map f).size := by
      rwa [Array.size_map]
    have same : Level.fold target (level.map f) = (padded.fold source).map f := by
      rw [hom.fold_map, Level.fold_pad]
    rw [climbSiblings_many (by rwa [Array.size_map]) inside' beside' (by rwa [same]),
      List.map_cons, ← ih above']
    simp only [Level.map_pad, Array.getElem_map, same, padded]

theorem siblings?_map (leaves : List Digest) (index : UInt32) :
    siblings? target (leaves.map f) index = (siblings? source leaves index).map (List.map f) := by
  unfold siblings?
  by_cases here : leaves.length ≤ maxLeaves ∧ index.toNat < leaves.length
  · have inside' : index.toNat < (leaves.toArray.map f).size := by simpa using here.2
    rw [dif_pos here, dif_pos (by rwa [List.length_map]), Option.map_some,
      ← hom.climbSiblings_map _ index _ inside']
    simp only [List.map_toArray]
  · rw [dif_neg here, dif_neg (by rwa [List.length_map]), Option.map_none]

/-! ## Verdicts -/

theorem joinSibling_map (index : UInt32) (node sibling : Digest) :
    joinSibling target index (f node) (f sibling) = f (joinSibling source index node sibling) := by
  unfold joinSibling
  split
  · rw [hom.map_pair]
  · rw [hom.map_pair]

theorem climb_map (index : UInt32) (node : Digest) (siblings : List Digest) :
    climb target index (f node) (siblings.map f) = f (climb source index node siblings) := by
  induction siblings generalizing index node with
  | nil => rfl
  | cons sibling rest ih => rw [List.map_cons, climb, climb, hom.joinSibling_map, ih]

theorem verify_map {root leaf : Digest} {index : UInt32} {siblings : List Digest}
    (accepted : verify source root leaf index siblings = true) :
    verify target (f root) (f leaf) index (siblings.map f) = true := by
  rw [verify_iff] at accepted ⊢
  obtain ⟨short, fits, ends⟩ := accepted
  rw [List.length_map, hom.climb_map, ends]
  exact ⟨short, fits, rfl⟩

/-- The image of a proof proves no more than the proof if no two digests have one image. -/
theorem verify_map_of_injective (injective : Function.Injective f) (root leaf : Digest)
    (index : UInt32) (siblings : List Digest) :
    verify target (f root) (f leaf) index (siblings.map f) =
      verify source root leaf index siblings := by
  rw [Bool.eq_iff_iff, verify_iff, verify_iff, List.length_map, hom.climb_map, injective.eq_iff]

end Homomorphism

/-- A map of digests carries roots, proofs and verdicts of one hasher to those of another. -/
structure Carries (source target : Hasher) (f : Digest → Digest) : Prop where
  root {leaves : List Digest} (nonempty : leaves ≠ []) :
    root target (leaves.map f) = f (root source leaves)
  combinedRoot {first second : List Digest} (nonempty : first ≠ []) (nonempty' : second ≠ []) :
    combinedRoot target (first.map f) (second.map f) = f (combinedRoot source first second)
  siblings (leaves : List Digest) (index : UInt32) :
    siblings? target (leaves.map f) index = (siblings? source leaves index).map (List.map f)
  accepted {root leaf : Digest} {index : UInt32} {siblings : List Digest}
    (accepted : verify source root leaf index siblings = true) :
    verify target (f root) (f leaf) index (siblings.map f) = true
  verdict (injective : Function.Injective f) (root leaf : Digest) (index : UInt32)
    (siblings : List Digest) :
    verify target (f root) (f leaf) index (siblings.map f) =
      verify source root leaf index siblings

/-- Digests are used only through the hash of a pair: a map that respects it carries everything that
the tree computes, and hashers with the same pairs are not told apart, not even by the empty tree.
-/
theorem only_pairs_matter (source target : Hasher) :
    (∀ f : Digest → Digest,
      (∀ left right, f (source.pair left right) = target.pair (f left) (f right)) →
        Carries source target f) ∧
      ((∀ left right, source.pair left right = target.pair left right) →
        (∀ leaves, root target leaves = root source leaves) ∧
        (∀ first second, combinedRoot target first second = combinedRoot source first second) ∧
        (∀ leaves index, siblings? target leaves index = siblings? source leaves index) ∧
        ∀ root leaf index siblings,
          verify target root leaf index siblings = verify source root leaf index siblings) := by
  constructor
  · intro f map_pair
    have hom : Homomorphism source target f := ⟨map_pair⟩
    exact {
      root := hom.root_map
      combinedRoot := hom.combinedRoot_map
      siblings := hom.siblings?_map
      accepted := hom.verify_map
      verdict := hom.verify_map_of_injective }
  · intro same
    have hom : Homomorphism source target id := homomorphism_id (funext₂ same)
    have roots (leaves : List Digest) : root target leaves = root source leaves := by
      cases leaves with
      | nil => rfl
      | cons first rest => simpa using hom.root_map (List.cons_ne_nil first rest)
    refine ⟨roots, ?_, ?_, ?_⟩
    · intro first second
      rw [combinedRoot, combinedRoot, roots, roots, same]
    · intro leaves index
      simpa using hom.siblings?_map leaves index
    · intro root leaf index siblings
      simpa using hom.verify_map_of_injective Function.injective_id root leaf index siblings

/-- The bytes of a digest, last one first. -/
def reversed (digest : Digest) : Digest :=
  ⟨digest.bytes.reverse, by rw [List.length_reverse, digest.length_bytes]⟩

theorem reversed_involutive : Function.Involutive reversed := by
  intro digest
  apply Digest.ext
  exact List.reverse_reverse digest.bytes

/-- Digests reversed throughout, for three leaves, and another hash of bytes beside the same
pairs. -/
theorem only_pairs_matter_reversed :
    let leaves := [filled 1, filled 2, filled 3]
    let mirror := conjugate .sha256 reversed
    let other : Hasher := { hash := Hasher.blake3.hash, pair := Hasher.sha256.pair }
    (∀ left right, reversed (Hasher.sha256.pair left right) =
        mirror.pair (reversed left) (reversed right)) ∧
      leaves ≠ [] ∧ root mirror (leaves.map reversed) = reversed (root .sha256 leaves) ∧
      Function.Injective reversed ∧
      (∃ siblings, siblings? .sha256 leaves 2 = some siblings ∧
        verify .sha256 (root .sha256 leaves) (filled 3) 2 siblings = true ∧
        siblings? mirror (leaves.map reversed) 2 = some (siblings.map reversed) ∧
        verify mirror (reversed (root .sha256 leaves)) (reversed (filled 3)) 2
          (siblings.map reversed) = true) ∧
      (∀ left right, Hasher.sha256.pair left right = other.pair left right) ∧
      root other leaves = root .sha256 leaves ∧
      siblings? other leaves 2 = siblings? .sha256 leaves 2 := by
  intro leaves mirror other
  have map_pair := (homomorphism_conjugate .sha256 reversed_involutive).map_pair
  have carries : Carries .sha256 mirror reversed := (only_pairs_matter .sha256 mirror).1 _ map_pair
  have few : leaves.length ≤ maxLeaves := by decide
  have inside : (2 : UInt32).toNat < leaves.length := by decide
  obtain ⟨siblings, found⟩ := exists_siblings? .sha256 few inside
  have leaf_at : leaves[(2 : UInt32).toNat]? = some (filled 3) := rfl
  have accepted : verify .sha256 (root .sha256 leaves) (filled 3) 2 siblings = true :=
    verify_of_siblings? few found leaf_at
  have found' : siblings? mirror (leaves.map reversed) 2 = some (siblings.map reversed) := by
    rw [carries.siblings, found, Option.map_some]
  have same (left right : Digest) : Hasher.sha256.pair left right = other.pair left right := rfl
  obtain ⟨roots, -, proofs, -⟩ := (only_pairs_matter .sha256 other).2 same
  exact ⟨map_pair, by decide, carries.root (by decide), reversed_involutive.injective,
    ⟨siblings, found, accepted, found', carries.accepted accepted⟩, same, roots leaves,
    proofs leaves 2⟩

end Merkle.Tree
