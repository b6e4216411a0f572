import Merkle.Batch
import Merkle.Proofs.Acceptance

/-!
# Batches: every item gets the answer that it gets alone

An answer stands where its item stands and depends on that item and the algorithm, not on the other
items and not on the threshold (`prove_eq_map`, `verify_eq_map`). Proofs made by a batch are accepted
by a batch, whatever stands between them (`batches_exact`).
-/
namespace Merkle.Batch

/-- A proof made of one answer to a batch of indices: the index asked for, its leaf, and the siblings
answered. -/
def MadeFrom (leaves : List Digest) (indices : List UInt32) (answers : List (Option (List Digest)))
    (proof : InclusionProof) : Prop :=
  ∃ position : Nat, indices[position]? = some proof.leafIndex ∧
    leaves[proof.leafIndex.toNat]? = some proof.leaf ∧
    answers[position]? = some (some proof.siblings)

/-- A proof made by a batch verifies by itself. -/
theorem MadeFrom.verify {config : Config} {leaves : List Digest} {indices : List UInt32}
    {proof : InclusionProof} (few : leaves.length ≤ Tree.maxLeaves)
    (made : MadeFrom leaves indices (prove config leaves indices) proof) :
    proof.verify config.algorithm.hasher (Tree.root config.algorithm.hasher leaves) = true := by
  obtain ⟨position, asked, leaf_at, answered⟩ := made
  rw [getElem?_prove config leaves asked] at answered
  exact Tree.verify_of_siblings? few (Option.some.inj answered) leaf_at

/-- Two configurations with one algorithm, and any thresholds: a batch of indices gets as many
answers, none exactly for the indices that no leaf has; a batch of proofs gets as many verdicts, each
the verdict of its proof alone, and true for every proof made of an answer. Both are the same under
either configuration, and take batches one behind the other to answers one behind the other. -/
theorem batches_exact {c c' : Config} (same : c.algorithm = c'.algorithm) {leaves : List Digest}
    (few : leaves.length ≤ Tree.maxLeaves) (indices : List UInt32) (proofs : List InclusionProof) :
    let root := Tree.root c.algorithm.hasher leaves
    let answers := prove c leaves indices
    let verdicts := verify c' root proofs
    answers.length = indices.length ∧
    (∀ (position : Nat) (index : UInt32), indices[position]? = some index →
      (answers[position]? = some none ↔ leaves.length ≤ index.toNat)) ∧
    verdicts.length = proofs.length ∧
    (∀ (position : Nat) (proof : InclusionProof), proofs[position]? = some proof →
      verdicts[position]? = some (proof.verify c.algorithm.hasher root) ∧
        (MadeFrom leaves indices answers proof → verdicts[position]? = some true)) ∧
    prove c' leaves indices = answers ∧
    verify c root proofs = verdicts ∧
    (∀ more, prove c leaves (indices ++ more) = answers ++ prove c leaves more) ∧
    (∀ more, verify c' root (proofs ++ more) = verdicts ++ verify c' root more) := by
  intro root answers verdicts
  have answered : answers = indices.map (Tree.siblings? c.algorithm.hasher leaves) :=
    prove_eq_map c leaves indices
  have judged : verdicts = proofs.map fun proof => proof.verify c.algorithm.hasher root := by
    rw [same]
    exact verify_eq_map c' root proofs
  refine ⟨?_, ?_, ?_, ?_, ?_, ?_, ?_, ?_⟩
  · rw [answered, List.length_map]
  · intro position index asked
    rw [answered, List.getElem?_map, asked, Option.map_some, Option.some.injEq,
      Tree.siblings?_eq_none_iff few]
  · rw [judged, List.length_map]
  · intro position proof given
    have alone : verdicts[position]? = some (proof.verify c.algorithm.hasher root) := by
      rw [judged, List.getElem?_map, given, Option.map_some]
    refine ⟨alone, ?_⟩
    intro made
    rw [alone, made.verify few]
  · rw [answered, same, prove_eq_map]
  · rw [judged, verify_eq_map]
  · intro more
    rw [prove_eq_map, prove_eq_map, answered, List.map_append]
  · intro more
    rw [verify_eq_map, verify_eq_map, judged, List.map_append, same]

/-- An index asked for twice and one past the end; the made proof stands between two that are not
made. All at once on the one side, one by one on the other. -/
theorem batches_exact_repeated_and_past_the_end :
    let c : Config := ⟨.sha256, 0⟩
    let c' : Config := ⟨.sha256, 0xffffffffffffffff⟩
    let leaves := [Tree.filled 1, Tree.filled 2, Tree.filled 3]
    let indices : List UInt32 := [2, 9, 2]
    c.algorithm = c'.algorithm ∧ leaves.length ≤ Tree.maxLeaves ∧
      indices[1]? = some 9 ∧
      ((prove c leaves indices)[1]? = some none ↔ leaves.length ≤ (9 : UInt32).toNat) ∧
      ∃ siblings,
        let made : InclusionProof := ⟨Tree.filled 3, 2, siblings⟩
        let other : InclusionProof := ⟨Tree.filled 4, 7, []⟩
        MadeFrom leaves indices (prove c leaves indices) made ∧
        [other, made, other][1]? = some made ∧
        (verify c' (Tree.root c.algorithm.hasher leaves) [other, made, other])[1]? = some true := by
  intro c c' leaves indices
  have same : c.algorithm = c'.algorithm := rfl
  have few : leaves.length ≤ Tree.maxLeaves := by decide
  obtain ⟨siblings, found⟩ := Tree.exists_siblings? c.algorithm.hasher few
    (show (2 : UInt32).toNat < leaves.length by decide)
  have made : MadeFrom leaves indices (prove c leaves indices) ⟨Tree.filled 3, 2, siblings⟩ :=
    ⟨0, rfl, rfl, by rw [getElem?_prove c leaves rfl, found]⟩
  have exact_at := batches_exact same few indices
    [⟨Tree.filled 4, 7, []⟩, ⟨Tree.filled 3, 2, siblings⟩, ⟨Tree.filled 4, 7, []⟩]
  exact ⟨same, few, rfl, exact_at.2.1 1 9 rfl, siblings, made, rfl,
    (exact_at.2.2.2.1 1 _ rfl).2 made⟩

end Merkle.Batch
