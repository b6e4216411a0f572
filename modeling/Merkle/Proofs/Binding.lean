import Merkle.Proofs.Verify

/-!
# Binding: two verifications that a root accepts

Two climbs of one length that end at one digest are compared step by step. Unless they hash two
different pairs to one digest at some step (`Collide`), an equal index forces the same leaf and the
same siblings, and different indices force the siblings to cross at their highest different bit
(`Crossing`). No tree is assumed, and nothing about the hasher.
-/
namespace Merkle.Tree

/-- What is hashed when a node meets its sibling: the pair, left before right. -/
def orderedPair (index : UInt32) (node sibling : Digest) : Digest × Digest :=
  if index &&& 1 ≠ 0 then (sibling, node) else (node, sibling)

/-- The ordered pairs that a climb hashes, lowest level first. -/
def hashedPairs (hasher : Hasher) (index : UInt32) (node : Digest) :
    List Digest → List (Digest × Digest)
  | [] => []
  | sibling :: rest =>
    orderedPair index node sibling ::
      hashedPairs hasher (index >>> 1) (joinSibling hasher index node sibling) rest

/-- At one same place the two lists have different pairs, and the pairs have the same digest. -/
def Collide (hasher : Hasher) (pairs pairs' : List (Digest × Digest)) : Prop :=
  ∃ (step : Nat) (p p' : Digest × Digest), pairs[step]? = some p ∧ pairs'[step]? = some p' ∧
    p ≠ p' ∧ hasher.pair p.1 p.2 = hasher.pair p'.1 p'.2

/-- The indices differ in this bit and agree in all higher ones. -/
structure HighestDifference (index index' : UInt32) (bit : Nat) : Prop where
  differs : index.toNat.testBit bit ≠ index'.toNat.testBit bit
  agrees_above : ∀ k, bit < k → index.toNat.testBit k = index'.toNat.testBit k

/-- Above the highest different bit both climbs have the same siblings and nodes; at that bit the
node of each is the sibling of the other. -/
structure Crossing (hasher : Hasher) (index index' : UInt32) (leaf leaf' : Digest)
    (siblings siblings' : List Digest) (bit : Nat) : Prop where
  highest : HighestDifference index index' bit
  siblings_above : ∀ k, bit < k → siblings[k]? = siblings'[k]?
  nodes_above : ∀ k, bit < k →
    climb hasher index leaf (siblings.take k) = climb hasher index' leaf' (siblings'.take k)
  sibling_eq : siblings[bit]? = some (climb hasher index' leaf' (siblings'.take bit))
  sibling_eq' : siblings'[bit]? = some (climb hasher index leaf (siblings.take bit))

variable {hasher : Hasher} {index index' : UInt32} {node node' sibling sibling' : Digest}

/-- Each step of a climb is the digest of its ordered pair. -/
theorem pair_orderedPair (hasher : Hasher) (index : UInt32) (node sibling : Digest) :
    hasher.pair (orderedPair index node sibling).1 (orderedPair index node sibling).2 =
      joinSibling hasher index node sibling := by
  unfold orderedPair joinSibling
  split <;> rfl

/-- The digest of each pair is the node that the climb has reached with it. -/
theorem pair_hashedPairs {siblings : List Digest} {step : Nat} {p : Digest × Digest}
    (here : (hashedPairs hasher index node siblings)[step]? = some p) :
    hasher.pair p.1 p.2 = climb hasher index node (siblings.take (step + 1)) := by
  induction siblings generalizing index node step with
  | nil => cases here
  | cons sibling rest ih =>
    cases step with
    | zero =>
      cases here
      exact pair_orderedPair hasher index node sibling
    | succ step => exact ih here

/-- On the same side, the pair gives back both members. -/
theorem eq_of_orderedPair (parity : index.toNat % 2 = index'.toNat % 2)
    (pairs : orderedPair index node sibling = orderedPair index' node' sibling') :
    node = node' ∧ sibling = sibling' := by
  unfold orderedPair at pairs
  simp only [odd_iff, ← parity] at pairs
  split at pairs
  · simp only [Prod.mk.injEq] at pairs
    exact ⟨pairs.2, pairs.1⟩
  · simpa only [Prod.mk.injEq] using pairs

/-- On opposite sides, node and sibling change places. -/
theorem cross_of_orderedPair (parity : index.toNat % 2 ≠ index'.toNat % 2)
    (pairs : orderedPair index node sibling = orderedPair index' node' sibling') :
    sibling = node' ∧ sibling' = node := by
  unfold orderedPair at pairs
  simp only [odd_iff] at pairs
  split at pairs
  next odd =>
    rw [if_neg (by omega)] at pairs
    simp only [Prod.mk.injEq] at pairs
    exact ⟨pairs.1, pairs.2.symm⟩
  next even =>
    rw [if_pos (by omega)] at pairs
    simp only [Prod.mk.injEq] at pairs
    exact ⟨pairs.2, pairs.1.symm⟩

theorem Collide.head {p p' : Digest × Digest} {pairs pairs' : List (Digest × Digest)}
    (different : p ≠ p') (digest : hasher.pair p.1 p.2 = hasher.pair p'.1 p'.2) :
    Collide hasher (p :: pairs) (p' :: pairs') :=
  ⟨0, p, p', rfl, rfl, different, digest⟩

theorem Collide.tail {pairs pairs' : List (Digest × Digest)} (collide : Collide hasher pairs pairs')
    (p p' : Digest × Digest) : Collide hasher (p :: pairs) (p' :: pairs') := by
  obtain ⟨step, q, q', here, here', different, digest⟩ := collide
  exact ⟨step + 1, q, q', here, here', different, digest⟩

theorem HighestDifference.succ {bit : Nat}
    (highest : HighestDifference (index >>> 1) (index' >>> 1) bit) :
    HighestDifference index index' (bit + 1) := by
  obtain ⟨differs, agrees⟩ := highest
  simp only [toNat_shiftRight_one, Nat.testBit_div_two] at differs agrees
  refine ⟨differs, ?_⟩
  intro k above
  cases k with
  | zero => omega
  | succ k => exact agrees k (by omega)

/-- Indices that differ in their lowest bit only. -/
theorem HighestDifference.zero (parity : index.toNat % 2 ≠ index'.toNat % 2)
    (half : index >>> 1 = index' >>> 1) : HighestDifference index index' 0 := by
  have sameHalf : index.toNat / 2 = index'.toNat / 2 := by
    rw [← toNat_shiftRight_one, ← toNat_shiftRight_one, half]
  refine ⟨?_, ?_⟩
  · simp only [Nat.testBit_zero, ne_eq, decide_eq_decide]
    omega
  · intro k above
    cases k with
    | zero => omega
    | succ k => rw [← Nat.testBit_div_two, ← Nat.testBit_div_two, sameHalf]

/-- A crossing further up is seen from one level below at the next bit. -/
theorem Crossing.succ {rest rest' : List Digest} {bit : Nat}
    (crossing : Crossing hasher (index >>> 1) (index' >>> 1)
      (joinSibling hasher index node sibling) (joinSibling hasher index' node' sibling')
      rest rest' bit) :
    Crossing hasher index index' node node' (sibling :: rest) (sibling' :: rest') (bit + 1) := by
  refine ⟨crossing.highest.succ, ?_, ?_, crossing.sibling_eq, crossing.sibling_eq'⟩
  · intro k above
    cases k with
    | zero => omega
    | succ k => exact crossing.siblings_above k (by omega)
  · intro k above
    cases k with
    | zero => omega
    | succ k => exact crossing.nodes_above k (by omega)

/-- Neighbours of one parent: each is the other's sibling, and all above them is shared. -/
theorem Crossing.zero {rest : List Digest} (parity : index.toNat % 2 ≠ index'.toNat % 2)
    (half : index >>> 1 = index' >>> 1)
    (pairs : orderedPair index node sibling = orderedPair index' node' sibling') :
    Crossing hasher index index' node node' (sibling :: rest) (sibling' :: rest) 0 := by
  obtain ⟨crossed, crossed'⟩ := cross_of_orderedPair parity pairs
  have parent :
      joinSibling hasher index node sibling = joinSibling hasher index' node' sibling' := by
    rw [← pair_orderedPair, ← pair_orderedPair, pairs]
  refine ⟨.zero parity half, ?_, ?_, congrArg some crossed, congrArg some crossed'⟩
  · intro k above
    cases k with
    | zero => omega
    | succ k => rfl
  · intro k above
    cases k with
    | zero => omega
    | succ k => simp only [List.take_succ_cons, climb, parent, half]

/-- Two climbs of one length that meet. The induction goes up from the leaves; what is known of the
levels above decides the step below it. -/
theorem climb_eq_cases {leaf leaf' : Digest} {siblings siblings' : List Digest}
    (same : siblings.length = siblings'.length) (inside : index.toNat < 2 ^ siblings.length)
    (inside' : index'.toNat < 2 ^ siblings'.length)
    (meet : climb hasher index leaf siblings = climb hasher index' leaf' siblings') :
    Collide hasher (hashedPairs hasher index leaf siblings)
        (hashedPairs hasher index' leaf' siblings') ∨
      (index = index' ∧ leaf = leaf' ∧ siblings = siblings') ∨
      ∃ bit, Crossing hasher index index' leaf leaf' siblings siblings' bit := by
  induction siblings generalizing index index' leaf leaf' siblings' with
  | nil =>
    cases siblings' with
    | cons sibling' rest' => simp at same
    | nil =>
      simp only [List.length_nil, Nat.pow_zero] at inside inside'
      exact .inr (.inl ⟨UInt32.toNat_inj.mp (by omega), meet, rfl⟩)
  | cons sibling rest ih =>
    cases siblings' with
    | nil => simp at same
    | cons sibling' rest' =>
      simp only [List.length_cons, Nat.pow_succ, Nat.add_right_cancel_iff] at same inside inside'
      have above := ih same (by rw [toNat_shiftRight_one]; omega)
        (by rw [toNat_shiftRight_one]; omega) meet
      rcases above with collide | ⟨half, parent, rfl⟩ | ⟨bit, crossing⟩
      · exact .inl (collide.tail _ _)
      · by_cases pairs : orderedPair index leaf sibling = orderedPair index' leaf' sibling'
        · by_cases parity : index.toNat % 2 = index'.toNat % 2
          · obtain ⟨sameLeaf, sameSibling⟩ := eq_of_orderedPair parity pairs
            have sameHalf : index.toNat / 2 = index'.toNat / 2 := by
              rw [← toNat_shiftRight_one, ← toNat_shiftRight_one, half]
            have sameIndex : index = index' := UInt32.toNat_inj.mp (by omega)
            exact .inr (.inl ⟨sameIndex, sameLeaf, by rw [sameSibling]⟩)
          · exact .inr (.inr ⟨0, .zero parity half pairs⟩)
        · rw [← pair_orderedPair, ← pair_orderedPair] at parent
          exact .inl (.head pairs parent)
      · exact .inr (.inr ⟨bit + 1, crossing.succ⟩)

/-- Two accepted verifications of one length either hash different pairs to one digest at a same
step, or: at the same index they are the same, and at different indices their siblings cross. -/
theorem accepted_eq_or_cross (hasher : Hasher) (root leaf leaf' : Digest) (index index' : UInt32)
    (siblings siblings' : List Digest) (same : siblings.length = siblings'.length)
    (accepted : verify hasher root leaf index siblings = true)
    (accepted' : verify hasher root leaf' index' siblings' = true) :
    Collide hasher (hashedPairs hasher index leaf siblings)
        (hashedPairs hasher index' leaf' siblings') ∨
      ((index = index' → leaf = leaf' ∧ siblings = siblings') ∧
        (index ≠ index' →
          ∃ bit, Crossing hasher index index' leaf leaf' siblings siblings' bit)) := by
  obtain ⟨-, inside, reached⟩ := verify_iff.mp accepted
  obtain ⟨-, inside', reached'⟩ := verify_iff.mp accepted'
  rcases climb_eq_cases same inside inside' (reached.trans reached'.symm) with
    collide | ⟨sameIndex, sameLeaf, sameSiblings⟩ | ⟨bit, crossing⟩
  · exact .inl collide
  · exact .inr ⟨fun _ => ⟨sameLeaf, sameSiblings⟩, fun different => absurd sameIndex different⟩
  · refine .inr ⟨?_, fun _ => ⟨bit, crossing⟩⟩
    rintro rfl
    exact absurd rfl crossing.highest.differs

/-- The digest of one byte, repeated. -/
def filled (byte : UInt8) : Digest := ⟨List.replicate 32 byte, List.length_replicate⟩

/-- Two neighbouring leaves under one root: the siblings cross in the lowest bit. -/
theorem accepted_eq_or_cross_neighbours :
    let root := Hasher.sha256.pair (Hasher.sha256.pair (filled 1) (filled 2)) (filled 3)
    verify .sha256 root (filled 1) 0 [filled 2, filled 3] = true ∧
      verify .sha256 root (filled 2) 1 [filled 1, filled 3] = true ∧
      (Collide .sha256 (hashedPairs .sha256 0 (filled 1) [filled 2, filled 3])
          (hashedPairs .sha256 1 (filled 2) [filled 1, filled 3]) ∨
        (((0 : UInt32) = 1 → filled 1 = filled 2 ∧ [filled 2, filled 3] = [filled 1, filled 3]) ∧
          ((0 : UInt32) ≠ 1 → ∃ bit, Crossing .sha256 0 1 (filled 1) (filled 2)
            [filled 2, filled 3] [filled 1, filled 3] bit))) := by
  intro root
  have accepted : verify .sha256 root (filled 1) 0 [filled 2, filled 3] = true :=
    verify_iff.mpr ⟨by decide, by decide, rfl⟩
  have accepted' : verify .sha256 root (filled 2) 1 [filled 1, filled 3] = true :=
    verify_iff.mpr ⟨by decide, by decide, rfl⟩
  exact ⟨accepted, accepted', accepted_eq_or_cross .sha256 root (filled 1) (filled 2) 0 1
    [filled 2, filled 3] [filled 1, filled 3] rfl accepted accepted'⟩

end Merkle.Tree
