import Merkle.Proofs.Binding

/-!
# Composition: proofs in two parts

A climb reads one bit of its index for each sibling, the lowest first, and no other bit
(`climb_congr`). The lower part of a proof is verified with the low bits and the upper part with the
bits above them, from the one node where the lower part ends (`verify_append`).
-/
namespace Merkle.Tree

/-- The lowest `count` bits of an index. -/
def lowBits (index : UInt32) (count : Nat) : UInt32 := UInt32.ofNat (index.toNat % 2 ^ count)

/-- The bits of an index above the lowest `count`, moved down. -/
def highBits (index : UInt32) (count : Nat) : UInt32 := UInt32.ofNat (index.toNat / 2 ^ count)

@[simp] theorem toNat_lowBits (index : UInt32) (count : Nat) :
    (lowBits index count).toNat = index.toNat % 2 ^ count :=
  UInt32.toNat_ofNat_of_lt' (Nat.lt_of_le_of_lt (Nat.mod_le _ _) index.toNat_lt)

@[simp] theorem toNat_highBits (index : UInt32) (count : Nat) :
    (highBits index count).toNat = index.toNat / 2 ^ count :=
  UInt32.toNat_ofNat_of_lt' (Nat.lt_of_le_of_lt (Nat.div_le_self _ _) index.toNat_lt)

@[simp] theorem highBits_zero (index : UInt32) : highBits index 0 = index := by
  rw [← UInt32.toNat_inj, toNat_highBits, Nat.pow_zero, Nat.div_one]

theorem highBits_succ (index : UInt32) (count : Nat) :
    highBits index (count + 1) = highBits (index >>> 1) count := by
  rw [← UInt32.toNat_inj, toNat_highBits, toNat_highBits, toNat_shiftRight_one, Nat.pow_succ',
    Nat.div_div_eq_div_mul]

variable {hasher : Hasher} {index index' : UInt32}

theorem joinSibling_congr (parity : index.toNat % 2 = index'.toNat % 2) (node sibling : Digest) :
    joinSibling hasher index node sibling = joinSibling hasher index' node sibling := by
  rcases Nat.mod_two_eq_zero_or_one index.toNat with even | odd
  · rw [joinSibling_even even, joinSibling_even (parity ▸ even)]
  · rw [joinSibling_odd odd, joinSibling_odd (parity ▸ odd)]

/-- Bits above the siblings have no part in the climb. -/
theorem climb_congr {node : Digest} {siblings : List Digest}
    (same : index.toNat % 2 ^ siblings.length = index'.toNat % 2 ^ siblings.length) :
    climb hasher index node siblings = climb hasher index' node siblings := by
  induction siblings generalizing index index' node with
  | nil => rfl
  | cons sibling rest ih =>
    rw [List.length_cons, Nat.pow_succ', Nat.mod_mul, Nat.mod_mul] at same
    have parity : index.toNat % 2 = index'.toNat % 2 := by omega
    have above : (index >>> 1).toNat % 2 ^ rest.length =
        (index' >>> 1).toNat % 2 ^ rest.length := by
      rw [toNat_shiftRight_one, toNat_shiftRight_one]
      omega
    rw [climb, climb, joinSibling_congr parity, ih above]

/-- The climb goes on from where the lower siblings end. -/
theorem climb_append (index : UInt32) (node : Digest) (lower upper : List Digest) :
    climb hasher index node (lower ++ upper) =
      climb hasher (highBits index lower.length) (climb hasher index node lower) upper := by
  induction lower generalizing index node with
  | nil => simp only [List.nil_append, List.length_nil, highBits_zero, climb]
  | cons sibling rest ih =>
    rw [List.cons_append, climb, ih, List.length_cons, highBits_succ, climb]

theorem climb_lowBits (index : UInt32) (node : Digest) (siblings : List Digest) :
    climb hasher (lowBits index siblings.length) node siblings =
      climb hasher index node siblings := by
  apply climb_congr
  rw [toNat_lowBits, Nat.mod_mod]

variable {root leaf : Digest} {lower upper : List Digest}

/-- What the low bits verify is the end of the climb, and nothing else. -/
theorem verify_lowBits_iff (short : lower.length ≤ maxDepth) {node : Digest} :
    verify hasher node leaf (lowBits index lower.length) lower = true ↔
      climb hasher index leaf lower = node := by
  rw [verify_iff, toNat_lowBits, climb_lowBits]
  simp only [short, Nat.mod_lt _ (Nat.two_pow_pos lower.length), true_and]

/-- The whole index fits the whole proof exactly when its high bits fit the upper part. -/
theorem verify_append_iff (short : lower.length + upper.length ≤ maxDepth) :
    verify hasher root leaf index (lower ++ upper) = true ↔
      verify hasher root (climb hasher index leaf lower) (highBits index lower.length) upper =
        true := by
  have upper_short : upper.length ≤ maxDepth := by omega
  have fits : index.toNat / 2 ^ lower.length < 2 ^ upper.length ↔
      index.toNat < 2 ^ (lower.length + upper.length) := by
    rw [Nat.div_lt_iff_lt_mul (Nat.two_pow_pos lower.length), Nat.mul_comm, ← Nat.pow_add]
  rw [verify_iff, verify_iff, climb_append, List.length_append, toNat_highBits, fits]
  simp only [short, upper_short, true_and]

/-- A proof that is already accepted leaves nothing of its index for the siblings behind it. -/
theorem verify_append_of_accepted (short : lower.length + upper.length ≤ maxDepth)
    (accepted : verify hasher root leaf index lower = true) :
    verify hasher root leaf index (lower ++ upper) = true ↔
      verify hasher root root 0 upper = true := by
  obtain ⟨-, inside, reached⟩ := verify_iff.mp accepted
  have used_up : highBits index lower.length = 0 := by
    rw [← UInt32.toNat_inj, toNat_highBits, Nat.div_eq_of_lt inside]
    rfl
  rw [verify_append_iff short, reached, used_up]

theorem verify_cons_iff {sibling : Digest} (short : [sibling].length + upper.length ≤ maxDepth) :
    verify hasher root leaf index (sibling :: upper) = true ↔
      verify hasher root (joinSibling hasher index leaf sibling) (index >>> 1) upper = true := by
  have step := @verify_append_iff hasher index root leaf [sibling] upper short
  rwa [List.length_singleton, highBits_succ, highBits_zero] at step

theorem verify_eq_false_of_long (long : maxDepth < lower.length) :
    verify hasher root leaf index lower = false := by
  rw [← Bool.not_eq_true, verify_iff]
  omega

/-- A proof of at most 32 siblings is accepted exactly when there is a node that its lower part
proves at the low bits of the index, and from which its upper part proves the root at the high bits.
The lower part proves one node and no other. With one sibling below, that node is its join with the
leaf; below an accepted lower part it is the root itself, at index zero. Longer proofs are never
accepted. -/
theorem verify_append (hasher : Hasher) (root leaf : Digest) (index : UInt32)
    (lower upper : List Digest) :
    (lower.length + upper.length ≤ maxDepth →
      (verify hasher root leaf index (lower ++ upper) = true ↔
        ∃ node, verify hasher node leaf (lowBits index lower.length) lower = true ∧
          verify hasher root node (highBits index lower.length) upper = true) ∧
      (∃! node, verify hasher node leaf (lowBits index lower.length) lower = true) ∧
      (∀ sibling, lower = [sibling] →
        (verify hasher root leaf index (lower ++ upper) = true ↔
          verify hasher root (joinSibling hasher index leaf sibling) (index >>> 1) upper =
            true)) ∧
      (verify hasher root leaf index lower = true →
        (verify hasher root leaf index (lower ++ upper) = true ↔
          verify hasher root root 0 upper = true))) ∧
    (maxDepth < lower.length + upper.length →
      verify hasher root leaf index (lower ++ upper) = false) := by
  constructor
  · intro short
    have lower_short : lower.length ≤ maxDepth := by omega
    refine ⟨?_, ?_, ?_, verify_append_of_accepted short⟩
    · simp only [verify_lowBits_iff lower_short, exists_eq_left', verify_append_iff short]
    · simp only [verify_lowBits_iff lower_short, existsUnique_eq']
    · rintro sibling rfl
      exact verify_cons_iff short
  · intro long
    exact verify_eq_false_of_long (by rwa [List.length_append])

/-- All 32 bits of the index are used up by the lower part; one sibling more is refused. -/
theorem verify_append_at_the_limit :
    let path := List.replicate 32 (filled 2)
    let root := climb .sha256 0xffffffff (filled 1) path
    (path.length + ([] : List Digest).length ≤ maxDepth ∧
      verify .sha256 root (filled 1) 0xffffffff path = true ∧
      (verify .sha256 root (filled 1) 0xffffffff (path ++ []) = true ↔
        ∃ node, verify .sha256 node (filled 1) (lowBits 0xffffffff path.length) path = true ∧
          verify .sha256 root node (highBits 0xffffffff path.length) [] = true) ∧
      (verify .sha256 root (filled 1) 0xffffffff (path ++ []) = true ↔
        verify .sha256 root root 0 [] = true)) ∧
    ([filled 2].length + (path.drop 1).length ≤ maxDepth ∧
      (verify .sha256 root (filled 1) 0xffffffff ([filled 2] ++ path.drop 1) = true ↔
        verify .sha256 root (joinSibling .sha256 0xffffffff (filled 1) (filled 2))
          ((0xffffffff : UInt32) >>> 1) (path.drop 1) = true)) ∧
    (maxDepth < path.length + [filled 3].length ∧
      verify .sha256 root (filled 1) 0xffffffff (path ++ [filled 3]) = false) := by
  intro path root
  have accepted : verify .sha256 root (filled 1) 0xffffffff path = true :=
    verify_iff.mpr ⟨by decide, by decide, rfl⟩
  have whole := verify_append .sha256 root (filled 1) 0xffffffff path []
  have first := verify_append .sha256 root (filled 1) 0xffffffff [filled 2] (path.drop 1)
  have longer := verify_append .sha256 root (filled 1) 0xffffffff path [filled 3]
  have short : path.length + ([] : List Digest).length ≤ maxDepth := by decide
  have first_short : [filled 2].length + (path.drop 1).length ≤ maxDepth := by decide
  have long : maxDepth < path.length + [filled 3].length := by decide
  exact ⟨⟨short, accepted, (whole.1 short).1, (whole.1 short).2.2.2 accepted⟩,
    ⟨first_short, (first.1 first_short).2.2.1 (filled 2) rfl⟩, long, longer.2 long⟩

end Merkle.Tree
