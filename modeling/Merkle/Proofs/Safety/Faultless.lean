import Merkle.Proofs.Generation
import Merkle.Proofs.Safety.Checked

/-!
# Safety: no checked run stops with a fault

Each checked function gives what its unchecked one gives. For the two loops, an invariant of the
level, and of the walk up, says what is left to compute and that the node asked for is there
(`Folds`, `Walk.Climbs`); a round keeps it and halves the level, rounded up.
-/
namespace Merkle.Checked

open Merkle.Tree (Descent Halving Level filled)

/-! ## The logarithm -/

theorem descend_eq {d : Descent} {mask : UInt32} {exponent : UInt8}
    (room : d.log.toNat + exponent.toNat < 2 ^ 8) (narrow : exponent.toNat < 32) :
    descend d mask exponent = .ok (d.step ⟨mask, exponent⟩) := by
  unfold descend Descent.step
  by_cases high : d.number &&& mask ≠ 0
  · rw [if_pos high, if_pos high, bind_of_ok (sum_of room), bind_of_ok (shift_of narrow)]
    rfl
  · rw [if_neg high, if_neg high]
    rfl

/-- The halved exponents are those of the halvings, and each finds the room that `Descent.Holds`
keeps for it. -/
theorem descents_eq {n first steps lost : Nat} {d : Descent} {halvings : List Halving}
    {exponent : UInt8} (ladder : Halving.Ladder steps halvings) (short : steps ≤ 5)
    (holds : d.Holds n first (2 ^ steps) lost) (half : exponent.toNat = 2 ^ steps / 2) :
    descents d exponent (halvings.map Halving.mask) = .ok (halvings.foldl Descent.step d) := by
  induction ladder generalizing d exponent lost with
  | done => rfl
  | @step steps halving rest covers lower ih =>
    have narrow : 2 ^ steps ≤ 2 ^ 4 := Nat.pow_le_pow_right (by decide) (by omega)
    rw [Nat.pow_succ', Nat.mul_div_cancel_left _ (by decide)] at half
    obtain rfl : exponent = halving.exponent := by rw [← UInt8.toNat_inj, half, covers.exponent]
    have room : d.log.toNat + halving.exponent.toNat < 2 ^ 8 := by
      have left := holds.room
      rw [holds.log, half]
      omega
    have half' : (halving.exponent >>> 1).toNat = 2 ^ steps / 2 := by
      rw [UInt8.toNat_shiftRight, half]
      exact Nat.shiftRight_eq_div_pow _ 1
    rw [Nat.pow_succ'] at holds
    obtain ⟨lost', lowered⟩ := holds.step covers narrow
    rw [List.map_cons, descents, bind_of_ok (descend_eq room (by omega)),
      bind_of_ok (shift_of (by decide)), ih (by omega) lowered half']
    rfl

theorem ceilLog2_eq {n : UInt32} (positive : 0 < n.toNat) : ceilLog2 n = .ok (Tree.ceilLog2 n) := by
  have nonzero : n ≠ 0 := by
    rintro rfl
    exact absurd positive (by decide)
  have steps : descents (.start n) 16 (Tree.halvings.map Halving.mask) =
      .ok (Tree.halvings.foldl Descent.step (.start n)) :=
    descents_eq Tree.halvings_ladder (Nat.le_refl 5) (Descent.holds_start positive) rfl
  rw [ceilLog2, bind_of_ok (demand_of nonzero), bind_of_ok steps]
  rfl

example : ceilLog2 0 = .error .zeroCount := rfl

/-! ## Folding -/

section Folding

variable {bits : Nat} {hasher : Hasher} {level : Level}

theorem one_lt_bits {count : Nat} (many : 2 ≤ count) (fits : count < 2 ^ bits) : 1 < bits :=
  (Nat.pow_lt_pow_iff_right (by decide : 1 < 2)).mp (Nat.lt_of_le_of_lt many fits)

theorem foldSlot_eq {i : Nat} (fits : level.size < 2 ^ bits) (paired : 2 * i + 1 < level.size) :
    foldSlot bits hasher level i =
      .ok (level.set i (hasher.pair level[2 * i] level[2 * i + 1])) := by
  have even : word bits (i <<< 1) = 2 * i := by
    rw [Nat.shiftLeft_eq, Nat.pow_one, Nat.mul_comm, word_of (by omega)]
  rw [foldSlot, bind_of_ok (shift_of (one_lt_bits (by omega) fits)), even,
    bind_of_ok (read_of (by omega)), bind_of_ok (sum_of (by omega)), bind_of_ok (read_of paired),
    write_of (by omega)]

/-- Each round of the loop writes the slot that `Level.foldSlots` writes. -/
theorem foldSlots_eq (fits : level.size < 2 ^ bits) {count : Nat}
    (within : 2 * count ≤ level.size) :
    (List.range count).foldlM (foldSlot bits hasher) level =
      .ok (Level.foldSlots hasher count within level.toVector).toArray := by
  induction count with
  | zero => rfl
  | succ count ih =>
    rw [List.range_succ, List.foldlM_append, bind_of_ok (ih (by omega)), List.foldlM_cons,
      bind_of_ok (foldSlot_eq (by simpa using fits) (by simp only [Vector.size_toArray]; omega)),
      Level.foldSlots_succ]
    rfl

theorem size_pad_lt (addressable : Addressable bits level.size) (nonempty : 0 < level.size) :
    level.pad.size < 2 ^ bits := by
  have room := addressable.succ_lt nonempty
  rw [Level.size_pad]
  omega

theorem fold_eq (nonempty : 0 < level.size) (fits : level.pad.size < 2 ^ bits) :
    fold bits hasher level = .ok (level.fold hasher) := by
  have padded := Level.size_pad level
  have count : level.pad.size >>> 1 = level.pad.size / 2 := Nat.shiftRight_eq_div_pow _ 1
  have halves : 2 * (level.pad.size / 2) ≤ level.pad.size := Nat.mul_div_le _ 2
  have slots : (List.range (level.pad.size / 2)).foldlM (foldSlot bits hasher) level.pad =
      .ok (Level.foldSlots hasher _ halves level.pad.toVector).toArray :=
    foldSlots_eq fits halves
  rw [fold, bind_of_ok (shift_of (one_lt_bits (by omega) fits)), count, bind_of_ok slots]
  rfl

theorem size_fold_lt (hasher : Hasher) (many : 1 < level.size) :
    (level.fold hasher).size < level.size := by
  rw [Level.size_fold]
  omega

end Folding

/-! ## Roots -/

/-- A level that folds to a node. -/
structure Folds (bits : Nat) (hasher : Hasher) (top : Digest) (level : Level) : Prop where
  addressable : Addressable bits level.size
  nonempty : 0 < level.size
  collapse_eq : Tree.collapse hasher level nonempty = top

theorem fold_sustains (bits : Nat) (hasher : Hasher) (top : Digest) :
    Sustains Array.size (fold bits hasher) (Folds bits hasher top) where
  occupied _ folds := folds.nonempty
  step level folds many := by
    obtain ⟨addressable, nonempty, collapse_eq⟩ := folds
    have shorter := size_fold_lt hasher many
    have occupied : 0 < (Level.fold hasher level).size := by
      rw [Level.size_fold]
      omega
    refine ⟨_, fold_eq nonempty (size_pad_lt addressable nonempty),
      ⟨addressable.mono (Nat.le_of_lt shorter), occupied, ?_⟩, shorter⟩
    rw [← collapse_eq, Tree.collapse.eq_def hasher level, dif_neg (Nat.ne_of_gt many)]

variable {bits : Nat} {hasher : Hasher} {leaves : List Digest}

theorem workingCopy_eq (addressable : Addressable bits leaves.length) (nonempty : leaves ≠ []) :
    workingCopy bits leaves = .ok leaves.toArray := by
  have room := addressable.succ_lt (List.length_pos_iff.mpr nonempty)
  apply sum_of
  rw [Nat.and_one_is_mod]
  omega

theorem leaves_fold (addressable : Addressable bits leaves.length) (nonempty : leaves ≠ []) :
    Folds bits hasher (Tree.root hasher leaves) leaves.toArray where
  addressable := by rwa [List.size_toArray]
  nonempty := by rwa [List.size_toArray, List.length_pos_iff]
  collapse_eq := (Tree.root_eq_collapse _).symm

theorem root_eq (addressable : Addressable bits leaves.length) :
    root bits hasher leaves = .ok (Tree.root hasher leaves) := by
  match leaves, addressable with
  | [], _ => rfl
  | [leaf], _ => rfl
  | first :: second :: rest, addressable =>
    have nonempty : first :: second :: rest ≠ [] := List.cons_ne_nil _ _
    obtain ⟨last, -, ended, folds, single⟩ :=
      (fold_sustains bits hasher _).ends (leaves_fold addressable nonempty)
    have top := folds.collapse_eq
    rw [Tree.collapse, dif_pos single] at top
    rw [root, bind_of_ok (workingCopy_eq addressable nonempty), bind_of_ok ended,
      read_of folds.nonempty, top]

/-! ## Generation -/

/-- A walk that has been to some siblings and has the others before it. -/
structure Walk.Climbs (bits : Nat) (hasher : Hasher) (all : List Digest) (walk : Walk) : Prop where
  addressable : Addressable bits walk.level.size
  inside : walk.index.toNat < walk.level.size
  siblings_eq :
    walk.siblings ++ Tree.climbSiblings hasher walk.level walk.index inside = all

theorem Walk.up_eq {walk : Walk} (fits : walk.level.pad.size < 2 ^ bits)
    (beside : (walk.index ^^^ 1).toNat < walk.level.pad.size) :
    walk.up bits hasher = .ok ⟨walk.level.fold hasher, walk.index >>> 1,
      walk.siblings ++ [walk.level.pad[(walk.index ^^^ 1).toNat]]⟩ := by
  -- Folding pads once more, and finds nothing to pad.
  have folded : fold bits hasher walk.level.pad = .ok (walk.level.fold hasher) := by
    rw [fold_eq (Nat.zero_lt_of_lt beside) (by rwa [Level.pad_pad]), Level.fold_pad]
  rw [up, word_of (Nat.lt_trans beside fits), bind_of_ok (read_of beside), bind_of_ok folded,
    bind_of_ok (shift_of (by decide))]
  rfl

/-- The node of each round stands in its level, so its neighbour stands in the padded level. -/
theorem Walk.up_sustains (bits : Nat) (hasher : Hasher) (all : List Digest) :
    Sustains (Array.size ∘ Walk.level) (Walk.up bits hasher) (Climbs bits hasher all) where
  occupied _ climbs := Nat.zero_lt_of_lt climbs.inside
  step walk climbs many := by
    obtain ⟨addressable, inside, siblings_eq⟩ := climbs
    rw [Function.comp_apply] at many
    have nonempty : 0 < walk.level.size := Nat.zero_lt_of_lt many
    have shorter := size_fold_lt hasher many
    have beside := Tree.toNat_xor_one_lt inside
    have above := Tree.toNat_shiftRight_one_lt hasher inside
    rw [Level.fold_pad] at above
    rw [Tree.climbSiblings_many (Nat.ne_of_gt many) inside beside above] at siblings_eq
    refine ⟨_, up_eq (size_pad_lt addressable nonempty) beside,
      ⟨addressable.mono (Nat.le_of_lt shorter), above, ?_⟩, shorter⟩
    rw [← siblings_eq, List.append_assoc, List.singleton_append]

theorem leaves_climb {index : UInt32} (addressable : Addressable bits leaves.length)
    (inside : index.toNat < leaves.toArray.size) :
    Walk.Climbs bits hasher (Tree.climbSiblings hasher leaves.toArray index inside)
      ⟨leaves.toArray, index, []⟩ :=
  ⟨addressable, inside, List.nil_append _⟩

/-- The loop of generation ends with the siblings met on the way up. -/
theorem walk_ends (hasher : Hasher) {index : UInt32} (addressable : Addressable bits leaves.length)
    (inside : index.toNat < leaves.toArray.size) :
    ∃ last, rounds (Array.size ∘ Walk.level) (Walk.up bits hasher) ⟨leaves.toArray, index, []⟩ =
        .ok last ∧
      last.siblings = Tree.climbSiblings hasher leaves.toArray index inside := by
  obtain ⟨last, -, ended, ⟨-, top, siblings_eq⟩, single⟩ :=
    (Walk.up_sustains bits hasher _).ends (leaves_climb addressable inside)
  rw [Tree.climbSiblings_single single, List.append_nil] at siblings_eq
  exact ⟨last, ended, siblings_eq⟩

theorem refused_iff (few : leaves.length ≤ Tree.maxLeaves) (index : UInt32) :
    (UInt32.ofNat leaves.length = 0 ∨ UInt32.ofNat leaves.length ≤ index) ↔
      leaves.length ≤ index.toNat := by
  rw [← UInt32.toNat_inj, UInt32.le_iff_toNat_le, Tree.toNat_ofNat_of_few few, UInt32.toNat_zero]
  omega

theorem siblings?_eq (addressable : Addressable bits leaves.length) (index : UInt32) :
    siblings? bits hasher leaves index = .ok (Tree.siblings? hasher leaves index) := by
  unfold siblings?
  by_cases few : leaves.length ≤ Tree.maxLeaves
  · rw [if_neg (Nat.not_lt.mpr few)]
    by_cases inside : index.toNat < leaves.length
    · have occupied : 0 < leaves.length := Nat.zero_lt_of_lt inside
      have copied : workingCopy bits leaves = .ok leaves.toArray :=
        workingCopy_eq addressable (List.length_pos_iff.mp occupied)
      have positive : 0 < (UInt32.ofNat leaves.length).toNat := by
        rwa [Tree.toNat_ofNat_of_few few]
      have accepted := mt (refused_iff few index).mp (Nat.not_le.mpr inside)
      have inside' : index.toNat < leaves.toArray.size := by rwa [List.size_toArray]
      obtain ⟨last, ended, siblings_eq⟩ := walk_ends hasher addressable inside'
      rw [if_neg accepted, bind_of_ok copied, bind_of_ok (ceilLog2_eq positive), bind_of_ok ended,
        siblings_eq, Tree.siblings?_eq_some few inside']
      rfl
    · rw [Nat.not_lt] at inside
      rw [if_pos ((refused_iff few index).mpr inside), (Tree.siblings?_eq_none_iff few).mpr inside]
      rfl
  · rw [if_pos (Nat.not_le.mp few), Tree.siblings?, dif_neg (fun found => few found.1)]
    rfl

theorem generate?_eq (addressable : Addressable bits leaves.length) (index : UInt32) :
    generate? bits hasher leaves index = .ok (InclusionProof.generate? hasher leaves index) := by
  rw [generate?, bind_of_ok (siblings?_eq addressable index)]
  cases found : Tree.siblings? hasher leaves index with
  | none =>
    rw [InclusionProof.generate?_eq_none_iff.mpr found]
    rfl
  | some siblings =>
    have inside := Tree.lt_length_of_siblings? found
    have fits := addressable.succ_lt (Nat.zero_lt_of_lt inside)
    have own : InclusionProof.generate? hasher leaves index =
        some ⟨leaves[index.toNat], index, siblings⟩ :=
      InclusionProof.generate?_eq_some_iff.mpr ⟨List.getElem?_eq_getElem inside, rfl, found⟩
    rw [own, word_of (by omega)]
    simp only
    rw [bind_of_ok (read_of (by rwa [List.size_toArray]))]
    rfl

/-! ## Verification -/

theorem lastIndex_eq {depth : Nat} (short : depth ≤ Tree.maxDepth) :
    lastIndex depth = .ok (Tree.lastIndex depth) := by
  have positive : 1 ≤ ((1 : UInt64) <<< UInt64.ofNat depth).toNat := by
    rw [Tree.toNat_one_shiftLeft short]
    exact Nat.one_le_two_pow
  rw [lastIndex, bind_of_ok (shift_of (Nat.lt_of_le_of_lt short (by decide))),
    difference_of positive]
  rfl

example : lastIndex 64 = .error .shift := rfl

theorem climb_eq (hasher : Hasher) (index : UInt32) (node : Digest) (siblings : List Digest) :
    climb hasher index node siblings = .ok (Tree.climb hasher index node siblings) := by
  induction siblings generalizing index node with
  | nil => rfl
  | cons sibling rest ih => rw [climb, bind_of_ok (shift_of (by decide)), ih, Tree.climb]

theorem verify_eq (hasher : Hasher) (root leaf : Digest) (index : UInt32)
    (siblings : List Digest) :
    verify hasher root leaf index siblings = .ok (Tree.verify hasher root leaf index siblings) := by
  unfold verify Tree.verify
  by_cases long : siblings.length > Tree.maxDepth
  · rw [if_pos long, if_pos long]
    rfl
  · rw [if_neg long, if_neg long, bind_of_ok (lastIndex_eq (Nat.not_lt.mp long))]
    by_cases beyond : index.toUInt64 > Tree.lastIndex siblings.length
    · rw [if_pos beyond, if_pos beyond]
      rfl
    · rw [if_neg beyond, if_neg beyond, bind_of_ok (climb_eq hasher index leaf siblings)]
      rfl

theorem maxLeafIndex?_eq (proof : InclusionProof) :
    maxLeafIndex? proof = .ok proof.maxLeafIndex? := by
  unfold maxLeafIndex? InclusionProof.maxLeafIndex?
  by_cases long : proof.depth > Tree.maxDepth
  · rw [if_pos long, if_pos long]
    rfl
  · rw [if_neg long, if_neg long, bind_of_ok (lastIndex_eq (Nat.not_lt.mp long))]
    rfl

/-! ## All runs -/

/-- No index, shift, sum or difference is out of range on the way to a root, to siblings, to a proof
or to a verdict, whatever the digests, the index and the lengths are. Both loops take each level to
a shorter one until one node is left, and in every round of generation the index stands in the
level, and its neighbour in the padded level. -/
theorem runs_without_fault (hasher : Hasher) (bits : Nat) :
    (∀ leaves, Addressable bits leaves.length →
      root bits hasher leaves = .ok (Tree.root hasher leaves) ∧
      (leaves ≠ [] → Settles Array.size (fold bits hasher) leaves.toArray) ∧
      ∀ more, Addressable bits more.length →
        combinedRoot bits hasher leaves more = .ok (Tree.combinedRoot hasher leaves more)) ∧
    (∀ leaves, Addressable bits leaves.length → ∀ index : UInt32,
      siblings? bits hasher leaves index = .ok (Tree.siblings? hasher leaves index) ∧
      generate? bits hasher leaves index = .ok (InclusionProof.generate? hasher leaves index) ∧
      (index.toNat < leaves.length →
        Settles (Array.size ∘ Walk.level) (Walk.up bits hasher) ⟨leaves.toArray, index, []⟩ ∧
        ∀ walk,
          Reached (Array.size ∘ Walk.level) (Walk.up bits hasher) ⟨leaves.toArray, index, []⟩ walk →
            walk.index.toNat < walk.level.size ∧
            (walk.index ^^^ 1).toNat < walk.level.pad.size)) ∧
    (∀ root leaf index siblings,
      verify hasher root leaf index siblings =
        .ok (Tree.verify hasher root leaf index siblings)) ∧
    ∀ proof, maxLeafIndex? proof = .ok proof.maxLeafIndex? := by
  refine ⟨?_, ?_, verify_eq hasher, maxLeafIndex?_eq⟩
  · intro leaves addressable
    refine ⟨root_eq addressable, ?_, ?_⟩
    · intro nonempty
      exact (fold_sustains bits hasher _).settles (leaves_fold addressable nonempty)
    · intro more addressable'
      rw [combinedRoot, bind_of_ok (root_eq addressable), bind_of_ok (root_eq addressable')]
      rfl
  · intro leaves addressable index
    refine ⟨siblings?_eq addressable index, generate?_eq addressable index, ?_⟩
    intro inside
    have start : Walk.Climbs bits hasher _ ⟨leaves.toArray, index, []⟩ :=
      leaves_climb addressable (by rwa [List.size_toArray])
    refine ⟨(Walk.up_sustains bits hasher _).settles start, ?_⟩
    intro walk reached
    have climbs := (Walk.up_sustains bits hasher _).reached start reached
    exact ⟨climbs.inside, Tree.toNat_xor_one_lt climbs.inside⟩

/-- The last of five leaves, and verification with the greatest index, up to the longest proof and
past it. -/
theorem runs_without_fault_five :
    let leaves := [filled 1, filled 2, filled 3, filled 4, filled 5]
    Addressable 64 leaves.length ∧ leaves ≠ [] ∧ (4 : UInt32).toNat < leaves.length ∧
      root 64 .sha256 leaves = .ok (Tree.root .sha256 leaves) ∧
      Settles Array.size (fold 64 .sha256) leaves.toArray ∧
      generate? 64 .sha256 leaves 4 = .ok (InclusionProof.generate? .sha256 leaves 4) ∧
      Settles (Array.size ∘ Walk.level) (Walk.up 64 .sha256) ⟨leaves.toArray, 4, []⟩ ∧
      (∀ length, verify .sha256 .zero .zero 4294967295 (List.replicate length .zero) =
        .ok (Tree.verify .sha256 .zero .zero 4294967295 (List.replicate length .zero))) ∧
      maxLeafIndex? ⟨.zero, 0, List.replicate 32 .zero⟩ = .ok (some 4294967295) ∧
      maxLeafIndex? ⟨.zero, 0, List.replicate 33 .zero⟩ = .ok none := by
  intro leaves
  have addressable : Addressable 64 leaves.length := by decide
  have nonempty : leaves ≠ [] := by decide
  have inside : (4 : UInt32).toNat < leaves.length := by decide
  obtain ⟨roots, proofs, verdicts, bounds⟩ := runs_without_fault .sha256 64
  obtain ⟨rooted, settles, -⟩ := roots leaves addressable
  obtain ⟨-, generated, rounds⟩ := proofs leaves addressable 4
  exact ⟨addressable, nonempty, inside, rooted, settles nonempty, generated, (rounds inside).1,
    fun length => verdicts .zero .zero _ (List.replicate length .zero), bounds _, bounds _⟩

end Merkle.Checked
