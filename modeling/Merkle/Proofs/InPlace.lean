import Merkle.Proofs.Levels

/-!
# In place: a level and its parents in one buffer

Folding writes each parent over a slot that held a child. A recorded run of the loop (`Recorded`)
fills the buffer as `Level.foldSlots` does and keeps the order of all accesses: no slot is read
again once it has been written (`reads_before_writes`). So every parent comes from the level as it
was before (`fold_in_place`).
-/
namespace Merkle.Tree.Level

/-- An access of the loop to a slot of the buffer. -/
inductive Access where
  | read (slot : Nat)
  | write (slot : Nat)
  deriving DecidableEq, Repr

/-- A buffer and the accesses made to it, in their order. -/
structure Recorded (size : Nat) where
  slots : Vector Digest size
  accesses : List Access

namespace Recorded

variable {size : Nat}

/-- What a slot holds, and the buffer with this access in its record. -/
def read (buffer : Recorded size) (slot : Nat) (inside : slot < size) : Digest × Recorded size :=
  (buffer.slots[slot], { buffer with accesses := buffer.accesses ++ [.read slot] })

/-- Puts a digest into a slot. -/
def write (buffer : Recorded size) (slot : Nat) (digest : Digest) (inside : slot < size) :
    Recorded size :=
  { slots := buffer.slots.set slot digest, accesses := buffer.accesses ++ [.write slot] }

/-- A round: both children are read, the left one first, then their parent is written. -/
def round (hasher : Hasher) (buffer : Recorded size) (i : Nat) (paired : 2 * i + 1 < size) :
    Recorded size :=
  let left := buffer.read (2 * i) (by omega)
  let right := left.2.read (2 * i + 1) paired
  right.2.write i (hasher.pair left.1 right.1) (by omega)

/-- The first rounds of the loop. -/
def rounds (hasher : Hasher) (count : Nat) (fits : 2 * count ≤ size) (buffer : Recorded size) :
    Recorded size :=
  Fin.foldl count (fun buffer i => buffer.round hasher i.val (by omega)) buffer

/-- The accesses of a round. -/
def roundAccesses (i : Nat) : List Access := [.read (2 * i), .read (2 * i + 1), .write i]

theorem rounds_succ (hasher : Hasher) (count : Nat) (fits : 2 * (count + 1) ≤ size)
    (before : 2 * count ≤ size) (paired : 2 * count + 1 < size) (buffer : Recorded size) :
    buffer.rounds hasher (count + 1) fits =
      (buffer.rounds hasher count before).round hasher count paired := by
  unfold rounds
  rw [Fin.foldl_succ_last]
  rfl

/-- Keeping a record changes nothing in the buffer. -/
theorem slots_rounds (hasher : Hasher) (count : Nat) (fits : 2 * count ≤ size)
    (buffer : Recorded size) :
    (buffer.rounds hasher count fits).slots = foldSlots hasher count fits buffer.slots := by
  induction count with
  | zero => rfl
  | succ count ih =>
    rw [rounds_succ hasher count fits (by omega) (by omega), foldSlots_succ, ← ih (by omega)]
    rfl

theorem accesses_rounds (hasher : Hasher) (count : Nat) (fits : 2 * count ≤ size)
    (buffer : Recorded size) :
    (buffer.rounds hasher count fits).accesses =
      buffer.accesses ++ (List.range count).flatMap roundAccesses := by
  induction count with
  | zero => simp [rounds]
  | succ count ih =>
    have before : 2 * count ≤ size := by omega
    have paired : 2 * count + 1 < size := by omega
    have added : ((buffer.rounds hasher count before).round hasher count paired).accesses =
        (buffer.rounds hasher count before).accesses ++ roundAccesses count := by
      simp only [round, read, write, roundAccesses, List.append_assoc, List.cons_append,
        List.nil_append]
    rw [rounds_succ hasher count fits before paired, added, ih before, List.range_succ,
      List.flatMap_append, List.flatMap_singleton, List.append_assoc]

/-- In the order of the loop no read of a slot comes after a write to it: a round reads slots that
no earlier round has reached yet. -/
theorem reads_before_writes (count : Nat) :
    ((List.range count).flatMap roundAccesses).Pairwise fun earlier later =>
      ∀ slot, earlier = .write slot → later ≠ .read slot := by
  induction count with
  | zero => simp
  | succ count ih =>
    rw [List.range_succ, List.flatMap_append, List.flatMap_singleton, List.pairwise_append]
    refine ⟨ih, by simp [roundAccesses], ?_⟩
    rintro earlier past later now slot rfl rfl
    obtain ⟨i, below, written⟩ := List.mem_flatMap.mp past
    simp only [List.mem_range] at below
    simp only [roundAccesses, List.mem_cons, List.not_mem_nil, Access.read.injEq,
      Access.write.injEq, reduceCtorEq, false_or, or_false] at written now
    omega

end Recorded

/-- The recorded run of folding a level, from the padded level on. -/
def recordedFold (hasher : Hasher) (level : Level) : Recorded level.pad.size :=
  Recorded.rounds hasher (level.pad.size / 2) (Nat.mul_div_le _ 2) ⟨level.pad.toVector, []⟩

/-- Folding replaces a level by its parents, half as many, rounded up, each from two neighbours as
they were before, the last node standing in for one that is missing. In the one buffer each slot has
been read for the last time before it is written, and padding beforehand changes nothing, as a
padded level needs no padding. -/
theorem fold_in_place (hasher : Hasher) (level : Level) :
    level.fold hasher = Array.ofFn (fun j : Fin ((level.size + 1) / 2) =>
      have := j.isLt
      hasher.pair level[2 * j.val] level[min (2 * j.val + 1) (level.size - 1)]) ∧
    (recordedFold hasher level).slots.toArray.shrink (level.pad.size / 2) = level.fold hasher ∧
    (recordedFold hasher level).accesses = (List.range ((level.size + 1) / 2)).flatMap
      (fun i => [.read (2 * i), .read (2 * i + 1), .write i]) ∧
    (recordedFold hasher level).accesses.Pairwise (fun earlier later =>
      ∀ slot, earlier = .write slot → later ≠ .read slot) ∧
    level.pad.pad = level.pad ∧
    level.pad.fold hasher = level.fold hasher := by
  have accesses : (recordedFold hasher level).accesses =
      (List.range ((level.size + 1) / 2)).flatMap Recorded.roundAccesses := by
    rw [recordedFold, Recorded.accesses_rounds, List.nil_append, size_pad,
      Nat.mul_div_cancel_left _ (by decide)]
  refine ⟨?_, ?_, accesses, ?_, pad_pad level, fold_pad hasher level⟩
  · apply Array.ext
    · rw [size_fold, Array.size_ofFn]
    · intro j inside bound
      have above : j < (level.size + 1) / 2 := by rwa [size_fold] at inside
      have parent := getElem?_fold hasher level j (by omega) (by omega)
      rw [Array.getElem?_eq_getElem inside, Option.some.injEq] at parent
      rw [parent, Array.getElem_ofFn]
  · rw [recordedFold, Recorded.slots_rounds]
    rfl
  · rw [accesses]
    exact Recorded.reads_before_writes _

end Merkle.Tree.Level
