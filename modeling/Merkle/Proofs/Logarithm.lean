import Merkle.Proofs.Width
import Merkle.Tree.Level

/-!
# Logarithms: the five steps give the depth

A step takes a number below `2 ^ (2 * bits)` below `2 ^ bits`, by division if it has to, and counts
the digits that it divided away (`Descent.Holds`). After five steps one is left, so the digits
counted are all but the highest (`toNat_ceilLog2`).
-/
namespace Merkle.Tree

/-- The mask of the upper half of `2 * bits` bits, and the way down from there. -/
structure Halving.Covers (halving : Halving) (bits : Nat) : Prop where
  mask : halving.mask.toNat = 2 ^ bits * (2 ^ bits - 1)
  exponent : halving.exponent.toNat = bits

/-- Halvings of `2 ^ steps` bits, one after the other, down to one bit. -/
inductive Halving.Ladder : Nat → List Halving → Prop
  | done : Ladder 0 []
  | step {steps : Nat} {halving : Halving} {rest : List Halving}
      (covers : halving.Covers (2 ^ steps)) (lower : Ladder steps rest) :
      Ladder (steps + 1) (halving :: rest)

/-- The number has lost `shift` binary digits of `n`, has at most `bits` left, at least one of them,
and the logarithm has counted those lost. -/
structure Descent.Holds (n first bits shift : Nat) (d : Descent) : Prop where
  number : d.number.toNat = n / 2 ^ shift
  log : d.log.toNat = first + shift
  small : n / 2 ^ shift < 2 ^ bits
  positive : 0 < n / 2 ^ shift
  room : first + shift + bits ≤ 33

/-- The mask meets a number of twice as many bits exactly when the number has a bit up there. -/
theorem and_upper_eq_zero_iff {number bits : Nat} (fits : number < 2 ^ (2 * bits)) :
    number &&& (2 ^ bits * (2 ^ bits - 1)) = 0 ↔ number < 2 ^ bits := by
  have positive := Nat.two_pow_pos bits
  have upper : number / 2 ^ bits < 2 ^ bits := by
    apply Nat.div_lt_of_lt_mul
    rwa [← Nat.pow_add, ← Nat.two_mul]
  have high : (number &&& (2 ^ bits * (2 ^ bits - 1))) / 2 ^ bits = number / 2 ^ bits := by
    rw [Nat.and_div_two_pow, Nat.mul_div_cancel_left _ positive, Nat.and_two_pow_sub_one_eq_mod,
      Nat.mod_eq_of_lt upper]
  have low : (number &&& (2 ^ bits * (2 ^ bits - 1))) % 2 ^ bits = 0 := by
    rw [Nat.and_mod_two_pow, Nat.mul_mod_right, Nat.and_zero]
  have split := Nat.div_add_mod (number &&& (2 ^ bits * (2 ^ bits - 1))) (2 ^ bits)
  rw [high, low, Nat.add_zero] at split
  rw [← split, Nat.mul_eq_zero, Nat.div_eq_zero_iff]
  omega

/-- One step: whether it divides or not, half of the bits are left. -/
theorem Descent.Holds.step {n first bits shift : Nat} {d : Descent} {halving : Halving}
    (covers : halving.Covers bits) (narrow : bits ≤ 16)
    (holds : d.Holds n first (2 * bits) shift) :
    ∃ shift', (d.step halving).Holds n first bits shift' := by
  obtain ⟨number, log, small, positive, room⟩ := holds
  have meets : d.number &&& halving.mask ≠ 0 ↔ ¬ n / 2 ^ shift < 2 ^ bits := by
    rw [ne_eq, ← UInt32.toNat_inj, UInt32.toNat_and, number, covers.mask,
      ← and_upper_eq_zero_iff small]
    rfl
  unfold Descent.step
  by_cases low : n / 2 ^ shift < 2 ^ bits
  · rw [if_neg (fun high => meets.mp high low)]
    exact ⟨shift, number, log, low, positive, by omega⟩
  · rw [if_pos (meets.mpr low)]
    have moved : n / 2 ^ (shift + bits) = n / 2 ^ shift / 2 ^ bits := by
      rw [Nat.pow_add, Nat.div_div_eq_div_mul]
    have amount : halving.exponent.toUInt32.toNat = bits := by
      rw [UInt8.toNat_toUInt32, covers.exponent]
    refine ⟨shift + bits, ?_, ?_, ?_, ?_, by omega⟩
    · rw [UInt32.toNat_shiftRight, amount, number, Nat.mod_eq_of_lt (by omega),
        Nat.shiftRight_eq_div_pow, moved]
    · rw [UInt8.toNat_add, log, covers.exponent, Nat.mod_eq_of_lt (by omega)]
      omega
    · rw [moved]
      apply Nat.div_lt_of_lt_mul
      rwa [← Nat.pow_add, ← Nat.two_mul]
    · rw [moved]
      exact Nat.div_pos (Nat.not_lt.mp low) (Nat.two_pow_pos bits)

theorem Halving.Ladder.length_eq {steps : Nat} {halvings : List Halving}
    (ladder : Ladder steps halvings) : halvings.length = steps := by
  induction ladder with
  | done => rfl
  | step covers lower ih => rw [List.length_cons, ih]

theorem Halving.Ladder.of_append {steps : Nat} {earlier later : List Halving}
    (ladder : Ladder steps (earlier ++ later)) : Ladder later.length later := by
  induction earlier generalizing steps with
  | nil =>
    rw [List.nil_append] at ladder
    rwa [ladder.length_eq]
  | cons halving earlier ih =>
    cases ladder with
    | step covers lower => exact ih lower

/-- Several steps: the bits left are those of the steps still to come. -/
theorem Descent.Holds.run {n first steps shift : Nat} {d : Descent}
    {earlier later : List Halving} (ladder : Halving.Ladder steps (earlier ++ later))
    (short : steps ≤ 5) (holds : d.Holds n first (2 ^ steps) shift) :
    ∃ shift', (earlier.foldl Descent.step d).Holds n first (2 ^ later.length) shift' := by
  induction earlier generalizing d steps shift with
  | nil =>
    rw [List.nil_append] at ladder
    rw [ladder.length_eq]
    exact ⟨shift, holds⟩
  | cons halving earlier ih =>
    cases ladder with
    | @step steps _ _ covers lower =>
      have narrow : 2 ^ steps ≤ 2 ^ 4 := Nat.pow_le_pow_right (by decide) (by omega)
      rw [Nat.pow_succ'] at holds
      obtain ⟨shift', lowered⟩ := holds.step covers narrow
      exact ih lower (by omega) lowered

/-- From the upper sixteen of 32 bits down to the upper one of two. -/
theorem halvings_ladder : Halving.Ladder 5 halvings := by
  have sixteen : Halving.Covers ⟨0xffff0000, 16⟩ (2 ^ 4) := ⟨by decide, by decide⟩
  have eight : Halving.Covers ⟨0xff00, 8⟩ (2 ^ 3) := ⟨by decide, by decide⟩
  have four : Halving.Covers ⟨0xf0, 4⟩ (2 ^ 2) := ⟨by decide, by decide⟩
  have two : Halving.Covers ⟨0xc, 2⟩ (2 ^ 1) := ⟨by decide, by decide⟩
  have one : Halving.Covers ⟨0x2, 1⟩ (2 ^ 0) := ⟨by decide, by decide⟩
  exact .step sixteen (.step eight (.step four (.step two (.step one .done))))

/-- A digit is added for what the division lost, unless the number is a power of two. -/
theorem Descent.holds_start {n : UInt32} (positive : 0 < n.toNat) :
    (Descent.start n).Holds n.toNat (if n.toNat.isPowerOfTwo then 0 else 1) 32 0 := by
  have one : (1 : UInt32) ≤ n := by
    rw [UInt32.le_iff_toNat_le]
    exact positive
  have power : n &&& (n - 1) ≠ 0 ↔ ¬ n.toNat.isPowerOfTwo := by
    rw [ne_eq, ← UInt32.toNat_inj, UInt32.toNat_and, UInt32.toNat_sub_of_le _ _ one,
      ← Nat.and_sub_one_eq_zero_iff_isPowerOfTwo (by omega)]
    rfl
  refine ⟨by simp [start], ?_, ?_, by simpa using positive, ?_⟩
  · unfold start
    by_cases exact_power : n.toNat.isPowerOfTwo
    · rw [if_neg (fun rest => power.mp rest exact_power), if_pos exact_power]
      rfl
    · rw [if_pos (power.mpr exact_power), if_neg exact_power]
      rfl
  · simpa using n.toNat_lt
  · split <;> omega

/-- After any of the five steps. -/
theorem Descent.holds_run {n : UInt32} (positive : 0 < n.toNat) {earlier later : List Halving}
    (split : halvings = earlier ++ later) :
    ∃ shift, (earlier.foldl Descent.step (.start n)).Holds n.toNat
      (if n.toNat.isPowerOfTwo then 0 else 1) (2 ^ later.length) shift := by
  have ladder := halvings_ladder
  rw [split] at ladder
  exact Descent.Holds.run ladder (Nat.le_refl 5) (Descent.holds_start positive)

/-- The depth is the count of binary digits behind the highest, and one more for a number that is
not a power of two. -/
theorem depth_of_digits {n shift : Nat} (leading : n / 2 ^ shift = 1) :
    depth n = (if n.isPowerOfTwo then 0 else 1) + shift := by
  have above : 2 ^ shift ≤ n := by
    have split := Nat.div_mul_le_self n (2 ^ shift)
    rwa [leading, Nat.one_mul] at split
  have below : n < 2 ^ (shift + 1) := by
    rw [Nat.pow_succ']
    apply (Nat.div_lt_iff_lt_mul (Nat.two_pow_pos shift)).mp
    omega
  by_cases power : n.isPowerOfTwo
  · obtain ⟨k, rfl⟩ := power
    have low := (Nat.pow_le_pow_iff_right (by decide)).mp above
    have high := (Nat.pow_lt_pow_iff_right (by decide)).mp below
    rw [if_pos ⟨k, rfl⟩, depth, Nat.clog_pow 2 k (by decide)]
    omega
  · have high : depth n ≤ shift + 1 := depth_le_iff.mpr (Nat.le_of_lt below)
    have low : ¬ depth n ≤ shift := by
      intro small
      exact power ⟨shift, Nat.le_antisymm (depth_le_iff.mp small) above⟩
    rw [if_neg power]
    omega

/-- The five steps compute the depth of every count but zero. -/
theorem toNat_ceilLog2 {n : UInt32} (positive : 0 < n.toNat) :
    (ceilLog2 n).toNat = depth n.toNat := by
  obtain ⟨shift, holds⟩ := Descent.holds_run positive (List.append_nil halvings).symm
  have leading : n.toNat / 2 ^ shift = 1 := by
    have small := holds.small
    rw [List.length_nil, Nat.pow_zero] at small
    have digit := holds.positive
    omega
  rw [depth_of_digits leading, ceilLog2, holds.log]

/-- What a step down from `n` is held to: the logarithm has room for the exponent and counts it just
when the number is shifted by it, the digits counted since the start are those that the number has
lost, and it has at most as many left as the exponent says. -/
structure Descent.StepExact (n : UInt32) (before : Descent) (halving : Halving) : Prop where
  room : before.log.toNat + halving.exponent.toNat < 2 ^ 8
  counted : (before.step halving).log.toNat = before.log.toNat +
    if before.number &&& halving.mask ≠ 0 then halving.exponent.toNat else 0
  lost : (before.step halving).number.toNat =
    n.toNat / 2 ^ ((before.step halving).log.toNat - (start n).log.toNat)
  small : (before.step halving).number.toNat < 2 ^ halving.exponent.toNat

theorem Descent.stepExact_run {n : UInt32} (positive : 0 < n.toNat) {earlier later : List Halving}
    {halving : Halving} (split : halvings = earlier ++ halving :: later) :
    StepExact n (earlier.foldl Descent.step (.start n)) halving := by
  obtain ⟨shift, held⟩ := Descent.holds_run positive split
  generalize before_eq : earlier.foldl Descent.step (.start n) = before at held ⊢
  have covers : halving.Covers (2 ^ later.length) := by
    have ladder := halvings_ladder
    rw [split] at ladder
    cases ladder.of_append with
    | step covers _ => exact covers
  have room : before.log.toNat + halving.exponent.toNat < 2 ^ 8 := by
    have left := held.room
    rw [List.length_cons, Nat.pow_succ] at left
    rw [held.log, covers.exponent]
    omega
  have next : halvings = (earlier ++ [halving]) ++ later := by
    rw [split, List.append_assoc, List.singleton_append]
  obtain ⟨shift', holds⟩ := Descent.holds_run positive next
  rw [List.foldl_append, before_eq, List.foldl_cons, List.foldl_nil] at holds
  refine ⟨room, ?_, ?_, ?_⟩
  · unfold Descent.step
    split
    · rw [UInt8.toNat_add, Nat.mod_eq_of_lt room]
    · rw [Nat.add_zero]
  · rw [holds.number, holds.log, (Descent.holds_start positive).log, Nat.add_zero,
      Nat.add_sub_cancel_left]
  · rw [holds.number, covers.exponent]
    exact holds.small

/-- The logarithm of every positive number, rounded up, is the least count of doublings that reach
it, each of the five steps stays in range, and halving the number, rounded up, takes one off. -/
theorem ceilLog2_exact {n : UInt32} (positive : 0 < n) :
    IsLeast {levels | n.toNat ≤ 2 ^ levels} (ceilLog2 n).toNat ∧
    (0 < (ceilLog2 n).toNat →
      2 ^ ((ceilLog2 n).toNat - 1) < n.toNat ∧ n.toNat ≤ 2 ^ (ceilLog2 n).toNat) ∧
    ((ceilLog2 n).toNat = 0 ↔ n = 1) ∧
    (ceilLog2 n).toNat ≤ 32 ∧
    (∀ earlier halving later, halvings = earlier ++ halving :: later →
      Descent.StepExact n (earlier.foldl Descent.step (.start n)) halving) ∧
    (2 ≤ n → (ceilLog2 n).toNat = 1 + (ceilLog2 (.ofNat ((n.toNat + 1) / 2))).toNat) ∧
    ∀ more, n ≤ more → ceilLog2 n ≤ ceilLog2 more := by
  have nonzero : 0 < n.toNat := UInt32.lt_iff_toNat_lt.mp positive
  have below : n.toNat < 2 ^ 32 := n.toNat_lt
  have exact := toNat_ceilLog2 nonzero
  refine ⟨?_, ?_, ?_, ?_, ?_, ?_, ?_⟩
  · rw [exact]
    exact isLeast_depth n.toNat
  · intro several
    rw [exact] at several ⊢
    exact ⟨two_pow_lt_of_depth_pos several, (isLeast_depth n.toNat).1⟩
  · rw [exact, depth_eq_zero_iff, ← UInt32.toNat_inj, UInt32.toNat_one]
    omega
  · rw [exact, depth_le_iff]
    omega
  · intro earlier halving later split
    exact Descent.stepExact_run nonzero split
  · intro several
    have many : 1 < n.toNat := UInt32.le_iff_toNat_le.mp several
    have half : (UInt32.ofNat ((n.toNat + 1) / 2)).toNat = (n.toNat + 1) / 2 :=
      UInt32.toNat_ofNat_of_lt' (show (n.toNat + 1) / 2 < 2 ^ 32 by omega)
    rw [exact, toNat_ceilLog2 (by omega), half, depth_parents many, Nat.add_comm]
  · intro more le
    have within : n.toNat ≤ more.toNat := UInt32.le_iff_toNat_le.mp le
    rw [UInt8.le_iff_toNat_le, exact, toNat_ceilLog2 (by omega)]
    exact depth_mono within

/-- The least number of the highest logarithm: all five exponents are counted, and one more for what
they lose. -/
theorem ceilLog2_exact_past_two_pow_31 :
    (0 : UInt32) < 2147483649 ∧
    IsLeast {levels | (2147483649 : UInt32).toNat ≤ 2 ^ levels} 32 ∧
    Descent.StepExact 2147483649 (.start 2147483649) ⟨0xffff0000, 16⟩ ∧
    (ceilLog2 (.ofNat 1073741825)).toNat = 31 ∧
    ceilLog2 2147483649 ≤ ceilLog2 4294967295 := by
  have positive : (0 : UInt32) < 2147483649 := by decide
  have highest : (ceilLog2 2147483649).toNat = 32 := by decide
  obtain ⟨least, -, -, -, steps, half, mono⟩ := ceilLog2_exact positive
  have lower : (ceilLog2 2147483649).toNat = 1 + (ceilLog2 (.ofNat 1073741825)).toNat :=
    half (by decide)
  rw [highest] at least lower
  exact ⟨positive, least, steps [] ⟨0xffff0000, 16⟩ _ rfl, by omega, mono 4294967295 (by decide)⟩

end Merkle.Tree
