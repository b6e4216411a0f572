import Mathlib.Algebra.Order.Field.Power
import Mathlib.Tactic.FieldSimp
import Mathlib.Tactic.Linarith
import Mathlib.Tactic.Positivity
import Mathlib.Tactic.Ring
import Merkle.Decimal

/-!
# Shortest decimals: what is written for a double reads back as it

The numbers that round to a double lie between the midpoints to both neighbours
(`Dyadic.RoundsTo`, `Dyadic.upper_eq_lower`). The comparisons between naturals are those between
these numbers, in a unit that makes all of them whole (`Dyadic.exists_unit`). What is written for a
double is one of its numbers, on the coarsest grid that has one (`Dyadic.shortest_spec`).
-/
namespace Merkle.Decimal

/-- The number that a decimal stands for. -/
def Scientific.value (decimal : Scientific) : ℚ := decimal.digits * 10 ^ decimal.exponent

namespace Dyadic

/-- The number that a double stands for. -/
def value (x : Dyadic) : ℚ := x.significand * 2 ^ x.exponent

/-- The midpoint to the neighbour below, which may be half as far as the one above. -/
def lower (x : Dyadic) : ℚ :=
  x.value - if x.narrowBelow then 2 ^ x.exponent / 4 else 2 ^ x.exponent / 2

/-- The midpoint to the neighbour above. -/
def upper (x : Dyadic) : ℚ := x.value + 2 ^ x.exponent / 2

/-- A number that is read as this double: it lies between the midpoints, which themselves belong to
an even significand. -/
def RoundsTo (x : Dyadic) (number : ℚ) : Prop :=
  if x.significand % 2 = 0 then x.lower ≤ number ∧ number ≤ x.upper
  else x.lower < number ∧ number < x.upper

variable {x : Dyadic}

/-! ## The interval -/

theorem lower_lt_value (x : Dyadic) : x.lower < x.value := by
  have gap : (0 : ℚ) < 2 ^ x.exponent := by positivity
  unfold lower
  split <;> linarith

theorem value_lt_upper (x : Dyadic) : x.value < x.upper := by
  have gap : (0 : ℚ) < 2 ^ x.exponent := by positivity
  unfold upper
  linarith

/-- With a number all numbers between it and the double are read as the double. -/
theorem RoundsTo.between {a b : ℚ} (rounds : x.RoundsTo a)
    (side : a ≤ b ∧ b ≤ x.value ∨ x.value ≤ b ∧ b ≤ a) : x.RoundsTo b := by
  have low := lower_lt_value x
  have high := value_lt_upper x
  unfold RoundsTo at rounds ⊢
  split at rounds
  next even =>
    rw [if_pos even]
    rcases side with below | above <;> constructor <;> linarith
  next odd =>
    rw [if_neg odd]
    rcases side with below | above <;> constructor <;> linarith

theorem roundsTo_value (x : Dyadic) : x.RoundsTo x.value := by
  have low := lower_lt_value x
  have high := value_lt_upper x
  unfold RoundsTo
  split
  · exact ⟨le_of_lt low, le_of_lt high⟩
  · exact ⟨low, high⟩

/-! ## Neighbours -/

theorem ofBits_eq (bits : UInt64) :
    ofBits bits =
      if bits.toNat / 2 ^ 52 % 2 ^ 11 = 0 then ⟨bits.toNat % 2 ^ 52, -1074, false⟩
      else ⟨2 ^ 52 + bits.toNat % 2 ^ 52, (bits.toNat / 2 ^ 52 % 2 ^ 11 : ℕ) - 1075,
        bits.toNat % 2 ^ 52 = 0 ∧ 1 < bits.toNat / 2 ^ 52 % 2 ^ 11⟩ := by
  have biased : ((bits >>> 52) &&& 0x7ff).toNat = bits.toNat / 2 ^ 52 % 2 ^ 11 := by
    rw [UInt64.toNat_and, UInt64.toNat_shiftRight]
    exact (Nat.and_two_pow_sub_one_eq_mod _ 11).trans (by rw [Nat.shiftRight_eq_div_pow]; rfl)
  have fraction : (bits &&& 0xfffffffffffff).toNat = bits.toNat % 2 ^ 52 := by
    rw [UInt64.toNat_and]
    exact Nat.and_two_pow_sub_one_eq_mod _ 52
  rw [ofBits, biased, fraction]
  rfl

/-- The next double is one last place more. Where the last place doubles, its gap below is narrow. -/
theorem ofBits_succ {bits : UInt64} (finite : bits < 0x7ff0000000000000) :
    ((ofBits (bits + 1)).significand = (ofBits bits).significand + 1 ∧
      (ofBits (bits + 1)).exponent = (ofBits bits).exponent ∧
      (ofBits (bits + 1)).narrowBelow = false) ∨
    (2 * (ofBits (bits + 1)).significand = (ofBits bits).significand + 1 ∧
      (ofBits (bits + 1)).exponent = (ofBits bits).exponent + 1 ∧
      (ofBits (bits + 1)).narrowBelow = true) := by
  have small : bits.toNat < 0x7ff0000000000000 := finite
  have next : (bits + 1).toNat = bits.toNat + 1 := by
    rw [UInt64.toNat_add, UInt64.toNat_one]
    exact Nat.mod_eq_of_lt (by omega)
  rw [ofBits_eq (bits + 1), ofBits_eq bits, next]
  generalize bits.toNat = n at small
  by_cases carry : n % 2 ^ 52 + 1 = 2 ^ 52
  · have fraction : (n + 1) % 2 ^ 52 = 0 := by omega
    have biased : (n + 1) / 2 ^ 52 % 2 ^ 11 = n / 2 ^ 52 % 2 ^ 11 + 1 := by omega
    rw [fraction, biased, if_neg (Nat.succ_ne_zero _)]
    by_cases subnormal : n / 2 ^ 52 % 2 ^ 11 = 0
    · rw [if_pos subnormal, subnormal]
      exact .inl ⟨carry.symm, rfl, rfl⟩
    · rw [if_neg subnormal]
      refine .inr ⟨?_, ?_, decide_eq_true ⟨rfl, by omega⟩⟩
      · change 2 * (2 ^ 52 + 0) = 2 ^ 52 + n % 2 ^ 52 + 1
        omega
      · push_cast
        ring
  · have fraction : (n + 1) % 2 ^ 52 = n % 2 ^ 52 + 1 := by omega
    have biased : (n + 1) / 2 ^ 52 % 2 ^ 11 = n / 2 ^ 52 % 2 ^ 11 := by omega
    rw [fraction, biased]
    by_cases subnormal : n / 2 ^ 52 % 2 ^ 11 = 0
    · rw [if_pos subnormal, if_pos subnormal]
      exact .inl ⟨rfl, rfl, rfl⟩
    · rw [if_neg subnormal, if_neg subnormal]
      have wide : ¬ (n % 2 ^ 52 + 1 = 0 ∧ 1 < n / 2 ^ 52 % 2 ^ 11) := by omega
      exact .inl ⟨rfl, rfl, decide_eq_false wide⟩

/-- Where the numbers that round to a double end, those that round to the next begin: halfway. -/
theorem upper_eq_lower {bits : UInt64} (finite : bits < 0x7ff0000000000000) :
    (ofBits bits).upper = ((ofBits bits).value + (ofBits (bits + 1)).value) / 2 ∧
      (ofBits (bits + 1)).lower = (ofBits bits).upper := by
  have double : (2 : ℚ) ^ ((ofBits bits).exponent + 1) = 2 * 2 ^ (ofBits bits).exponent := by
    rw [zpow_add_one₀ two_ne_zero, mul_comm]
  rcases ofBits_succ finite with ⟨digits, place, narrow⟩ | ⟨digits, place, narrow⟩
  · have more : ((ofBits (bits + 1)).significand : ℚ) = (ofBits bits).significand + 1 := by
      exact_mod_cast digits
    simp only [upper, lower, value, more, place, narrow, Bool.false_eq_true, if_false]
    constructor <;> ring
  · have more : 2 * ((ofBits (bits + 1)).significand : ℚ) = (ofBits bits).significand + 1 := by
      exact_mod_cast digits
    have same : (ofBits (bits + 1)).value = (ofBits bits).value + 2 ^ (ofBits bits).exponent := by
      rw [value, value, place, double, ← mul_assoc, mul_comm _ (2 : ℚ), more]
      ring
    simp only [upper, lower, same, place, double, narrow, if_true]
    constructor <;> ring

/-! ## The unit -/

theorem pow_div_pow_toNat {b : ℚ} (nonzero : b ≠ 0) (n : ℤ) :
    b ^ n.toNat / b ^ (-n).toNat = b ^ n := by
  have difference : n = (n.toNat : ℤ) - ((-n).toNat : ℤ) := by omega
  conv_rhs => rw [difference, zpow_sub₀ nonzero, zpow_natCast, zpow_natCast]

/-- In one unit a quarter of the last place and all numbers on a grid are naturals. -/
theorem exists_unit (x : Dyadic) (e : ℤ) :
    ∃ unit : ℚ, 0 < unit ∧ 2 ^ x.exponent / 4 = (x.scale e).1 * unit ∧
      10 ^ e = (x.scale e).2 * unit := by
  have two := pow_div_pow_toNat (two_ne_zero : (2 : ℚ) ≠ 0) (x.exponent - 2)
  have ten := pow_div_pow_toNat (by norm_num : (10 : ℚ) ≠ 0) e
  rw [neg_sub, zpow_sub₀ two_ne_zero] at two
  have positive : (0 : ℚ) < 1 / (2 ^ (2 - x.exponent).toNat * 10 ^ (-e).toNat) := by positivity
  refine ⟨_, positive, ?_, ?_⟩
  · have quarter : (2 : ℚ) ^ x.exponent / 4 = 2 ^ x.exponent / 2 ^ (2 : ℤ) := by norm_num
    rw [quarter, ← two]
    simp only [scale, Nat.pow_eq, Nat.cast_mul, Nat.cast_pow, Nat.cast_ofNat]
    field_simp
  · rw [← ten]
    simp only [scale, Nat.pow_eq, Nat.cast_mul, Nat.cast_pow, Nat.cast_ofNat]
    field_simp

theorem value_eq_mul {unit : ℚ} {e : ℤ} (quarter : 2 ^ x.exponent / 4 = (x.scale e).1 * unit) :
    x.value = (4 * x.significand * (x.scale e).1 : ℕ) * unit := by
  push_cast
  rw [mul_assoc, ← quarter, value]
  ring

theorem grid_eq_mul {unit : ℚ} {e : ℤ} (step : 10 ^ e = (x.scale e).2 * unit) (d : ℕ) :
    Scientific.value ⟨d, e⟩ = (d * (x.scale e).2 : ℕ) * unit := by
  rw [Scientific.value, step, Nat.cast_mul, mul_assoc]

theorem upper_eq_mul {unit : ℚ} {e : ℤ} (quarter : 2 ^ x.exponent / 4 = (x.scale e).1 * unit) :
    x.upper = ((4 * x.significand + 2) * (x.scale e).1 : ℕ) * unit := by
  push_cast
  rw [mul_assoc, ← quarter, upper, value]
  ring

theorem value_sub_eq_mul {unit : ℚ} {e : ℤ} (quarter : 2 ^ x.exponent / 4 = (x.scale e).1 * unit)
    {quarters : ℕ} (le : quarters ≤ 4 * x.significand) :
    x.value - quarters * (2 ^ x.exponent / 4) =
      ((4 * x.significand - quarters) * (x.scale e).1 : ℕ) * unit := by
  rw [Nat.cast_mul, mul_assoc, ← quarter, Nat.cast_sub le, value]
  push_cast
  ring

theorem lower_eq_mul {unit : ℚ} {e : ℤ} (quarter : 2 ^ x.exponent / 4 = (x.scale e).1 * unit)
    (positive : 0 < x.significand) :
    x.lower =
      ((4 * x.significand - if x.narrowBelow then 1 else 2) * (x.scale e).1 : ℕ) * unit := by
  have le : (if x.narrowBelow then 1 else 2) ≤ 4 * x.significand := by
    split <;> omega
  rw [← value_sub_eq_mul quarter le, lower]
  split
  · rw [Nat.cast_one, one_mul]
  · rw [Nat.cast_ofNat]
    ring

/-! ## One grid -/

/-- The check between naturals is the check between numbers. -/
theorem readsBack_iff (positive : 0 < x.significand) (d : ℕ) (e : ℤ) :
    x.readsBack d e = true ↔ x.RoundsTo (Scientific.value ⟨d, e⟩) := by
  obtain ⟨unit, unit_pos, quarter, step⟩ := exists_unit x e
  rw [RoundsTo, grid_eq_mul step, upper_eq_mul quarter, lower_eq_mul quarter positive]
  by_cases even : x.significand % 2 = 0
  · simp only [readsBack, if_pos even, Bool.and_eq_true, decide_eq_true_eq,
      mul_le_mul_iff_of_pos_right unit_pos, Nat.cast_le]
  · simp only [readsBack, if_neg even, Bool.and_eq_true, decide_eq_true_eq,
      mul_lt_mul_iff_of_pos_right unit_pos, Nat.cast_lt]

/-- The greatest multiple of `10 ^ e` that is not above the double, in its digits. -/
def below (x : Dyadic) (e : ℤ) : ℕ := 4 * x.significand * (x.scale e).1 / (x.scale e).2

/-- The double lies between two neighbours on the grid. -/
theorem below_spec (x : Dyadic) (e : ℤ) :
    Scientific.value ⟨x.below e, e⟩ ≤ x.value ∧ x.value < Scientific.value ⟨x.below e + 1, e⟩ := by
  obtain ⟨unit, unit_pos, quarter, step⟩ := exists_unit x e
  have step_pos : 0 < (x.scale e).2 := by
    have positive : (0 : ℚ) < (x.scale e).2 * unit := by
      rw [← step]
      positivity
    exact_mod_cast (pos_iff_pos_of_mul_pos positive).mpr unit_pos
  rw [value_eq_mul quarter, grid_eq_mul step, grid_eq_mul step,
    mul_le_mul_iff_of_pos_right unit_pos, mul_lt_mul_iff_of_pos_right unit_pos, Nat.cast_le,
    Nat.cast_lt, below]
  constructor
  · exact Nat.div_mul_le_self _ _
  · have next := Nat.lt_mul_div_succ (4 * x.significand * (x.scale e).1) step_pos
    rwa [Nat.mul_comm (x.scale e).2] at next

theorem grid_mono (e : ℤ) {d d' : ℕ} (le : d ≤ d') :
    Scientific.value ⟨d, e⟩ ≤ Scientific.value ⟨d', e⟩ :=
  mul_le_mul_of_nonneg_right (Nat.cast_le.mpr le) (by positivity)

/-- Every other number on the grid is at least as far away as one of the two neighbours. -/
theorem beyond (x : Dyadic) (e : ℤ) (d : ℕ) :
    Scientific.value ⟨d, e⟩ ≤ Scientific.value ⟨x.below e, e⟩ ∨
      Scientific.value ⟨x.below e + 1, e⟩ ≤ Scientific.value ⟨d, e⟩ := by
  rcases Nat.lt_or_ge (x.below e) d with above | low
  · exact .inr (grid_mono e above)
  · exact .inl (grid_mono e low)

/-- The two naturals compared for the nearer neighbour compare as the double's value compares to the
mean of the two. -/
theorem exists_unit_twice (x : Dyadic) (e : ℤ) :
    ∃ unit : ℚ, 0 < unit ∧ 2 * x.value = (2 * (4 * x.significand * (x.scale e).1) : ℕ) * unit ∧
      Scientific.value ⟨x.below e, e⟩ + Scientific.value ⟨x.below e + 1, e⟩ =
        ((2 * x.below e + 1) * (x.scale e).2 : ℕ) * unit := by
  obtain ⟨unit, unit_pos, quarter, step⟩ := exists_unit x e
  refine ⟨unit, unit_pos, ?_, ?_⟩
  · rw [value_eq_mul quarter, Nat.cast_mul 2, Nat.cast_ofNat, mul_assoc 2]
  · rw [grid_eq_mul step, grid_eq_mul step]
    push_cast
    ring

/-! ## The nearest on a grid -/

/-- A decimal that reads back, and of those on its grid is as near as any. -/
structure Nearest (x : Dyadic) (decimal : Scientific) : Prop where
  rounds : x.RoundsTo decimal.value
  nearest : ∀ d, x.RoundsTo (Scientific.value ⟨d, decimal.exponent⟩) →
    |decimal.value - x.value| ≤ |Scientific.value ⟨d, decimal.exponent⟩ - x.value|

theorem nearest_below {e : ℤ} (rounds : x.RoundsTo (Scientific.value ⟨x.below e, e⟩))
    (nearer : x.RoundsTo (Scientific.value ⟨x.below e + 1, e⟩) →
      2 * x.value ≤ Scientific.value ⟨x.below e, e⟩ + Scientific.value ⟨x.below e + 1, e⟩) :
    x.Nearest ⟨x.below e, e⟩ := by
  refine ⟨rounds, fun d other => ?_⟩
  obtain ⟨low, high⟩ := below_spec x e
  rw [abs_of_nonpos (by linarith)]
  rcases beyond x e d with far | far
  · rw [abs_of_nonpos (by linarith)]
    linarith
  · have mean := nearer (other.between (.inr ⟨high.le, far⟩))
    rw [abs_of_nonneg (by linarith)]
    linarith

theorem nearest_above {e : ℤ} (rounds : x.RoundsTo (Scientific.value ⟨x.below e + 1, e⟩))
    (nearer : x.RoundsTo (Scientific.value ⟨x.below e, e⟩) →
      Scientific.value ⟨x.below e, e⟩ + Scientific.value ⟨x.below e + 1, e⟩ ≤ 2 * x.value) :
    x.Nearest ⟨x.below e + 1, e⟩ := by
  refine ⟨rounds, fun d other => ?_⟩
  obtain ⟨low, high⟩ := below_spec x e
  rw [abs_of_nonneg (by linarith)]
  rcases beyond x e d with far | far
  · have mean := nearer (other.between (.inl ⟨far, low⟩))
    rw [abs_of_nonpos (by linarith)]
    linarith
  · rw [abs_of_nonneg (by linarith)]
    linarith

theorem onGrid?_eq (x : Dyadic) (e : ℤ) :
    x.onGrid? e =
    match x.readsBack (x.below e) e, x.readsBack (x.below e + 1) e with
      | true, true =>
        match compare (2 * (4 * x.significand * (x.scale e).1))
          ((2 * x.below e + 1) * (x.scale e).2) with
        | .lt => some (x.below e)
        | .gt => some (x.below e + 1)
        | .eq => some (x.below e + x.below e % 2)
      | true, false => some (x.below e)
      | false, true => some (x.below e + 1)
      | false, false => none := rfl

/-- The decimal that a grid gives. -/
theorem onGrid?_nearest (positive : 0 < x.significand) {d : ℕ} {e : ℤ}
    (found : x.onGrid? e = some d) : x.Nearest ⟨d, e⟩ := by
  obtain ⟨unit, unit_pos, twice, mean⟩ := exists_unit_twice x e
  have here := readsBack_iff positive (x.below e) e
  have there := readsBack_iff positive (x.below e + 1) e
  rw [onGrid?_eq] at found
  split at found
  next low high =>
    split at found
    next less =>
      obtain rfl := Option.some.inj found
      refine nearest_below (here.mp low) fun _ => ?_
      rw [twice, mean]
      exact mul_le_mul_of_nonneg_right (Nat.cast_le.mpr (Nat.compare_eq_lt.mp less).le) unit_pos.le
    next greater =>
      obtain rfl := Option.some.inj found
      refine nearest_above (there.mp high) fun _ => ?_
      rw [twice, mean]
      exact mul_le_mul_of_nonneg_right (Nat.cast_le.mpr (Nat.compare_eq_gt.mp greater).le)
        unit_pos.le
    next equal =>
      obtain rfl := Option.some.inj found
      have middle := Nat.compare_eq_eq.mp equal
      rw [← middle, ← twice] at mean
      rcases Nat.mod_two_eq_zero_or_one (x.below e) with even | odd
      · rw [even]
        exact nearest_below (here.mp low) fun _ => mean.ge
      · rw [odd]
        exact nearest_above (there.mp high) fun _ => mean.le
  next low high =>
    obtain rfl := Option.some.inj found
    exact nearest_below (here.mp low) fun rounds => by simp [there.mpr rounds] at high
  next low high =>
    obtain rfl := Option.some.inj found
    exact nearest_above (there.mp high) fun rounds => by simp [here.mpr rounds] at low
  next => cases found

/-- Where a grid gives no decimal, none of its decimals reads back. -/
theorem not_roundsTo_of_onGrid? (positive : 0 < x.significand) {e : ℤ}
    (absent : x.onGrid? e = none) (d : ℕ) : ¬ x.RoundsTo (Scientific.value ⟨d, e⟩) := by
  intro rounds
  obtain ⟨low, high⟩ := below_spec x e
  rw [onGrid?_eq] at absent
  split at absent
  next => split at absent <;> cases absent
  next => cases absent
  next => cases absent
  next here there =>
    rcases beyond x e d with far | far
    · have reads := (readsBack_iff positive _ _).mpr (rounds.between (.inl ⟨far, low⟩))
      rw [here] at reads
      cases reads
    · have reads := (readsBack_iff positive _ _).mpr (rounds.between (.inr ⟨high.le, far⟩))
      rw [there] at reads
      cases reads

/-! ## The shortest -/

theorem exact_value (x : Dyadic) : x.exact.value = x.value := by
  have tens : (2 : ℚ) ^ x.exponent =
      2 ^ x.exponent.toNat * 5 ^ (-x.exponent).toNat * 10 ^ min x.exponent 0 := by
    rcases le_total 0 x.exponent with nonneg | nonpos
    · rw [min_eq_right nonneg, Int.toNat_of_nonpos (neg_nonpos.mpr nonneg), ← zpow_natCast,
        Int.toNat_of_nonneg nonneg]
      norm_num
    · obtain ⟨n, negative⟩ := Int.eq_ofNat_of_zero_le (neg_nonneg.mpr nonpos)
      rw [min_eq_left nonpos, Int.toNat_of_nonpos nonpos, negative, ← neg_neg x.exponent, negative,
        Int.toNat_natCast, zpow_neg, zpow_neg, zpow_natCast, zpow_natCast,
        (by norm_num : (10 : ℚ) = 2 * 5), mul_pow]
      field_simp
  rw [Scientific.value, value, tens, exact]
  simp only [Nat.pow_eq]
  push_cast
  ring

/-- A nearest decimal, and none on the coarser of the grids that are tried reads back. -/
structure Shortest (x : Dyadic) (decimal : Scientific) : Prop extends Nearest x decimal where
  coarser : ∀ i < 24, decimal.exponent < x.coarsest - (i : ℕ) →
    ∀ d, ¬ x.RoundsTo (Scientific.value ⟨d, x.coarsest - i⟩)

/-- The decimal written for a double reads back as it, on the coarsest grid where one does, and is
the nearest there. -/
theorem shortest_spec (x : Dyadic) (positive : 0 < x.significand) : x.Shortest x.shortest := by
  rw [shortest, List.findSome?_map]
  cases search : (List.range 24).findSome? _ with
  | none =>
    rw [List.findSome?_eq_none_iff] at search
    have value := exact_value x
    refine ⟨⟨?_, fun d _ => ?_⟩, fun i small _ => ?_⟩
    · rw [Option.getD_none, value]
      exact roundsTo_value x
    · rw [Option.getD_none, value, sub_self, abs_zero]
      exact abs_nonneg _
    · exact not_roundsTo_of_onGrid? positive
        (Option.map_eq_none_iff.mp (search i (List.mem_range.mpr small)))
  | some decimal =>
    obtain ⟨before, i, behind, grids, found, absent⟩ := List.findSome?_eq_some_iff.mp search
    obtain ⟨d, given, rfl⟩ := Option.map_eq_some_iff.mp found
    refine ⟨onGrid?_nearest positive given, fun j small coarser => ?_⟩
    -- The grids are tried from the coarsest on, so a coarser one stands before the one taken.
    have tried : j ∈ before := by
      have earlier : j < i := by
        have apart : x.coarsest - i < x.coarsest - j := coarser
        omega
      have ascending := List.pairwise_lt_range (n := 24)
      rw [grids, List.pairwise_append, List.pairwise_cons] at ascending
      have member := List.mem_range.mpr small
      rw [grids, List.mem_append, List.mem_cons] at member
      rcases member with tried | rfl | later
      · exact tried
      · exact absurd earlier (Nat.lt_irrefl _)
      · exact absurd (ascending.2.1.1 j later) (Nat.lt_asymm earlier)
    exact not_roundsTo_of_onGrid? positive (Option.map_eq_none_iff.mp (absent j tried))

example : (ofBits 0x3fb999999999999a).shortest = ⟨1, -1⟩ := by decide +kernel

example : (ofBits 0x3fd5555555555555).shortest = ⟨3333333333333333, -16⟩ := by decide +kernel

end Dyadic
end Merkle.Decimal
