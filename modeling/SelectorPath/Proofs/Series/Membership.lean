import SelectorPath.Series.Basic

/-!
# Membership is decided exactly

Membership of a position is decided with a subtraction, a remainder and a division in 64 bits. None
of them can go wrong: two numbers of 32 bits are less than `2 ^ 32` apart, so their difference is
never the one number that has no quotient by `-1`, and a step of zero is not divided by. What the
three operations give are therefore the exact numbers, and those decide whether some step of the
series reaches the position.

## Main definitions

* `Series.toInt64?` — a number that has to fit into 64 bits
* `Series.difference?`, `Series.quotient?`, `Series.remainder?` — the exact operations, which give
  nothing where a result has no 64 bits or the divisor is zero
* `Series.contains?` — membership decided with them

## Main results

* `Series.contains_decides` — every operation has its exact result, and the positions of
  which membership is true are those that the series reaches
-/

namespace SelectorPath.Series

/-! ### Exact operations -/

/-- The 64-bit number with the given value, if there is one. -/
def toInt64? (value : Int) : Option Int64 :=
  if -9223372036854775808 ≤ value ∧ value < 9223372036854775808 then some (Int64.ofInt value)
  else none

/-- The difference, if it fits into 64 bits. -/
def difference? (first second : Int64) : Option Int64 := toInt64? (first.toInt - second.toInt)

/-- The quotient, rounded towards zero, if there is a divisor and the quotient fits into 64 bits. -/
def quotient? (number divisor : Int64) : Option Int64 :=
  if divisor = 0 then none else toInt64? (number.toInt.tdiv divisor.toInt)

/-- The remainder of the division, if the division has a quotient. -/
def remainder? (number divisor : Int64) : Option Int64 :=
  (quotient? number divisor).bind fun _ => toInt64? (number.toInt.tmod divisor.toInt)

/-- Membership as `contains` decides it, with nothing for an answer as soon as one of the operations
on the way has no result. -/
def contains? (series : Series) (position : Int32) : Option Bool :=
  if position < 1 then some false
  else
    (difference? position.toInt64 series.b.toInt64).bind fun difference =>
      if series.a = 0 then some (difference == 0)
      else
        (remainder? difference series.a.toInt64).bind fun remainder =>
          -- the quotient is asked for only where nothing remains
          if remainder == 0 then
            (quotient? difference series.a.toInt64).map fun quotient => decide (0 ≤ quotient)
          else some false

/-- A number whose value is given fits. -/
theorem toInt64?_of_toInt {value : Int} {number : Int64} (same : number.toInt = value) :
    toInt64? value = some number := by
  subst same
  rw [toInt64?, if_pos ⟨number.le_toInt, number.toInt_lt⟩, Int64.ofInt_toInt]

/-- Numbers of 32 bits have a difference of 64 bits. -/
theorem toInt_difference (position b : Int32) :
    (position.toInt64 - b.toInt64).toInt = position.toInt - b.toInt := by
  have := position.le_toInt
  have := position.toInt_lt
  have := b.le_toInt
  have := b.toInt_lt
  rw [Int64.toInt_sub, Int32.toInt_toInt64, Int32.toInt_toInt64]
  exact Int.bmod_eq_of_le (by omega) (by omega)

/-- The least number of 64 bits is no such difference. -/
theorem difference_ne_minValue (position b : Int32) :
    position.toInt64 - b.toInt64 ≠ Int64.minValue := by
  intro least
  have same := congrArg Int64.toInt least
  rw [toInt_difference, Int64.toInt_minValue] at same
  have := position.le_toInt
  have := b.toInt_lt
  omega

theorem difference?_eq (position b : Int32) :
    difference? position.toInt64 b.toInt64 = some (position.toInt64 - b.toInt64) := by
  refine toInt64?_of_toInt ?_
  rw [toInt_difference, Int32.toInt_toInt64, Int32.toInt_toInt64]

section Division

variable {number divisor : Int64}

theorem quotient?_eq (nonzero : divisor ≠ 0) (notLeast : number ≠ Int64.minValue) :
    quotient? number divisor = some (number / divisor) := by
  rw [quotient?, if_neg nonzero]
  exact toInt64?_of_toInt (Int64.toInt_div_of_ne_left _ _ notLeast)

theorem remainder?_eq (nonzero : divisor ≠ 0) (notLeast : number ≠ Int64.minValue) :
    remainder? number divisor = some (number % divisor) := by
  rw [remainder?, quotient?_eq nonzero notLeast, Option.bind_some]
  exact toInt64?_of_toInt (Int64.toInt_mod _ _)

end Division

/-- A step that is not zero is still none in 64 bits. -/
theorem toInt64_ne_zero {step : Int32} (nonzero : step ≠ 0) : step.toInt64 ≠ 0 := by
  intro zero
  have same := congrArg Int64.toInt zero
  rw [Int32.toInt_toInt64, Int64.toInt_zero, ← Int32.toInt_zero] at same
  exact nonzero (Int32.toInt_inj.mp same)

/-- Every operation that membership is decided with has its exact result. -/
theorem contains?_eq (series : Series) (position : Int32) :
    series.contains? position = some (series.contains position) := by
  unfold contains? contains
  by_cases early : position < 1
  · rw [if_pos early, if_pos early]
  rw [if_neg early, if_neg early, difference?_eq, Option.bind_some]
  by_cases constant : series.a = 0
  · rw [if_pos constant, if_pos constant]
  have nonzero := toInt64_ne_zero constant
  have notLeast := difference_ne_minValue position series.b
  simp only [if_neg constant, remainder?_eq nonzero notLeast, quotient?_eq nonzero notLeast,
    Option.bind_some, Option.map_some]
  by_cases divides : ((position.toInt64 - series.b.toInt64) % series.a.toInt64 == 0) = true
  · rw [if_pos divides, divides, Bool.true_and]
  · rw [if_neg divides, Bool.eq_false_iff.mpr divides, Bool.false_and]

/-! ### Members -/

/-- A distance is a multiple of the step, and not a negative one, if nothing remains of the division
and the quotient is not negative. -/
theorem exists_mul_eq_iff_tmod {step : Int} (nonzero : step ≠ 0) (distance : Int) :
    (∃ k : Nat, step * k = distance) ↔ distance.tmod step = 0 ∧ 0 ≤ distance.tdiv step := by
  constructor
  · rintro ⟨k, rfl⟩
    rw [Int.mul_tmod_right, Int.mul_tdiv_cancel_left _ nonzero]
    exact ⟨rfl, Int.natCast_nonneg k⟩
  · rintro ⟨divides, nonneg⟩
    refine ⟨(distance.tdiv step).toNat, ?_⟩
    rw [Int.toNat_of_nonneg nonneg, Int.mul_tdiv_cancel_of_dvd (Int.dvd_of_tmod_eq_zero divides)]

/-- A member is as far behind the first term as a multiple of the step. -/
theorem reaches_iff_distance (series : Series) (position : Int) :
    series.Reaches position ↔
      ∃ k : Nat, series.a.toInt * k = position - series.b.toInt :=
  exists_congr fun k => by omega

/-- Behind the start, membership compares exact numbers. -/
theorem contains_eq_true_iff {series : Series} {position : Int32} (late : ¬ position < 1) :
    series.contains position = true ↔
      if series.a = 0 then position.toInt - series.b.toInt = 0
      else (position.toInt - series.b.toInt).tmod series.a.toInt = 0 ∧
        0 ≤ (position.toInt - series.b.toInt).tdiv series.a.toInt := by
  have exact := toInt_difference position series.b
  have notLeast := difference_ne_minValue position series.b
  rw [contains, if_neg late]
  generalize position.toInt64 - series.b.toInt64 = difference at *
  rw [← exact]
  by_cases constant : series.a = 0
  · rw [if_pos constant, if_pos constant, beq_iff_eq, ← Int64.toInt_inj, Int64.toInt_zero]
  · rw [if_neg constant, if_neg constant, Bool.and_eq_true, beq_iff_eq, decide_eq_true_iff,
      ← Int64.toInt_inj, Int64.le_iff_toInt_le, Int64.toInt_mod,
      Int64.toInt_div_of_ne_left _ _ notLeast, Int64.toInt_zero, Int32.toInt_toInt64]

/-- No operation on the way to membership overflows or divides by zero: each has its exact result.
And membership is true of the positions, counted from one, that some step of the series reaches. -/
theorem contains_decides (series : Series) (position : Int32) :
    series.contains? position = some (series.contains position) ∧
      (series.contains position = true ↔ 1 ≤ position.toInt ∧ series.Reaches position.toInt) := by
  refine ⟨contains?_eq series position, ?_⟩
  have start : position < 1 ↔ position.toInt < 1 := Int32.lt_iff_toInt_lt
  by_cases early : position < 1
  · rw [contains_eq_false_of_lt_one series early]
    exact iff_of_false Bool.false_ne_true fun member => Int.not_le.mpr (start.mp early) member.1
  have behind : 1 ≤ position.toInt := Int.not_lt.mp (mt start.mpr early)
  rw [and_iff_right behind, contains_eq_true_iff early, reaches_iff_distance]
  by_cases constant : series.a = 0
  · -- a step of zero leads nowhere, so that the only member is at no distance
    rw [if_pos constant, constant, Int32.toInt_zero]
    simp only [Int.zero_mul, exists_const, eq_comm]
  · have nonzero : series.a.toInt ≠ 0 := by
      rw [← Int32.toInt_zero]
      exact mt Int32.toInt_inj.mp constant
    rw [if_neg constant, exists_mul_eq_iff_tmod nonzero]

/-- The longest way: the distance from the least start to the greatest position has 33 bits. -/
example : (Series.mk 1 (-2147483648)).contains? 2147483647 = some true := by decide +kernel

end SelectorPath.Series
