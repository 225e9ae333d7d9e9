import SelectorPath.Proofs.Condition.Validity
import SelectorPath.Proofs.XPath.Meaning

/-!
# Conditions on positions say what a series says

The conditions of a series, read as XPath and evaluated at a position among some nodes, hold
together exactly if some step of the series reaches the position, counted from the proper end.
Neither the remainder that is left out for a step of one nor the bound that is left out where every
position is beyond it is ever missed.

From either end a member of the series is the anchor plus a multiple of the step, where from the end
the step is turned round (`Direction.reaches_iff`). The remainder says that the distance from the
anchor is a multiple of the step, and the bound that the multiple is not negative.

## Main definitions

* `Direction.count` — a position counted from an end
* `Series.HoldsAt` — all conditions of a series are true at a position

## Main results

* `Series.holdsAt_iff_reaches` — the conditions hold at the members of the series
-/

namespace SelectorPath

open XPath Grammar Condition

namespace Direction

/-- A position among `size` nodes, counted from the end. -/
def count (direction : Direction) (position size : Nat) : Int :=
  match direction with
  | .fromStart => position
  | .fromEnd => size + 1 - position

/-- The position from the start at which a series starts. -/
def anchorAt (direction : Direction) (b : Int) (size : Nat) : Int :=
  match direction with
  | .fromStart => b
  | .fromEnd => size + 1 - b

/-- The members of a series are reached from its anchor with its step. -/
theorem reaches_iff (direction : Direction) (series : Series) (position size : Nat) :
    series.Reaches (direction.count position size) ↔
      ∃ k : Nat, direction.step series.a.toInt * k =
        position - direction.anchorAt series.b.toInt size := by
  refine exists_congr fun k => ?_
  cases direction with
  | fromStart =>
    simp only [count, step, anchorAt]
    omega
  | fromEnd =>
    simp only [count, step, anchorAt, Int.neg_mul]
    omega

/-- A distance is a multiple of the step in its direction if it is a multiple at all, and does not
lead the other way. -/
theorem exists_mul_eq_iff {step : Int} (nonzero : step ≠ 0) (distance : Int) :
    (∃ k : Nat, step * k = distance) ↔
      (step.natAbs : Int) ∣ distance ∧ (if 0 < step then 0 ≤ distance else distance ≤ 0) := by
  rw [Int.natAbs_dvd]
  constructor
  · rintro ⟨k, rfl⟩
    refine ⟨Int.dvd_mul_right step k, ?_⟩
    split
    · rename_i positive
      exact Int.mul_nonneg (Int.le_of_lt positive) (Int.natCast_nonneg k)
    · rename_i notPositive
      exact Int.mul_nonpos_of_nonpos_of_nonneg (Int.not_lt.mp notPositive) (Int.natCast_nonneg k)
  · rintro ⟨⟨k, rfl⟩, side⟩
    have nonneg : 0 ≤ k := by
      split at side
      · rename_i positive
        exact Int.nonneg_of_mul_nonneg_right side positive
      · rename_i notPositive
        have negative : step < 0 := by omega
        exact Int.nonneg_of_mul_nonpos_right side negative
    exact ⟨k.toNat, by rw [Int.toNat_of_nonneg nonneg]⟩

end Direction

/-! ### Values -/

section Values

variable {document : Document} {node : Node} {position size : Nat}

theorem Condition.eval_fromLast (b : Int) :
    (fromLast b).eval document ⟨node, position, size⟩ = some (.number (size + 1 - b)) := by
  have last : lastPosition.eval document ⟨node, position, size⟩ = some (.number size) := rfl
  unfold fromLast
  split
  · rename_i one
    rw [last, one]
    simp
  split
  · rw [Expr.eval_binary (by simp) last (Expr.eval_integer _)]
    simp [operate, Operator.standard, Value.number?]
    omega
  · rw [Expr.eval_binary (by simp) last (Expr.eval_integer _)]
    simp [operate, Operator.standard, Value.number?]
    omega

theorem Condition.eval_minusNumber {expr : Expr} {value : Int}
    (eval : expr.eval document ⟨node, position, size⟩ = some (.number value)) (n : Int) :
    (minusNumber expr n).eval document ⟨node, position, size⟩ = some (.number (value - n)) := by
  unfold minusNumber
  split
  · rw [Expr.eval_binary (by simp) eval (Expr.eval_integer _)]
    rfl
  · rw [Expr.eval_binary (by simp) eval (Expr.eval_integer _)]
    simp [operate, Operator.standard, Value.number?]
    omega

namespace Direction

theorem eval_anchor (direction : Direction) (b : Int) :
    (direction.anchor b).eval document ⟨node, position, size⟩ =
      some (.number (direction.anchorAt b size)) := by
  cases direction with
  | fromStart => exact Expr.eval_integer b
  | fromEnd => exact eval_fromLast b

/-- From the end, the distance has the last position and the number put together. -/
theorem eval_distance (direction : Direction) (b : Int) :
    (direction.distance b).eval document ⟨node, position, size⟩ =
      some (.number (position - direction.anchorAt b size)) := by
  have here : Condition.position.eval document ⟨node, position, size⟩ =
      some (.number position) := rfl
  have last : lastPosition.eval document ⟨node, position, size⟩ = some (.number size) := rfl
  cases direction with
  | fromStart => exact eval_minusNumber here b
  | fromEnd =>
    have strict : XPath.Operator.minus .both ≠ .or ∧ XPath.Operator.minus .both ≠ .and := by simp
    have difference := Expr.eval_binary strict here last
    rw [distance, eval_minusNumber difference, anchorAt]
    congr 2
    omega

theorem eval_isAnchor (direction : Direction) (b : Int) :
    (direction.isAnchor b).eval document ⟨node, position, size⟩ =
      some (.boolean (decide ((position : Int) = direction.anchorAt b size))) := by
  rw [isAnchor, Expr.eval_binary (by simp) rfl (direction.eval_anchor b)]
  simp only [operate, Operator.standard, Value.compare, beq_true, Option.map_some]
  rfl

theorem eval_remainder (direction : Direction) {step : Int} (nonzero : step ≠ 0) (b : Int) :
    (direction.remainder step b).eval document ⟨node, position, size⟩ =
      some (.boolean (decide ((step.natAbs : Int) ∣ position - direction.anchorAt b size))) := by
  have distance : (Expr.group (direction.distance b)).eval document ⟨node, position, size⟩ = _ :=
    direction.eval_distance b
  have positive : (step.natAbs : Int) ≠ 0 := by omega
  have strict : XPath.Operator.modulo ≠ .or ∧ XPath.Operator.modulo ≠ .and := by simp
  have modulo := Expr.eval_binary strict distance (Expr.eval_integer step.natAbs)
  simp only [operate, Operator.standard, Value.number?, Option.bind_eq_bind, Option.bind_some,
    if_neg positive] at modulo
  rw [remainder, Expr.eval_binary (by simp) modulo (Expr.eval_integer 0)]
  simp only [operate, Operator.standard, Value.compare, beq_true, Option.map_some,
    Int.dvd_iff_tmod_eq_zero]
  rfl

theorem eval_bound (direction : Direction) (step b : Int) :
    (direction.bound step b).eval document ⟨node, position, size⟩ =
      some (.boolean (decide (if 0 < step then 0 ≤ position - direction.anchorAt b size
        else position - direction.anchorAt b size ≤ 0))) := by
  unfold bound
  split
  · have side : direction.anchorAt b size ≤ (position : Int) ↔
        0 ≤ position - direction.anchorAt b size := by omega
    rw [Expr.eval_binary (by simp) rfl (direction.eval_anchor b)]
    simp only [operate, Operator.standard, Value.number?, Option.bind_eq_bind, Option.bind_some,
      ge_iff_le, side]
    rfl
  · have side : (position : Int) ≤ direction.anchorAt b size ↔
        position - direction.anchorAt b size ≤ 0 := by omega
    rw [Expr.eval_binary (by simp) rfl (direction.eval_anchor b)]
    simp only [operate, Operator.standard, Value.number?, Option.bind_eq_bind, Option.bind_some,
      side]
    rfl

end Direction

end Values

/-! ### Conditions one by one -/

/-- The text is true at a position exactly if a claim holds, and is false otherwise. -/
structure ClaimsAt (text : String) (position size : Nat) (claim : Prop) : Prop where
  decided : ∃ value, IsBooleanAt text position size value
  isTrue : IsBooleanAt text position size true ↔ claim

/-- A condition that has one value at all nodes claims what the value says. -/
theorem claimsAt_of_eval {expr : Expr} (valid : expr.Valid) {position size : Nat} {claim : Prop}
    [Decidable claim]
    (eval : ∀ document node,
      expr.eval document ⟨node, position, size⟩ = some (.boolean (decide claim))) :
    ClaimsAt expr.text position size claim := by
  have value := Expr.isBooleanAt valid eval
  refine ⟨⟨_, value⟩, ?_, ?_⟩
  · intro holds
    exact of_decide_eq_true (value.unique holds)
  · intro holds
    rwa [decide_eq_true holds] at value

namespace Direction

variable (direction : Direction) (step b : Int) (position size : Nat)

theorem claimsAt_isAnchor :
    ClaimsAt (direction.isAnchor b).text position size
      ((position : Int) = direction.anchorAt b size) :=
  claimsAt_of_eval (direction.valid_isAnchor b).1 fun _ _ => direction.eval_isAnchor b

theorem claimsAt_remainder (nonzero : step ≠ 0) :
    ClaimsAt (direction.remainder step b).text position size
      ((step.natAbs : Int) ∣ position - direction.anchorAt b size) :=
  claimsAt_of_eval (direction.valid_remainder step b).1 fun _ _ =>
    direction.eval_remainder nonzero b

theorem claimsAt_bound :
    ClaimsAt (direction.bound step b).text position size
      (if 0 < step then 0 ≤ position - direction.anchorAt b size
        else position - direction.anchorAt b size ≤ 0) :=
  claimsAt_of_eval (direction.valid_bound step b).1 fun _ _ => direction.eval_bound step b

end Direction

/-! ### Members of a series -/

namespace Series

/-- All conditions of a series are true at a position among `size` nodes. -/
def HoldsAt (series : Series) (direction : Direction) (position size : Nat) : Prop :=
  ∀ condition ∈ series.conditions direction, IsBooleanAt condition.text position size true

theorem step_ne_zero {series : Series} (nonzero : series.a ≠ 0) (direction : Direction) :
    direction.step series.a.toInt ≠ 0 := by
  have : series.a.toInt ≠ 0 := fun zero => nonzero (Int32.toInt_inj.mp zero)
  cases direction <;> simp [Direction.step] <;> omega

/-- Where the bound is left out, no position is on the other side of the anchor. -/
theorem bound_of_redundant {direction : Direction} {step b : Int} {position size : Nat}
    (positive : 1 ≤ position) (bounded : position ≤ size)
    (redundant : direction.isBoundRedundant step b = true) (nonzero : step ≠ 0) :
    if 0 < step then 0 ≤ position - direction.anchorAt b size
      else position - direction.anchorAt b size ≤ 0 := by
  cases direction with
  | fromStart =>
    have start : (Direction.fromStart == Direction.fromEnd) = false := rfl
    simp only [Direction.isBoundRedundant, start, Bool.and_eq_true, decide_eq_true_eq,
      beq_iff_eq, Bool.false_eq, decide_eq_false_iff_not] at redundant
    simp only [Direction.anchorAt]
    split <;> omega
  | fromEnd =>
    have fromEnd : (Direction.fromEnd == Direction.fromEnd) = true := rfl
    simp only [Direction.isBoundRedundant, fromEnd, Bool.and_eq_true, decide_eq_true_eq,
      beq_iff_eq, Bool.true_eq] at redundant
    simp only [Direction.anchorAt]
    split <;> omega

/-- Every condition of a series is true or false at every position. -/
theorem decided_conditions (series : Series) (direction : Direction) (position size : Nat) :
    ∀ condition ∈ series.conditions direction,
      ∃ value, IsBooleanAt condition.text position size value := by
  intro condition member
  unfold conditions at member
  simp only at member
  split at member
  · rw [List.mem_singleton.mp member]
    exact (direction.claimsAt_isAnchor _ _ _).decided
  rename_i nonzero
  rcases List.mem_append.mp member with first | second
  · split at first
    · simp at first
    · rw [List.mem_singleton.mp first]
      exact (direction.claimsAt_remainder _ _ _ _ (step_ne_zero nonzero direction)).decided
  · split at second
    · simp at second
    · rw [List.mem_singleton.mp second]
      exact (direction.claimsAt_bound _ _ _ _).decided

/-- The conditions of a series hold together exactly at its members. -/
theorem holdsAt_iff (series : Series) (direction : Direction) {position size : Nat}
    (positive : 1 ≤ position) (bounded : position ≤ size) :
    series.HoldsAt direction position size ↔
      series.Reaches (direction.count position size) := by
  rw [direction.reaches_iff, HoldsAt, conditions]
  simp only
  split
  · rename_i zero
    have step : direction.step series.a.toInt = 0 := by
      rw [zero]
      cases direction <;> rfl
    simp only [List.mem_singleton, forall_eq, (direction.claimsAt_isAnchor _ _ _).isTrue, step,
      Int.zero_mul, exists_const]
    omega
  · rename_i nonzero
    have step := step_ne_zero nonzero direction
    -- a step of one position divides every distance, and its condition is left out
    have remainder :
        (∀ condition ∈ if (direction.step series.a.toInt).natAbs = 1 then []
            else [direction.remainder (direction.step series.a.toInt) series.b.toInt],
          IsBooleanAt condition.text position size true) ↔
        ((direction.step series.a.toInt).natAbs : Int) ∣
          position - direction.anchorAt series.b.toInt size := by
      split
      · rename_i one
        simp [one]
      · simp [(direction.claimsAt_remainder _ _ _ _ step).isTrue]
    -- so is a bound that every position keeps
    have bound :
        (∀ condition ∈ if direction.isBoundRedundant (direction.step series.a.toInt)
            series.b.toInt = true then []
            else [direction.bound (direction.step series.a.toInt) series.b.toInt],
          IsBooleanAt condition.text position size true) ↔
        if 0 < direction.step series.a.toInt then
          0 ≤ position - direction.anchorAt series.b.toInt size
        else position - direction.anchorAt series.b.toInt size ≤ 0 := by
      by_cases redundant : direction.isBoundRedundant (direction.step series.a.toInt)
          series.b.toInt = true
      · have always := bound_of_redundant positive bounded redundant step
        simp only [if_pos redundant, List.not_mem_nil, false_imp_iff, implies_true, true_iff]
        exact always
      · rw [if_neg redundant]
        simp only [List.mem_singleton, forall_eq]
        exact (direction.claimsAt_bound _ _ _ _).isTrue
    rw [Direction.exists_mul_eq_iff step, ← remainder, ← bound]
    simp only [List.mem_append, or_imp, forall_and]

/-- The conditions of a series are decided at every position, hold together exactly at its members,
and hold from one end where they hold from the other at the mirror image. -/
theorem holdsAt_iff_reaches (series : Series) (direction : Direction) {position size : Nat}
    (positive : 1 ≤ position) (bounded : position ≤ size) :
    (∀ condition ∈ series.conditions direction,
        ∃ value, IsBooleanAt condition.text position size value) ∧
      (series.HoldsAt direction position size ↔
        series.Reaches (direction.count position size)) ∧
      (series.HoldsAt .fromEnd position size ↔
        series.HoldsAt .fromStart (size + 1 - position) size) := by
  refine ⟨series.decided_conditions direction position size,
    series.holdsAt_iff direction positive bounded, ?_⟩
  -- counted from one end, a position is its mirror image counted from the other
  rw [series.holdsAt_iff .fromEnd positive bounded,
    series.holdsAt_iff .fromStart (by omega) (by omega)]
  have mirrored : Direction.fromEnd.count position size =
      Direction.fromStart.count (size + 1 - position) size := by
    simp only [Direction.count]
    omega
  rw [mirrored]

/-- Counted from the end, the third of seven nodes is the fifth. -/
theorem holdsAt_third_of_seven :
    (1 ≤ 3 ∧ 3 ≤ 7) ∧ HoldsAt ⟨-2, 5⟩ .fromEnd 3 7 :=
  ⟨by decide, (holdsAt_iff_reaches ⟨-2, 5⟩ .fromEnd (by decide) (by decide)).2.1.mpr ⟨0, by decide⟩⟩

end Series

end SelectorPath
