import Mathlib.Algebra.Order.BigOperators.Group.List
import Mathlib.Data.Nat.Digits.Defs
import Mathlib.Tactic.Linarith
import SelectorPath.XPath.LocationPath

/-!
# How long the text of a path is

A path under construction is measured by its weight: the characters of its steps, with those of the
last step counted as often as they may still be written. A membership test writes the last step
twice, and both ways to get one need a star: the path is an argument, or its name test is folded
into a condition. So the last step counts twice behind a star, and four times as long as its name
can still be folded. With that, no operation on paths does more than add to the weight, except for
the star itself, which multiplies it by four at most.

## Main definitions

* `LocationPath.load` — the characters of the last step
* `LocationPath.copies`, `LocationPath.weight` — how often they count, and the measure of a path
* `LocationPath.NamesWithin` — the names of the last step have at most so many characters

## Main results

* `length_quote_le`, `length_toString_le` — literals and numbers
* `LocationPath.length_text_le`, `LocationPath.length_membership_le` — the texts of a path
* `LocationPath.weight_addCondition`, `LocationPath.weight_addPosition_le`,
  `LocationPath.weight_joinSibling_le` and others — what the operations add
-/

namespace SelectorPath.XPath

/-! ### Literals and numbers -/

theorem length_intercalate_le {α : Type} (sep : List α) (parts : List (List α)) :
    (sep.intercalate parts).length ≤ (parts.map fun part => part.length + sep.length).sum := by
  match parts with
  | [] => simp
  | [part] => simp
  | part :: next :: rest =>
    have behind := length_intercalate_le sep (next :: rest)
    rw [List.intercalate_cons_cons, List.map_cons, List.sum_cons]
    simp only [List.length_append]
    omega

theorem length_quoteRuns_le (cs : List Char) : (quoteRuns cs).length ≤ cs.length := by
  induction cs with
  | nil => simp [quoteRuns]
  | cons c cs ih =>
    unfold quoteRuns
    split
    · rename_i d run runs behind
      rw [behind] at ih
      split <;> simp at ih ⊢ <;> omega
    · simpa using ih

theorem length_quoteRun (run : List Char) : (quoteRun run).length = run.length + 2 := by
  unfold quoteRun
  split <;> simp

/-- A literal has at most five characters for each of its value. -/
theorem length_quote_le (value : String) : (quote value).length ≤ 5 * value.length + 8 := by
  have runs : ∀ parts : List (List Char),
      ((parts.map quoteRun).map fun part => part.length + ", ".toList.length).sum =
        parts.flatten.length + 4 * parts.length := by
    intro parts
    induction parts with
    | nil => rfl
    | cons run rest ih =>
      simp only [List.map_cons, List.sum_cons, ih, length_quoteRun, List.flatten_cons,
        List.length_append, List.length_cons]
      have comma : ", ".toList.length = 2 := rfl
      omega
  have joined := length_intercalate_le ", ".toList ((quoteRuns value.toList).map quoteRun)
  rw [runs, flatten_quoteRuns] at joined
  have few := length_quoteRuns_le value.toList
  simp only [← String.length_toList, quote, String.toList_ofList, quoteChars]
  split
  · simp
    omega
  · split
    · simp
      omega
    · simp only [List.length_append]
      have opening : "concat(".toList.length = 7 := rfl
      simp only [List.length_singleton]
      omega

theorem length_toString_le {value : Int} {digits : ℕ} (positive : 0 < digits)
    (bound : value.natAbs < 10 ^ digits) : (toString value).length ≤ digits + 1 := by
  rw [Int.toString_eq_repr]
  cases value with
  | ofNat n =>
    have := Nat.repr_length n digits positive bound
    exact Nat.le_succ_of_le this
  | negSucc n =>
    have := Nat.repr_length n.succ digits positive bound
    simp only [Int.repr, String.length_append]
    have sign : "-".length = 1 := rfl
    omega

/-- The comparison of a name. -/
theorem Expr.length_nameIs_le (name : String) :
    (nameIs name).text.length ≤ 5 * name.length + 17 := by
  have quoted := length_quote_le name
  simp [← String.length_toList, nameIs, Expr.text, Expr.listText, Function.text,
    Operator.text] at *
  omega

/-! ### Several conditions -/

/-- The characters of some conditions in one predicate, each with parentheses and an `and`. -/
def conditionsLength (conditions : List Expr) : ℕ :=
  (conditions.map fun condition => condition.text.length + 7).sum

@[simp] theorem conditionsLength_nil : conditionsLength [] = 0 := rfl

@[simp] theorem conditionsLength_append (conditions others : List Expr) :
    conditionsLength (conditions ++ others) =
      conditionsLength conditions + conditionsLength others := by
  simp [conditionsLength]

@[simp] theorem conditionsLength_singleton (condition : Expr) :
    conditionsLength [condition] = condition.text.length + 7 := by
  simp [conditionsLength]

/-- Expressions that are joined take the characters of all of them, and of the operator between
them. -/
theorem length_join_le (operator : Operator) {exprs : List Expr} {joined : Expr}
    (join : Expr.join? operator exprs = some joined) :
    joined.text.length ≤
      (exprs.map fun expr => expr.text.length + operator.text.length).sum := by
  have fold : ∀ (rest : List Expr) (first : Expr),
      (rest.foldl (.binary operator) first).text.length = first.text.length +
        (rest.map fun expr => expr.text.length + operator.text.length).sum := by
    intro rest
    induction rest with
    | nil => intro first; rfl
    | cons next rest ih =>
      intro first
      rw [List.foldl_cons, ih]
      simp only [Expr.text, String.length_append, List.map_cons, List.sum_cons]
      omega
  obtain ⟨first, rest, rfl, rfl⟩ := Expr.join?_eq_some_iff.mp join
  rw [fold, List.map_cons, List.sum_cons]
  omega

theorem length_text_group (inner : Expr) : (Expr.group inner).text.length = inner.text.length + 2 := by
  simp [← String.length_toList, Expr.text]

/-- Conditions that are joined by `and` or by `or`. -/
theorem Expr.Joined.length_le {operator : Operator} {conditions : List Expr} {condition : Expr}
    (joined : Joined operator conditions condition) (short : operator.text.length ≤ 5) :
    condition.text.length ≤ conditionsLength conditions := by
  cases joined with
  | single => simp
  | @groups first next rest =>
    have bound := length_join_le operator
      (rfl : join? operator ((first :: next :: rest).map .group) = some _)
    rw [List.map_map] at bound
    refine bound.trans (List.sum_le_sum fun expr _ => ?_)
    have group := length_text_group expr
    rw [Function.comp_apply]
    omega

/-- The predicate of several conditions. -/
theorem length_conjunction_le {conditions : List Expr} {condition : Expr}
    (joined : Expr.conjunction? conditions = some condition) :
    condition.text.length ≤ conditionsLength conditions :=
  (Expr.joined_of_joinGroups? joined).length_le (by decide)

/-- The condition that one of several holds. -/
theorem length_disjunction_le {conditions : List Expr} {condition : Expr}
    (joined : Expr.disjunction? conditions = some condition) :
    condition.text.length ≤ conditionsLength conditions :=
  (Expr.joined_of_joinGroups? joined).length_le (by decide)

theorem length_predicatesText_le (conditions : List Expr) :
    (Expr.predicatesText (predicates (Expr.conjunction? conditions))).length ≤
      conditionsLength conditions + 2 := by
  cases joined : Expr.conjunction? conditions with
  | none => simp [predicates, Expr.predicatesText]
  | some condition =>
    have bound := length_conjunction_le joined
    simp [← String.length_toList, predicates, Expr.predicatesText] at *
    omega

namespace LocationPath

/-! ### The weight of a path -/

/-- The characters of the last step, without the brackets. -/
def load (path : LocationPath) : ℕ := path.test.length + conditionsLength path.conditions

/-- How often the last step may still be written. -/
def copies (path : LocationPath) : ℕ :=
  if path.starred then if path.isWildcard then 2 else 4 else 1

/-- The characters of a path, where those of the last step count as often as they may still be
written. -/
def weight (path : LocationPath) : ℕ :=
  (segmentsText path.segments).length + path.copies * path.load + 2

/-- The names of the last step have at most `n` characters. -/
structure NamesWithin (path : LocationPath) (n : ℕ) : Prop where
  test : path.test.length ≤ n
  type : ∀ type ∈ path.typeName, type.length ≤ n

variable {path other : LocationPath} {n : ℕ}

theorem NamesWithin.mono (within : path.NamesWithin n) {m : ℕ} (le : n ≤ m) : path.NamesWithin m :=
  ⟨within.test.trans le, fun type named => (within.type type named).trans le⟩

theorem copies_le (path : LocationPath) : path.copies ≤ 4 ^ path.starred.toNat := by
  unfold copies
  cases path.starred <;> cases path.isWildcard <;> decide

theorem copies_le_four (path : LocationPath) : path.copies ≤ 4 := by
  unfold copies
  cases path.starred <;> cases path.isWildcard <;> decide

theorem one_le_copies (path : LocationPath) : 1 ≤ path.copies := by
  unfold copies
  cases path.starred <;> cases path.isWildcard <;> decide

theorem two_le_copies (starred : path.starred = true) : 2 ≤ path.copies := by
  unfold copies
  rw [if_pos starred]
  cases path.isWildcard <;> decide

/-! ### Texts -/

theorem length_stepText_le (path : LocationPath) :
    (stepText path.test path.condition?).length ≤ path.load + 2 := by
  have bound := length_predicatesText_le path.conditions
  rw [stepText, String.length_append, condition?, load]
  omega

theorem load_le_weight (path : LocationPath) :
    (segmentsText path.segments).length + path.load + 2 ≤ path.weight := by
  have more := Nat.mul_le_mul_right path.load path.one_le_copies
  rw [weight]
  omega

theorem copies_mul_load_le_weight (path : LocationPath) :
    path.copies * path.load ≤ path.weight := by
  rw [weight]
  omega

/-- A path is not longer than its weight. -/
theorem length_text_le (path : LocationPath) : path.text.length ≤ path.weight := by
  have step := path.length_stepText_le
  have weight := path.load_le_weight
  rw [text, String.length_append]
  omega

/-- A membership test has the last step twice. -/
theorem length_membership_le (path : LocationPath) :
    path.membership.text.length ≤ 2 * path.load + 31 := by
  have step := path.length_stepText_le
  rw [stepText] at step
  simp [← String.length_toList, membership, siblings, Expr.text, Expr.listText, Function.text,
    Operator.text, AxisSpecifier.text] at *
  omega

/-! ### Conditions -/

theorem weight_addCondition (path : LocationPath) (condition : Expr) :
    (path.addCondition condition).weight =
      path.weight + path.copies * (condition.text.length + 7) := by
  have load : (path.addCondition condition).load = path.load + (condition.text.length + 7) := by
    simp only [LocationPath.load, addCondition, conditionsLength_append,
      conditionsLength_singleton]
    omega
  have copies : (path.addCondition condition).copies = path.copies := rfl
  have segments : (path.addCondition condition).segments = path.segments := rfl
  rw [weight, copies, load, segments, Nat.mul_add, weight]
  omega

theorem NamesWithin.addCondition (within : path.NamesWithin n) (condition : Expr) :
    (path.addCondition condition).NamesWithin n := ⟨within.test, within.type⟩

theorem NamesWithin.addNameTest (within : path.NamesWithin n) (positive : 1 ≤ n) :
    path.addNameTest.NamesWithin n := by
  have positive : "*".length ≤ n := positive
  unfold LocationPath.addNameTest
  split
  · exact within
  · split <;> exact ⟨positive, within.type⟩

theorem segments_addNameTest (path : LocationPath) :
    path.addNameTest.segments = path.segments ∧ path.addNameTest.starred = path.starred := by
  unfold addNameTest
  split
  · exact ⟨rfl, rfl⟩
  · split <;> exact ⟨rfl, rfl⟩

/-- A name test that becomes a condition behind a star costs a copy of the step. -/
theorem copies_mul_load_addNameTest_le (path : LocationPath) :
    path.addNameTest.copies * path.addNameTest.load ≤
      path.copies * (path.load + 5 * path.test.length + 25) := by
  have name := Expr.length_nameIs_le path.test
  have membership := path.length_membership_le
  have star : "*".length = 1 := rfl
  unfold addNameTest
  by_cases wildcard : path.isWildcard = true
  · rw [if_pos wildcard]
    exact Nat.mul_le_mul_left _ (by omega)
  · rw [if_neg wildcard]
    have copiesBefore : path.copies = if path.starred then 4 else 1 := by
      rw [copies, if_neg wildcard]
    split
    · -- four copies of the step before, and two of a test that has it twice
      rename_i folded
      have starred := (Bool.and_eq_true_iff.mp folded).1
      rw [copiesBefore, if_pos starred]
      simp only [copies, isWildcard, load, starred, beq_self_eq_true, if_true,
        conditionsLength_singleton] at *
      omega
    · rw [copiesBefore]
      simp only [copies, isWildcard, load, beq_self_eq_true, if_true, conditionsLength_append,
        conditionsLength_singleton] at *
      cases path.starred
      · simp only [Bool.false_eq_true, if_false]
        omega
      · simp only [if_true]
        omega

theorem weight_addNameTest_le (path : LocationPath) :
    path.addNameTest.weight ≤ path.weight + path.copies * (5 * path.test.length + 25) := by
  have last := path.copies_mul_load_addNameTest_le
  rw [Nat.add_assoc, Nat.mul_add] at last
  rw [weight, weight, path.segments_addNameTest.1]
  omega

/-! ### Positions -/

theorem NamesWithin.addStar (within : path.NamesWithin n) : path.addStar.NamesWithin n := by
  unfold LocationPath.addStar
  split
  · exact within
  · exact ⟨within.test, within.type⟩

/-- A star makes at most four copies of the last step, unless it is there already. -/
theorem weight_addStar_le (path : LocationPath) :
    path.addStar.weight ≤ (if path.starred then 1 else 4) * path.weight := by
  unfold addStar
  by_cases starred : path.starred = true
  · rw [if_pos starred, if_pos starred, Nat.one_mul]
  · rw [if_neg starred, if_neg starred]
    have single : path.copies = 1 := by rw [copies, if_neg starred]
    have star : "*/".length = 2 := rfl
    let behind : LocationPath := { path with segments := path.segments ++ [.star], starred := true }
    have last : behind.copies * path.load ≤ 4 * path.load :=
      Nat.mul_le_mul_right _ behind.copies_le_four
    have load : behind.load = path.load := rfl
    change behind.weight ≤ _
    rw [weight, weight, single, load, segmentsText_append, String.length_append,
      segmentsText_star, star]
    omega

section Position

variable {condition : Option Expr} {l : ℕ} (bound : ∀ expr ∈ condition, expr.text.length ≤ l)

include bound

/-- A condition on positions adds itself to the copies that the star makes. -/
theorem weight_addPosition_le :
    (path.addPosition condition).weight ≤
      (if path.starred then 1 else 4) * path.weight + 4 * (l + 7) := by
  have star := path.weight_addStar_le
  cases condition with
  | none =>
    rw [addPosition]
    omega
  | some condition =>
    have few : path.addStar.copies * (condition.text.length + 7) ≤ 4 * (l + 7) :=
      Nat.mul_le_mul path.addStar.copies_le_four (Nat.add_le_add_right (bound condition rfl) 7)
    rw [addPosition, weight_addCondition]
    omega

theorem weight_addNameTest_addPosition_le :
    (path.addNameTest.addPosition condition).weight ≤
      (if path.starred then 1 else 4) * path.weight + 4 * (5 * path.test.length + l + 32) := by
  have name := path.weight_addNameTest_le
  have position := @weight_addPosition_le path.addNameTest condition l bound
  rw [path.segments_addNameTest.2] at position
  by_cases starred : path.starred = true
  · have few := Nat.mul_le_mul_right (5 * path.test.length + 25) path.copies_le_four
    rw [if_pos starred] at position ⊢
    omega
  · -- the one copy of the step becomes four
    have single : path.copies = 1 := by rw [copies, if_neg starred]
    rw [if_neg starred] at position ⊢
    rw [single] at name
    omega

/-- Positions among the children of one type may be counted through the parent, by a membership
test. -/
theorem weight_addPositionAmong_le (type : String) :
    (path.addPositionAmong type condition).weight ≤
      (if path.starred then 1 else 4) * path.weight + 4 * (2 * type.length + 2 * l + 52) := by
  have star := path.weight_addStar_le
  have add (expr : Expr) (short : expr.text.length ≤ 2 * type.length + 2 * l + 45) :
      (path.addStar.addCondition expr).weight ≤
        (if path.starred then 1 else 4) * path.weight + 4 * (2 * type.length + 2 * l + 52) := by
    have few : path.addStar.copies * (expr.text.length + 7) ≤
        4 * (2 * type.length + 2 * l + 52) :=
      Nat.mul_le_mul path.addStar.copies_le_four (Nat.add_le_add_right short 7)
    rw [weight_addCondition]
    omega
  cases condition with
  | none =>
    rw [addPositionAmong]
    omega
  | some condition =>
    have short := bound condition rfl
    by_cases wildcard : path.isWildcard = true
    · rw [addPositionAmong, if_pos wildcard]
      refine add _ ?_
      have membership := ((ofTest type).addCondition condition).length_membership_le
      have load : ((ofTest type).addCondition condition).load =
          type.length + (condition.text.length + 7) := by
        simp [LocationPath.load, addCondition, ofTest]
      omega
    · rw [addPositionAmong, if_neg wildcard]
      exact add condition (by omega)

end Position

theorem NamesWithin.addPosition (within : path.NamesWithin n) (condition : Option Expr) :
    (path.addPosition condition).NamesWithin n := by
  cases condition with
  | none => exact within.addStar
  | some condition => exact within.addStar.addCondition condition

theorem NamesWithin.addPositionAmong (within : path.NamesWithin n) (type : String)
    (condition : Option Expr) : (path.addPositionAmong type condition).NamesWithin n := by
  cases condition with
  | none => exact within.addStar
  | some condition =>
    rw [LocationPath.addPositionAmong]
    split <;> exact within.addStar.addCondition _

/-! ### Joining paths -/

theorem length_joinedSegments_le (path : LocationPath) :
    (segmentsText path.joinedSegments).length ≤ (segmentsText path.segments).length := by
  unfold joinedSegments
  split
  · exact Nat.zero_le _
  · exact Nat.le_refl _

/-- What stands in front of a link is written once. -/
theorem weight_join_le (path : LocationPath) (link : Link) (other : LocationPath) :
    (path.join link other).weight ≤ path.weight + link.text.length + other.weight := by
  have before := path.load_le_weight
  have step := path.length_stepText_le
  have behind := other.length_joinedSegments_le
  have copies : (path.join link other).copies = other.copies := rfl
  have load : (path.join link other).load = other.load := rfl
  have segment : (⟨path.test, path.condition?, link⟩ : Segment).text.length =
      (stepText path.test path.condition?).length + link.text.length := String.length_append _ _
  have weight : other.weight =
      (segmentsText other.segments).length + other.copies * other.load + 2 := rfl
  rw [LocationPath.weight, copies, load, join, segmentsText_append, String.length_append,
    segmentsText, String.length_append, segment, weight]
  omega

/-- Siblings behind a star become a membership test, which uses up its copies. -/
theorem weight_joinSibling_le (path other : LocationPath) (adjacent : Bool) :
    (path.joinSibling other adjacent).weight ≤
      path.weight + other.weight + 5 * other.test.length + 82 := by
  have link : Link.followingSibling.text.length = 20 := rfl
  have first : isFirst.text.length = 14 := by decide
  unfold joinSibling
  by_cases starred : other.starred = true
  · rw [if_pos starred]
    -- behind the star stands the membership test, whose copies of the load the weight has counted
    have membership := other.length_membership_le
    have twice := Nat.mul_le_mul_right other.load (two_le_copies starred)
    have any : (ofTest "*").weight = 3 := rfl
    have joined := path.weight_join_le .followingSibling (ofTest "*")
    have copies (expr : Expr) :
        ((path.join .followingSibling (ofTest "*")).addCondition expr).copies = 1 := rfl
    have single : (path.join .followingSibling (ofTest "*")).copies = 1 := rfl
    have weight := other.copies_mul_load_le_weight
    dsimp only
    rw [weight_addCondition]
    split
    · rw [weight_addCondition, copies, single, first]
      omega
    · rw [single]
      omega
  · rw [if_neg starred]
    have joined := path.weight_join_le .followingSibling other
    dsimp only
    split
    · -- only the next sibling needs the name in a condition, which is written once
      have single : (path.join .followingSibling other).copies = 1 := by
        show (if other.starred = true then _ else 1) = 1
        rw [if_neg starred]
      have named := (path.join .followingSibling other).weight_addNameTest_le
      have copies : (path.join .followingSibling other).addNameTest.copies = 1 := by
        have plain : ¬ (path.join .followingSibling other).addNameTest.starred = true := by
          rw [(segments_addNameTest _).2]
          exact starred
        rw [LocationPath.copies, if_neg plain]
      have test : (path.join .followingSibling other).test = other.test := rfl
      rw [single, test] at named
      rw [weight_addCondition, copies, first]
      omega
    · omega

theorem NamesWithin.joinSibling (within : other.NamesWithin n) (positive : 1 ≤ n)
    (path : LocationPath) (adjacent : Bool) : (path.joinSibling other adjacent).NamesWithin n := by
  have star : "*".length ≤ n := positive
  have any : (path.join .followingSibling (ofTest "*")).NamesWithin n :=
    ⟨star, fun type named => nomatch named⟩
  have joined : (path.join .followingSibling other).NamesWithin n := ⟨within.test, within.type⟩
  unfold LocationPath.joinSibling
  dsimp only
  split
  · split
    · exact (any.addCondition _).addCondition _
    · exact any.addCondition _
  · split
    · exact (joined.addNameTest positive).addCondition _
    · exact joined

end LocationPath

end SelectorPath.XPath
