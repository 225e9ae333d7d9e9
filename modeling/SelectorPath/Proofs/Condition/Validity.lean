import SelectorPath.Condition.FunctionalClass
import SelectorPath.Condition.PseudoClass
import SelectorPath.Proofs.XPath.Validity

/-!
# Conditions are valid

Every condition that a simple selector becomes is a valid expression, whatever names and values it
was given: a name stands in a node test only if it can be written there, and every value is quoted.

## Main results

* `Condition.valid_ofAttribute`, `Condition.valid_ofClass`, `Condition.valid_ofId` — attributes
* `Condition.valid_ofPseudoClass` — pseudo-classes without arguments
* `FunctionalClass.valid_restrict` — functional pseudo-classes keep a path valid
* `Series.valid_conditions` — the conditions on positions
-/

namespace SelectorPath

open XPath

namespace Condition

/-- A number binds more tightly than every operator between two numbers. -/
theorem level_integer (value : Int) : Grammar.signLevel ≤ (Expr.integer value).level := by
  cases value with
  | ofNat n => exact (by decide : (6 : Nat) ≤ 8)
  | negSucc n => exact Nat.le_refl _

/-! ### Attributes -/

theorem valid_attributeNamed (name : String) :
    (attributeNamed name).Valid ∧ (attributeNamed name).level = Grammar.pathLevel := by
  unfold attributeNamed
  split
  · rename_i plain
    exact ⟨⟨.of_plain plain, trivial⟩, rfl⟩
  · exact ⟨⟨.star, LocationPath.valid_nameIs name, trivial⟩, rfl⟩

theorem valid_attributeInNamespace (ns name : String) :
    (attributeInNamespace ns name).Valid ∧
      (attributeInNamespace ns name).level = Grammar.pathLevel := by
  unfold attributeInNamespace
  split
  · rename_i plain
    rw [Bool.and_eq_true] at plain
    exact ⟨⟨.of_pair plain.1 plain.2, trivial⟩, rfl⟩
  · exact valid_attributeNamed _

theorem valid_hasSuffix {attr : Expr} (valid : attr.Valid) (value : String) :
    (hasSuffix attr value).Valid := by
  have tight : 4 < (Expr.integer (value.length - 1)).level :=
    Nat.lt_of_lt_of_le (by decide) (level_integer _)
  have start : (Expr.binary (.minus .neither) (.call .stringLength [attr])
      (.integer (value.length - 1))).Valid :=
    ⟨.inr rfl, ⟨valid, trivial⟩, trivial, (by decide : (4 : Nat) ≤ 8), tight⟩
  exact ⟨.inl rfl, ⟨valid, start, trivial⟩, trivial, (by decide : (2 : Nat) ≤ 8),
    (by decide : (2 : Nat) < 8)⟩

section Compare

variable {attr : Expr} (valid : attr.Valid) (level : attr.level = Grammar.pathLevel)
include valid level

theorem valid_ifPresent {test : Expr} (also : test.Valid) (tight : 1 < test.level) :
    (ifPresent attr test).Valid :=
  ⟨.inl rfl, valid, also, level ▸ (by decide : (1 : Nat) ≤ 8), tight⟩

theorem valid_hasWord (word : String) : (hasWord attr word).Valid := by
  unfold hasWord
  split
  · refine valid_ifPresent valid level ?_ (by decide : (1 : Nat) < 8)
    simp [Expr.Valid, Expr.AllValid, valid]
  · trivial

theorem valid_equalLiteral (value : String) : (Expr.binary .equal attr (.literal value)).Valid :=
  ⟨.inl rfl, valid, trivial, level ▸ (by decide : (2 : Nat) ≤ 8), (by decide : (2 : Nat) < 8)⟩

theorem valid_compare (operator : AttributeOperator) (value : String) :
    (compare attr operator value).Valid := by
  have call (function : XPath.Function) : (Expr.call function [attr, .literal value]).Valid :=
    ⟨valid, trivial, trivial⟩
  have tight : 1 < Grammar.pathLevel := by decide
  -- the tests joined by a connective bind more tightly than it; calls and comparisons do
  cases operator with
  | present => exact valid
  | equal => exact valid_equalLiteral valid level value
  | includes => exact valid_hasWord valid level value
  | dashMatch =>
    refine valid_ifPresent valid level ?_ tight
    exact ⟨.inl rfl, valid_equalLiteral valid level value, ⟨valid, trivial, trivial⟩,
      Nat.zero_le _, (by decide : (0 : Nat) < 8)⟩
  | prefixMatch =>
    simp only [compare, unlessEmpty]
    split
    · trivial
    · exact valid_ifPresent valid level (call .startsWith) tight
  | suffixMatch =>
    simp only [compare, unlessEmpty]
    split
    · trivial
    · exact valid_ifPresent valid level (valid_hasSuffix valid value)
        (by decide : (1 : Nat) < 2)
  | substringMatch =>
    simp only [compare, unlessEmpty]
    split
    · trivial
    · exact valid_ifPresent valid level (call .contains) tight
  | notEqual =>
    exact ⟨.inl rfl, ⟨valid, trivial⟩,
      ⟨.inl rfl, valid, trivial, level ▸ (by decide : (2 : Nat) ≤ 8),
        (by decide : (2 : Nat) < 8)⟩,
      Nat.zero_le _, (by decide : (0 : Nat) < 2)⟩

end Compare

theorem valid_ofAttribute (options : Options) (selector : AttributeSelector) :
    (ofAttribute options selector).Valid := by
  unfold ofAttribute
  cases selector.ns with
  | none => exact valid_compare (valid_attributeNamed _).1 (valid_attributeNamed _).2 _ _
  | some ns =>
    exact valid_compare (valid_attributeInNamespace ns _).1 (valid_attributeInNamespace ns _).2 _ _

theorem valid_ofClass (options : Options) (name : String) : (ofClass options name).Valid :=
  valid_hasWord (valid_attributeNamed _).1 (valid_attributeNamed _).2 name

theorem valid_ofId (options : Options) (value : String) : (ofId options value).Valid :=
  valid_equalLiteral (valid_attributeNamed _).1 (valid_attributeNamed _).2 value

/-! ### Pseudo-classes without arguments -/

/-- The names that the states of links and form controls ask for. -/
theorem isNodeTest_html {name : String}
    (member : name ∈ ["checked", "disabled", "fieldset", "href", "optgroup", "selected", "type"]) :
    IsNodeTest name := by
  simp only [List.mem_cons, List.not_mem_nil, or_false] at member
  rcases member with rfl | rfl | rfl | rfl | rfl | rfl | rfl <;>
    exact .of_plain (by decide +kernel)

/-- The states of links and form controls are given expressions, and each of them is valid. -/
theorem valid_inHtml {name : String} {condition : Expr} (known : inHtml? name = some condition) :
    condition.Valid := by
  obtain ⟨-, rfl⟩ | ⟨-, rfl⟩ | ⟨-, rfl⟩ | ⟨-, rfl⟩ := inHtml?_cases known
  · simp [checked, own, isNamed, isOneOf, anyOf, Expr.Valid, Expr.AllValid, Expr.level,
      Operator.isSpaced, Operator.standard, Grammar.Operator.level, Grammar.pathLevel,
      isNodeTest_html]
  · simp [link, own, isNamed, isOneOf, anyOf, Expr.Valid, Expr.AllValid, Expr.level,
      Operator.isSpaced, Operator.standard, Grammar.Operator.level, Grammar.pathLevel,
      isNodeTest_html]
  · simp [disabled, inDisabled, textControlOr, textControls, own, isNamed, isOneOf, anyOf,
      Expr.Valid, Expr.AllValid, Expr.level, Operator.isSpaced, Operator.standard,
      Grammar.Operator.level, Grammar.pathLevel, isNodeTest_html]
  · simp [enabled, link, inDisabled, textControlOr, textControls, own, isNamed, isOneOf, anyOf,
      Expr.Valid, Expr.AllValid, Expr.level, Operator.isSpaced, Operator.standard,
      Grammar.Operator.level, Grammar.pathLevel, isNodeTest_html]

theorem valid_countIs {nodes : Expr} (valid : nodes.Valid) (number : Nat) :
    (countIs nodes number).Valid :=
  ⟨.inl rfl, ⟨valid, trivial⟩, trivial, (by decide : (2 : Nat) ≤ 8), (by decide : (2 : Nat) < 8)⟩

theorem valid_siblingsAlong (axis : Axis) {test : String} (valid : IsNodeTest test) :
    (siblingsAlong axis test).Valid :=
  ⟨valid, trivial⟩

theorem valid_childrenOfParent {test : String} (valid : IsNodeTest test) :
    (childrenOfParent test).Valid :=
  ⟨rfl, ⟨.star, trivial⟩, valid, trivial⟩

theorem Structural.valid {path : LocationPath} {name : String} {condition : Expr}
    (structural : Structural path name condition) : condition.Valid := by
  have along (axis : Axis) {type : String} (test : IsNodeTest type) :
      (countIs (siblingsAlong axis type) 0).Valid :=
    valid_countIs (valid_siblingsAlong axis test) 0
  cases structural with
  | root => exact ⟨⟨.star, trivial⟩, trivial⟩
  | scope | never => trivial
  | firstChild | lastChild => exact along _ .star
  | onlyChild => exact valid_countIs (valid_childrenOfParent .star) 1
  | firstOfType named | lastOfType named =>
    exact along _ (LocationPath.isNodeTest_of_namedType? named)
  | onlyOfType named =>
    exact valid_countIs (valid_childrenOfParent (LocationPath.isNodeTest_of_namedType? named)) 1
  | empty =>
    exact ⟨.inl rfl, ⟨⟨.star, trivial⟩, trivial⟩, ⟨trivial, trivial⟩,
      (by decide : (1 : Nat) ≤ 8), (by decide : (1 : Nat) < 8)⟩

/-- The condition of a pseudo-class is valid in every dialect. -/
theorem valid_ofPseudoClass {options : Options} {path : LocationPath} {name : String}
    {condition : Expr} (compiled : ofPseudoClass options path name = .ok condition) :
    condition.Valid := by
  obtain known | structural := ofPseudoClass_cases compiled
  · exact valid_inHtml known
  · exact structural.valid

/-! ### Text and language -/

theorem valid_containsText (value : String) : (containsText value).Valid :=
  ⟨trivial, trivial, trivial⟩

theorem valid_ofLanguage (options : Options) (value : String) :
    (ofLanguage options value).Valid := by
  unfold ofLanguage
  split
  · have attr := (valid_attributeNamed options.langAttribute).1
    refine ⟨.star, attr, trivial, ⟨?_, trivial, trivial⟩, trivial⟩
    exact ⟨⟨attr, trivial, trivial, trivial⟩, trivial, trivial⟩
  · exact ⟨trivial, trivial⟩

/-! ### Positions -/

theorem valid_fromLast (b : Int) : (fromLast b).Valid ∧ 4 ≤ (fromLast b).level := by
  have tight (value : Int) : 4 < (Expr.integer value).level :=
    Nat.lt_of_lt_of_le (by decide) (level_integer value)
  have loose : (4 : Nat) ≤ Grammar.pathLevel := by decide
  unfold fromLast
  split
  · exact ⟨trivial, loose⟩
  split
  · exact ⟨⟨.inl rfl, trivial, trivial, loose, tight _⟩, Nat.le_refl _⟩
  · exact ⟨⟨.inl rfl, trivial, trivial, loose, tight _⟩, Nat.le_refl _⟩

theorem valid_minusNumber {expr : Expr} (valid : expr.Valid) (loose : 4 ≤ expr.level) (n : Int) :
    (minusNumber expr n).Valid := by
  have tight (value : Int) : 4 < (Expr.integer value).level :=
    Nat.lt_of_lt_of_le (by decide) (level_integer value)
  unfold minusNumber
  split
  · exact ⟨.inl rfl, valid, trivial, loose, tight _⟩
  · exact ⟨.inl rfl, valid, trivial, loose, tight _⟩

end Condition

open Condition

namespace Direction

theorem valid_anchor (direction : Direction) (b : Int) :
    (direction.anchor b).Valid ∧ 4 ≤ (direction.anchor b).level := by
  cases direction with
  | fromStart => exact ⟨trivial, Nat.le_trans (by decide) (level_integer b)⟩
  | fromEnd => exact valid_fromLast b

theorem valid_distance (direction : Direction) (b : Int) : (direction.distance b).Valid := by
  cases direction with
  | fromStart =>
    have valid : position.Valid := trivial
    exact valid_minusNumber valid (by decide : (4 : Nat) ≤ 8) b
  | fromEnd =>
    have difference : (Expr.binary (.minus .both) position lastPosition).Valid :=
      ⟨.inl rfl, trivial, trivial, (by decide : (4 : Nat) ≤ 8), (by decide : (4 : Nat) < 8)⟩
    exact valid_minusNumber difference (Nat.le_refl _) (1 - b)

theorem valid_isAnchor (direction : Direction) (b : Int) :
    (direction.isAnchor b).Valid ∧ 1 < (direction.isAnchor b).level := by
  obtain ⟨valid, level⟩ := direction.valid_anchor b
  exact ⟨⟨.inl rfl, trivial, valid, (by decide : (2 : Nat) ≤ 8), Nat.lt_of_lt_of_le (by decide) level⟩,
    (by decide : (1 : Nat) < 2)⟩

theorem valid_remainder (direction : Direction) (step b : Int) :
    (direction.remainder step b).Valid ∧ 1 < (direction.remainder step b).level := by
  have modulo : (Expr.binary .modulo (.group (direction.distance b))
      (.integer step.natAbs)).Valid :=
    ⟨.inl rfl, direction.valid_distance b, trivial, (by decide : (5 : Nat) ≤ 8),
      (by decide : (5 : Nat) < 8)⟩
  exact ⟨⟨.inl rfl, modulo, trivial, (by decide : (2 : Nat) ≤ 5), (by decide : (2 : Nat) < 8)⟩,
    (by decide : (1 : Nat) < 2)⟩

theorem valid_bound (direction : Direction) (step b : Int) :
    (direction.bound step b).Valid ∧ 1 < (direction.bound step b).level := by
  obtain ⟨valid, level⟩ := direction.valid_anchor b
  unfold bound
  split <;>
    exact ⟨⟨.inl rfl, trivial, valid, (by decide : (3 : Nat) ≤ 8), level⟩,
      (by decide : (1 : Nat) < 3)⟩

end Direction

/-- The conditions on positions are valid, and can be joined by `and`. -/
theorem Series.valid_conditions (series : Series) (direction : Direction) :
    ∀ condition ∈ series.conditions direction, condition.Valid ∧ 1 < condition.level := by
  intro condition member
  unfold conditions at member
  simp only at member
  split at member
  · rw [List.mem_singleton.mp member]
    exact direction.valid_isAnchor _
  rcases List.mem_append.mp member with first | second
  · split at first
    · simp at first
    · rw [List.mem_singleton.mp first]
      exact direction.valid_remainder _ _
  · split at second
    · simp at second
    · rw [List.mem_singleton.mp second]
      exact direction.valid_bound _ _

theorem Series.valid_condition (series : Series) (direction : Direction) :
    ∀ condition ∈ series.condition? direction, condition.Valid := by
  intro condition member
  have all := series.valid_conditions direction
  obtain ⟨first, rest, split, rfl⟩ := Expr.join?_eq_some_iff.mp member
  rw [split] at all
  obtain ⟨valid, tight⟩ := all first List.mem_cons_self
  have others := fun other (inside : other ∈ rest) => all other (List.mem_cons_of_mem _ inside)
  have spaced : XPath.Operator.isSpaced .and = true := rfl
  exact (Expr.valid_foldl spaced valid (Nat.le_of_lt tight) others).1

/-! ### Functional pseudo-classes -/

namespace FunctionalClass

/-- A call of a functional pseudo-class keeps a path valid. -/
theorem valid_restrict {options : Options} {function : FunctionalClass}
    {path restricted : LocationPath} {call : FunctionCall} (valid : path.Valid)
    (compiled : function.restrict options path call = .ok restricted) : restricted.Valid := by
  obtain ⟨series, direction, rfl⟩ | ⟨series, direction, type, named, rfl⟩ | ⟨value, rfl | rfl⟩ :=
    restrict_cases compiled
  · exact valid.addNameTest.addPosition (series.valid_condition direction)
  · exact valid.addPositionAmong (LocationPath.isNodeTest_of_namedType? named)
      (series.valid_condition direction)
  · exact valid.addCondition (valid_containsText value)
  · exact valid.addCondition (valid_ofLanguage options value)

end FunctionalClass

end SelectorPath
