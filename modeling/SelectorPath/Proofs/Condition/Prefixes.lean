import SelectorPath.Condition.FunctionalClass
import SelectorPath.Condition.PseudoClass
import SelectorPath.Proofs.Condition.Acceptance
import SelectorPath.Proofs.XPath.Prefixes

/-!
# Conditions without prefixes

An attribute is asked for by a plain name, or by a comparison of names, so without a namespace it
has no prefix. What counts the elements of a type writes the name of the type as a node test, and is
the only condition that a prefix comes in with.

## Main results

* `Condition.isUnprefixed_ofAttribute`, `Condition.isUnprefixed_ofClass`,
  `Condition.isUnprefixed_ofId` — attributes
* `Condition.isUnprefixed_ofPseudoClass` — pseudo-classes without arguments
* `FunctionalClass.isUnprefixed_restrictPosition`, `FunctionalClass.isUnprefixed_restrictLiteral` —
  functional pseudo-classes
-/

namespace SelectorPath

open XPath Expr

/-- The type that elements are counted by is without a prefix if it has no colon. -/
theorem colonsPaired_of_namedType? {path : LocationPath} {type : String}
    (named : path.namedType? = some type) (noColon : ':' ∉ type.toList) : ColonsPaired type := by
  rw [LocationPath.namedType?, Option.filter_eq_some_iff] at named
  exact colonsPaired_of_isPlainName (isPlainName_of_not_mem named.2 noColon)

namespace Condition

/-! ### Attributes -/

theorem isUnprefixed_attributeNamed (name : String) : (attributeNamed name).IsUnprefixed := by
  unfold attributeNamed
  split
  · exact isUnprefixed_step .attribute (colonsPaired_of_isPlainName ‹_›) (by simp)
  · exact isUnprefixed_step _ LocationPath.colonsPaired_star
      (by simpa using isUnprefixed_nameIs name)

section Compare

variable {attr : Expr} (unprefixed : attr.IsUnprefixed)
include unprefixed

theorem isUnprefixed_callWith (function : XPath.Function) (value : String) :
    (Expr.call function [attr, .literal value]).IsUnprefixed :=
  isUnprefixed_call function (by simp [unprefixed, isUnprefixed_literal])

theorem isUnprefixed_hasWord (word : String) : (hasWord attr word).IsUnprefixed := by
  unfold hasWord
  split
  · have normal := unprefixed.call .normalizeSpace
    have words : (Expr.call .concat
        [.literal " ", .call .normalizeSpace [attr], .literal " "]).IsUnprefixed :=
      isUnprefixed_call _ (by simp [normal, isUnprefixed_literal])
    exact unprefixed.binary .and (isUnprefixed_call _ (by simp [words, isUnprefixed_literal]))
  · exact isUnprefixed_integer 0

theorem isUnprefixed_hasSuffix (value : String) : (hasSuffix attr value).IsUnprefixed := by
  have length := unprefixed.call .stringLength
  have start := length.binary (.minus .neither) (isUnprefixed_integer (value.length - 1))
  exact (isUnprefixed_call _ (by simp [unprefixed, start])).binary .equal
    (isUnprefixed_literal value)

theorem isUnprefixed_unlessEmpty (value : String) : (unlessEmpty value attr).IsUnprefixed := by
  unfold unlessEmpty
  split
  · exact isUnprefixed_integer 0
  · exact unprefixed

theorem isUnprefixed_compare (operator : AttributeOperator) (value : String) :
    (compare attr operator value).IsUnprefixed := by
  have equal := unprefixed.binary .equal (isUnprefixed_literal value)
  have ifPresent {test : Expr} (also : test.IsUnprefixed) : (ifPresent attr test).IsUnprefixed :=
    unprefixed.binary .and also
  cases operator with
  | present => exact unprefixed
  | equal => exact equal
  | includes => exact isUnprefixed_hasWord unprefixed value
  | dashMatch =>
    exact ifPresent (equal.binary .or (isUnprefixed_callWith unprefixed .startsWith _)).group
  | prefixMatch =>
    exact isUnprefixed_unlessEmpty (ifPresent (isUnprefixed_callWith unprefixed _ value)) value
  | suffixMatch =>
    exact isUnprefixed_unlessEmpty (ifPresent (isUnprefixed_hasSuffix unprefixed value)) value
  | substringMatch =>
    exact isUnprefixed_unlessEmpty (ifPresent (isUnprefixed_callWith unprefixed _ value)) value
  | notEqual =>
    exact (unprefixed.call .not).binary .or
      (unprefixed.binary .notEqual (isUnprefixed_literal value))

end Compare

/-- Without a namespace, an attribute is asked for without a prefix, whatever its name is. -/
theorem isUnprefixed_ofAttribute (options : Options) {selector : AttributeSelector}
    (unqualified : selector.ns = none) : (ofAttribute options selector).IsUnprefixed := by
  unfold ofAttribute
  rw [unqualified]
  exact isUnprefixed_compare (isUnprefixed_attributeNamed _) _ _

theorem isUnprefixed_ofClass (options : Options) (name : String) :
    (ofClass options name).IsUnprefixed :=
  isUnprefixed_hasWord (isUnprefixed_attributeNamed _) name

theorem isUnprefixed_ofId (options : Options) (value : String) :
    (ofId options value).IsUnprefixed :=
  (isUnprefixed_attributeNamed _).binary .equal (isUnprefixed_literal value)

/-! ### Pseudo-classes without arguments -/

theorem isUnprefixed_isNamed (name : String) : (isNamed name).IsUnprefixed :=
  (isUnprefixed_self.call .name).binary .equal (isUnprefixed_literal name)

theorem isUnprefixed_own {name : String} (paired : ColonsPaired name) : (own name).IsUnprefixed :=
  isUnprefixed_step .attribute paired (by simp)

theorem isUnprefixed_isOneOf (first : String) (rest : List String) :
    (isOneOf first rest).IsUnprefixed :=
  ((isUnprefixed_isNamed first).foldl .or
    (List.forall_mem_map.mpr fun name _ => isUnprefixed_isNamed name)).group

theorem isUnprefixed_ownDisabled : (own "disabled").IsUnprefixed :=
  isUnprefixed_own (by decide)

theorem isUnprefixed_inDisabled {name : String} (paired : ColonsPaired name) :
    (inDisabled name).IsUnprefixed :=
  isUnprefixed_step _ paired (by simpa using isUnprefixed_ownDisabled)

theorem isUnprefixed_ownType : (own "type").IsUnprefixed := isUnprefixed_own (by decide)

theorem isUnprefixed_textControlOr {others : List Expr}
    (all : ∀ expr ∈ others, expr.IsUnprefixed) : (textControlOr others).IsUnprefixed := by
  have visible := isUnprefixed_ownType.binary .notEqual (isUnprefixed_literal "hidden")
  have input := ((isUnprefixed_isNamed "input").binary .and visible).group
  refine input.foldl .or ?_
  simpa [isUnprefixed_isNamed] using all

theorem isUnprefixed_checked : checked.IsUnprefixed := by
  have selected : (own "selected").IsUnprefixed := isUnprefixed_own (by decide)
  have checked : (own "checked").IsUnprefixed := isUnprefixed_own (by decide)
  have option := (selected.binary .and (isUnprefixed_isNamed "option")).group
  have box := isUnprefixed_ownType.binary .equal (isUnprefixed_literal "checkbox")
  have radio := isUnprefixed_ownType.binary .equal (isUnprefixed_literal "radio")
  have button := checked.binary .and (isUnprefixed_isOneOf "input" ["command"])
  exact option.binary .or (button.binary .and (box.binary .or radio).group).group

theorem isUnprefixed_link : link.IsUnprefixed := by
  have href : (own "href").IsUnprefixed := isUnprefixed_own (by decide)
  exact href.binary .and (isUnprefixed_isOneOf "a" ["link", "area"])

theorem isUnprefixed_disabled : disabled.IsUnprefixed := by
  have controls := (isUnprefixed_textControlOr (List.forall_mem_singleton.mpr
    (isUnprefixed_isOneOf "command" ["fieldset", "optgroup", "option"]))).group
  have fieldset : ColonsPaired "fieldset" := by decide
  have inherited := (isUnprefixed_textControlOr (List.forall_mem_nil _)).group.binary .and
    (isUnprefixed_inDisabled fieldset)
  exact (isUnprefixed_ownDisabled.binary .and controls).group.binary .or inherited.group

theorem isUnprefixed_enabled : enabled.IsUnprefixed := by
  have names : ColonsPaired "fieldset" ∧ ColonsPaired "optgroup" := by decide
  have free {name : String} (paired : ColonsPaired name) :
      (Expr.call .not [.binary .or (own "disabled") (inDisabled name)]).IsUnprefixed :=
    (isUnprefixed_ownDisabled.binary .or (isUnprefixed_inDisabled paired)).call .not
  have group := ((isUnprefixed_isOneOf "command" ["fieldset", "optgroup"]).binary .and
    (isUnprefixed_ownDisabled.call .not)).group
  have controls := ((isUnprefixed_textControlOr
    (List.forall_mem_singleton.mpr (isUnprefixed_isNamed "keygen"))).group.binary .and
      (free names.1)).group
  have option := ((isUnprefixed_isNamed "option").binary .and (free names.2)).group
  exact isUnprefixed_link.group.foldl .or (by simp [group, controls, option])

/-- The states of links and form controls ask for no name with a prefix. -/
theorem isUnprefixed_inHtml {name : String} {condition : Expr}
    (known : inHtml? name = some condition) : condition.IsUnprefixed := by
  obtain ⟨-, rfl⟩ | ⟨-, rfl⟩ | ⟨-, rfl⟩ | ⟨-, rfl⟩ := inHtml?_cases known
  · exact isUnprefixed_checked
  · exact isUnprefixed_link
  · exact isUnprefixed_disabled
  · exact isUnprefixed_enabled

theorem isUnprefixed_countIs {nodes : Expr} (unprefixed : nodes.IsUnprefixed) (number : Int) :
    (countIs nodes number).IsUnprefixed :=
  (unprefixed.call .count).binary .equal (isUnprefixed_integer number)

theorem isUnprefixed_siblingsAlong (axis : Axis) {test : String} (paired : ColonsPaired test) :
    (siblingsAlong axis test).IsUnprefixed :=
  isUnprefixed_step _ paired (by simp)

theorem isUnprefixed_childrenOfParent {test : String} (paired : ColonsPaired test) :
    (childrenOfParent test).IsUnprefixed := by
  have parents : (Expr.step (.named .parent) "*" []).IsUnprefixed := by decide
  exact parents.slash _ paired (by simp)

section PseudoClass

variable {path : LocationPath} {name : String} {result : Expr}

theorem Structural.isUnprefixed (structural : Structural path name result)
    (noColon : name ∈ ofTypeNames → ∀ type ∈ path.namedType?, ':' ∉ type.toList) :
    result.IsUnprefixed := by
  have along (axis : Axis) (type : String) (paired : ColonsPaired type) :
      (countIs (siblingsAlong axis type) 0).IsUnprefixed :=
    isUnprefixed_countIs (isUnprefixed_siblingsAlong axis paired) 0
  have only (type : String) (paired : ColonsPaired type) :
      (countIs (childrenOfParent type) 1).IsUnprefixed :=
    isUnprefixed_countIs (isUnprefixed_childrenOfParent paired) 1
  cases structural with
  | firstOfType named | lastOfType named =>
    exact along _ _ (colonsPaired_of_namedType? named (noColon (by decide) _ named))
  | onlyOfType named =>
    exact only _ (colonsPaired_of_namedType? named (noColon (by decide) _ named))
  | root | scope | firstChild | lastChild | onlyChild | empty | never => decide

/-- A prefix comes in only with the type that is counted. -/
theorem isUnprefixed_ofPseudoClass {options : Options}
    (noColon : name ∈ ofTypeNames → ∀ type ∈ path.namedType?, ':' ∉ type.toList)
    (compiled : ofPseudoClass options path name = .ok result) : result.IsUnprefixed := by
  obtain known | structural := ofPseudoClass_cases compiled
  · exact isUnprefixed_inHtml known
  · exact structural.isUnprefixed noColon

end PseudoClass

/-! ### Text and language -/

theorem isUnprefixed_containsText (value : String) : (containsText value).IsUnprefixed :=
  isUnprefixed_callWith isUnprefixed_self .contains value

theorem isUnprefixed_ofLanguage (options : Options) (value : String) :
    (ofLanguage options value).IsUnprefixed := by
  unfold ofLanguage
  split
  · have attr := isUnprefixed_attributeNamed options.langAttribute
    have small : (Expr.call .translate [attributeNamed options.langAttribute, .literal capitals,
        .literal smallLetters]).IsUnprefixed :=
      isUnprefixed_call _ (by simp [attr, isUnprefixed_literal])
    have folded : (foldedWithHyphen (attributeNamed options.langAttribute)).IsUnprefixed :=
      isUnprefixed_call _ (by simp [small, isUnprefixed_literal])
    exact isUnprefixed_step _ LocationPath.colonsPaired_star
      (by simp [attr, isUnprefixed_integer, isUnprefixed_callWith folded])
  · exact (isUnprefixed_literal value).call .lang

/-! ### Positions -/

theorem isUnprefixed_fromLast (b : Int) : (fromLast b).IsUnprefixed := by
  have last : lastPosition.IsUnprefixed := by decide
  unfold fromLast
  split
  · exact last
  split
  · exact last.binary _ (isUnprefixed_integer _)
  · exact last.binary _ (isUnprefixed_integer _)

theorem isUnprefixed_minusNumber {expr : Expr} (unprefixed : expr.IsUnprefixed) (n : Int) :
    (minusNumber expr n).IsUnprefixed := by
  unfold minusNumber
  split
  · exact unprefixed.binary _ (isUnprefixed_integer _)
  · exact unprefixed.binary _ (isUnprefixed_integer _)

theorem isUnprefixed_position : position.IsUnprefixed := by decide

end Condition

open Condition

namespace Direction

theorem isUnprefixed_anchor (direction : Direction) (b : Int) :
    (direction.anchor b).IsUnprefixed := by
  cases direction with
  | fromStart => exact isUnprefixed_integer b
  | fromEnd => exact isUnprefixed_fromLast b

theorem isUnprefixed_distance (direction : Direction) (b : Int) :
    (direction.distance b).IsUnprefixed := by
  cases direction with
  | fromStart => exact isUnprefixed_minusNumber isUnprefixed_position b
  | fromEnd =>
    have difference : (Expr.binary (.minus .both) position lastPosition).IsUnprefixed := by
      decide
    exact isUnprefixed_minusNumber difference (1 - b)

end Direction

theorem Series.isUnprefixed_condition (series : Series) (direction : Direction) :
    ∀ condition ∈ series.condition? direction, condition.IsUnprefixed := by
  refine isUnprefixed_join .and fun condition member => ?_
  have anchored (operator : XPath.Operator) (b : Int) :
      (Expr.binary operator position (direction.anchor b)).IsUnprefixed :=
    isUnprefixed_position.binary operator (direction.isUnprefixed_anchor b)
  unfold conditions at member
  simp only at member
  split at member
  · rw [List.mem_singleton.mp member]
    exact anchored _ _
  rcases List.mem_append.mp member with first | second
  · split at first
    · simp at first
    · rw [List.mem_singleton.mp first]
      have distance := (direction.isUnprefixed_distance series.b.toInt).group
      exact (distance.binary .modulo (isUnprefixed_integer _)).binary .equal
        (isUnprefixed_integer 0)
  · split at second
    · simp at second
    · rw [List.mem_singleton.mp second]
      exact anchored _ _

/-! ### Functional pseudo-classes -/

namespace FunctionalClass

variable {path restricted : LocationPath} {call : FunctionCall}

/-- A call that counts elements writes the name of their type if it counts those of one type. -/
theorem isUnprefixed_restrictPosition (unprefixed : path.IsUnprefixed) {direction : Direction}
    {counting : Counting}
    (noColon : ∀ series, Series.parse call.arguments = .ok series → counting = .sameType →
      series.condition? direction ≠ none → ∀ type ∈ path.namedType?, ':' ∉ type.toList)
    (compiled : restrictPosition path call direction counting = .ok restricted) :
    restricted.IsUnprefixed := by
  cases counting with
  | children =>
    obtain ⟨series, _, rfl⟩ := restrictPosition_children_eq_ok_iff.mp compiled
    exact unprefixed.addNameTest.addPosition (series.isUnprefixed_condition direction)
  | sameType =>
    obtain ⟨type, series, named, parsed, rfl⟩ := restrictPosition_sameType_eq_ok_iff.mp compiled
    refine unprefixed.addPositionAmong (fun restricts => ?_)
      (series.isUnprefixed_condition direction)
    exact colonsPaired_of_namedType? named (noColon series parsed rfl restricts type named)

theorem isUnprefixed_restrictLiteral (unprefixed : path.IsUnprefixed) {condition : String → Expr}
    (also : ∀ value, (condition value).IsUnprefixed)
    (compiled : restrictLiteral path call condition = .ok restricted) :
    restricted.IsUnprefixed := by
  obtain ⟨value, _, rfl⟩ := restrictLiteral_eq_ok_iff.mp compiled
  exact unprefixed.addCondition (also value)

end FunctionalClass

end SelectorPath
