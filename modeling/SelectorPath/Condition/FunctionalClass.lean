import SelectorPath.CompileError
import SelectorPath.Condition.Content
import SelectorPath.Condition.Position

/-!
# Functional pseudo-classes

Six functional pseudo-classes restrict a step: four by the position among siblings, one by the text
of the element, one by its language.

## Main definitions

* `FunctionalClass`, `FunctionalClass.ofName?`
* `Counting` — the elements among which positions are counted
* `FunctionalClass.restrict` — the path restricted by a call

## Main results

* `FunctionalClass.restrict_cases` — what a call adds to a path
-/

namespace SelectorPath

open XPath

/-- The elements among which positions are counted. -/
inductive Counting
  | /-- All children of the parent. -/
    children
  | /-- The children of the parent with the same name. -/
    sameType
  deriving DecidableEq, Repr

/-- The functional pseudo-classes with a condition of their own. -/
inductive FunctionalClass
  | nthChild
  | nthLastChild
  | nthOfType
  | nthLastOfType
  | contains
  | lang
  deriving DecidableEq, Repr

namespace FunctionalClass

/-- The name in small letters. -/
def name : FunctionalClass → String
  | .nthChild => "nth-child"
  | .nthLastChild => "nth-last-child"
  | .nthOfType => "nth-of-type"
  | .nthLastOfType => "nth-last-of-type"
  | .contains => "contains"
  | .lang => "lang"

/-- All of them. -/
def all : List FunctionalClass :=
  [.nthChild, .nthLastChild, .nthOfType, .nthLastOfType, .contains, .lang]

/-- The functional pseudo-class with a name, which may be written in any case. -/
def ofName? (name : String) : Option FunctionalClass :=
  all.find? fun function => function.name == Text.lowerCase name

/-- Case does not matter for the name. -/
@[simp] theorem ofName?_lowerCase (name : String) :
    ofName? (Text.lowerCase name) = ofName? name := by
  simp [ofName?]

/-- The path whose last step is restricted to the series of positions that a call asks for. -/
def restrictPosition (path : LocationPath) (call : FunctionCall) (direction : Direction)
    (counting : Counting) : Except CompileError LocationPath :=
  match counting with
  | .children =>
    match Series.parse call.arguments with
    | .ok series => .ok (path.addNameTest.addPosition (series.condition? direction))
    | .error e => .error (.malformedSeries call e)
  | .sameType =>
    match path.namedType? with
    | none => .error (.untyped call.css)
    | some type =>
      match Series.parse call.arguments with
      | .ok series => .ok (path.addPositionAmong type (series.condition? direction))
      | .error e => .error (.malformedSeries call e)

/-- The value of the first argument of a call that takes strings and identifiers only. -/
def literalArgument (call : FunctionCall) : Except CompileError String :=
  match call.arguments with
  | [] => .error (.invalidArgument call)
  | first :: _ =>
    if call.arguments.all Token.isLiteral then .ok first.value else .error (.invalidArgument call)

/-- There is a literal argument if there are arguments and all of them are literals. -/
theorem literalArgument_eq_ok_iff {call : FunctionCall} {value : String} :
    literalArgument call = .ok value ↔
      (∃ first rest, call.arguments = first :: rest ∧ first.value = value) ∧
        ∀ token ∈ call.arguments, token.isLiteral = true := by
  unfold literalArgument
  split
  · rename_i nothing
    simp [nothing]
  · rename_i first rest arguments
    rw [← List.all_eq_true]
    split <;> simp_all

/-- The path with a condition about the literal argument of a call. -/
def restrictLiteral (path : LocationPath) (call : FunctionCall) (condition : String → Expr) :
    Except CompileError LocationPath :=
  match literalArgument call with
  | .ok value => .ok (path.addCondition (condition value))
  | .error e => .error e

section Restricted

variable {path restricted : LocationPath} {call : FunctionCall} {direction : Direction}

theorem restrictPosition_children_eq_ok_iff :
    restrictPosition path call direction .children = .ok restricted ↔
      ∃ series, Series.parse call.arguments = .ok series ∧
        restricted = path.addNameTest.addPosition (series.condition? direction) := by
  rw [restrictPosition]
  cases Series.parse call.arguments <;> simp [eq_comm]

/-- Positions of one type are counted in a path that names the type. -/
theorem restrictPosition_sameType_eq_ok_iff :
    restrictPosition path call direction .sameType = .ok restricted ↔
      ∃ type series, path.namedType? = some type ∧ Series.parse call.arguments = .ok series ∧
        restricted = path.addPositionAmong type (series.condition? direction) := by
  rw [restrictPosition]
  cases path.namedType? with
  | none => simp
  | some type => cases Series.parse call.arguments <;> simp [eq_comm]

theorem restrictLiteral_eq_ok_iff {condition : String → Expr} :
    restrictLiteral path call condition = .ok restricted ↔
      ∃ value, literalArgument call = .ok value ∧
        restricted = path.addCondition (condition value) := by
  rw [restrictLiteral]
  cases literalArgument call <;> simp [eq_comm]

end Restricted

/-- The path whose last step is restricted by a call of the functional pseudo-class. -/
def restrict (options : Options) (function : FunctionalClass) (path : LocationPath)
    (call : FunctionCall) : Except CompileError LocationPath :=
  match function with
  | .nthChild => restrictPosition path call .fromStart .children
  | .nthLastChild => restrictPosition path call .fromEnd .children
  | .nthOfType => restrictPosition path call .fromStart .sameType
  | .nthLastOfType => restrictPosition path call .fromEnd .sameType
  | .contains => restrictLiteral path call Condition.containsText
  | .lang => restrictLiteral path call (Condition.ofLanguage options)

/-- A call restricts a path by positions among all children, by positions among those of the type
that the path names, or by a condition about its argument. -/
theorem restrict_cases {options : Options} {function : FunctionalClass}
    {path restricted : LocationPath} {call : FunctionCall}
    (compiled : function.restrict options path call = .ok restricted) :
    (∃ series : Series, ∃ direction,
      restricted = path.addNameTest.addPosition (series.condition? direction)) ∨
    (∃ series : Series, ∃ direction type, path.namedType? = some type ∧
      restricted = path.addPositionAmong type (series.condition? direction)) ∨
    ∃ value, restricted = path.addCondition (Condition.containsText value) ∨
      restricted = path.addCondition (Condition.ofLanguage options value) := by
  cases function with
  | nthChild | nthLastChild =>
    obtain ⟨series, _, same⟩ := restrictPosition_children_eq_ok_iff.mp compiled
    exact .inl ⟨series, _, same⟩
  | nthOfType | nthLastOfType =>
    obtain ⟨type, series, named, _, same⟩ := restrictPosition_sameType_eq_ok_iff.mp compiled
    exact .inr (.inl ⟨series, _, type, named, same⟩)
  | contains =>
    obtain ⟨value, _, same⟩ := restrictLiteral_eq_ok_iff.mp compiled
    exact .inr (.inr ⟨value, .inl same⟩)
  | lang =>
    obtain ⟨value, _, same⟩ := restrictLiteral_eq_ok_iff.mp compiled
    exact .inr (.inr ⟨value, .inr same⟩)

end FunctionalClass

end SelectorPath
