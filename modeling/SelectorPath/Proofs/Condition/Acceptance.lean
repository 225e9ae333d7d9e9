import SelectorPath.Condition.FunctionalClass
import SelectorPath.Condition.PseudoClass
import SelectorPath.Proofs.XPath.Reading

/-!
# Conditions that can be compiled

A pseudo-class has to be known, and a call has to have arguments of the kind that its function
takes. Those that count elements of one type also need a type to count by: the name that the step
was made with, if it can be written. Conditions, positions and tests of the name are added to a step
in any order and number, and none of them changes that name.

## Main definitions

* `XPath.IsTypeName` — a name that elements can be counted by
* `Condition.knownNames`, `Condition.ofTypeNames` — the pseudo-classes without arguments
* `FunctionalClass.Accepts` — the calls of a functional pseudo-class that can be compiled

## Main results

* `Condition.exists_ofPseudoClass_iff` — the pseudo-classes that have a condition
* `FunctionalClass.exists_restrict_iff` — the calls that restrict a path
* `FunctionalClass.typeName_restrict` — a call keeps the name that the step was made with
-/

namespace SelectorPath

namespace XPath

/-- Elements can be counted by the name: it is not `*`, and it is one plain name or two with a colon
between them. A plain name has no colon, so they are parted at the first one. -/
def IsTypeName (name : String) : Prop :=
  name ≠ "*" ∧ (isPlainName name = true ∨
    ∃ ns rest, isPlainName ns = true ∧ isPlainName rest = true ∧ name = ns ++ ":" ++ rest)

/-- A step has a type to count by if the name it was made with is one. -/
theorem isSome_namedType?_iff {path : LocationPath} {name : String}
    (made : path.typeName = (LocationPath.ofTest name).typeName) :
    path.namedType?.isSome = true ↔ IsTypeName name := by
  unfold LocationPath.namedType? IsTypeName
  rw [made, ← isPlainQName_iff, LocationPath.ofTest]
  by_cases star : name = "*"
  · simp [star]
  · simp [star, Option.filter]

namespace LocationPath

variable (path : LocationPath)

@[simp] theorem typeName_addCondition (condition : Expr) :
    (path.addCondition condition).typeName = path.typeName := rfl

@[simp] theorem typeName_addAlternatives (alternatives : List Expr) :
    (path.addAlternatives alternatives).typeName = path.typeName := by
  unfold addAlternatives
  split <;> rfl

@[simp] theorem typeName_addNameTest : path.addNameTest.typeName = path.typeName := by
  unfold addNameTest
  repeat' split
  all_goals rfl

@[simp] theorem typeName_addStar : path.addStar.typeName = path.typeName := by
  unfold addStar
  split <;> rfl

@[simp] theorem typeName_addPosition (condition : Option Expr) :
    (path.addPosition condition).typeName = path.typeName := by
  unfold addPosition
  split <;> simp

@[simp] theorem typeName_addPositionAmong (type : String) (condition : Option Expr) :
    (path.addPositionAmong type condition).typeName = path.typeName := by
  unfold addPositionAmong
  repeat' split
  all_goals simp

end LocationPath

end XPath

open XPath

/-! ### Pseudo-classes -/

namespace Condition

/-- The pseudo-classes that ask for the place among the elements of one type. -/
def ofTypeNames : List String := ["first-of-type", "last-of-type", "only-of-type"]

/-- The pseudo-classes without arguments. -/
def knownNames : List String :=
  ["root", "scope", "first-child", "last-child", "only-child", "empty"] ++ ofTypeNames
    ++ neverMatching

theorem mem_knownNames_of_inHtml? {name : String} {condition : Expr}
    (known : inHtml? name = some condition) : name ∈ knownNames ∧ name ∉ ofTypeNames := by
  obtain ⟨rfl, -⟩ | ⟨rfl, -⟩ | ⟨rfl, -⟩ | ⟨rfl, -⟩ := inHtml?_cases known
  all_goals decide

theorem exists_ofType_iff {path : LocationPath} {name : String} {condition : String → Expr} :
    (∃ result, ofType path name condition = .ok result) ↔ path.namedType?.isSome = true := by
  unfold ofType
  split <;> simp_all

theorem exists_structural_iff {path : LocationPath} {name : String} :
    (∃ condition, structural path name = .ok condition) ↔
      name ∈ knownNames ∧ (name ∈ ofTypeNames → path.namedType?.isSome = true) := by
  unfold structural
  split
  case h_10 => split <;> simp_all [knownNames, ofTypeNames]
  -- the pseudo-classes of one type need the name of a type, the others nothing
  case h_6 | h_7 | h_8 =>
    rw [exists_ofType_iff]
    simp [knownNames, ofTypeNames]
  all_goals simp [knownNames, ofTypeNames]

/-- A pseudo-class has a condition exactly if it is known, and if there is a type where it needs
one. What it means in HTML makes no difference. -/
theorem exists_ofPseudoClass_iff {options : Options} {path : LocationPath} {name : String} :
    (∃ condition, ofPseudoClass options path name = .ok condition) ↔
      name ∈ knownNames ∧ (name ∈ ofTypeNames → path.namedType?.isSome = true) := by
  unfold ofPseudoClass
  split
  · rename_i condition known
    split at known
    · obtain ⟨member, plain⟩ := mem_knownNames_of_inHtml? known
      simp [member, plain]
    · simp at known
  · exact exists_structural_iff

end Condition

/-! ### Functional pseudo-classes -/

namespace FunctionalClass

/-- The arguments are such as the functional pseudo-class takes behind a type of the given name. -/
def Accepts (type : String) (arguments : List Token) : FunctionalClass → Prop
  | .nthChild | .nthLastChild => ∃ series, Series.parse arguments = .ok series
  | .nthOfType | .nthLastOfType =>
    (∃ series, Series.parse arguments = .ok series) ∧ IsTypeName type
  | .contains | .lang =>
    arguments ≠ [] ∧ ∀ token ∈ arguments, token.kind = .string ∨ token.kind = .ident

variable {options : Options} {path restricted : LocationPath} {call : FunctionCall}

theorem exists_restrictPosition_iff {direction : Direction} {counting : Counting} :
    (∃ restricted, restrictPosition path call direction counting = .ok restricted) ↔
      (∃ series, Series.parse call.arguments = .ok series) ∧
        (counting = .sameType → path.namedType?.isSome = true) := by
  cases counting with
  | children =>
    simp only [restrictPosition_children_eq_ok_iff]
    rw [exists_comm]
    simp
  | sameType =>
    simp only [restrictPosition_sameType_eq_ok_iff, Option.isSome_iff_exists]
    constructor
    · rintro ⟨_, type, series, named, parsed, _⟩
      exact ⟨⟨series, parsed⟩, fun _ => ⟨type, named⟩⟩
    · rintro ⟨⟨series, parsed⟩, typed⟩
      obtain ⟨type, named⟩ := typed trivial
      exact ⟨_, type, series, named, parsed, rfl⟩

theorem exists_restrictLiteral_iff {condition : String → Expr} :
    (∃ restricted, restrictLiteral path call condition = .ok restricted) ↔
      call.arguments ≠ [] ∧
        ∀ token ∈ call.arguments, token.kind = .string ∨ token.kind = .ident := by
  have literal (token : Token) :
      token.isLiteral = true ↔ token.kind = .string ∨ token.kind = .ident := by
    simp [Token.isLiteral]
  simp only [← literal]
  constructor
  · rintro ⟨restricted, compiled⟩
    obtain ⟨value, read, _⟩ := restrictLiteral_eq_ok_iff.mp compiled
    obtain ⟨⟨first, rest, arguments, -⟩, literals⟩ := literalArgument_eq_ok_iff.mp read
    exact ⟨by simp [arguments], literals⟩
  · rintro ⟨some, literals⟩
    obtain ⟨first, rest, arguments⟩ := List.exists_cons_of_ne_nil some
    have read := literalArgument_eq_ok_iff.mpr ⟨⟨first, rest, arguments, rfl⟩, literals⟩
    exact ⟨_, restrictLiteral_eq_ok_iff.mpr ⟨first.value, read, rfl⟩⟩

/-- A call restricts a path exactly if its arguments are such as the function takes. -/
theorem exists_restrict_iff {function : FunctionalClass} {type : String}
    (made : path.typeName = (LocationPath.ofTest type).typeName) :
    (∃ restricted, function.restrict options path call = .ok restricted) ↔
      function.Accepts type call.arguments := by
  have typed := isSome_namedType?_iff made
  unfold restrict
  cases function <;>
    simp [exists_restrictPosition_iff, exists_restrictLiteral_iff, Accepts, typed]

/-- A call keeps the name that the step was made with. -/
theorem typeName_restrict {function : FunctionalClass}
    (compiled : function.restrict options path call = .ok restricted) :
    restricted.typeName = path.typeName := by
  obtain ⟨series, direction, rfl⟩ | ⟨series, direction, type, -, rfl⟩ | ⟨value, rfl | rfl⟩ :=
    restrict_cases compiled
  all_goals simp

end FunctionalClass

end SelectorPath
