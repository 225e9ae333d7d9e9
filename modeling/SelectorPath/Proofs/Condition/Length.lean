import SelectorPath.Condition.FunctionalClass
import SelectorPath.Condition.PseudoClass
import SelectorPath.Proofs.Condition.Attributes
import SelectorPath.Proofs.XPath.Length
import SelectorPath.Selector.Printer

/-!
# How long conditions are

The text of a condition is bounded by the names and values that the simple selector has, and by the
name of the type where the condition counts elements of that type. The numbers of a series are those
of 32 bits, so that they take a fixed number of characters at most.

## Main results

* `Condition.length_ofAttribute_le`, `Condition.length_ofClass_le`, `Condition.length_ofId_le`
* `Condition.Structural.length_le` — pseudo-classes without arguments
* `Series.length_condition_le` — conditions on positions
* `Condition.length_containsText_le`, `Condition.length_ofLanguage_le` — conditions on a text
-/

namespace SelectorPath

open XPath

/-! ### Names and values as they are printed -/

theorem Text.length_le_identifier (text : String) : text.length ≤ (identifier text).length := by
  have one (c : Char) : 1 ≤ (identifierChar c).length := by
    unfold identifierChar
    split <;> simp
  have rest (cs : List Char) : cs.length ≤ (cs.flatMap identifierChar).length := by
    induction cs with
    | nil => exact Nat.le_refl _
    | cons c cs ih =>
      have := one c
      rw [List.flatMap_cons, List.length_append, List.length_cons]
      omega
  rw [← String.length_toList, ← String.length_toList, toList_identifier]
  cases text.toList with
  | nil => exact Nat.le_refl _
  | cons c cs =>
    have first : 1 ≤ (identifierStart c).length := by
      unfold identifierStart
      split
      · simp
      · exact one c
    have := rest cs
    rw [identifierChars, List.length_append, List.length_cons]
    omega

theorem Token.length_le_quoted (text : String) : text.length + 2 ≤ (quoted text).length := by
  have more (cs : List Char) : cs.length ≤ (cs.flatMap quotedChar).length := by
    induction cs with
    | nil => exact Nat.le_refl _
    | cons c cs ih =>
      have one : 1 ≤ (quotedChar c).length := by
        unfold quotedChar
        split <;> simp
      rw [List.flatMap_cons, List.length_append, List.length_cons]
      omega
  have := more text.toList
  simp [← String.length_toList, quoted] at *
  omega

/-- A token has its value in its text. -/
theorem Token.length_value_le {token : Token} (literal : token.kind = .string ∨ token.kind = .ident) :
    token.value.length ≤ token.css.length ∧
      token.value.length ≤ token.attributeValueCss.length := by
  have quoted := length_le_quoted token.value
  have identifier := Text.length_le_identifier token.value
  rcases literal with kind | kind
  · simp only [attributeValueCss, css, kind, reduceCtorEq, if_false]
    omega
  · simp only [attributeValueCss, css, kind, if_true]
    omega

theorem length_le_qualifierCss (ns : String) : ns.length + 1 ≤ (qualifierCss (some ns)).length := by
  have := Text.length_le_identifier ns
  have bar : "|".length = 1 := rfl
  rw [qualifierCss, String.length_append]
  omega

namespace Condition

/-! ### Attributes -/

theorem length_attributeNamed_le (name : String) :
    (attributeNamed name).text.length ≤ 5 * name.length + 31 := by
  have compared := Expr.length_nameIs_le name
  unfold attributeNamed
  split
  · simp [← String.length_toList, Expr.text, Expr.predicatesText, AxisSpecifier.text]
    omega
  · simp [← String.length_toList, Expr.text, Expr.predicatesText, AxisSpecifier.text,
      Axis.text] at *
    omega

theorem length_attributeInNamespace_le (ns name : String) :
    (attributeInNamespace ns name).text.length ≤ 5 * (ns.length + name.length) + 36 := by
  have joined := length_attributeNamed_le (ns ++ ":" ++ name)
  unfold attributeInNamespace
  split
  · simp [← String.length_toList, Expr.text, Expr.predicatesText, AxisSpecifier.text]
    omega
  · simp [← String.length_toList] at *
    omega

section Compare

variable (attr : Expr) (value : String)

theorem length_hasWord_le :
    (hasWord attr value).text.length ≤ 2 * attr.text.length + 5 * value.length + 70 := by
  have quoted := length_quote_le (" " ++ value ++ " ")
  have space : quote " " = "' '" := by decide
  unfold hasWord
  split
  · simp [← String.length_toList, Expr.text, Expr.listText, Function.text, Operator.text,
      space] at *
    omega
  · have zero : never.text.length = 1 := by decide
    omega

/-- The place where the text would start is a number of fewer digits than the text has
characters. -/
theorem length_hasSuffix_le (nonempty : value.toList.isEmpty = false) :
    (hasSuffix attr value).text.length ≤ 2 * attr.text.length + 6 * value.length + 50 := by
  have quoted := length_quote_le value
  have positive : 0 < value.length := by
    rw [← String.length_toList]
    exact List.length_pos_iff.mpr (by simpa using nonempty)
  have digits : (toString ((value.length : Int) - 1)).length ≤ value.length + 1 :=
    length_toString_le positive <| by
      have power := Nat.lt_pow_self (n := value.length) (by decide : 1 < 10)
      omega
  simp [← String.length_toList, hasSuffix, Expr.text, Expr.listText, Function.text, Operator.text,
    Spacing.around] at *
  omega

theorem length_compare_le (operator : AttributeOperator) :
    (compare attr operator value).text.length ≤ 3 * attr.text.length + 10 * value.length + 80 := by
  have quoted := length_quote_le value
  have zero : never.text.length = 1 := by decide
  cases operator with
  | present =>
    rw [compare]
    omega
  | includes =>
    have word := length_hasWord_le attr value
    rw [compare]
    omega
  | suffixMatch =>
    rw [compare, unlessEmpty]
    split
    · omega
    · rename_i nonempty
      have suffix := length_hasSuffix_le attr value (by simpa using nonempty)
      simp [← String.length_toList, ifPresent, Expr.text, Operator.text] at *
      omega
  | prefixMatch | substringMatch =>
    rw [compare, unlessEmpty]
    split
    · omega
    · simp [← String.length_toList, ifPresent, Expr.text, Expr.listText, Function.text,
        Operator.text] at *
      omega
  | dashMatch =>
    have hyphen := length_quote_le (value ++ "-")
    simp [← String.length_toList, compare, ifPresent, Expr.text, Expr.listText, Function.text,
      Operator.text] at *
    omega
  | equal | notEqual =>
    simp [← String.length_toList, compare, Expr.text, Expr.listText, Function.text,
      Operator.text] at *
    omega

end Compare

theorem length_ofClass_le (name : String) :
    (ofClass .generic name).text.length ≤ 5 * name.length + 82 := by
  have word := length_hasWord_le (attributeNamed "class") name
  have attr : (attributeNamed "class").text.length = 6 := by decide +kernel
  show (hasWord (attributeNamed "class") name).text.length ≤ _
  omega

theorem length_ofId_le (value : String) :
    (ofId .generic value).text.length ≤ 5 * value.length + 14 := by
  have quoted := length_quote_le value
  have attr : (attributeNamed "id").text = "@id" := by decide +kernel
  show ((attributeNamed "id").text ++ Operator.equal.text ++ quote value).length ≤ _
  simp [← String.length_toList, attr, Operator.text] at *
  omega

/-- The attribute that a selector asks for has its name behind its namespace. -/
theorem exists_ofAttribute_length_le (selector : AttributeSelector) : ∃ attr,
    ofAttribute .generic selector = compare attr selector.operator (selector.operand .generic) ∧
      attr.text.length ≤ 5 * ((qualifierCss selector.ns).length + selector.name.length) + 31 := by
  obtain ⟨ns, name, operator, value⟩ := selector
  cases ns with
  | none =>
    have named := length_attributeNamed_le name
    exact ⟨attributeNamed name, rfl, by dsimp only; omega⟩
  | some ns =>
    have named := length_attributeInNamespace_le ns name
    have qualifier := length_le_qualifierCss ns
    exact ⟨attributeInNamespace ns name, rfl, by dsimp only; omega⟩

/-- The name of an attribute is written three times at most, and its value twice. -/
theorem length_ofAttribute_le {selector : AttributeSelector}
    (literal : ∀ token ∈ selector.value, token.kind = .string ∨ token.kind = .ident) :
    (ofAttribute .generic selector).text.length ≤ 15 * selector.css.length + 158 := by
  obtain ⟨attr, same, named⟩ := exists_ofAttribute_length_le selector
  have identifier := Text.length_le_identifier selector.name
  have compared := length_compare_le attr (selector.operand .generic) selector.operator
  have printed : (qualifierCss selector.ns).length + (Text.identifier selector.name).length +
      (selector.operand .generic).length + 2 ≤ selector.css.length := by
    cases value : selector.value with
    | none =>
      have empty : (selector.operand .generic).length = 0 := by
        simp [AttributeSelector.operand, value]
      simp only [← String.length_toList, AttributeSelector.css, value, String.toList_append,
        List.length_append] at *
      have brackets : "[".toList.length = 1 ∧ "]".toList.length = 1 := ⟨rfl, rfl⟩
      omega
    | some token =>
      have := (Token.length_value_le (literal token value)).2
      simp [← String.length_toList, AttributeSelector.css, AttributeSelector.operand, value,
        Options.foldCase, Options.generic] at *
      omega
  rw [same]
  omega

/-! ### Pseudo-classes -/

section PseudoClass

variable {path : LocationPath} {n : ℕ} {name : String} {condition : Expr}

theorem length_siblingsAlong_le (axis : Axis) (test : String) :
    (countIs (siblingsAlong axis test) 0).text.length ≤ test.length + 31 := by
  have zero : toString (0 : Int) = "0" := rfl
  cases axis <;>
    simp [← String.length_toList, countIs, siblingsAlong, Expr.text, Expr.listText, Function.text,
      Operator.text, Expr.predicatesText, AxisSpecifier.text, Axis.text, zero]

theorem length_childrenOfParent_le (test : String) :
    (countIs (childrenOfParent test) 1).text.length ≤ test.length + 31 := by
  have one : toString (1 : Int) = "1" := rfl
  simp [← String.length_toList, countIs, childrenOfParent, Expr.text, Expr.listText,
    Function.text, Operator.text, Expr.predicatesText, AxisSpecifier.text, Axis.text, one]

/-- A pseudo-class without arguments writes the name of the type at most once. -/
theorem Structural.length_le (structural : Structural path name condition)
    (within : path.NamesWithin n) : condition.text.length ≤ n + 40 := by
  have star : "*".length = 1 := rfl
  have short {type : String} (named : path.namedType? = some type) : type.length ≤ n :=
    within.type type (Option.filter_eq_some_iff.mp named).1
  cases structural with
  | firstChild | lastChild =>
    exact (length_siblingsAlong_le _ "*").trans (by omega)
  | onlyChild => exact (length_childrenOfParent_le "*").trans (by omega)
  | firstOfType named | lastOfType named =>
    have := short named
    exact (length_siblingsAlong_le _ _).trans (by omega)
  | onlyOfType named =>
    have := short named
    exact (length_childrenOfParent_le _).trans (by omega)
  | root | scope | empty | never => exact (by decide : _ ≤ 40).trans (Nat.le_add_left 40 n)

theorem length_ofPseudoClass_le (within : path.NamesWithin n)
    (compiled : ofPseudoClass .generic path name = .ok condition) :
    condition.text.length ≤ n + 40 :=
  (structural_cases compiled).length_le within

end PseudoClass

/-! ### Texts and languages -/

theorem length_containsText_le (value : String) :
    (containsText value).text.length ≤ 5 * value.length + 25 := by
  have quoted := length_quote_le value
  simp [← String.length_toList, containsText, Expr.text, Expr.listText, Function.text] at *
  omega

theorem length_ofLanguage_le (value : String) :
    (ofLanguage .generic value).text.length ≤ 5 * value.length + 25 := by
  have quoted := length_quote_le value
  have plain : ofLanguage .generic value = .call .lang [.literal value] := rfl
  rw [plain]
  simp [← String.length_toList, Expr.text, Expr.listText, Function.text] at *
  omega

/-! ### Positions -/

/-- A number next to those of 32 bits. -/
theorem length_integer_le {value : Int} (small : value.natAbs < 10 ^ 10) :
    (Expr.integer value).text.length ≤ 11 := by
  rw [Expr.text]
  exact length_toString_le (by decide) small

theorem length_minusNumber_le {expr : Expr} {value : Int} (small : value.natAbs < 10 ^ 10) :
    (minusNumber expr value).text.length ≤ expr.text.length + 14 := by
  have number := length_integer_le small
  have opposite : (Expr.integer (-value)).text.length ≤ 11 :=
    length_integer_le (by rwa [Int.natAbs_neg])
  unfold minusNumber
  split <;>
    simp only [← String.length_toList, Expr.text, Operator.text, Spacing.around,
      String.toList_append, List.length_append] at * <;>
    simp at * <;>
    omega

end Condition

namespace Direction

open Condition

variable {b : Int} (small : b.natAbs ≤ 2 ^ 31)

include small

theorem length_anchor_le (direction : Direction) : (direction.anchor b).text.length ≤ 20 := by
  have last : lastPosition.text = "last()" := by decide
  have start : (Expr.integer b).text.length ≤ 11 := length_integer_le (by omega)
  have before : (Expr.integer (1 - b)).text.length ≤ 11 := length_integer_le (by omega)
  have behind : (Expr.integer (b - 1)).text.length ≤ 11 := length_integer_le (by omega)
  cases direction with
  | fromStart =>
    rw [anchor]
    omega
  | fromEnd =>
    rw [anchor, fromLast]
    split
    · rw [last]
      decide
    · split <;>
      · rw [Expr.text, last]
        simp [← String.length_toList, Operator.text, Spacing.around] at *
        omega

theorem length_distance_le (direction : Direction) :
    (direction.distance b).text.length ≤ 33 := by
  cases direction with
  | fromStart =>
    have position : position.text.length = 10 := by decide
    have minus := @length_minusNumber_le Condition.position b (by omega)
    rw [distance]
    omega
  | fromEnd =>
    have difference : (Expr.binary (.minus .both) position lastPosition).text.length = 19 := by
      decide
    have minus := @length_minusNumber_le (.binary (.minus .both) position lastPosition) (1 - b)
      (by omega)
    rw [distance]
    omega

theorem length_isAnchor_le (direction : Direction) :
    (direction.isAnchor b).text.length ≤ 33 := by
  have anchor := length_anchor_le small direction
  have position : position.text = "position()" := by decide
  rw [isAnchor, Expr.text, position]
  simp [← String.length_toList, Operator.text] at *
  omega

theorem length_bound_le (direction : Direction) (step : Int) :
    (direction.bound step b).text.length ≤ 34 := by
  have anchor := length_anchor_le small direction
  have position : position.text = "position()" := by decide
  rw [bound, Expr.text, position]
  split <;>
  · simp [← String.length_toList, Operator.text] at *
    omega

theorem length_remainder_le (direction : Direction) {step : Int} (few : step.natAbs ≤ 2 ^ 31) :
    (direction.remainder step b).text.length ≤ 55 := by
  have distance := length_distance_le small direction
  have group := length_text_group (direction.distance b)
  have number : (Expr.integer step.natAbs).text.length ≤ 11 := length_integer_le (by omega)
  have zero : toString (0 : Int) = "0" := rfl
  rw [remainder, Expr.text, Expr.text, Expr.text, zero]
  simp [← String.length_toList, Operator.text] at *
  omega

end Direction

theorem natAbs_toInt_le (value : Int32) : value.toInt.natAbs ≤ 2 ^ 31 := by
  have least : Int32.minValue.toInt = -2 ^ 31 := rfl
  have greatest : Int32.maxValue.toInt = 2 ^ 31 - 1 := rfl
  have := value.minValue_le_toInt
  have := value.toInt_le
  omega

/-- The condition on positions has a fixed number of characters at most. -/
theorem Series.length_condition_le (series : Series) (direction : Direction) :
    ∀ expr ∈ series.condition? direction, expr.text.length ≤ 100 := by
  intro expr joined
  have start := natAbs_toInt_le series.b
  have step : (direction.step series.a.toInt).natAbs ≤ 2 ^ 31 := by
    have := natAbs_toInt_le series.a
    cases direction
    · exact this
    · rwa [Direction.step, Int.natAbs_neg]
  have and : Operator.and.text.length = 5 := rfl
  have remainder := direction.length_remainder_le start step
  have bound := direction.length_bound_le start (direction.step series.a.toInt)
  have anchor := direction.length_isAnchor_le start
  refine (length_join_le .and joined).trans ?_
  unfold conditions
  dsimp only
  split
  · simp only [List.map_cons, List.map_nil, List.sum_cons, List.sum_nil]
    omega
  · split <;> split <;>
    · simp only [List.nil_append, List.append_nil, List.cons_append, List.map_cons, List.map_nil,
        List.sum_cons, List.sum_nil]
      omega

end SelectorPath
