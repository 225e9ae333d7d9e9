import Mathlib.Data.List.Forall2
import SelectorPath.Proofs.Selector.Offsets
import SelectorPath.Proofs.Selector.ValidText

/-!
# The expression of two groups with a comma between them

The compilation reads the values of tokens, and of their offsets only whether there is a gap between
two. So a selector that stands behind other text is compiled to the same path, and the expression of
two groups with a comma between them is the union of their expressions. An error, in contrast, can
show the offsets of tokens.

## Main results

* `Selector.Tree.pathFrom_shift` — the path of a tree at later offsets
* `Options.xpath_append_comma` — the expression of two groups with a comma between them
-/

namespace SelectorPath

open XPath

/-! ### Tokens at later offsets -/

section Token

variable {render : Token → String}
  (same : ∀ distance token, render (Token.shift distance token) = render token) (distance : Nat)

include same

theorem Token.joinAfter_shift (previous : Nat) (tokens : List Token) :
    Token.joinAfter render (previous + distance) (tokens.map (Token.shift distance)) =
      Token.joinAfter render previous tokens := by
  induction tokens generalizing previous with
  | nil => rfl
  | cons token rest ih =>
    have stop : (token.shift distance).endPos = token.endPos + distance := by
      simp only [Token.endPos, Token.shift]
      omega
    -- of the offsets only the gap between two tokens matters
    have gap : previous + distance < (token.shift distance).pos ↔ previous < token.pos :=
      Nat.add_lt_add_iff_right
    simp only [List.map_cons, Token.joinAfter, same, stop, ih, gap]

/-- Tokens at later offsets have the same gaps between them. -/
theorem Token.join_shift (tokens : List Token) :
    Token.join render (tokens.map (Token.shift distance)) = Token.join render tokens := by
  cases tokens with
  | nil => rfl
  | cons token rest =>
    have stop : (token.shift distance).endPos = token.endPos + distance := by
      simp only [Token.endPos, Token.shift]
      omega
    simp only [List.map_cons, Token.join, same, stop, Token.joinAfter_shift same]

end Token

theorem Series.parse_shift (distance : Nat) (tokens : List Token) :
    Series.parse (tokens.map (Token.shift distance)) = Series.parse tokens := by
  have text : Series.argumentText (tokens.map (Token.shift distance)) =
      Series.argumentText tokens := by
    unfold Series.argumentText
    rw [Token.join_shift fun _ _ => rfl]
  have kinds : (tokens.map (Token.shift distance)).any (fun token => token.kind == .string) =
      tokens.any fun token => token.kind == .string := by
    rw [List.any_map]
    rfl
  unfold Series.parse
  rw [text, kinds]

/-! ### Paths -/

namespace FunctionalClass

variable {options : Options} {path restricted : LocationPath} {call : FunctionCall}

theorem restrictPosition_shift (distance : Nat) {direction : Direction} {counting : Counting}
    (compiled : restrictPosition path call direction counting = .ok restricted) :
    restrictPosition path (call.shift distance) direction counting = .ok restricted := by
  have same := Series.parse_shift distance call.arguments
  cases counting with
  | children =>
    obtain ⟨series, parsed, rfl⟩ := restrictPosition_children_eq_ok_iff.mp compiled
    exact restrictPosition_children_eq_ok_iff.mpr ⟨series, same.trans parsed, rfl⟩
  | sameType =>
    obtain ⟨type, series, named, parsed, rfl⟩ := restrictPosition_sameType_eq_ok_iff.mp compiled
    exact restrictPosition_sameType_eq_ok_iff.mpr ⟨type, series, named, same.trans parsed, rfl⟩

theorem literalArgument_shift (distance : Nat) {value : String}
    (read : literalArgument call = .ok value) :
    literalArgument (call.shift distance) = .ok value := by
  obtain ⟨⟨first, rest, arguments, same⟩, literals⟩ := literalArgument_eq_ok_iff.mp read
  refine literalArgument_eq_ok_iff.mpr
    ⟨⟨first.shift distance, rest.map (Token.shift distance), ?_, same⟩, ?_⟩
  · rw [FunctionCall.shift, arguments, List.map_cons]
  · exact List.forall_mem_map.mpr literals

theorem restrictLiteral_shift (distance : Nat) {condition : String → Expr}
    (compiled : restrictLiteral path call condition = .ok restricted) :
    restrictLiteral path (call.shift distance) condition = .ok restricted := by
  obtain ⟨value, read, rfl⟩ := restrictLiteral_eq_ok_iff.mp compiled
  exact restrictLiteral_eq_ok_iff.mpr ⟨value, literalArgument_shift distance read, rfl⟩

theorem restrict_shift (distance : Nat) {function : FunctionalClass}
    (compiled : function.restrict options path call = .ok restricted) :
    function.restrict options path (call.shift distance) = .ok restricted := by
  unfold restrict at compiled ⊢
  cases function with
  | nthChild | nthLastChild | nthOfType | nthLastOfType =>
    exact restrictPosition_shift distance compiled
  | contains | lang => exact restrictLiteral_shift distance compiled

end FunctionalClass

theorem Condition.ofAttribute_shift (options : Options) (distance : Nat)
    (selector : AttributeSelector) :
    Condition.ofAttribute options (selector.shift distance) =
      Condition.ofAttribute options selector := by
  obtain ⟨ns, name, operator, value⟩ := selector
  cases value <;> rfl

namespace Selector

variable {options : Options}

theorem Simple.restrict_shift (distance : Nat) {path restricted : LocationPath} {simple : Simple}
    (compiled : simple.restrict options path = .ok restricted) :
    (simple.shift distance).restrict options path = .ok restricted := by
  match simple, compiled with
  | .className _, compiled | .id _, compiled | .pseudoClass _, compiled => exact compiled
  | .attribute selector, compiled =>
    rw [Simple.shift, Simple.restrict, Condition.ofAttribute_shift]
    exact compiled
  | .function call, compiled =>
    obtain ⟨known, name, compiled⟩ := restrict_function_eq_ok_iff.mp compiled
    exact restrict_function_eq_ok_iff.mpr
      ⟨known, name, FunctionalClass.restrict_shift distance compiled⟩

mutual

/-- At later offsets a tree is compiled to the same path. -/
theorem Tree.pathFrom_shift (distance : Nat) {origin : Origin} :
    (tree : Tree) → {path : LocationPath} → tree.pathFrom options origin = .ok path →
      (tree.shift distance).pathFrom options origin = .ok path
  | .element ns name, path, compiled => compiled
  | .restricted base simple, path, compiled => by
    obtain ⟨before, restricted, compiledBase, compiledSimple, rfl⟩ :=
      pathFrom_restricted_eq_ok_iff.mp compiled
    exact pathFrom_restricted_eq_ok_iff.mpr ⟨before, restricted,
      pathFrom_shift distance base compiledBase, simple.restrict_shift distance compiledSimple, rfl⟩
  | .negation base argument, path, compiled => by
    obtain ⟨before, other, compiledBase, compiledArgument, rfl⟩ :=
      pathFrom_negation_eq_ok_iff.mp compiled
    exact pathFrom_negation_eq_ok_iff.mpr ⟨before, other,
      pathFrom_shift distance base compiledBase, pathFrom_shift distance argument compiledArgument,
      rfl⟩
  | .anyOf kind base arguments, path, compiled => by
    obtain ⟨before, alternatives, compiledBase, compiledArguments, rfl⟩ :=
      pathFrom_anyOf_eq_ok_iff.mp compiled
    exact pathFrom_anyOf_eq_ok_iff.mpr ⟨before, alternatives,
      pathFrom_shift distance base compiledBase,
      conditions_shift distance arguments compiledArguments, rfl⟩
  | .relation base combinator argument, path, compiled => by
    obtain ⟨before, related, compiledBase, compiledArgument, rfl⟩ :=
      pathFrom_relation_eq_ok_iff.mp compiled
    exact pathFrom_relation_eq_ok_iff.mpr ⟨before, related,
      pathFrom_shift distance base compiledBase, pathFrom_shift distance argument compiledArgument,
      rfl⟩
  | .combined left combinator right, path, compiled => by
    obtain ⟨before, after, compiledLeft, compiledRight, rfl⟩ :=
      pathFrom_combined_eq_ok_iff.mp compiled
    exact pathFrom_combined_eq_ok_iff.mpr ⟨before, after,
      pathFrom_shift distance left compiledLeft, pathFrom_shift distance right compiledRight, rfl⟩

theorem Tree.conditions_shift (distance : Nat) :
    (trees : List Tree) → {conditions : List Expr} →
      Tree.conditions options trees = .ok conditions →
        Tree.conditions options (Tree.allShift distance trees) = .ok conditions
  | [], conditions, compiled => compiled
  | tree :: trees, conditions, compiled => by
    obtain ⟨path, others, compiledTree, compiledOthers, rfl⟩ :=
      conditions_cons_eq_ok_iff.mp compiled
    exact conditions_cons_eq_ok_iff.mpr ⟨path, others,
      pathFrom_shift distance tree compiledTree, conditions_shift distance trees compiledOthers, rfl⟩

end

end Selector

/-! ### Groups -/

section Group

variable {options : Options} {leading : String}

theorem Selector.xpath_shift (distance : Nat) {selector : Selector} {text : String}
    (compiled : selector.xpath options leading = .ok text) :
    (selector.shift distance).xpath options leading = .ok text := by
  obtain ⟨plain, path, known, rfl⟩ := xpath_eq_ok_iff.mp compiled
  refine xpath_eq_ok_iff.mpr ⟨?_, path, selector.tree.pathFrom_shift distance known, rfl⟩
  rw [shift, plain, Option.map_none]

/-- Several selectors have expressions if each of them has one. -/
theorem xpaths_eq_ok_iff {selectors : List Selector} {texts : List String} :
    xpaths options leading selectors = .ok texts ↔
      List.Forall₂ (fun selector text => selector.xpath options leading = .ok text)
        selectors texts := by
  induction selectors generalizing texts with
  | nil => simp [xpaths, eq_comm]
  | cons selector rest ih =>
    rw [xpaths_cons_eq_ok_iff, List.forall₂_cons_left_iff]
    simp only [ih]

theorem ne_nil_of_xpaths {css : String} {selectors : List Selector} {texts : List String}
    (parsed : Selector.parse css = .ok selectors)
    (compiled : xpaths options leading selectors = .ok texts) : texts ≠ [] := by
  rintro rfl
  exact Selector.parse_ne_nil parsed (List.forall₂_nil_right_iff.mp (xpaths_eq_ok_iff.mp compiled))

/-- The expression of two groups with a comma between them is the union of their expressions. -/
theorem xpathOfGroup_append_comma {first second before after : String}
    (closed : ¬Lexer.HasOpenComment first)
    (compiledFirst : xpathOfGroup options leading first = .ok before)
    (compiledSecond : xpathOfGroup options leading second = .ok after) :
    xpathOfGroup options leading (first ++ "," ++ second) = .ok (before ++ " | " ++ after) := by
  obtain ⟨selectors, texts, parsed, compiled, rfl⟩ := xpathOfGroup_eq_ok_iff.mp compiledFirst
  obtain ⟨selectorsBehind, textsBehind, parsedBehind, compiledBehind, rfl⟩ :=
    xpathOfGroup_eq_ok_iff.mp compiledSecond
  have parsedBoth := Selector.parse_append_comma closed parsed parsedBehind
  have all := xpaths_eq_ok_iff.mp compiled
  have allBehind := xpaths_eq_ok_iff.mp compiledBehind
  refine xpathOfGroup_eq_ok_iff.mpr ⟨_, texts ++ textsBehind, parsedBoth, ?_, ?_⟩
  · -- the selectors behind the comma are those of the second text at later offsets
    refine xpaths_eq_ok_iff.mpr (List.rel_append all (List.forall₂_map_left_iff.mpr ?_))
    exact allBehind.imp fun _ _ => Selector.xpath_shift _
  · rw [String.intercalate_append_of_ne_nil (ne_nil_of_xpaths parsed compiled)
      (ne_nil_of_xpaths parsedBehind compiledBehind)]

end Group

/-- The expression of two groups with a comma between them is the union of their expressions. -/
theorem Options.xpath_append_comma (options : Options) {first second before after : String}
    (closed : ¬Lexer.HasOpenComment first) (compiledFirst : options.xpath first = .ok before)
    (compiledSecond : options.xpath second = .ok after) :
    options.xpath (first ++ "," ++ second) = .ok (before ++ " | " ++ after) :=
  xpathOfGroup_append_comma closed compiledFirst compiledSecond

/-- The gap in the argument of the second group stands at another offset behind the first. -/
theorem Options.xpath_append_comma_gap :
    ¬Lexer.HasOpenComment "a:is(b,c)" ∧
      Options.html.xpath "a:is(b,c)" =
        .ok "descendant-or-self::a[(name() = 'b') or (name() = 'c')]" ∧
      Options.html.xpath "d:nth-child(2n +1)" =
        .ok "descendant-or-self::*/*[(name() = 'd') and ((position() -1) mod 2 = 0)]" ∧
      Options.html.xpath ("a:is(b,c)" ++ "," ++ "d:nth-child(2n +1)") =
        .ok ("descendant-or-self::a[(name() = 'b') or (name() = 'c')]" ++ " | " ++
          "descendant-or-self::*/*[(name() = 'd') and ((position() -1) mod 2 = 0)]") := by
  have closed : ¬Lexer.HasOpenComment "a:is(b,c)" := Lexer.not_hasOpenComment (by decide +kernel)
  have first : Options.html.xpath "a:is(b,c)" =
      .ok "descendant-or-self::a[(name() = 'b') or (name() = 'c')]" := by cbv
  have second : Options.html.xpath "d:nth-child(2n +1)" =
      .ok "descendant-or-self::*/*[(name() = 'd') and ((position() -1) mod 2 = 0)]" := by cbv
  exact ⟨closed, first, second, Options.html.xpath_append_comma closed first second⟩

end SelectorPath
