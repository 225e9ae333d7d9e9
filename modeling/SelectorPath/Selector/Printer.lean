import SelectorPath.Selector.Basic
import SelectorPath.Text.Identifier

/-!
# Selectors as text

Every part of a selector is written in one fixed way: `*` where no type is named, one space around a
combinator, no blanks elsewhere but behind the commas of a list. Names are escaped where the grammar
needs it; the names of pseudo-classes and functions, and argument tokens, are written as they are.

## Main definitions

* `Selector.Tree.css`, `Selector.css`
-/

namespace SelectorPath

/-- A namespace in front of a name. -/
def qualifierCss : Option String → String
  | none => ""
  | some ns => Text.identifier ns ++ "|"

/-- The value in an attribute selector: an identifier escaped anew, any other token as it is. -/
def Token.attributeValueCss (token : Token) : String :=
  if token.kind = .ident then Text.identifier token.value else token.css

/-- An attribute selector. The operator is written with a value only. -/
def AttributeSelector.css (selector : AttributeSelector) : String :=
  let comparison :=
    match selector.value with
    | none => ""
    | some value => selector.operator.symbol ++ value.attributeValueCss
  "[" ++ qualifierCss selector.ns ++ Text.identifier selector.name ++ comparison ++ "]"

/-- What a combinator puts between two selectors. -/
def Combinator.between : Combinator → String
  | .descendant => " "
  | combinator => " " ++ combinator.symbol ++ " "

/-- What a combinator puts in front of the argument of `:has()`. -/
def Combinator.before : Combinator → String
  | .descendant => ""
  | combinator => combinator.symbol ++ " "

namespace Selector

/-- A simple selector. -/
def Simple.css : Simple → String
  | .className name => "." ++ Text.identifier name
  | .id value => "#" ++ Text.identifier value
  | .attribute selector => selector.css
  | .pseudoClass name => ":" ++ name
  | .function call => ":" ++ call.css

/-- A type selector. -/
def typeCss (ns name : Option String) : String :=
  qualifierCss ns ++
    match name with
    | none => "*"
    | some name => Text.identifier name

/-- The opening of a list of alternatives. -/
def alternationCss : Alternation → String
  | .matchesAny => ":is("
  | .specificityAdjustment => ":where("

mutual

/-- The text of a tree. -/
def Tree.css : Tree → String
  | .element ns name => typeCss ns name
  | .restricted base simple => base.css ++ simple.css
  | .negation base argument => base.css ++ ":not(" ++ argument.css ++ ")"
  | .anyOf kind base arguments =>
    base.css ++ alternationCss kind ++ Tree.listCss arguments ++ ")"
  | .relation base combinator argument =>
    base.css ++ ":has(" ++ combinator.before ++ argument.css ++ ")"
  | .combined left combinator right => left.css ++ combinator.between ++ right.css

/-- The texts of several trees, separated by commas. -/
def Tree.listCss : List Tree → String
  | [] => ""
  | [tree] => tree.css
  | tree :: next :: rest => tree.css ++ ", " ++ Tree.listCss (next :: rest)

end

end Selector

/-- The text of a selector. -/
def Selector.css (selector : Selector) : String :=
  match selector.pseudoElement with
  | none => selector.tree.css
  | some pseudo => selector.tree.css ++ "::" ++ pseudo.css

end SelectorPath
