import SelectorPath.Selector.Basic
import SelectorPath.Token.Lexer

/-!
# Syntax errors

Why a text is no selector group. Most errors name the first token that cannot stand where it does,
together with what could.

## Main definitions

* `Selector.Expectation` — what could have stood instead
* `Selector.SyntaxError`, with its `message` and `pos?`
-/

namespace SelectorPath.Selector

/-- What could have stood where an unexpected token does. -/
inductive Expectation
  | selector
  | identifier
  | identifierOrStar
  | bar
  | attributeName
  | operator
  | stringOrIdentifier
  | closingBracket
  | closingParenthesis
  | commaOrParenthesis
  | argument
  deriving DecidableEq, Repr

/-- The wording of an expectation. -/
def Expectation.text : Expectation → String
  | .selector => "selector"
  | .identifier => "identifier"
  | .identifierOrStar => "identifier or '*'"
  | .bar => "'|'"
  | .attributeName => "attribute name"
  | .operator => "operator"
  | .stringOrIdentifier => "string or identifier"
  | .closingBracket => "']'"
  | .closingParenthesis => "')'"
  | .commaOrParenthesis => "',' or ')'"
  | .argument => "an argument"

/-- Why a text is no selector group. -/
inductive SyntaxError
  | /-- The text has no tokens. -/
    lexical (error : LexicalError)
  | /-- The token cannot stand here. -/
    unexpected (expected : Expectation) (found : Token)
  | /-- Something follows a pseudo-element. -/
    pseudoElementNotAtEnd (pseudo : PseudoElement)
  | /-- A negation stands directly inside another. -/
    nestedNegation
  | /-- A pseudo-element stands inside a functional pseudo-class. -/
    pseudoElementInArgument (pseudo : PseudoElement)
  | /-- The scope does not come first in a selector. -/
    misplacedScope
  deriving DecidableEq, Repr

/-- The wording of a syntax error. -/
def SyntaxError.message : SyntaxError → String
  | .lexical error => error.message
  | .unexpected expected found => "Expected " ++ expected.text ++ ", got " ++ found.describe
  | .pseudoElementNotAtEnd pseudo =>
    "Got pseudo-element ::" ++ pseudo.css ++ " not at the end of a selector"
  | .nestedNegation => "Got nested :not()"
  | .pseudoElementInArgument pseudo =>
    "Got pseudo-element ::" ++ pseudo.css ++ " inside a functional pseudo-class"
  | .misplacedScope => "Got :scope not at the start of a selector"

/-- The offset an error points to, if it points to one. -/
def SyntaxError.pos? : SyntaxError → Option Nat
  | .lexical error => some error.pos
  | .unexpected _ found => some found.pos
  | _ => none

end SelectorPath.Selector
