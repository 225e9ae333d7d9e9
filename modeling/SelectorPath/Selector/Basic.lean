import SelectorPath.Text.Ascii
import SelectorPath.Token.Basic

/-!
# Selectors

A selector is a tree with at most one pseudo-element behind it. At the leaves of the tree stand type
selectors. A simple selector, a negation, a list of alternatives and a relation each restrict the
tree they are written behind, so `div.a:not(b)` is a negation on a class on a type selector.
Combinators join a selector on the left with a compound on the right.

The type admits trees that no text denotes, such as a class on a combined selector; printing,
specificity and the compilation to XPath are defined for those too.

## Main definitions

* `Selector.Tree`, `Selector` — the tree and the whole selector
* `Selector.Simple` — class, id, attribute, pseudo-class and functional pseudo-class
* `Combinator`, `AttributeOperator`, `AttributeSelector`, `FunctionCall`, `PseudoElement`
-/

namespace SelectorPath

/-- A functional pseudo-class or pseudo-element with its argument tokens, blanks left out. -/
structure FunctionCall where
  name : String
  arguments : List Token
  deriving DecidableEq, Repr

namespace FunctionCall

/-- The call of a function whose name is written in any case. -/
def make (name : String) (arguments : List Token) : FunctionCall :=
  ⟨Text.lowerCase name, arguments⟩

/-- The arguments as text of a selector, one space for each gap. -/
def argumentsCss (call : FunctionCall) : String := Token.join Token.css call.arguments

/-- The call as text of a selector. -/
def css (call : FunctionCall) : String := call.name ++ "(" ++ call.argumentsCss ++ ")"

@[simp] theorem make_name (name : String) (arguments : List Token) :
    (make name arguments).name = Text.lowerCase name := rfl

@[simp] theorem make_arguments (name : String) (arguments : List Token) :
    (make name arguments).arguments = arguments := rfl

end FunctionCall

/-- A pseudo-element, plain or with arguments. -/
inductive PseudoElement
  | simple (name : String)
  | functional (call : FunctionCall)
  deriving DecidableEq, Repr

/-- A pseudo-element as text of a selector, without its colons. -/
def PseudoElement.css : PseudoElement → String
  | .simple name => name
  | .functional call => call.css

/-- How the element on the right of a combinator lies to the one on its left. -/
inductive Combinator
  | descendant
  | child
  | nextSibling
  | subsequentSibling
  deriving DecidableEq, Repr

namespace Combinator

/-- The sign of a combinator; a descendant is written with a space alone. -/
def symbol : Combinator → String
  | .descendant => " "
  | .child => ">"
  | .nextSibling => "+"
  | .subsequentSibling => "~"

/-- The combinator that a delimiter token is. -/
def ofToken? (token : Token) : Option Combinator :=
  if token.isDelim ">" then some .child
  else if token.isDelim "+" then some .nextSibling
  else if token.isDelim "~" then some .subsequentSibling
  else none

end Combinator

/-- How the value of an attribute is compared. -/
inductive AttributeOperator
  | present
  | equal
  | includes
  | dashMatch
  | prefixMatch
  | suffixMatch
  | substringMatch
  | notEqual
  deriving DecidableEq, Repr

namespace AttributeOperator

/-- The sign of an operator; mere presence has none. -/
def symbol : AttributeOperator → String
  | .present => ""
  | .equal => "="
  | .includes => "~="
  | .dashMatch => "|="
  | .prefixMatch => "^="
  | .suffixMatch => "$="
  | .substringMatch => "*="
  | .notEqual => "!="

/-- The operators that compare with a value. -/
def comparisons : List AttributeOperator :=
  [.equal, .includes, .dashMatch, .prefixMatch, .suffixMatch, .substringMatch, .notEqual]

/-- The comparison with the given sign. -/
def ofSymbol? (symbol : String) : Option AttributeOperator :=
  comparisons.find? fun operator => operator.symbol == symbol

/-- Every comparison is found by its sign, and nothing else is. -/
theorem ofSymbol?_symbol (operator : AttributeOperator) :
    ofSymbol? operator.symbol = if operator = .present then none else some operator := by
  cases operator <;> decide

end AttributeOperator

/-- An attribute selector: an optional namespace, the name, and what is asked of the value. -/
structure AttributeSelector where
  ns : Option String
  name : String
  operator : AttributeOperator
  value : Option Token
  deriving DecidableEq, Repr

/-- The pseudo-classes whose argument is a list of alternatives. -/
inductive Alternation
  | /-- The pseudo-class `:is()`, which counts as much as its most specific argument. -/
    matchesAny
  | /-- The pseudo-class `:where()`, which matches alike and counts nothing. -/
    specificityAdjustment
  deriving DecidableEq, Repr

/-- A selector of one condition that holds no selector inside. -/
inductive Selector.Simple
  | className (name : String)
  | id (value : String)
  | attribute (selector : AttributeSelector)
  | pseudoClass (name : String)
  | function (call : FunctionCall)
  deriving DecidableEq, Repr

/-- The tree of a selector. -/
inductive Selector.Tree
  | /-- A type selector; no name is `*`. -/
    element (ns name : Option String)
  | /-- A simple selector behind `base`. -/
    restricted (base : Selector.Tree) (simple : Selector.Simple)
  | /-- The restriction `:not(argument)` behind `base`. -/
    negation (base argument : Selector.Tree)
  | /-- The restriction `:is(arguments)` or `:where(arguments)` behind `base`. -/
    anyOf (kind : Alternation) (base : Selector.Tree) (arguments : List Selector.Tree)
  | /-- The restriction `:has(combinator argument)` behind `base`. -/
    relation (base : Selector.Tree) (combinator : Combinator) (argument : Selector.Tree)
  | /-- Two selectors with a combinator between them. -/
    combined (left : Selector.Tree) (combinator : Combinator) (right : Selector.Tree)

/-- The universal selector `*`. -/
def Selector.Tree.universal : Selector.Tree := .element none none

/-- A selector: its tree, and the pseudo-element behind it if there is one. -/
structure Selector where
  tree : Selector.Tree
  pseudoElement : Option PseudoElement

end SelectorPath
