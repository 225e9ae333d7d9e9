import SelectorPath.Text.Ascii
import SelectorPath.XPath.Name

/-!
# The grammar of XPath 1.0

What a text means in XPath is settled in two stages. The lexical rules cut it into tokens, always
the longest that can stand at a place; whether a name or `*` is an operator depends on the token
before, and whether a name is a function, an axis or a node test on what follows it. The productions
then group the tokens, with one level for each precedence, and the term keeps that grouping and
nothing else: neither blanks nor parentheses are left in it.

Only ASCII names are names here. That makes fewer texts expressions and gives none another meaning,
since a character beyond ASCII that stands outside of a literal starts no token at all.

## Main definitions

* `Grammar.Term` — what an expression says, with `Grammar.Axis`, `Grammar.Operator` and
  `Grammar.NodeTest`
* `Grammar.Token`, `Grammar.readToken`, `Grammar.Lexes` — the lexical rules
* `Grammar.Expression` with `Grammar.RelativePath`, `Grammar.Step`, … — the productions
* `Grammar.Reads` — a text is an expression, and says what the term says

## Main results

* `Grammar.Expression.ofLevel` — an expression that binds tightly stands wherever a looser one may
-/

namespace SelectorPath.XPath.Grammar

open Text

/-! ### Terms -/

/-- The axes of XPath 1.0. -/
inductive Axis
  | ancestor
  | ancestorOrSelf
  | attribute
  | child
  | descendant
  | descendantOrSelf
  | following
  | followingSibling
  | namespace
  | parent
  | preceding
  | precedingSibling
  | self
  deriving DecidableEq, Repr

/-- The name of an axis. -/
def Axis.name : Axis → String
  | .ancestor => "ancestor"
  | .ancestorOrSelf => "ancestor-or-self"
  | .attribute => "attribute"
  | .child => "child"
  | .descendant => "descendant"
  | .descendantOrSelf => "descendant-or-self"
  | .following => "following"
  | .followingSibling => "following-sibling"
  | .namespace => "namespace"
  | .parent => "parent"
  | .preceding => "preceding"
  | .precedingSibling => "preceding-sibling"
  | .self => "self"

/-- All axes. -/
def Axis.all : List Axis :=
  [.ancestor, .ancestorOrSelf, .attribute, .child, .descendant, .descendantOrSelf, .following,
    .followingSibling, .namespace, .parent, .preceding, .precedingSibling, .self]

/-- The axis with a name. -/
def Axis.ofName? (name : String) : Option Axis := all.find? fun axis => axis.name == name

/-- The operators between two operands. -/
inductive Operator
  | or
  | and
  | equal
  | notEqual
  | less
  | atMost
  | greater
  | atLeast
  | plus
  | minus
  | times
  | divide
  | modulo
  | union
  deriving DecidableEq, Repr

/-- How tightly an operator binds; the loosest has level zero. The negative sign stands on level six
and paths on level eight. -/
def Operator.level : Operator → Nat
  | .or => 0
  | .and => 1
  | .equal | .notEqual => 2
  | .less | .atMost | .greater | .atLeast => 3
  | .plus | .minus => 4
  | .times | .divide | .modulo => 5
  | .union => 7

/-- The level of the negative sign. -/
def signLevel : Nat := 6

/-- The level of paths and of everything that an operand can be without parentheses. -/
def pathLevel : Nat := 8

/-- What a step asks of a node beside its axis. -/
inductive NodeTest
  | /-- The test `*`. -/
    any
  | /-- The test `ns:*`. -/
    anyIn (ns : String)
  | name (name : String)
  | node
  | text
  | comment
  | instruction (target : Option String)
  deriving DecidableEq, Repr

/-- What an expression says. -/
inductive Term
  | literal (value : String)
  | /-- A number, by the characters it is written with. -/
    number (spelling : String)
  | variable (name : String)
  | call (function : String) (arguments : List Term)
  | negative (operand : Term)
  | binary (operator : Operator) (left right : Term)
  | /-- The nodes of `base` for which `predicate` holds. -/
    filter (base predicate : Term)
  | /-- The root of the document of the context node. -/
    root
  | /-- A step from the context node. -/
    step (axis : Axis) (test : NodeTest) (predicates : List Term)
  | /-- A step from the nodes of `base`. -/
    path (base : Term) (axis : Axis) (test : NodeTest) (predicates : List Term)

/-- A step behind `base`, or from the context node. -/
def Term.stepFrom (base : Option Term) (axis : Axis) (test : NodeTest) (predicates : List Term) :
    Term :=
  match base with
  | none => .step axis test predicates
  | some base => .path base axis test predicates

/-- What `//` stands for behind `base`. -/
def Term.descendants (base : Term) : Term := .path base .descendantOrSelf .node []

/-! ### Tokens -/

/-- The tokens of an expression. -/
inductive Token
  | openParenthesis
  | closeParenthesis
  | openBracket
  | closeBracket
  | dot
  | twoDots
  | at
  | comma
  | twoColons
  | slash
  | twoSlashes
  | operator (operator : Operator)
  | nameTest (test : NodeTest)
  | nodeType (name : String)
  | functionName (name : String)
  | axisName (axis : Axis)
  | literal (value : String)
  | number (spelling : String)
  | variable (name : String)
  deriving DecidableEq, Repr

/-- An operand has to follow the token, so that a name or `*` behind it is no operator. -/
def Token.wantsOperand : Token → Bool
  | .openParenthesis | .openBracket | .at | .comma | .twoColons => true
  | .slash | .twoSlashes | .operator _ => true
  | _ => false

/-- The blanks between tokens. -/
def isSpace (c : Char) : Bool := c == ' ' || c == '\t' || c == '\r' || c == '\n'

/-- The operator that a name is. -/
def operatorNamed? (name : String) : Option Operator :=
  match name with
  | "or" => some .or
  | "and" => some .and
  | "mod" => some .modulo
  | "div" => some .divide
  | _ => none

/-- The names of the tests for one type of nodes. -/
def nodeTypes : List String := ["comment", "text", "processing-instruction", "node"]

/-- The token that a whole name is, where `rest` follows it and no operator can stand: what follows
decides between a function or node type, an axis, and a node test. -/
def classifyName (name : String) (rest : List Char) : Option Token :=
  match rest.dropWhile isSpace with
  | '(' :: _ => some (if name ∈ nodeTypes then .nodeType name else .functionName name)
  | ':' :: ':' :: _ => (Axis.ofName? name).map .axisName
  | _ => some (.nameTest (.name name))

/-- The token of a name in the place of an operand. A colon and another name, or a colon and `*`,
belong to it. -/
def readOperandName (cs : List Char) : Option (Token × List Char) :=
  let first := cs.takeWhile isPlainPart
  match cs.dropWhile isPlainPart with
  | ':' :: '*' :: rest => some (.nameTest (.anyIn (String.ofList first)), rest)
  | ':' :: c :: rest =>
    if isPlainStart c then
      let name := first ++ ':' :: c :: rest.takeWhile isPlainPart
      let after := rest.dropWhile isPlainPart
      (classifyName (String.ofList name) after).map (·, after)
    else (classifyName (String.ofList first) (':' :: c :: rest)).map (·, ':' :: c :: rest)
  | rest => (classifyName (String.ofList first) rest).map (·, rest)

/-- The token of a name in the place of an operator. -/
def readOperatorName (cs : List Char) : Option (Token × List Char) :=
  (operatorNamed? (String.ofList (cs.takeWhile isPlainPart))).map
    (.operator ·, cs.dropWhile isPlainPart)

/-- Digits, with a point and more digits behind them if a point follows. -/
def readNumber (cs : List Char) : Token × List Char :=
  match cs.dropWhile isDigit with
  | '.' :: rest =>
    (.number (String.ofList (cs.takeWhile isDigit ++ '.' :: rest.takeWhile isDigit)),
      rest.dropWhile isDigit)
  | rest => (.number (String.ofList (cs.takeWhile isDigit)), rest)

/-- A literal behind its opening quote. -/
def readLiteral (quote : Char) (cs : List Char) : Option (Token × List Char) :=
  match cs.dropWhile (· ≠ quote) with
  | _ :: rest => some (.literal (String.ofList (cs.takeWhile (· ≠ quote))), rest)
  | [] => none

/-- A variable behind its `$`. -/
def readVariable (cs : List Char) : Option (Token × List Char) :=
  let first := cs.takeWhile isPlainPart
  if isPlainNameChars first then
    match cs.dropWhile isPlainPart with
    | ':' :: c :: rest =>
      if isPlainStart c then
        some (.variable (String.ofList (first ++ ':' :: c :: rest.takeWhile isPlainPart)),
          rest.dropWhile isPlainPart)
      else some (.variable (String.ofList first), ':' :: c :: rest)
    | rest => some (.variable (String.ofList first), rest)
  else none

/-- What a point starts: two points, a number without digits in front, or the point alone. -/
def readDot : List Char → Token × List Char
  | '.' :: rest => (.twoDots, rest)
  | rest =>
    if rest.takeWhile isDigit = [] then (.dot, rest)
    else (.number (String.ofList ('.' :: rest.takeWhile isDigit)), rest.dropWhile isDigit)

/-- What a slash starts: two slashes, or one. -/
def readSlash : List Char → Token × List Char
  | '/' :: rest => (.twoSlashes, rest)
  | rest => (.slash, rest)

/-- A token that is a sign. A sign of two characters goes before one of its first alone. -/
def readSign : List Char → Option (Token × List Char)
  | '(' :: rest => some (.openParenthesis, rest)
  | ')' :: rest => some (.closeParenthesis, rest)
  | '[' :: rest => some (.openBracket, rest)
  | ']' :: rest => some (.closeBracket, rest)
  | '.' :: rest => some (readDot rest)
  | '@' :: rest => some (.at, rest)
  | ',' :: rest => some (.comma, rest)
  | ':' :: ':' :: rest => some (.twoColons, rest)
  | '/' :: rest => some (readSlash rest)
  | '|' :: rest => some (.operator .union, rest)
  | '+' :: rest => some (.operator .plus, rest)
  | '-' :: rest => some (.operator .minus, rest)
  | '=' :: rest => some (.operator .equal, rest)
  | '!' :: '=' :: rest => some (.operator .notEqual, rest)
  | '<' :: '=' :: rest => some (.operator .atMost, rest)
  | '<' :: rest => some (.operator .less, rest)
  | '>' :: '=' :: rest => some (.operator .atLeast, rest)
  | '>' :: rest => some (.operator .greater, rest)
  | _ => none

/-- The token at a place that is no blank, and the rest. At the place of an `operand` no name and
no `*` is an operator; elsewhere both are. -/
def readToken (operand : Bool) : List Char → Option (Token × List Char)
  | [] => none
  | c :: cs =>
    if isPlainStart c then
      if operand then readOperandName (c :: cs) else readOperatorName (c :: cs)
    else if isDigit c then some (readNumber (c :: cs))
    else if c = '\'' ∨ c = '"' then readLiteral c cs
    else if c = '$' then readVariable cs
    else if c = '*' then
      some (if operand then .nameTest .any else .operator .times, cs)
    else readSign (c :: cs)

/-- The characters are cut into the tokens, from a place on that is or is not the place of an
operand. -/
inductive Lexes : Bool → List Char → List Token → Prop
  | nil (operand : Bool) : Lexes operand [] []
  | space {operand : Bool} {c : Char} {cs : List Char} {tokens : List Token}
      (blank : isSpace c = true) (rest : Lexes operand cs tokens) :
      Lexes operand (c :: cs) tokens
  | token {operand : Bool} {c : Char} {cs after : List Char} {token : Token}
      {tokens : List Token} (visible : isSpace c = false)
      (read : readToken operand (c :: cs) = some (token, after))
      (rest : Lexes token.wantsOperand after tokens) :
      Lexes operand (c :: cs) (token :: tokens)

/-! ### Productions -/

/-- The tokens in front of a node test name an axis; none of them means the child axis. -/
inductive AxisSpecifier : List Token → Axis → Prop
  | child : AxisSpecifier [] .child
  | attribute : AxisSpecifier [.at] .attribute
  | named (axis : Axis) : AxisSpecifier [.axisName axis, .twoColons] axis

/-- The tokens are a node test. -/
inductive Tests : List Token → NodeTest → Prop
  | name (test : NodeTest) : Tests [.nameTest test] test
  | node : Tests [.nodeType "node", .openParenthesis, .closeParenthesis] .node
  | text : Tests [.nodeType "text", .openParenthesis, .closeParenthesis] .text
  | comment : Tests [.nodeType "comment", .openParenthesis, .closeParenthesis] .comment
  | instruction :
      Tests [.nodeType "processing-instruction", .openParenthesis, .closeParenthesis]
        (.instruction none)
  | target (value : String) :
      Tests
        [.nodeType "processing-instruction", .openParenthesis, .literal value, .closeParenthesis]
        (.instruction (some value))

mutual

/-- The tokens are an expression whose operators outside of parentheses and brackets all have at
least the given level. Operators of one level group from the left. -/
inductive Expression : Nat → List Token → Term → Prop
  | binary {operator : Operator} {left right : List Token} {l r : Term}
      (first : Expression operator.level left l)
      (second : Expression (operator.level + 1) right r) :
      Expression operator.level (left ++ .operator operator :: right) (.binary operator l r)
  | negative {operand : List Token} {t : Term} (inner : Expression signLevel operand t) :
      Expression signLevel (.operator .minus :: operand) (.negative t)
  | tighter {level : Nat} {tokens : List Token} {t : Term} (below : level < pathLevel)
      (inner : Expression (level + 1) tokens t) : Expression level tokens t
  | relative {tokens : List Token} {t : Term} (path : RelativePath none tokens t) :
      Expression pathLevel tokens t
  | root : Expression pathLevel [.slash] .root
  | absolute {tokens : List Token} {t : Term} (path : RelativePath (some .root) tokens t) :
      Expression pathLevel (.slash :: tokens) t
  | absoluteDescendants {tokens : List Token} {t : Term}
      (path : RelativePath (some Term.root.descendants) tokens t) :
      Expression pathLevel (.twoSlashes :: tokens) t
  | filter {tokens : List Token} {t : Term} (filter : Filter tokens t) :
      Expression pathLevel tokens t
  | filterPath {tokens more : List Token} {base t : Term} (filter : Filter tokens base)
      (path : RelativePath (some base) more t) :
      Expression pathLevel (tokens ++ .slash :: more) t
  | filterDescendants {tokens more : List Token} {base t : Term} (filter : Filter tokens base)
      (path : RelativePath (some base.descendants) more t) :
      Expression pathLevel (tokens ++ .twoSlashes :: more) t

/-- The tokens are a primary expression with predicates. -/
inductive Filter : List Token → Term → Prop
  | variable (name : String) : Filter [.variable name] (.variable name)
  | literal (value : String) : Filter [.literal value] (.literal value)
  | number (spelling : String) : Filter [.number spelling] (.number spelling)
  | parentheses {tokens : List Token} {t : Term} (inner : Expression 0 tokens t) :
      Filter (.openParenthesis :: tokens ++ [.closeParenthesis]) t
  | callNothing (function : String) :
      Filter [.functionName function, .openParenthesis, .closeParenthesis] (.call function [])
  | call (function : String) {tokens : List Token} {terms : List Term}
      (arguments : Arguments tokens terms) :
      Filter (.functionName function :: .openParenthesis :: tokens ++ [.closeParenthesis])
        (.call function terms)
  | predicate {tokens more : List Token} {base p : Term} (filter : Filter tokens base)
      (inner : Expression 0 more p) :
      Filter (tokens ++ .openBracket :: more ++ [.closeBracket]) (.filter base p)

/-- The tokens are one or more arguments. -/
inductive Arguments : List Token → List Term → Prop
  | one {tokens : List Token} {t : Term} (argument : Expression 0 tokens t) :
      Arguments tokens [t]
  | more {tokens others : List Token} {t : Term} {terms : List Term}
      (argument : Expression 0 tokens t) (rest : Arguments others terms) :
      Arguments (tokens ++ .comma :: others) (t :: terms)

/-- The tokens are the steps of a path behind `base`, or from the context node. -/
inductive RelativePath : Option Term → List Token → Term → Prop
  | step {base : Option Term} {tokens : List Token} {axis : Axis} {test : NodeTest}
      {predicates : List Term} (step : Step tokens axis test predicates) :
      RelativePath base tokens (.stepFrom base axis test predicates)
  | slash {base : Option Term} {tokens more : List Token} {t : Term} {axis : Axis}
      {test : NodeTest} {predicates : List Term} (path : RelativePath base tokens t)
      (step : Step more axis test predicates) :
      RelativePath base (tokens ++ .slash :: more) (.path t axis test predicates)
  | twoSlashes {base : Option Term} {tokens more : List Token} {t : Term} {axis : Axis}
      {test : NodeTest} {predicates : List Term} (path : RelativePath base tokens t)
      (step : Step more axis test predicates) :
      RelativePath base (tokens ++ .twoSlashes :: more)
        (.path t.descendants axis test predicates)

/-- The tokens are a step. -/
inductive Step : List Token → Axis → NodeTest → List Term → Prop
  | self : Step [.dot] .self .node []
  | parent : Step [.twoDots] .parent .node []
  | full {specifier tests brackets : List Token} {axis : Axis} {test : NodeTest}
      {predicates : List Term} (specified : AxisSpecifier specifier axis)
      (tested : Tests tests test) (restricted : Predicates brackets predicates) :
      Step (specifier ++ tests ++ brackets) axis test predicates

/-- The tokens are predicates, each in brackets. -/
inductive Predicates : List Token → List Term → Prop
  | nil : Predicates [] []
  | cons {tokens more : List Token} {t : Term} {terms : List Term}
      (inner : Expression 0 tokens t) (rest : Predicates more terms) :
      Predicates (.openBracket :: tokens ++ .closeBracket :: more) (t :: terms)

end

/-- An expression that binds tightly stands wherever a looser one may. -/
theorem Expression.ofLevel {low high : Nat} {tokens : List Token} {t : Term}
    (expression : Expression high tokens t) (le : low ≤ high) (bounded : high ≤ pathLevel) :
    Expression low tokens t := by
  obtain ⟨gap, rfl⟩ := Nat.exists_eq_add_of_le le
  induction gap with
  | zero => exact expression
  | succ gap ih =>
    have inner : Expression (low + gap) tokens t :=
      .tighter (by omega) (by rwa [Nat.add_assoc])
    exact ih inner (by omega) (by omega)

/-- The text is an expression of XPath 1.0 and says what the term says. -/
def Reads (text : String) (term : Term) : Prop :=
  ∃ tokens, Lexes true text.toList tokens ∧ Expression 0 tokens term

end SelectorPath.XPath.Grammar
