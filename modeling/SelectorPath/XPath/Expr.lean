import SelectorPath.XPath.Literal

/-!
# Expressions of XPath

The expressions that occur in predicates, as trees, and their text. Parentheses are part of a tree
(`Expr.group`), so a tree says exactly how its text looks; it reads back as itself where the
operators in it are grouped as their precedence demands. `Expr.verbatim` stands for a given text.

## Main definitions

* `XPath.Function`, `XPath.Operator`, `XPath.Axis`, `XPath.AxisSpecifier`
* `XPath.Expr`, `XPath.Expr.text`
* `XPath.Expr.joinGroups?`, `XPath.Expr.conjunction?`, `XPath.Expr.disjunction?` — several
  expressions joined by an operator
* `XPath.Expr.Joined` — how the expressions are joined
-/

namespace SelectorPath.XPath

/-- The functions of the core library that are called. -/
inductive Function
  | position
  | last
  | count
  | name
  | contains
  | startsWith
  | concat
  | normalizeSpace
  | substring
  | stringLength
  | translate
  | lang
  | not
  deriving DecidableEq, Repr

/-- The name of a function. -/
def Function.text : Function → String
  | .position => "position"
  | .last => "last"
  | .count => "count"
  | .name => "name"
  | .contains => "contains"
  | .startsWith => "starts-with"
  | .concat => "concat"
  | .normalizeSpace => "normalize-space"
  | .substring => "substring"
  | .stringLength => "string-length"
  | .translate => "translate"
  | .lang => "lang"
  | .not => "not"

/-- Where blanks stand around a sign. -/
inductive Spacing
  | both
  | before
  | neither
  deriving DecidableEq, Repr

/-- The text of a sign with its blanks. -/
def Spacing.around (sign : String) : Spacing → String
  | .both => " " ++ sign ++ " "
  | .before => " " ++ sign
  | .neither => sign

/-- The operators between two expressions. -/
inductive Operator
  | or
  | and
  | equal
  | notEqual
  | atMost
  | atLeast
  | plus (spacing : Spacing)
  | minus (spacing : Spacing)
  | modulo
  | union
  deriving DecidableEq, Repr

/-- The text of an operator with its blanks. -/
def Operator.text : Operator → String
  | .or => " or "
  | .and => " and "
  | .equal => " = "
  | .notEqual => " != "
  | .atMost => " <= "
  | .atLeast => " >= "
  | .plus spacing => spacing.around "+"
  | .minus spacing => spacing.around "-"
  | .modulo => " mod "
  | .union => " | "

/-- The axes along which steps go. -/
inductive Axis
  | child
  | parent
  | ancestor
  | ancestorOrSelf
  | descendantOrSelf
  | precedingSibling
  | followingSibling
  | attribute
  deriving DecidableEq, Repr

/-- The name of an axis. -/
def Axis.text : Axis → String
  | .child => "child"
  | .parent => "parent"
  | .ancestor => "ancestor"
  | .ancestorOrSelf => "ancestor-or-self"
  | .descendantOrSelf => "descendant-or-self"
  | .precedingSibling => "preceding-sibling"
  | .followingSibling => "following-sibling"
  | .attribute => "attribute"

/-- How the axis of a step is written. -/
inductive AxisSpecifier
  | /-- No axis, which means the child axis. -/
    child
  | /-- The sign `@`, which means the attribute axis. -/
    attribute
  | /-- The name of the axis and two colons. -/
    named (axis : Axis)
  deriving DecidableEq, Repr

/-- The axis that is meant. -/
def AxisSpecifier.axis : AxisSpecifier → Axis
  | .child => .child
  | .attribute => .attribute
  | .named axis => axis

/-- The text in front of a node test. -/
def AxisSpecifier.text : AxisSpecifier → String
  | .child => ""
  | .attribute => "@"
  | .named axis => axis.text ++ "::"

/-- An expression. -/
inductive Expr
  | /-- A given text. -/
    verbatim (text : String)
  | integer (value : Int)
  | /-- The string `value`, quoted or put together by `concat`. -/
    literal (value : String)
  | call (function : Function) (arguments : List Expr)
  | binary (operator : Operator) (left right : Expr)
  | /-- An expression in parentheses. -/
    group (inner : Expr)
  | /-- The context node, `.`. -/
    self
  | /-- The parent of the context node, `..`. -/
    parent
  | /-- A step from the context node. -/
    step (axis : AxisSpecifier) (test : String) (predicates : List Expr)
  | /-- A step from the nodes of `base`. -/
    slash (base : Expr) (axis : AxisSpecifier) (test : String) (predicates : List Expr)

namespace Expr

mutual

/-- The text of an expression. -/
def text : Expr → String
  | .verbatim text => text
  | .integer value => toString value
  | .literal value => quote value
  | .call function arguments => function.text ++ "(" ++ listText arguments ++ ")"
  | .binary operator left right => left.text ++ operator.text ++ right.text
  | .group inner => "(" ++ inner.text ++ ")"
  | .self => "."
  | .parent => ".."
  | .step axis test predicates => axis.text ++ test ++ predicatesText predicates
  | .slash base axis test predicates =>
    base.text ++ "/" ++ axis.text ++ test ++ predicatesText predicates

/-- The texts of several expressions, separated by commas. -/
def listText : List Expr → String
  | [] => ""
  | [expr] => expr.text
  | expr :: next :: rest => expr.text ++ ", " ++ listText (next :: rest)

/-- The texts of several expressions, each in brackets. -/
def predicatesText : List Expr → String
  | [] => ""
  | expr :: rest => "[" ++ expr.text ++ "]" ++ predicatesText rest

end

/-- A test that the node has the given name. -/
def nameIs (name : String) : Expr := .binary .equal (.call .name []) (.literal name)

/-- Several expressions joined by an operator, from the left; none if there are no expressions. -/
def join? (operator : Operator) : List Expr → Option Expr
  | [] => none
  | expr :: rest => some (rest.foldl (.binary operator) expr)

theorem join?_eq_some_iff {operator : Operator} {exprs : List Expr} {joined : Expr} :
    join? operator exprs = some joined ↔
      ∃ first rest, exprs = first :: rest ∧ joined = rest.foldl (.binary operator) first := by
  cases exprs with
  | nil => simp [join?]
  | cons first rest =>
    constructor
    · intro known
      exact ⟨first, rest, rfl, (Option.some.inj known).symm⟩
    · rintro ⟨_, _, same, rfl⟩
      obtain ⟨rfl, rfl⟩ := List.cons.inj same
      rfl

/-- Several expressions joined by an operator, each in parentheses unless it is the only one. -/
def joinGroups? (operator : Operator) : List Expr → Option Expr
  | [] => none
  | [expr] => some expr
  | exprs => join? operator (exprs.map .group)

/-- All of several expressions, each in parentheses unless it is the only one. -/
def conjunction? : List Expr → Option Expr := joinGroups? .and

/-- Any of several expressions, each in parentheses unless it is the only one. -/
def disjunction? : List Expr → Option Expr := joinGroups? .or

@[simp] theorem conjunction?_nil : conjunction? [] = none := rfl

@[simp] theorem conjunction?_singleton (expr : Expr) : conjunction? [expr] = some expr := rfl

/-- The condition is the only one of several, or it joins all of them, in parentheses, by the
operator. -/
inductive Joined (operator : Operator) : List Expr → Expr → Prop
  | single {expr : Expr} : Joined operator [expr] expr
  | groups {first next : Expr} {rest : List Expr} :
      Joined operator (first :: next :: rest)
        (((next :: rest).map .group).foldl (.binary operator) (.group first))

section Joined

variable {operator : Operator} {exprs : List Expr}

theorem joined_of_joinGroups? {condition : Expr}
    (known : joinGroups? operator exprs = some condition) : Joined operator exprs condition := by
  match exprs, known with
  | [expr], known =>
    obtain rfl := Option.some.inj known
    exact .single
  | first :: next :: rest, known =>
    obtain rfl := Option.some.inj known
    exact .groups

theorem eq_nil_of_joinGroups? (none : joinGroups? operator exprs = none) : exprs = [] := by
  match exprs, none with
  | [], _ => rfl
  | [_], none => exact nomatch none
  | _ :: _ :: _, none => exact nomatch none

end Joined

end Expr

end SelectorPath.XPath
