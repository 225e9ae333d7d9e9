import Mathlib.Data.List.Dedup
import SelectorPath.Proofs.Document.Basic
import SelectorPath.Proofs.Text.Words
import SelectorPath.Proofs.XPath.Grammar
import SelectorPath.Text.Numeral

/-!
# Evaluation of expressions

What a term of XPath 1.0 evaluates to in a document. A context is a node with its position among the
nodes that are looked at together. Along an axis nodes come in the order of that axis, the node test
picks some of them, and each predicate counts the nodes that the one before it leaves.

Evaluation gives nothing where XPath reports an error, and in the few cases that are not described
here: variables, numbers that are not whole, numbers read from texts, and the axes `following`,
`preceding` and `namespace`. A name in a node test is the name that the function `name()` gives.

## Main definitions

* `Grammar.Node`, `Grammar.Value`, `Grammar.Context`
* `Document.along`, `Document.passes` — axes and node tests
* `Grammar.Term.eval` — the value of a term
-/

namespace SelectorPath

open Text XPath.Grammar

namespace XPath.Grammar

/-- A node of a document: the document itself, an element or a text at an address, or an attribute
of the element `owner`. -/
inductive Node
  | tree (address : Address)
  | attribute (owner : Address) (name : String)
  deriving DecidableEq, Repr

/-- A value. The nodes of a node-set are listed in any order, and may be listed more than once. -/
inductive Value
  | nodes (list : List Node)
  | boolean (value : Bool)
  | number (value : Int)
  | string (value : String)
  deriving Repr

/-- A node with its position among as many nodes as `size` says. -/
structure Context where
  node : Node
  position : Nat
  size : Nat
  deriving Repr

end XPath.Grammar

namespace Document

variable (document : Document)

/-! ### Nodes -/

/-- The text that a node stands for. -/
def stringValue : Node → String
  | .tree address => document.textAt address
  | .attribute owner name => (document.value? owner name).getD ""

/-- The name of a node, empty if it has none. -/
def nodeName : Node → String
  | .tree address => (document.name? address).getD ""
  | .attribute _ name => name

/-- The attributes of an element as nodes. -/
def attributeNodes (address : Address) : List Node :=
  (document.attributesAt address).map fun entry => .attribute address entry.1

/-- All nodes in document order. -/
def nodes : List Node :=
  document.addresses.flatMap fun address => .tree address :: document.attributeNodes address

/-- The first of some nodes in document order. -/
def first? (selected : List Node) : Option Node :=
  document.nodes.find? fun node => node ∈ selected

/-- The children of a node as nodes. -/
def childNodes (address : Address) : List Node := (document.children address).map .tree

/-! ### Axes and node tests -/

/-- The nodes along an axis, in the order of the axis. -/
def along (axis : Axis) : Node → Option (List Node)
  | .tree address =>
    match axis with
    | .self => some [.tree address]
    | .child => some (document.childNodes address)
    | .parent => some (address.tail?.toList.map .tree)
    | .ancestor => some (address.tails.tail.map .tree)
    | .ancestorOrSelf => some (address.tails.map .tree)
    | .descendant =>
      some ((document.addresses.filter fun other => address <:+ other ∧ other ≠ address).map .tree)
    | .descendantOrSelf =>
      some ((document.addresses.filter fun other => address <:+ other).map .tree)
    | .followingSibling =>
      match address with
      | [] => some []
      | index :: parent => some ((document.childNodes parent).drop (index + 1))
    | .precedingSibling =>
      match address with
      | [] => some []
      | index :: parent => some ((document.childNodes parent).take index).reverse
    | .attribute => some (document.attributeNodes address)
    | .following | .namespace | .preceding => none
  | .attribute owner name =>
    match axis with
    | .self => some [.attribute owner name]
    | .parent => some [.tree owner]
    | .ancestor => some (owner.tails.map .tree)
    | .ancestorOrSelf => some (.attribute owner name :: owner.tails.map .tree)
    | .descendantOrSelf => some [.attribute owner name]
    | .attribute | .child | .descendant | .followingSibling | .precedingSibling => some []
    | .following | .namespace | .preceding => none

/-- A node is of the kind that the names on an axis are about: attributes on the attribute axis, and
elements on every other. -/
def isPrincipal (axis : Axis) : Node → Bool
  | .tree address => axis ≠ .attribute && (document.name? address).isSome
  | .attribute _ _ => axis = .attribute

/-- A node that stands for a text and has no name. -/
def isText : Node → Bool
  | .tree address => address ≠ [] && (document.name? address).isNone
  | .attribute _ _ => false

/-- A node on an axis passes a node test. -/
def passes (axis : Axis) (test : NodeTest) (node : Node) : Bool :=
  match test with
  | .any => document.isPrincipal axis node
  | .anyIn ns =>
    document.isPrincipal axis node && (ns ++ ":").toList.isPrefixOf (document.nodeName node).toList
  | .name name => document.isPrincipal axis node && document.nodeName node == name
  | .node => true
  | .text => document.isText node
  | .comment | .instruction _ => false

/-- The nodes along an axis that pass a node test. -/
def select (axis : Axis) (test : NodeTest) (node : Node) : Option (List Node) :=
  (document.along axis node).map fun nodes => nodes.filter (document.passes axis test)

end Document

namespace XPath.Grammar

/-! ### Conversions -/

namespace Value

/-- The value as a truth value. -/
def truth : Value → Bool
  | .nodes list => !list.isEmpty
  | .boolean value => value
  | .number value => value ≠ 0
  | .string value => !value.isEmpty

/-- The value as a text. -/
def text (document : Document) : Value → String
  | .nodes list =>
    match document.first? list with
    | some node => document.stringValue node
    | none => ""
  | .boolean value => if value then "true" else "false"
  | .number value => toString value
  | .string value => value

/-- The value as a number, unless the number would be read from a text. -/
def number? : Value → Option Int
  | .boolean value => some (if value then 1 else 0)
  | .number value => some value
  | .nodes _ | .string _ => none

/-- The nodes of a node-set. -/
def nodes? : Value → Option (List Node)
  | .nodes list => some list
  | _ => none

/-- A predicate with this value holds for a node at the given position. -/
def holdsAt (position : Nat) : Value → Bool
  | .number value => value == position
  | value => value.truth

/-- Two values are compared for being the same, or for not being the same. A comparison with a
node-set asks whether it comes out for any of the nodes. -/
def compare (document : Document) (same : Bool) : Value → Value → Option Bool
  | .boolean value, other | other, .boolean value => some ((other.truth == value) == same)
  | .nodes list, .nodes others =>
    some (list.any fun node => others.any fun other =>
      (document.stringValue node == document.stringValue other) == same)
  | .nodes list, .string value | .string value, .nodes list =>
    some (list.any fun node => (document.stringValue node == value) == same)
  | .string value, .string other => some ((value == other) == same)
  | .number value, .number other => some ((value == other) == same)
  | .number _, .nodes _ | .nodes _, .number _ | .number _, .string _ | .string _, .number _ => none

end Value

/-! ### Functions -/

/-- The text with every character of `olds` replaced by the one at its place in `news`, or left out
if there is none. -/
def translate (cs olds news : List Char) : List Char :=
  cs.filterMap fun c => if c ∈ olds then news[olds.idxOf c]? else some c

/-- The text without blanks at its ends and with one space between its words. -/
def normalizeSpace (text : String) : String :=
  String.ofList (separated ' ' (words isSpace text.toList))

/-- The language of a node: what the nearest attribute `xml:lang` around it says. -/
def language? (document : Document) (node : Node) : Option String :=
  let owner := match node with | .tree address => address | .attribute owner _ => owner
  owner.tails.findSome? fun address => document.value? address "xml:lang"

/-- A language is the given one or a variety of it, without regard to case. -/
def isVariety (language : String) (of : String) : Bool :=
  lowerCase language == lowerCase of ||
    (lowerCase of ++ "-").toList.isPrefixOf (lowerCase language).toList

/-- The value of a call of a function of the core library. -/
def callFunction (document : Document) (context : Context) (function : String) (arguments : List Value) :
    Option Value :=
  match function, arguments with
  | "position", [] => some (.number context.position)
  | "last", [] => some (.number context.size)
  | "count", [.nodes list] => some (.number list.dedup.length)
  | "name", [] => some (.string (document.nodeName context.node))
  | "name", [.nodes list] =>
    some (.string ((document.first? list).elim "" document.nodeName))
  | "contains", [value, part] =>
    some (.boolean (decide ((part.text document).toList <:+: (value.text document).toList)))
  | "starts-with", [value, part] =>
    some (.boolean ((part.text document).toList.isPrefixOf (value.text document).toList))
  | "concat", first :: second :: rest =>
    some (.string (String.join ((first :: second :: rest).map (·.text document))))
  | "normalize-space", [] => some (.string (normalizeSpace (document.stringValue context.node)))
  | "normalize-space", [value] => some (.string (normalizeSpace (value.text document)))
  | "substring", [value, start] =>
    start.number?.map fun start =>
      .string (String.ofList ((value.text document).toList.drop (start - 1).toNat))
  | "string-length", [] => some (.number (document.stringValue context.node).length)
  | "string-length", [value] => some (.number (value.text document).length)
  | "translate", [value, olds, news] =>
    some (.string (String.ofList (translate (value.text document).toList
      (olds.text document).toList (news.text document).toList)))
  | "lang", [language] =>
    some (.boolean ((language? document context.node).any (isVariety · (language.text document))))
  | "not", [value] => some (.boolean !value.truth)
  | _, _ => none

/-! ### Terms -/

/-- The number with the given spelling, if it is a whole one. -/
def numeral? (spelling : List Char) : Option Int :=
  if spelling.all isDigit then some (decimalValue spelling) else none

/-- The value of an operator between two values; `or` and `and` are no such operators. -/
def operate (document : Document) (operator : Operator) (left right : Value) : Option Value :=
  match operator with
  | .equal => (left.compare document true right).map .boolean
  | .notEqual => (left.compare document false right).map .boolean
  | .less => do return .boolean ((← left.number?) < (← right.number?))
  | .atMost => do return .boolean ((← left.number?) ≤ (← right.number?))
  | .greater => do return .boolean ((← left.number?) > (← right.number?))
  | .atLeast => do return .boolean ((← left.number?) ≥ (← right.number?))
  | .plus => do return .number ((← left.number?) + (← right.number?))
  | .minus => do return .number ((← left.number?) - (← right.number?))
  | .times => do return .number ((← left.number?) * (← right.number?))
  | .modulo => do
    let divisor ← right.number?
    -- the remainder has the sign of the dividend, and there is none of a division by zero
    if divisor = 0 then none else return .number ((← left.number?).tmod divisor)
  | .union => do return .nodes ((← left.nodes?) ++ (← right.nodes?))
  | .divide | .or | .and => none

/-- The nodes for which a predicate holds, where the first of them has the given position. -/
def keep (holds : Node → Nat → Option Bool) : Nat → List Node → Option (List Node)
  | _, [] => some []
  | position, node :: rest => do
    let here ← holds node position
    let others ← keep holds (position + 1) rest
    return if here then node :: others else others

/-- The nodes for which a predicate with the given value holds; it counts these nodes. -/
def passing (value : Context → Option Value) (nodes : List Node) : Option (List Node) :=
  keep (fun node position => (value ⟨node, position, nodes.length⟩).map (·.holdsAt position)) 1
    nodes

/-- What is selected from some nodes, taken together. -/
def collect (select : Node → Option (List Node)) : List Node → Option (List Node)
  | [] => some []
  | node :: rest => do
    let here ← select node
    let others ← collect select rest
    return here ++ others

mutual

/-- The value of a term. -/
def Term.eval (document : Document) : Term → Context → Option Value
  | .literal value, _ => some (.string value)
  | .number spelling, _ => (numeral? spelling.toList).map .number
  | .variable _, _ => none
  | .call function arguments, context => do
    callFunction document context function (← Term.evalAll document arguments context)
  | .negative operand, context => do
    return .number (-(← (← Term.eval document operand context).number?))
  | .binary .or left right, context => do
    if (← Term.eval document left context).truth then return .boolean true
    else return .boolean (← Term.eval document right context).truth
  | .binary .and left right, context => do
    if (← Term.eval document left context).truth then
      return .boolean (← Term.eval document right context).truth
    else return .boolean false
  | .binary operator left right, context => do
    operate document operator (← Term.eval document left context)
      (← Term.eval document right context)
  | .filter base predicate, context => do
    let selected ← (← Term.eval document base context).nodes?
    let ordered := document.nodes.filter fun node => node ∈ selected
    return .nodes (← passing (Term.eval document predicate) ordered)
  | .root, _ => some (.nodes [.tree []])
  | .step axis test predicates, context => do
    return .nodes (← Term.restrict document predicates (← document.select axis test context.node))
  | .path base axis test predicates, context => do
    let bases ← (← Term.eval document base context).nodes?
    return .nodes (← collect
      (fun node => do Term.restrict document predicates (← document.select axis test node)) bases)

/-- The values of several terms. -/
def Term.evalAll (document : Document) : List Term → Context → Option (List Value)
  | [], _ => some []
  | term :: rest, context => do
    return (← Term.eval document term context) :: (← Term.evalAll document rest context)

/-- The nodes that pass several predicates, each of which counts those that the one before
leaves. -/
def Term.restrict (document : Document) : List Term → List Node → Option (List Node)
  | [], nodes => some nodes
  | predicate :: rest, nodes => do
    Term.restrict document rest (← passing (Term.eval document predicate) nodes)

end

/-! ### One level of a term -/

section

variable {document : Document} {context : Context}

theorem Term.eval_literal (value : String) :
    Term.eval document (.literal value) context = some (.string value) := rfl

theorem Term.eval_number (spelling : String) :
    Term.eval document (.number spelling) context = (numeral? spelling.toList).map .number := rfl

theorem Term.eval_call (function : String) (arguments : List Term) :
    Term.eval document (.call function arguments) context = (do
      callFunction document context function (← Term.evalAll document arguments context)) := rfl

theorem Term.eval_negative (operand : Term) :
    Term.eval document (.negative operand) context = (do
      return .number (-(← (← Term.eval document operand context).number?))) := rfl

theorem Term.eval_or (left right : Term) :
    Term.eval document (.binary .or left right) context = (do
      if (← Term.eval document left context).truth then return .boolean true
      else return .boolean (← Term.eval document right context).truth) := rfl

theorem Term.eval_and (left right : Term) :
    Term.eval document (.binary .and left right) context = (do
      if (← Term.eval document left context).truth then
        return .boolean (← Term.eval document right context).truth
      else return .boolean false) := rfl

/-- Every other operator takes the values of both of its operands. -/
theorem Term.eval_binary {operator : Operator} (strict : operator ≠ .or ∧ operator ≠ .and)
    (left right : Term) :
    Term.eval document (.binary operator left right) context = (do
      operate document operator (← Term.eval document left context)
        (← Term.eval document right context)) := by
  cases operator with
  | or => exact absurd rfl strict.1
  | and => exact absurd rfl strict.2
  | _ => rfl

theorem Term.eval_step (axis : Axis) (test : NodeTest) (predicates : List Term) :
    Term.eval document (.step axis test predicates) context = (do
      return .nodes (← Term.restrict document predicates
        (← document.select axis test context.node))) := rfl

theorem Term.eval_path (base : Term) (axis : Axis) (test : NodeTest) (predicates : List Term) :
    Term.eval document (.path base axis test predicates) context = (do
      let bases ← (← Term.eval document base context).nodes?
      return .nodes (← collect
        (fun node => do Term.restrict document predicates (← document.select axis test node))
        bases)) := rfl

theorem Term.evalAll_cons (term : Term) (rest : List Term) :
    Term.evalAll document (term :: rest) context = (do
      return (← Term.eval document term context) :: (← Term.evalAll document rest context)) := rfl

end

end XPath.Grammar

end SelectorPath
