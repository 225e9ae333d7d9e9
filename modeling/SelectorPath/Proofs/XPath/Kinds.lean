import SelectorPath.Proofs.XPath.Meaning

/-!
# The kinds of values

A value is a node-set, a truth value, a number or a text, and which of them an expression has can
often be told from the expression. Where it can, the expression has a value in every document and at
every node: it runs into none of the cases in which evaluation gives nothing.

## Main definitions

* `Kind`, `Value.kind` — the kinds, and that of a value
* `Expr.kind?` — the kind that can be told from an expression

## Main results

* `Expr.exists_eval` — an expression with a kind has a value of that kind
-/

namespace SelectorPath.XPath

open Text Grammar

variable {document : Document} {context : Context}

/-- What a value can be. -/
inductive Kind
  | nodes
  | boolean
  | number
  | string
  deriving DecidableEq, Repr

/-- The kind of a value. -/
def Grammar.Value.kind : Value → Kind
  | .nodes _ => .nodes
  | .boolean _ => .boolean
  | .number _ => .number
  | .string _ => .string

/-! ### The kind of an expression -/

/-- Values of the kinds can be compared without reading a number from a text. -/
def Kind.isComparable (left right : Kind) : Bool :=
  left == .boolean || right == .boolean || (left == .number) == (right == .number)

/-- The kind of a call. -/
def Function.kind? (function : Function) (arguments : List Kind) : Option Kind :=
  match function, arguments with
  | .position, [] | .last, [] | .count, [.nodes] | .stringLength, [] | .stringLength, [_] =>
    some .number
  | .name, [] | .name, [.nodes] | .concat, _ :: _ :: _ | .normalizeSpace, []
  | .normalizeSpace, [_] | .substring, [_, .number] | .translate, [_, _, _] => some .string
  | .contains, [_, _] | .startsWith, [_, _] | .lang, [_] | .not, [_] => some .boolean
  | _, _ => none

/-- The kind of an operation; whether there is a remainder depends on the divisor. -/
def Operator.kind? (operator : Operator) (left right : Kind) : Option Kind :=
  match operator with
  | .or | .and => some .boolean
  | .equal | .notEqual => if left.isComparable right then some .boolean else none
  | .atMost | .atLeast => if left = .number ∧ right = .number then some .boolean else none
  | .plus _ | .minus _ => if left = .number ∧ right = .number then some .number else none
  | .union => if left = .nodes ∧ right = .nodes then some .nodes else none
  | .modulo => none

/-- The number that an expression is, if it is another one than zero. -/
def Expr.divisor? : Expr → Option Int
  | .integer value => if value = 0 then none else some value
  | _ => none

mutual

/-- The kind of the values of an expression, if it can be told. -/
def Expr.kind? : Expr → Option Kind
  | .verbatim _ => none
  | .integer _ => some .number
  | .literal _ => some .string
  | .call function arguments => do function.kind? (← Expr.kinds? arguments)
  | .binary operator left right => do
    let kind ← left.kind?
    if operator = .modulo then
      if kind = .number ∧ right.divisor?.isSome then some .number else none
    else operator.kind? kind (← right.kind?)
  | .group inner => inner.kind?
  | .self | .parent => some .nodes
  | .step _ _ predicates => (Expr.kinds? predicates).map fun _ => .nodes
  | .slash base _ _ predicates => do
    if (← base.kind?) = .nodes then (Expr.kinds? predicates).map fun _ => .nodes else none

/-- The kinds of several expressions. -/
def Expr.kinds? : List Expr → Option (List Kind)
  | [] => some []
  | expr :: rest => do return (← expr.kind?) :: (← Expr.kinds? rest)

end

/-! ### Values of a kind -/

theorem exists_nodes {value : Value} (kind : value.kind = .nodes) :
    ∃ list, value = .nodes list := by
  cases value <;> simp_all [Value.kind]

theorem exists_number {value : Value} (kind : value.kind = .number) :
    ∃ number, value = .number number := by
  cases value <;> simp_all [Value.kind]

/-- Comparable values are compared. -/
theorem exists_compare {left right : Value} (comparable : left.kind.isComparable right.kind)
    (document : Document) (same : Bool) :
    ∃ result, left.compare document same right = some result := by
  cases left <;> cases right <;> simp_all [Value.kind, Kind.isComparable, Value.compare]

/-- A function has a value of its kind on all arguments of the kinds it is for. -/
theorem exists_callFunction {function : Function} {arguments : List Value} {kind : Kind}
    (known : function.kind? (arguments.map Value.kind) = some kind) (document : Document)
    (context : Context) :
    ∃ value, callFunction document context function.text arguments = some value ∧
      value.kind = kind := by
  unfold Function.kind? at known
  split at known <;> rename_i kinds
  case h_17 => simp at known
  all_goals obtain rfl := Option.some.inj known
  -- no argument, the node, or a single node-set
  case h_1 | h_2 | h_4 | h_6 | h_9 =>
    obtain rfl := List.map_eq_nil_iff.mp kinds
    exact ⟨_, rfl, rfl⟩
  case h_3 | h_7 =>
    obtain ⟨value, rfl, isNodes⟩ := List.map_eq_singleton_iff.mp kinds
    obtain ⟨list, rfl⟩ := exists_nodes isNodes
    exact ⟨_, rfl, rfl⟩
  case h_5 | h_10 | h_15 | h_16 =>
    obtain ⟨value, rfl, -⟩ := List.map_eq_singleton_iff.mp kinds
    exact ⟨_, rfl, rfl⟩
  -- arguments that are converted
  case h_13 | h_14 =>
    obtain ⟨value, rest, rfl, -, kinds⟩ := List.map_eq_cons_iff.mp kinds
    obtain ⟨other, rfl, -⟩ := List.map_eq_singleton_iff.mp kinds
    exact ⟨_, rfl, rfl⟩
  case h_8 =>
    obtain ⟨value, rest, rfl, -, kinds⟩ := List.map_eq_cons_iff.mp kinds
    obtain ⟨other, more, rfl, -⟩ := List.map_eq_cons_iff.mp kinds
    exact ⟨_, rfl, rfl⟩
  case h_11 =>
    obtain ⟨value, rest, rfl, -, kinds⟩ := List.map_eq_cons_iff.mp kinds
    obtain ⟨start, rfl, isNumber⟩ := List.map_eq_singleton_iff.mp kinds
    obtain ⟨number, rfl⟩ := exists_number isNumber
    exact ⟨_, rfl, rfl⟩
  case h_12 =>
    obtain ⟨value, rest, rfl, -, kinds⟩ := List.map_eq_cons_iff.mp kinds
    obtain ⟨olds, more, rfl, -, kinds⟩ := List.map_eq_cons_iff.mp kinds
    obtain ⟨news, rfl, -⟩ := List.map_eq_singleton_iff.mp kinds
    exact ⟨_, rfl, rfl⟩

/-- An operator has a value of its kind between values of the kinds it is for. -/
theorem exists_operate {operator : Operator} {left right : Value} {kind : Kind}
    (known : operator.kind? left.kind right.kind = some kind)
    (strict : operator ≠ .or ∧ operator ≠ .and) (document : Document) :
    ∃ value, operate document operator.standard left right = some value ∧ value.kind = kind := by
  have numbers {other : Kind}
      (known : (if left.kind = .number ∧ right.kind = .number then some other else none) =
        some kind) :
      ∃ x y, left = .number x ∧ right = .number y ∧ other = kind := by
    obtain ⟨⟨isNumber, alsoNumber⟩, same⟩ := Option.ite_none_right_eq_some.mp known
    obtain ⟨x, rfl⟩ := exists_number isNumber
    obtain ⟨y, rfl⟩ := exists_number alsoNumber
    exact ⟨x, y, rfl, rfl, Option.some.inj same⟩
  cases operator with
  | or => exact absurd rfl strict.1
  | and => exact absurd rfl strict.2
  | modulo => simp [Operator.kind?] at known
  | equal =>
    obtain ⟨comparable, same⟩ := Option.ite_none_right_eq_some.mp known
    obtain ⟨result, compared⟩ := exists_compare comparable document true
    exact ⟨.boolean result, by simp [Operator.standard, operate, compared], Option.some.inj same⟩
  | notEqual =>
    obtain ⟨comparable, same⟩ := Option.ite_none_right_eq_some.mp known
    obtain ⟨result, compared⟩ := exists_compare comparable document false
    exact ⟨.boolean result, by simp [Operator.standard, operate, compared], Option.some.inj same⟩
  | atMost | atLeast | plus | minus =>
    obtain ⟨x, y, rfl, rfl, rfl⟩ := numbers known
    exact ⟨_, rfl, rfl⟩
  | union =>
    obtain ⟨⟨isNodes, alsoNodes⟩, same⟩ := Option.ite_none_right_eq_some.mp known
    obtain ⟨list, rfl⟩ := exists_nodes isNodes
    obtain ⟨others, rfl⟩ := exists_nodes alsoNodes
    exact ⟨_, rfl, Option.some.inj same⟩

/-- There is a remainder of a division by any other number than zero. -/
theorem exists_modulo {left : Value} (isNumber : left.kind = .number) {divisor : Int}
    (nonzero : divisor ≠ 0) (document : Document) :
    ∃ value, operate document .modulo left (.number divisor) = some value ∧
      value.kind = .number := by
  obtain ⟨x, rfl⟩ := exists_number isNumber
  exact ⟨.number (x.tmod divisor), by simp [operate, Value.number?, nonzero], rfl⟩

/-! ### Steps -/

/-- Along every axis that is used there are nodes, or none. -/
theorem exists_select (document : Document) (axis : Axis) (test : String) (start : Node) :
    ∃ nodes, document.select axis.standard (nodeTest test) start = some nodes := by
  have along : ∃ nodes, document.along axis.standard start = some nodes := by
    cases start with
    | tree address =>
      cases axis with
      | followingSibling | precedingSibling => cases address <;> exact ⟨_, rfl⟩
      | _ => exact ⟨_, rfl⟩
    | «attribute» owner name => cases axis <;> exact ⟨_, rfl⟩
  obtain ⟨nodes, along⟩ := along
  exact ⟨_, by rw [Document.select, along]; rfl⟩

theorem exists_keep_some {holds : Node → Nat → Option Bool}
    (decided : ∀ node position, ∃ value, holds node position = some value) (nodes : List Node)
    (start : Nat) : ∃ kept, keep holds start nodes = some kept := by
  induction nodes generalizing start with
  | nil => exact ⟨[], rfl⟩
  | cons node rest ih =>
    obtain ⟨here, eq⟩ := decided node start
    obtain ⟨others, eqOthers⟩ := ih (start + 1)
    exact ⟨_, by rw [keep, eq, eqOthers]; rfl⟩

theorem exists_collect_some {select : Node → Option (List Node)}
    (each : ∀ node, ∃ list, select node = some list) (nodes : List Node) :
    ∃ list, collect select nodes = some list := by
  induction nodes with
  | nil => exact ⟨[], rfl⟩
  | cons node rest ih =>
    obtain ⟨here, eq⟩ := each node
    obtain ⟨others, eqOthers⟩ := ih
    exact ⟨_, by rw [collect, eq, eqOthers]; rfl⟩

/-! ### Values of expressions -/

theorem Expr.divisor_eq {right : Expr} (known : right.divisor?.isSome) :
    ∃ value, right = .integer value ∧ value ≠ 0 := by
  cases right with
  | integer value => exact ⟨value, rfl, fun zero => by simp [divisor?, zero] at known⟩
  | _ => simp [divisor?] at known

/-- An operation on expressions that have values of the kinds it is for. -/
theorem Expr.exists_eval_binary {operator : Operator} {left right : Expr} {x y : Value}
    {kind : Kind} (evalLeft : left.eval document context = some x)
    (evalRight : right.eval document context = some y)
    (known : operator.kind? x.kind y.kind = some kind) :
    ∃ value, (Expr.binary operator left right).eval document context = some value ∧
      value.kind = kind := by
  -- the connectives take values of any kind
  by_cases isOr : operator = .or
  · subst isOr
    exact ⟨_, eval_or evalLeft evalRight, Option.some.inj known⟩
  by_cases isAnd : operator = .and
  · subst isAnd
    exact ⟨_, eval_and evalLeft evalRight, Option.some.inj known⟩
  · obtain ⟨value, result, isKind⟩ := exists_operate known ⟨isOr, isAnd⟩ document
    exact ⟨value, (eval_binary ⟨isOr, isAnd⟩ evalLeft evalRight).trans result, isKind⟩

/-- A step from several nodes whose predicates have values. -/
theorem Expr.exists_eval_slash_some {base : Expr} {bases : List Node}
    (evalBase : base.eval document context = some (.nodes bases)) (axis : AxisSpecifier)
    (test : String) {predicates : List Expr}
    (each : ∀ nodes, ∃ kept,
      Term.restrict document (Expr.terms predicates) nodes = some kept) :
    ∃ list, (Expr.slash base axis test predicates).eval document context =
      some (.nodes list) := by
  have step (start : Node) : ∃ list,
      (document.select axis.axis.standard (nodeTest test) start >>=
        Term.restrict document (Expr.terms predicates)) = some list := by
    obtain ⟨nodes, select⟩ := exists_select document axis.axis test start
    obtain ⟨kept, restrict⟩ := each nodes
    exact ⟨kept, by simp [select, restrict]⟩
  obtain ⟨list, all⟩ := exists_collect_some step bases
  refine ⟨list, ?_⟩
  unfold eval at evalBase ⊢
  simp only [term, Term.eval_path, evalBase, Option.bind_eq_bind, Option.bind_some,
    Value.nodes?] at all ⊢
  rw [all]
  rfl

mutual

/-- An expression with a kind has a value of that kind wherever it is evaluated. -/
theorem Expr.exists_eval : (expr : Expr) → {kind : Kind} → expr.kind? = some kind →
    (document : Document) → (context : Context) →
    ∃ value, expr.eval document context = some value ∧ value.kind = kind
  | .verbatim _, _, known, _, _ => by simp [kind?] at known
  | .integer value, _, known, _, _ => ⟨_, eval_integer value, Option.some.inj known⟩
  | .literal value, _, known, _, _ => ⟨_, eval_literal value, Option.some.inj known⟩
  | .call function arguments, _, known, document, context => by
    rw [kind?] at known
    obtain ⟨kinds, kindsKnown, known⟩ := Option.bind_eq_some_iff.mp known
    obtain ⟨values, evalAll, rfl⟩ := Expr.exists_evalAll arguments kindsKnown document context
    obtain ⟨value, called, isKind⟩ := exists_callFunction known document context
    exact ⟨value, (eval_call evalAll).trans called, isKind⟩
  | .binary operator left right, _, known, document, context => by
    rw [kind?] at known
    obtain ⟨kind, kindKnown, known⟩ := Option.bind_eq_some_iff.mp known
    obtain ⟨x, evalLeft, rfl⟩ := left.exists_eval kindKnown document context
    -- there is no remainder by zero, so that the kind of the divisor does not suffice
    by_cases isModulo : operator = .modulo
    · subst isModulo
      rw [if_pos rfl] at known
      obtain ⟨⟨isNumber, divisor⟩, same⟩ := Option.ite_none_right_eq_some.mp known
      obtain ⟨number, rfl, nonzero⟩ := divisor_eq divisor
      obtain ⟨value, result, isKind⟩ := exists_modulo isNumber nonzero document
      have strict : Operator.modulo ≠ .or ∧ Operator.modulo ≠ .and := by decide
      exact ⟨value, (eval_binary strict evalLeft (eval_integer number)).trans result,
        isKind.trans (Option.some.inj same)⟩
    · rw [if_neg isModulo] at known
      obtain ⟨other, otherKnown, known⟩ := Option.bind_eq_some_iff.mp known
      obtain ⟨y, evalRight, rfl⟩ := right.exists_eval otherKnown document context
      exact exists_eval_binary evalLeft evalRight known
  | .group inner, _, known, document, context => inner.exists_eval known document context
  | .self, _, known, _, _ => ⟨_, eval_self, Option.some.inj known⟩
  | .parent, _, known, document, context => by
    obtain ⟨nodes, along⟩ : ∃ nodes, document.along .parent context.node = some nodes := by
      cases context.node <;> exact ⟨_, rfl⟩
    refine ⟨.nodes (nodes.filter (document.passes .parent .node)), ?_, Option.some.inj known⟩
    simp [eval, term, Term.eval_step, Term.restrict, Document.select, along]
  | .step axis test predicates, _, known, document, context => by
    obtain ⟨kinds, kindsKnown, same⟩ := Option.map_eq_some_iff.mp known
    obtain ⟨nodes, select⟩ := exists_select document axis.axis test context.node
    obtain ⟨kept, restrict⟩ := Expr.exists_restrict_some predicates kindsKnown document nodes
    refine ⟨.nodes kept, ?_, same⟩
    simp [eval, term, Term.eval_step, select, restrict]
  | .slash base axis test predicates, _, known, document, context => by
    rw [kind?] at known
    obtain ⟨kind, kindKnown, known⟩ := Option.bind_eq_some_iff.mp known
    obtain ⟨isNodes, known⟩ := Option.ite_none_right_eq_some.mp known
    obtain ⟨kinds, kindsKnown, same⟩ := Option.map_eq_some_iff.mp known
    obtain ⟨value, evalBase, rfl⟩ := base.exists_eval kindKnown document context
    obtain ⟨bases, rfl⟩ := exists_nodes isNodes
    obtain ⟨list, eval⟩ := exists_eval_slash_some evalBase axis test
      (Expr.exists_restrict_some predicates kindsKnown document)
    exact ⟨.nodes list, eval, same⟩

/-- Several expressions with kinds have values of those kinds. -/
theorem Expr.exists_evalAll : (exprs : List Expr) → {kinds : List Kind} →
    Expr.kinds? exprs = some kinds → (document : Document) → (context : Context) →
    ∃ values, Expr.evalAll document context exprs = some values ∧ values.map Value.kind = kinds
  | [], _, known, _, _ => ⟨[], rfl, Option.some.inj known⟩
  | expr :: rest, _, known, document, context => by
    rw [kinds?] at known
    obtain ⟨kind, kindKnown, known⟩ := Option.bind_eq_some_iff.mp known
    obtain ⟨kinds, kindsKnown, same⟩ := Option.bind_eq_some_iff.mp known
    obtain ⟨value, eval, rfl⟩ := expr.exists_eval kindKnown document context
    obtain ⟨values, evalRest, rfl⟩ := Expr.exists_evalAll rest kindsKnown document context
    exact ⟨value :: values, evalAll_cons eval evalRest, Option.some.inj same⟩

/-- Predicates with kinds leave some of the nodes. -/
theorem Expr.exists_restrict_some : (predicates : List Expr) → {kinds : List Kind} →
    Expr.kinds? predicates = some kinds → (document : Document) → (nodes : List Node) →
    ∃ kept, Term.restrict document (Expr.terms predicates) nodes = some kept
  | [], _, _, _, nodes => ⟨nodes, rfl⟩
  | expr :: rest, _, known, document, nodes => by
    rw [kinds?] at known
    obtain ⟨kind, kindKnown, known⟩ := Option.bind_eq_some_iff.mp known
    obtain ⟨kinds, kindsKnown, -⟩ := Option.bind_eq_some_iff.mp known
    obtain ⟨passed, passing⟩ : ∃ passed, passing (Term.eval document expr.term) nodes =
        some passed := by
      refine exists_keep_some (fun node position => ?_) nodes 1
      obtain ⟨value, eval, -⟩ := expr.exists_eval kindKnown document ⟨node, position, nodes.length⟩
      unfold Expr.eval at eval
      exact ⟨_, by rw [eval]; rfl⟩
    obtain ⟨kept, restrict⟩ := Expr.exists_restrict_some rest kindsKnown document passed
    exact ⟨kept, by simp [Expr.terms, Term.restrict, passing, restrict]⟩

end

end SelectorPath.XPath
