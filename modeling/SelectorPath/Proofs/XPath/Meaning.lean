import SelectorPath.Proofs.XPath.Evaluation
import SelectorPath.Proofs.XPath.Reading
import SelectorPath.Proofs.XPath.Unambiguity

/-!
# What written expressions evaluate to

A condition is used in two ways, as a predicate and as an operand of `and`, `or` and `not`. A number
would mean a position in the first place and whether it is zero in the second. `Expr.Asserts` is
that an expression makes one claim about its context in both.

## Main definitions

* `Expr.eval` — the value of an expression
* `Quotes` — a literal, or literals put together
* `Expr.Asserts` — an expression holds exactly if a claim does
* `IsConditionFor` — a text is true of an element exactly if a claim holds of it

## Main results

* `Expr.eval_integer`, `Expr.eval_literal` — what is written evaluates to what was meant
* `Expr.Asserts.and`, `Expr.Asserts.or`, `Expr.Asserts.not` — the connectives
* `Expr.isConditionFor` — the text of what an expression asserts of elements
-/

namespace SelectorPath.XPath

open Text Grammar

variable {document : Document} {context : Context}

/-- The value of an expression. -/
def Expr.eval (document : Document) (context : Context) (expr : Expr) : Option Value :=
  expr.term.eval document context

/-! ### Numbers and texts -/

/-- The digits of a number are read as the number. -/
theorem eval_number (n : Nat) :
    Term.eval document (.number n.repr) context = some (.number n) := by
  have digits : n.repr.toList.all isDigit = true :=
    List.all_eq_true.mpr fun _ member => isDigit_of_mem_repr member
  rw [Term.eval_number, numeral?, if_pos digits, decimalValue_repr]
  rfl

/-- A number is read as itself, with its sign. -/
@[simp] theorem Expr.eval_integer (value : Int) :
    (Expr.integer value).eval document context = some (.number value) := by
  cases value with
  | ofNat n => exact eval_number n
  | negSucc n =>
    simp only [Expr.eval, Expr.term, integerTerm]
    rw [Term.eval_negative, eval_number]
    rfl

theorem callFunction_concat (document : Document) (context : Context) (first second : Value) (rest : List Value) :
    callFunction document context "concat" (first :: second :: rest) =
      some (.string (String.join ((first :: second :: rest).map (·.text document)))) := rfl

theorem evalAll_literals (texts : List String) :
    Term.evalAll document (texts.map .literal) context = some (texts.map .string) := by
  induction texts with
  | nil => rfl
  | cons text rest ih => simp [Term.evalAll_cons, Term.eval_literal, ih]

/-- The texts of runs one after the other. -/
theorem join_ofList (runs : List (List Char)) :
    String.join (runs.map String.ofList) = String.ofList runs.flatten := by
  induction runs with
  | nil => rfl
  | cons run rest ih => simp [ih]

/-- A text with quotes of both kinds has at least two runs. -/
theorem exists_two_quoteRuns {cs : List Char} (single : '\'' ∈ cs) (double : '"' ∈ cs) :
    ∃ first second rest, quoteRuns cs = first :: second :: rest := by
  have whole := flatten_quoteRuns cs
  match runs : quoteRuns cs with
  | [] =>
    rw [runs] at whole
    simp [← whole] at single
  | [run] =>
    rw [runs] at whole
    obtain rfl : run = cs := by simpa using whole
    obtain ⟨isQuote, uniform⟩ := quoteRuns_uniform (by simp [runs] : run ∈ quoteRuns run)
    have := (uniform _ double).trans (uniform _ single).symm
    exact absurd this (by decide)
  | first :: second :: rest => exact ⟨first, second, rest, rfl⟩

/-- The term is a literal with the given value, or at least two literals put together to it. -/
def Quotes (value : String) (term : Term) : Prop :=
  term = .literal value ∨ ∃ first second : String, ∃ others : List String,
    term = .call "concat" ((first :: second :: others).map .literal) ∧
      String.join (first :: second :: others) = value

/-- What a quoted text is read as is a literal, or literals put together. -/
theorem quotes_literalTerm (value : String) : Quotes value (literalTerm value) := by
  unfold literalTerm
  split
  · exact .inl rfl
  · rename_i both
    obtain ⟨single, double⟩ : '\'' ∈ value.toList ∧ '"' ∈ value.toList := by
      simpa [not_or] using both
    obtain ⟨first, second, rest, runs⟩ := exists_two_quoteRuns single double
    have joined := join_ofList (quoteRuns value.toList)
    rw [flatten_quoteRuns, String.ofList_toList, runs] at joined
    refine .inr ⟨String.ofList first, String.ofList second, rest.map String.ofList, ?_, joined⟩
    simp [runs]

/-- Literals that quote a value evaluate to it. -/
theorem Quotes.eval {value : String} {term : Term} (quotes : Quotes value term) :
    term.eval document context = some (.string value) := by
  obtain rfl | ⟨first, second, others, rfl, rfl⟩ := quotes
  · rfl
  · have texts : (others.map Value.string).map (·.text document) = others := by
      simp [Value.text, Function.comp_def]
    rw [Term.eval_call, evalAll_literals]
    refine (callFunction_concat document context _ _ _).trans ?_
    rw [List.map_cons, List.map_cons, texts]
    rfl

/-- A literal is read as its value, whatever quotes are in it. -/
@[simp] theorem Expr.eval_literal (value : String) :
    (Expr.literal value).eval document context = some (.string value) :=
  (quotes_literalTerm value).eval

/-! ### Operators and functions -/

/-- An operator between two expressions that have a value, unless the value of the first decides. -/
theorem Expr.eval_binary {operator : Operator} (strict : operator ≠ .or ∧ operator ≠ .and)
    {left right : Expr} {x y : Value} (evalLeft : left.eval document context = some x)
    (evalRight : right.eval document context = some y) :
    (Expr.binary operator left right).eval document context =
      operate document operator.standard x y := by
  have standard : operator.standard ≠ .or ∧ operator.standard ≠ .and := by
    cases operator <;> simp_all [Operator.standard]
  unfold Expr.eval at *
  rw [Expr.term, Term.eval_binary standard, evalLeft, evalRight]
  rfl

theorem Expr.eval_and {left right : Expr} {x y : Value}
    (evalLeft : left.eval document context = some x)
    (evalRight : right.eval document context = some y) :
    (Expr.binary .and left right).eval document context =
      some (.boolean (x.truth && y.truth)) := by
  unfold Expr.eval at *
  cases truth : x.truth <;>
    simp [Expr.term, Operator.standard, Term.eval_and, evalLeft, evalRight, truth]

theorem Expr.eval_or {left right : Expr} {x y : Value}
    (evalLeft : left.eval document context = some x)
    (evalRight : right.eval document context = some y) :
    (Expr.binary .or left right).eval document context =
      some (.boolean (x.truth || y.truth)) := by
  unfold Expr.eval at *
  cases truth : x.truth <;>
    simp [Expr.term, Operator.standard, Term.eval_or, evalLeft, evalRight, truth]

/-- The values of several expressions. -/
def Expr.evalAll (document : Document) (context : Context) (exprs : List Expr) :
    Option (List Value) :=
  Term.evalAll document (Expr.terms exprs) context

@[simp] theorem Expr.evalAll_nil : Expr.evalAll document context [] = some [] := rfl

theorem Expr.evalAll_cons {expr : Expr} {rest : List Expr} {value : Value} {values : List Value}
    (here : expr.eval document context = some value)
    (others : Expr.evalAll document context rest = some values) :
    Expr.evalAll document context (expr :: rest) = some (value :: values) := by
  unfold Expr.eval Expr.evalAll at *
  simp [Expr.terms, Term.evalAll_cons, here, others]

/-- A call of a function whose arguments have values. -/
theorem Expr.eval_call {function : Function} {arguments : List Expr} {values : List Value}
    (all : Expr.evalAll document context arguments = some values) :
    (Expr.call function arguments).eval document context =
      callFunction document context function.text values := by
  unfold Expr.evalAll at all
  simp [Expr.eval, Expr.term, Term.eval_call, all]

/-- The context node. -/
theorem Expr.eval_self : Expr.self.eval document context = some (.nodes [context.node]) := by
  cases context with
  | mk node position size =>
    cases node <;> rfl

/-! ### Conditions -/

/-- The expression is true as a truth value. -/
def Expr.Holds (document : Document) (context : Context) (expr : Expr) : Prop :=
  ∃ value, expr.eval document context = some value ∧ value.truth = true

/-- The expression has a value, and as a predicate says the same as as a truth value. -/
def Expr.Decides (document : Document) (context : Context) (expr : Expr) : Prop :=
  ∃ value, expr.eval document context = some value ∧
    value.holdsAt context.position = value.truth

/-- The expression holds exactly if the claim does. -/
structure Expr.Asserts (document : Document) (context : Context) (expr : Expr) (claim : Prop) :
    Prop where
  decides : expr.Decides document context
  holds : expr.Holds document context ↔ claim

/-- What is true is the value of an expression, if it has one. -/
theorem Expr.holds_iff {expr : Expr} {value : Value}
    (eval : expr.eval document context = some value) :
    expr.Holds document context ↔ value.truth = true := by
  simp [Expr.Holds, eval]

theorem Expr.asserts_of_value {expr : Expr} {value : Value} {claim : Prop}
    (eval : expr.eval document context = some value)
    (asPredicate : value.holdsAt context.position = value.truth)
    (truth : value.truth = true ↔ claim) : expr.Asserts document context claim :=
  ⟨⟨value, eval, asPredicate⟩, (holds_iff eval).trans truth⟩

theorem Expr.asserts_of_boolean {expr : Expr} {value : Bool} {claim : Prop}
    (eval : expr.eval document context = some (.boolean value)) (truth : value = true ↔ claim) :
    expr.Asserts document context claim :=
  asserts_of_value eval rfl truth

theorem Expr.asserts_of_nodes {expr : Expr} {list : List Node} {claim : Prop}
    (eval : expr.eval document context = some (.nodes list)) (truth : list ≠ [] ↔ claim) :
    expr.Asserts document context claim := by
  refine asserts_of_value eval rfl (Iff.trans ?_ truth)
  cases list <;> simp [Value.truth]

/-- Nothing is at position zero. -/
theorem Expr.asserts_zero (positive : 0 < context.position) :
    (Expr.integer 0).Asserts document context False := by
  refine asserts_of_value (eval_integer 0) ?_ (by simp [Value.truth])
  have nonzero : ¬ (0 : Int) = context.position := by omega
  simpa [Value.holdsAt, Value.truth] using nonzero

namespace Expr.Asserts

variable {left right : Expr} {p q : Prop}

theorem congr {expr : Expr} (asserts : expr.Asserts document context p) (same : p ↔ q) :
    expr.Asserts document context q :=
  ⟨asserts.decides, asserts.holds.trans same⟩

theorem group {expr : Expr} (asserts : expr.Asserts document context p) :
    (Expr.group expr).Asserts document context p :=
  ⟨asserts.decides, asserts.holds⟩

theorem and (first : left.Asserts document context p) (second : right.Asserts document context q) :
    (Expr.binary .and left right).Asserts document context (p ∧ q) := by
  obtain ⟨x, evalLeft, -⟩ := first.decides
  obtain ⟨y, evalRight, -⟩ := second.decides
  refine asserts_of_boolean (eval_and evalLeft evalRight) ?_
  rw [Bool.and_eq_true, ← holds_iff evalLeft, ← holds_iff evalRight, first.holds, second.holds]

theorem or (first : left.Asserts document context p) (second : right.Asserts document context q) :
    (Expr.binary .or left right).Asserts document context (p ∨ q) := by
  obtain ⟨x, evalLeft, -⟩ := first.decides
  obtain ⟨y, evalRight, -⟩ := second.decides
  refine asserts_of_boolean (eval_or evalLeft evalRight) ?_
  rw [Bool.or_eq_true, ← holds_iff evalLeft, ← holds_iff evalRight, first.holds, second.holds]

theorem not {expr : Expr} (asserts : expr.Asserts document context p) :
    (Expr.call .not [expr]).Asserts document context (¬p) := by
  obtain ⟨x, eval, -⟩ := asserts.decides
  have call : (Expr.call .not [expr]).eval document context = some (.boolean !x.truth) :=
    eval_call (evalAll_cons eval evalAll_nil)
  refine asserts_of_boolean call ?_
  rw [← asserts.holds, holds_iff eval, Bool.not_eq_true', Bool.not_eq_true]

end Expr.Asserts

/-! ### Texts about positions -/

/-- The text is an expression that is true or false at a position among `size` nodes, in every
document and at every node alike. -/
def IsBooleanAt (text : String) (position size : Nat) (value : Bool) : Prop :=
  ∃ term, Reads text term ∧
    ∀ document node, term.eval document ⟨node, position, size⟩ = some (.boolean value)

/-- A text has one value. -/
theorem IsBooleanAt.unique {text : String} {position size : Nat} {first second : Bool}
    (isFirst : IsBooleanAt text position size first)
    (isSecond : IsBooleanAt text position size second) : first = second := by
  obtain ⟨term, reads, eval⟩ := isFirst
  obtain ⟨other, readsAlso, evalAlso⟩ := isSecond
  obtain rfl := reads.unique readsAlso
  -- any document will do
  have same := (eval ⟨"", .none, []⟩ (.tree [])).symm.trans (evalAlso ⟨"", .none, []⟩ (.tree []))
  simpa using same

/-- The text of a valid expression has the value of the expression. -/
theorem Expr.isBooleanAt {expr : Expr} (valid : expr.Valid) {position size : Nat} {value : Bool}
    (eval : ∀ document node, expr.eval document ⟨node, position, size⟩ = some (.boolean value)) :
    IsBooleanAt expr.text position size value :=
  ⟨expr.term, reads valid, eval⟩

/-! ### Texts about elements -/

/-- The text is an expression that is true of an element exactly if the claim holds of it. It is so
as a predicate and as an operand, and at every position of every step. -/
def IsConditionFor (document : Document) (text : String) (Claim : Address → Prop) : Prop :=
  ∃ term, Reads text term ∧ ∀ x, document.IsElement x → ∀ position size, 0 < position →
    ∃ value, term.eval document ⟨.tree x, position, size⟩ = some value ∧
      (value.holdsAt position = true ↔ Claim x) ∧ (value.truth = true ↔ Claim x)

/-- A text says one thing of every element. -/
theorem IsConditionFor.unique {text : String} {Claim Other : Address → Prop}
    (isCondition : IsConditionFor document text Claim) (also : IsConditionFor document text Other)
    {x : Address} (inside : document.IsElement x) : Claim x ↔ Other x := by
  obtain ⟨term, reads, tells⟩ := isCondition
  obtain ⟨other, readsAlso, tellsAlso⟩ := also
  obtain rfl := reads.unique readsAlso
  obtain ⟨value, eval, -, truth⟩ := tells x inside 1 1 Nat.one_pos
  obtain ⟨same, evalAlso, -, truthAlso⟩ := tellsAlso x inside 1 1 Nat.one_pos
  obtain rfl := Option.some.inj (eval.symm.trans evalAlso)
  exact truth.symm.trans truthAlso

theorem IsConditionFor.congr {text : String} {Claim Other : Address → Prop}
    (isCondition : IsConditionFor document text Claim) (same : ∀ x, Claim x ↔ Other x) :
    IsConditionFor document text Other := by
  obtain rfl : Claim = Other := funext fun x => propext (same x)
  exact isCondition

/-- The text of a valid expression says of elements what the expression asserts. -/
theorem Expr.isConditionFor {expr : Expr} (valid : expr.Valid) {Claim : Address → Prop}
    (asserts : ∀ x, document.IsElement x → ∀ position size, 0 < position →
      expr.Asserts document ⟨.tree x, position, size⟩ (Claim x)) :
    IsConditionFor document expr.text Claim := by
  refine ⟨expr.term, reads valid, fun x inside position size positive => ?_⟩
  -- what is decided says the same as a predicate and as an operand
  obtain ⟨⟨value, eval, asPredicate⟩, holds⟩ := asserts x inside position size positive
  have truth : value.truth = true ↔ Claim x := (holds_iff eval).symm.trans holds
  exact ⟨value, eval, (asPredicate ▸ truth : value.holdsAt position = true ↔ Claim x), truth⟩

end SelectorPath.XPath
