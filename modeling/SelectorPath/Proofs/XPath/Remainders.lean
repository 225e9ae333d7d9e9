import SelectorPath.Proofs.XPath.Elements

/-!
# What a step can leave

Whether a step has a value depends on everything in it. But if it has one, what it leaves passes the
node test, and each condition in the predicate holds of it, whatever the others are. A number as a
predicate asks for a position, and no position is zero, so the number is true as an operand too.

## Main definitions

* `StepLeaves` — a step from some node leaves the given node

## Main results

* `StepLeaves.passes`, `StepLeaves.exists_holds` — what a step leaves passes all that it asks
* `stepLeaves_of_eval_step`, `stepLeaves_of_eval_slash` — the value of a step is what it leaves
* `LocationPath.passes_of_membership` — what a membership test holds of passes the node test
-/

namespace SelectorPath.XPath

open Grammar

variable {document : Document} {context : Context} {nodes kept : List Node} {node : Node}

/-! ### Predicates -/

/-- What holds at a position is true. -/
theorem Grammar.Value.truth_of_holdsAt {value : Value} {position : Nat} (positive : 0 < position)
    (holds : value.holdsAt position = true) : value.truth = true := by
  cases value with
  | number value =>
    -- the number is the position, which is not zero
    have same : value = position := by simpa [holdsAt] using holds
    have nonzero : value ≠ 0 := by omega
    simpa [truth] using nonzero
  | nodes | boolean | string => exact holds

theorem exists_place_of_keep {holds : Node → Nat → Option Bool} {start : Nat}
    (eq : keep holds start nodes = some kept) (member : node ∈ kept) :
    node ∈ nodes ∧ ∃ position, start ≤ position ∧ holds node position = some true := by
  induction nodes generalizing start kept with
  | nil =>
    obtain rfl := Option.some.inj eq
    exact absurd member List.not_mem_nil
  | cons first rest ih =>
    simp only [keep, Option.bind_eq_bind, Option.bind_eq_some_iff] at eq
    obtain ⟨value, here, others, left, same⟩ := eq
    obtain rfl := Option.some.inj same
    have later (member : node ∈ others) :
        node ∈ first :: rest ∧ ∃ position, start ≤ position ∧ holds node position = some true := by
      obtain ⟨inside, position, behind, holds⟩ := ih left member
      exact ⟨List.mem_cons_of_mem _ inside, position, by omega, holds⟩
    cases value with
    | false => exact later member
    | true =>
      rcases List.mem_cons.mp member with rfl | member
      · exact ⟨List.mem_cons_self, start, Nat.le_refl _, here⟩
      · exact later member

/-- A predicate leaves some of the nodes, and is true of those. -/
theorem exists_truth_of_passing {value : Context → Option Value}
    (eq : passing value nodes = some kept) (member : node ∈ kept) :
    node ∈ nodes ∧ ∃ position result, value ⟨node, position, nodes.length⟩ = some result ∧
      result.truth = true := by
  obtain ⟨inside, position, positive, holds⟩ := exists_place_of_keep eq member
  obtain ⟨result, eval, holds⟩ := Option.map_eq_some_iff.mp holds
  exact ⟨inside, position, result, eval, Value.truth_of_holdsAt positive holds⟩

/-- Predicates leave some of the nodes. -/
theorem subset_of_restrict {predicates : List Term}
    (eq : Term.restrict document predicates nodes = some kept) : kept ⊆ nodes := by
  induction predicates generalizing nodes with
  | nil =>
    obtain rfl := Option.some.inj eq
    exact List.Subset.refl _
  | cons predicate rest ih =>
    simp only [Term.restrict, Option.bind_eq_bind, Option.bind_eq_some_iff] at eq
    obtain ⟨passed, left, eq⟩ := eq
    intro node member
    exact (exists_truth_of_passing left (ih eq member)).1

/-! ### Conditions in one predicate -/

theorem Expr.holds_of_and {left right : Expr}
    (holds : (Expr.binary .and left right).Holds document context) :
    left.Holds document context ∧ right.Holds document context := by
  obtain ⟨value, eval, truth⟩ := holds
  rw [Expr.eval, Expr.term, Operator.standard, Term.eval_and] at eval
  simp only [Option.bind_eq_bind, Option.bind_eq_some_iff] at eval
  obtain ⟨first, evalLeft, eval⟩ := eval
  by_cases isTrue : first.truth = true
  · rw [if_pos isTrue] at eval
    simp only [Option.bind_eq_some_iff] at eval
    obtain ⟨second, evalRight, same⟩ := eval
    obtain rfl := Option.some.inj same
    exact ⟨⟨first, evalLeft, isTrue⟩, ⟨second, evalRight, truth⟩⟩
  · rw [if_neg isTrue] at eval
    obtain rfl := Option.some.inj eval
    exact absurd truth Bool.false_ne_true

theorem Expr.holds_of_foldl_and {first : Expr} {rest : List Expr}
    (holds : (rest.foldl (.binary .and) first).Holds document context) :
    ∀ expr ∈ first :: rest, expr.Holds document context := by
  induction rest generalizing first with
  | nil => simpa using holds
  | cons next rest ih =>
    obtain ⟨joined, others⟩ := List.forall_mem_cons.mp (ih holds)
    obtain ⟨here, there⟩ := holds_of_and joined
    exact List.forall_mem_cons.mpr ⟨here, List.forall_mem_cons.mpr ⟨there, others⟩⟩

/-- If a predicate holds, all conditions in it do. -/
theorem Expr.holds_of_conjunction {conditions : List Expr} {condition : Expr}
    (joined : conjunction? conditions = some condition) (holds : condition.Holds document context) :
    ∀ expr ∈ conditions, expr.Holds document context := by
  match conditions, joined with
  | [expr], joined =>
    obtain rfl := Option.some.inj joined
    simpa using holds
  | first :: next :: rest, joined =>
    obtain rfl := Option.some.inj joined
    have grouped : ∀ expr ∈ (first :: next :: rest).map Expr.group, expr.Holds document context :=
      holds_of_foldl_and holds
    intro expr member
    have inParentheses : (group expr).Holds document context :=
      grouped _ (List.mem_map_of_mem member)
    exact inParentheses

/-! ### Steps -/

/-- The step along `axis` from some node leads to the given node, which its predicates leave. -/
def StepLeaves (document : Document) (axis : Grammar.Axis) (test : String) (predicates : List Expr)
    (node : Node) : Prop :=
  ∃ start nodes kept, document.select axis (nodeTest test) start = some nodes ∧
    Term.restrict document (Expr.terms predicates) nodes = some kept ∧ node ∈ kept

namespace StepLeaves

variable {axis : Grammar.Axis} {test : String} {exprs : List Expr}

/-- What a step leaves passes its node test. -/
theorem passes (leaves : StepLeaves document axis test exprs node) :
    document.passes axis (nodeTest test) node = true := by
  obtain ⟨start, nodes, kept, select, left, member⟩ := leaves
  obtain ⟨along, -, rfl⟩ := Option.map_eq_some_iff.mp select
  exact (List.mem_filter.mp (subset_of_restrict left member)).2

/-- Each condition of a step holds of what the step leaves. -/
theorem exists_holds {conditions : List Expr}
    (leaves : StepLeaves document axis test (predicates (Expr.conjunction? conditions)) node) :
    ∃ position size, ∀ expr ∈ conditions, expr.Holds document ⟨node, position, size⟩ := by
  obtain ⟨start, nodes, kept, -, left, member⟩ := leaves
  cases joined : Expr.conjunction? conditions with
  | none =>
    obtain rfl := Expr.eq_nil_of_joinGroups? joined
    exact ⟨1, 1, by simp⟩
  | some condition =>
    rw [joined] at left
    simp only [predicates, Expr.terms, Term.restrict, Option.bind_eq_bind,
      Option.bind_eq_some_iff] at left
    obtain ⟨passed, left, same⟩ := left
    obtain rfl := Option.some.inj same
    obtain ⟨-, position, result, eval, truth⟩ := exists_truth_of_passing left member
    exact ⟨position, nodes.length, Expr.holds_of_conjunction joined ⟨result, eval, truth⟩⟩

end StepLeaves

/-- A step that has a value leaves the nodes of that. -/
theorem stepLeaves_of_eval_step {axis : AxisSpecifier} {test : String} {exprs : List Expr}
    {value : Value} (eval : (Expr.step axis test exprs).eval document context = some value) :
    ∃ list, value = .nodes list ∧
      ∀ node ∈ list, StepLeaves document axis.axis.standard test exprs node := by
  rw [Expr.eval, Expr.term, Term.eval_step] at eval
  simp only [Option.bind_eq_bind, Option.bind_eq_some_iff] at eval
  obtain ⟨nodes, select, list, left, same⟩ := eval
  obtain rfl := Option.some.inj same
  exact ⟨list, rfl, fun node member => ⟨_, nodes, list, select, left, member⟩⟩

theorem exists_mem_of_collect {select : Node → Option (List Node)}
    (eq : collect select nodes = some kept) (member : node ∈ kept) :
    ∃ start list, select start = some list ∧ node ∈ list := by
  induction nodes generalizing kept with
  | nil =>
    obtain rfl := Option.some.inj eq
    exact absurd member List.not_mem_nil
  | cons first rest ih =>
    simp only [collect, Option.bind_eq_bind, Option.bind_eq_some_iff] at eq
    obtain ⟨here, found, others, left, same⟩ := eq
    obtain rfl := Option.some.inj same
    rcases List.mem_append.mp member with member | member
    · exact ⟨first, here, found, member⟩
    · exact ih left member

/-- So does a step from several nodes. -/
theorem stepLeaves_of_eval_slash {base : Expr} {axis : AxisSpecifier} {test : String}
    {exprs : List Expr} {value : Value}
    (eval : (Expr.slash base axis test exprs).eval document context = some value) :
    ∃ list, value = .nodes list ∧
      ∀ node ∈ list, StepLeaves document axis.axis.standard test exprs node := by
  rw [Expr.eval, Expr.term, Term.eval_path] at eval
  simp only [Option.bind_eq_bind, Option.bind_eq_some_iff] at eval
  obtain ⟨-, -, bases, -, list, collected, same⟩ := eval
  obtain rfl := Option.some.inj same
  refine ⟨list, rfl, fun node member => ?_⟩
  obtain ⟨start, kept, left, inside⟩ := exists_mem_of_collect collected member
  obtain ⟨nodes, select, left⟩ := Option.bind_eq_some_iff.mp left
  exact ⟨start, nodes, kept, select, left, inside⟩

/-! ### Membership -/

theorem exists_nodes_of_count {expr : Expr} {value : Value}
    (eval : (Expr.call .count [expr]).eval document context = some value) :
    ∃ list, expr.eval document context = some (.nodes list) ∧
      value = .number list.dedup.length := by
  rw [Expr.eval, Expr.term, Term.eval_call] at eval
  simp only [Expr.terms, Term.evalAll, Option.bind_eq_bind, Option.bind_eq_some_iff] at eval
  obtain ⟨values, ⟨inner, evalInner, others, none, same⟩, eval⟩ := eval
  obtain rfl := Option.some.inj none
  obtain rfl := Option.some.inj same
  cases inner with
  | nodes list =>
    obtain rfl := Option.some.inj eval
    exact ⟨list, evalInner, rfl⟩
  | boolean | number | string => exact nomatch eval

/-- A comparison that holds compares two values. -/
theorem exists_values_of_equal {left right : Expr}
    (holds : (Expr.binary .equal left right).Holds document context) :
    ∃ x y, left.eval document context = some x ∧ right.eval document context = some y ∧
      x.compare document true y = some true := by
  obtain ⟨value, eval, truth⟩ := holds
  rw [Expr.eval, Expr.term, Operator.standard, Term.eval_binary (by simp)] at eval
  simp only [Option.bind_eq_bind, Option.bind_eq_some_iff, operate, Option.map_eq_some_iff] at eval
  obtain ⟨x, evalLeft, y, evalRight, same, compared, rfl⟩ := eval
  obtain rfl : same = true := truth
  exact ⟨x, y, evalLeft, evalRight, compared⟩

/-- If a membership test holds of a node, the node passes the node test of the step. -/
theorem LocationPath.passes_of_membership {path : LocationPath}
    (holds : path.membership.Holds document context) :
    document.passes .child (nodeTest path.test) context.node = true := by
  obtain ⟨x, y, evalUnion, evalSiblings, compared⟩ := exists_values_of_equal holds
  obtain ⟨list, siblings, rfl⟩ := exists_nodes_of_count evalSiblings
  obtain ⟨union, united, rfl⟩ := exists_nodes_of_count evalUnion
  have added : (Expr.binary .union .self path.siblings).eval document context =
      some (.nodes (context.node :: list)) :=
    Expr.eval_binary (by simp) Expr.eval_self siblings
  obtain rfl : context.node :: list = union := by
    simpa using added.symm.trans united
  have member : context.node ∈ list := by
    rw [← length_dedup_cons, ← Int.natCast_inj]
    simpa [Value.compare] using compared
  obtain ⟨selected, same, leaves⟩ := stepLeaves_of_eval_slash siblings
  obtain rfl : list = selected := Value.nodes.inj same
  exact (leaves _ member).passes

end SelectorPath.XPath
