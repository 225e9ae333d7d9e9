import SelectorPath.Proofs.XPath.Selection

/-!
# What a step leaves of some nodes

An axis lists nodes, the node test of a step picks some of them, and its predicates leave some of
those. The last two depend on the axis only through the kind of its nodes, so what a step means can
be said for every axis and of any nodes at once, whether or not they are listed by the axis. It is
said of the text of the step, which is read in one way only.

## Main definitions

* `StepKeeps` — a written step leaves of any nodes those of which a claim holds

## Main results

* `reads_step` — a step is read as it is meant behind the name of each axis
* `StepKeeps.unique` — a step leaves the same nodes by whatever claim
* `StepKeeps.exists_eval` — what is left of the nodes along the axis is what the step evaluates to
* `stepKeeps_test`, `stepKeeps_condition` — a node test alone, and one condition that does not count
-/

namespace SelectorPath.XPath

open Grammar

variable {document : Document} {axis : Grammar.Axis} {step test : String} {claim : Node → Bool}

/-! ### Steps along any axis -/

theorem Grammar.Axis.ofName?_name (axis : Grammar.Axis) :
    Grammar.Axis.ofName? axis.name = some axis := by
  cases axis <;> decide

theorem Grammar.Axis.isPlainName_name (axis : Grammar.Axis) : isPlainName axis.name = true := by
  cases axis <;> decide

/-- A step is read as it is meant behind the name of any axis. -/
theorem reads_step (axis : Grammar.Axis) (valid : IsNodeTest test) {predicates : List Expr}
    (all : Expr.AllValid predicates) :
    Reads (axis.name ++ "::" ++ (test ++ Expr.predicatesText predicates))
      (.step axis (nodeTest test) (Expr.terms predicates)) := by
  obtain ⟨brackets, read⟩ := Expr.exists_readPredicates predicates all
  have tested := lexes_nodeTest valid (Expr.ends_predicates predicates Ends.nil)
    (read.lexes (.nil false))
  have colons : Lexes false (':' :: ':' :: _) (.twoColons :: _) := .token rfl rfl tested
  have named := lexes_name axis.isPlainName_name
    (readOperandName_axis axis.isPlainName_name axis.ofName?_name) colons
  have grouped : Grammar.Step (.axisName axis :: .twoColons :: .nameTest (nodeTest test) :: brackets)
      axis (nodeTest test) (Expr.terms predicates) :=
    .full (.named axis) (.name (nodeTest test)) read.grouped
  have path : RelativePath none _ (.step axis (nodeTest test) (Expr.terms predicates)) :=
    .step grouped
  exact ⟨_, by simpa using named, (Expression.relative path).ofLevel (Nat.zero_le _) (Nat.le_refl _)⟩

/-- Along the axis, the step leaves of any nodes those of which the claim holds. -/
def StepKeeps (document : Document) (axis : Grammar.Axis) (step : String) (claim : Node → Bool) :
    Prop :=
  ∃ test predicates, Reads (axis.name ++ "::" ++ step) (.step axis test predicates) ∧
    ∀ nodes : List Node, Term.restrict document predicates (nodes.filter (document.passes axis test)) =
      some (nodes.filter claim)

namespace StepKeeps

/-- What a step leaves does not depend on how it is said. -/
theorem unique (keeps : StepKeeps document axis step claim) {other : Node → Bool}
    (also : StepKeeps document axis step other) : claim = other := by
  obtain ⟨test, predicates, reads, left⟩ := keeps
  obtain ⟨_, _, readsAlso, leftAlso⟩ := also
  obtain ⟨-, rfl, rfl⟩ := Term.step.inj (reads.unique readsAlso)
  funext node
  -- one node is enough to tell two claims apart
  have same := Option.some.inj ((left [node]).symm.trans (leftAlso [node]))
  cases here : claim node <;> cases there : other node <;> simp [here, there] at same ⊢

/-- What is left of the nodes along the axis is what the step evaluates to. -/
theorem exists_eval (keeps : StepKeeps document axis step claim) {node : Node} {nodes : List Node}
    (along : document.along axis node = some nodes) :
    ∃ term, Reads (axis.name ++ "::" ++ step) term ∧ ∀ position size,
      term.eval document ⟨node, position, size⟩ = some (.nodes (nodes.filter claim)) := by
  obtain ⟨test, predicates, reads, left⟩ := keeps
  refine ⟨_, reads, fun position size => ?_⟩
  rw [Term.eval_step, Document.select, along]
  simp [left]

theorem congr (keeps : StepKeeps document axis step claim) {other : Node → Bool}
    (same : ∀ node, claim node = other node) : StepKeeps document axis step other := by
  obtain rfl : claim = other := funext same
  exact keeps

end StepKeeps

/-! ### Conditions that do not count -/

/-- A predicate that says the same at every position leaves the nodes of which it says it. -/
theorem keep_eq_filter {holds : Node → Nat → Option Bool} {nodes : List Node}
    (decided : ∀ node ∈ nodes, ∀ position, 0 < position → holds node position = some (claim node))
    {start : Nat} (positive : 0 < start) : keep holds start nodes = some (nodes.filter claim) := by
  induction nodes generalizing start with
  | nil => rfl
  | cons first rest ih =>
    rw [List.forall_mem_cons] at decided
    have others := ih decided.2 (Nat.succ_pos start)
    rw [List.filter_cons]
    simp [keep, decided.1 start positive, others]

/-- So does a condition that is decided without regard to positions. -/
theorem restrict_of_asserts {condition : Expr} {nodes : List Node}
    (asserts : ∀ node ∈ nodes, ∀ position size, 0 < position →
      condition.Asserts document ⟨node, position, size⟩ (claim node = true)) :
    Term.restrict document (Expr.terms [condition]) nodes = some (nodes.filter claim) := by
  have kept : passing (Term.eval document condition.term) nodes = some (nodes.filter claim) := by
    refine keep_eq_filter (fun node member position positive => ?_) Nat.one_pos
    obtain ⟨⟨value, eval, asPredicate⟩, holds⟩ :=
      asserts node member position nodes.length positive
    rw [show Term.eval document condition.term _ = some value from eval, Option.map_some,
      Option.some.injEq, Bool.eq_iff_iff, asPredicate, ← Expr.holds_iff eval, holds]
  simp [Expr.terms, Term.restrict, kept]

/-- A node test alone leaves the nodes that pass it. -/
theorem stepKeeps_test (axis : Grammar.Axis) (valid : IsNodeTest test) :
    StepKeeps document axis test (document.passes axis (nodeTest test)) := by
  have reads := @reads_step _ axis valid [] trivial
  rw [Expr.predicatesText, String.append_empty] at reads
  exact ⟨_, _, reads, fun _ => rfl⟩

/-- A condition that does not count leaves those of which it holds. -/
theorem stepKeeps_condition (axis : Grammar.Axis) (valid : IsNodeTest test) {condition : Expr}
    (written : condition.Valid)
    (asserts : ∀ node position size, 0 < position →
      condition.Asserts document ⟨node, position, size⟩ (claim node = true)) :
    StepKeeps document axis (stepText test (some condition)) fun node =>
      document.passes axis (nodeTest test) node && claim node := by
  refine ⟨_, _, @reads_step _ axis valid [condition] ⟨written, trivial⟩, fun nodes => ?_⟩
  rw [restrict_of_asserts fun node _ => asserts node, List.filter_filter]
  simp only [Bool.and_comm]

end SelectorPath.XPath
