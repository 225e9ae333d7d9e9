import SelectorPath.Proofs.Selector.Evaluable
import SelectorPath.Proofs.Selector.Runs
import SelectorPath.Proofs.XPath.Predicates

/-!
# Alternatives that match every element

If one argument of `:is()` or `:where()` matches every element, so do they all together, and the
condition that they add holds everywhere. It makes no difference to the nodes that a step leads to,
along whatever axis and from whatever node, unless it is the number `1` and the step has no other
condition: then it asks for the first node of the step.

## Main definitions

* `Selector.Tree.IsArgument` — the condition that a tree adds as an argument
* `Selector.Tree.AdmitsAll` — as an argument, a tree matches every element of a document
* `Selector.Tree.IsUniversal` — the universal selector, alone or with alternatives like it
* `Selector.Tree.StepsAlike` — two compounds make the same steps, but for the number `1`

## Main results

* `Selector.Tree.IsUniversal.admitsAll` — a universal selector as an argument matches every element
* `Selector.Tree.stepsAlike_anyOf` — alternatives one of which does make no difference
* `Selector.selects_anyOf_universal` — where the number `1` does
-/

namespace SelectorPath

open XPath Expr Grammar

variable {document : Document} {context : Context}

/-! ### Several conditions that hold -/

namespace XPath.Expr

/-- One of several conditions holds if their disjunction does not fail. -/
theorem holds_foldl_or {first : Expr} {rest : List Expr}
    (values : ∀ expr ∈ first :: rest, ∃ value, expr.eval document context = some value)
    (one : ∃ expr ∈ first :: rest, expr.Holds document context) :
    (rest.foldl (.binary .or) first).Holds document context := by
  induction rest generalizing first with
  | nil => simpa using one
  | cons next rest ih =>
    obtain ⟨x, evalFirst⟩ := values first (by simp)
    obtain ⟨y, evalNext⟩ := values next (by simp)
    -- the first two are one operand of the others
    have either := eval_or evalFirst evalNext
    refine ih (fun expr member => ?_) ?_
    · rcases List.mem_cons.mp member with rfl | member
      · exact ⟨_, either⟩
      · exact values expr (List.mem_cons_of_mem _ (List.mem_cons_of_mem _ member))
    · simp only [List.exists_mem_cons_iff] at one ⊢
      rw [holds_iff either]
      rw [holds_iff evalFirst, holds_iff evalNext, ← or_assoc] at one
      simpa [Value.truth] using one

theorem holds_disjunction {conditions : List Expr} (all : ∀ expr ∈ conditions, expr.IsCondition)
    (one : ∃ expr ∈ conditions, expr.Holds document context) {condition : Expr}
    (joined : disjunction? conditions = some condition) : condition.Holds document context := by
  obtain ⟨expr, inside, holds⟩ := one
  cases joined_of_joinGroups? joined with
  | single =>
    obtain rfl := List.mem_singleton.mp inside
    exact holds
  | groups =>
    exact holds_foldl_or (exists_eval_group all) ⟨group expr, List.mem_map_of_mem inside, holds⟩

/-- A conjunction of conditions that hold, holds. -/
theorem holds_conjunction {conditions : List Expr} (all : ∀ expr ∈ conditions, expr.IsCondition)
    (each : ∀ expr ∈ conditions, expr.Holds document context) {condition : Expr}
    (joined : conjunction? conditions = some condition) : condition.Holds document context := by
  cases joined_of_joinGroups? joined with
  | single => exact each _ List.mem_cons_self
  | @groups first next rest =>
    obtain ⟨truth, eval, iff⟩ := exists_eval_foldl_and (exists_eval_group all)
    have grouped : ∀ expr ∈ (first :: next :: rest).map group, expr.Holds document context := by
      intro expr member
      obtain ⟨inner, inside, rfl⟩ := List.mem_map.mp member
      exact each inner inside
    exact ⟨_, eval, iff.mpr grouped⟩

end XPath.Expr

/-! ### The last step of a path -/

namespace XPath.LocationPath

variable {conditions others : List Expr} {test : String}

theorem eval_stepExpr_congr
    (same : ∀ axis start, axis ≠ .attribute →
      reached document axis test conditions start = reached document axis test others start)
    (base : Expr) {link : Link} (plain : ∀ text, link ≠ .verbatim text) :
    (stepExpr (some (base, link)) test (conjunction? conditions)).eval document context =
      (stepExpr (some (base, link)) test (conjunction? others)).eval document context := by
  have along (axis : AxisSpecifier) (elements : axis.axis ≠ .attribute) (base : Expr) :
      (Expr.slash base axis test (predicates (conjunction? conditions))).eval document context =
        (Expr.slash base axis test (predicates (conjunction? others))).eval document context := by
    rw [eval_slash_reached, eval_slash_reached, funext fun start => same axis.axis start elements]
  cases link with
  | child | descendant => exact along .child (by simp [AxisSpecifier.axis]) _
  | followingSibling => exact along (.named .followingSibling) (by simp [AxisSpecifier.axis]) _
  | verbatim text => exact absurd rfl (plain text)

theorem eval_exprFrom_congr
    (same : ∀ axis start, axis ≠ .attribute →
      reached document axis test conditions start = reached document axis test others start)
    (base : Expr) {link : Link} (plain : ∀ text, link ≠ .verbatim text) {segments : List Segment}
    (steps : ∀ segment ∈ segments, segment.Valid) :
    (exprFrom (some (base, link)) segments test (conjunction? conditions)).eval document context =
      (exprFrom (some (base, link)) segments test (conjunction? others)).eval document context := by
  induction segments generalizing base link with
  | nil => exact eval_stepExpr_congr same base plain
  | cons segment rest ih =>
    rw [List.forall_mem_cons] at steps
    exact ih _ steps.1.link steps.2

/-- If other conditions let the last step of a path reach the same nodes, the path with them finds
the same nodes. -/
theorem eval_fromAnywhere_congr {path : LocationPath} (valid : path.Valid) {others : List Expr}
    (same : ∀ axis start, axis ≠ .attribute →
      reached document axis path.test path.conditions start =
        reached document axis path.test others start) :
    path.fromAnywhere.eval document context =
      { path with conditions := others }.fromAnywhere.eval document context := by
  obtain ⟨segments, split, steps⟩ := valid.segments
  rw [List.nil_append] at split
  unfold fromAnywhere
  cases segments with
  | nil =>
    simp only [split, anywhere, condition?]
    rw [eval_step_reached, eval_step_reached, same _ _ (by simp [AxisSpecifier.axis])]
  | cons first rest =>
    rw [List.forall_mem_cons] at steps
    simp only [split]
    exact eval_exprFrom_congr same _ steps.1.link steps.2

end XPath.LocationPath

/-! ### Arguments -/

namespace Selector

variable {options : Options} {kind : Alternation} {base : Tree} {arguments : List Tree}

/-- The condition that a tree adds as an argument. -/
def Tree.IsArgument (options : Options) (tree : Tree) (condition : Expr) : Prop :=
  ∃ path, tree.path options = .ok path ∧
    condition = (argumentCondition? path).getD Condition.always

/-- Each argument adds its condition. -/
theorem Tree.conditions_eq_ok_iff {conditions : List Expr} :
    Tree.conditions options arguments = .ok conditions ↔
      List.Forall₂ (Tree.IsArgument options) arguments conditions := by
  induction arguments generalizing conditions with
  | nil =>
    rw [Tree.conditions, Except.ok.injEq, List.forall₂_nil_left_iff, eq_comm]
  | cons tree rest ih =>
    rw [List.forall₂_cons_left_iff]
    constructor
    · intro compiled
      obtain ⟨path, others, compiledTree, compiledOthers, rfl⟩ :=
        conditions_cons_eq_ok_iff.mp compiled
      exact ⟨_, others, ⟨path, compiledTree, rfl⟩, ih.mp compiledOthers, rfl⟩
    · rintro ⟨_, others, ⟨path, compiledTree, rfl⟩, compiledOthers, rfl⟩
      exact conditions_cons_eq_ok_iff.mpr
        ⟨path, others, compiledTree, ih.mpr compiledOthers, rfl⟩

/-- Alternatives are compiled if the compound in front and all of them are. -/
theorem Tree.path_anyOf_eq_ok_iff {restricted : LocationPath} :
    (Tree.anyOf kind base arguments).path options = .ok restricted ↔
      ∃ path conditions, base.path options = .ok path ∧
        List.Forall₂ (Tree.IsArgument options) arguments conditions ∧
        restricted = path.addAlternatives conditions := by
  rw [Tree.path, pathFrom_anyOf_eq_ok_iff]
  simp only [Tree.conditions_eq_ok_iff]
  rfl

theorem Tree.exists_isArgument
    (each : ∀ argument ∈ arguments, ∃ path, argument.path options = .ok path) :
    ∃ conditions, List.Forall₂ (Tree.IsArgument options) arguments conditions := by
  induction arguments with
  | nil => exact ⟨[], .nil⟩
  | cons tree rest ih =>
    rw [List.forall_mem_cons] at each
    obtain ⟨⟨path, compiled⟩, each⟩ := each
    obtain ⟨conditions, all⟩ := ih each
    exact ⟨_, .cons ⟨path, compiled, rfl⟩ all⟩

theorem exists_mem_of_forall₂ {α β : Type} {relates : α → β → Prop} {xs : List α} {ys : List β}
    (all : List.Forall₂ relates xs ys) {x : α} (inside : x ∈ xs) : ∃ y ∈ ys, relates x y := by
  induction all with
  | nil => simp at inside
  | cons here _ ih =>
    rcases List.mem_cons.mp inside with rfl | inside
    · exact ⟨_, List.mem_cons_self, here⟩
    · obtain ⟨y, member, there⟩ := ih inside
      exact ⟨y, List.mem_cons_of_mem _ member, there⟩

/-- Only a single condition can leave a disjunction a number. -/
theorem length_of_disjunction {conditions : List Expr}
    (all : ∀ expr ∈ conditions, expr.IsCondition)
    (joined : disjunction? conditions = some Condition.always) : conditions.length = 1 := by
  match conditions, all, joined with
  | [_], _, _ => rfl
  | first :: next :: rest, all, joined =>
    have steady := (isClaim_join_group (.inl rfl) all).isSteady
    exact absurd (Option.some.inj joined) steady.ne_always

/-! ### Arguments that match every element -/

/-- As an argument, the tree matches every element of the document. -/
def Tree.AdmitsAll (options : Options) (document : Document) (tree : Tree) : Prop :=
  ∀ condition, tree.IsArgument options condition → condition.HoldsEverywhere document

/-- What an alternative list adds if one argument matches every element: one condition, which holds
everywhere. It is a number only if there is no other argument. -/
theorem Tree.exists_addCondition {path : LocationPath} {conditions : List Expr}
    (compiled : List.Forall₂ (Tree.IsArgument options) arguments conditions)
    (admits : ∃ argument ∈ arguments, argument.AdmitsAll options document) :
    ∃ condition, path.addAlternatives conditions = path.addCondition condition ∧
      condition.IsCondition ∧ condition.HoldsEverywhere document ∧
      (condition = Condition.always → arguments.length = 1) := by
  obtain ⟨argument, inside, admits⟩ := admits
  have all : ∀ expr ∈ conditions, expr.IsCondition :=
    Tree.isCondition_conditions arguments (Tree.conditions_eq_ok_iff.mpr compiled)
  obtain ⟨alternative, member, isArgument⟩ := exists_mem_of_forall₂ compiled inside
  cases joined : disjunction? conditions with
  | none => simp [eq_nil_of_joinGroups? joined] at member
  | some condition =>
    refine ⟨condition, by rw [LocationPath.addAlternatives, joined],
      isCondition_disjunction all condition joined, ?_, ?_⟩
    · exact fun x element position size positive => holds_disjunction all
        ⟨_, member, admits _ isArgument x element position size positive⟩ joined
    · rintro rfl
      rw [compiled.length_eq, length_of_disjunction all joined]

/-- The universal selector, or a universal selector with alternatives one of which is universal. -/
inductive Tree.IsUniversal : Tree → Prop
  | universal : IsUniversal .universal
  | anyOf (kind : Alternation) {base argument : Tree} {arguments : List Tree}
      (before : base.IsUniversal) (inside : argument ∈ arguments)
      (also : argument.IsUniversal) : IsUniversal (.anyOf kind base arguments)

/-- The path admits every element, and no condition on its last step restricts it. -/
structure IsUnrestricted (document : Document) (path : LocationPath) : Prop where
  free : path.starred = false
  wildcard : path.isWildcard = true
  conditions : ∀ condition ∈ path.conditions,
    condition.IsCondition ∧ condition.HoldsEverywhere document

theorem IsUnrestricted.argument {path : LocationPath}
    (unrestricted : IsUnrestricted document path) :
    ((argumentCondition? path).getD Condition.always).HoldsEverywhere document := by
  intro x inside position size positive
  have same : argumentCondition? path = conjunction? path.conditions := by
    rw [argumentCondition?, unrestricted.free, LocationPath.addNameTest,
      if_pos unrestricted.wildcard]
    rfl
  rw [same]
  cases joined : conjunction? path.conditions with
  | none => exact holds_always
  | some condition =>
    have each := unrestricted.conditions
    exact holds_conjunction (fun expr member => (each expr member).1)
      (fun expr member => (each expr member).2 x inside position size positive) joined

/-- A universal selector is compiled to a path that nothing restricts. -/
theorem Tree.IsUniversal.isUnrestricted {tree : Tree} (admitting : tree.IsUniversal)
    (document : Document) {path : LocationPath} (compiled : tree.path options = .ok path) :
    IsUnrestricted document path := by
  induction admitting generalizing path with
  | universal =>
    obtain rfl := Except.ok.inj compiled
    exact ⟨rfl, rfl, by simp [Origin.attach, typePath, LocationPath.ofTest]⟩
  | @anyOf kind _ argument _ _ inside _ before also =>
    obtain ⟨path, conditions, compiledBase, compiledArguments, rfl⟩ :=
      Tree.path_anyOf_eq_ok_iff.mp compiled
    have base := before compiledBase
    -- the argument has a path that nothing restricts, so the alternatives hold everywhere
    have admits : argument.AdmitsAll options document := by
      rintro _ ⟨alternative, compiledArgument, rfl⟩
      exact (also compiledArgument).argument
    obtain ⟨condition, added, isCondition, holds, -⟩ :=
      Tree.exists_addCondition compiledArguments ⟨_, inside, admits⟩
    rw [added]
    exact ⟨base.free, base.wildcard, List.forall_mem_append.mpr
      ⟨base.conditions, List.forall_mem_singleton.mpr ⟨isCondition, holds⟩⟩⟩

/-- As an argument, a universal selector matches every element. -/
theorem Tree.IsUniversal.admitsAll {tree : Tree} (admitting : tree.IsUniversal)
    (options : Options) (document : Document) : tree.AdmitsAll options document := by
  rintro _ ⟨path, compiled, rfl⟩
  exact (admitting.isUnrestricted document compiled).argument

/-! ### What they change -/

/-- The trees are compiled to paths that make the same steps: the conditions on their last steps say
the same as operands of `and`, the last steps lead to the same nodes whatever other conditions are
added, and the trees alone find the same. The exception is the number `1` where it is the only
condition, which keeps the first node only. -/
structure Tree.StepsAlike (options : Options) (document : Document) (tree other : Tree)
    (path also : LocationPath) : Prop where
  compiled : tree.path options = .ok path
  compiledAlso : other.path options = .ok also
  segments : path.segments = also.segments
  test : path.test = also.test
  operands : HoldAlike document path.conditions also.conditions
  steps : ∀ more, (∀ expr ∈ more, expr.IsCondition) →
    StepAlike document (path.conditions ++ more) (also.conditions ++ more)
  terms : path.conditions ≠ [Condition.always] → also.conditions ≠ [Condition.always] →
    ∃ term others, Selector.CompilesTo options ⟨tree, none⟩ term ∧
      Selector.CompilesTo options ⟨other, none⟩ others ∧
      ∀ context, term.eval document context = others.eval document context

/-- Alternatives one of which matches every element make no difference to a compound. But a single
alternative can add the number `1`, and then the compound should have another condition. -/
theorem Tree.stepsAlike_anyOf {path : LocationPath} (compiled : base.path options = .ok path)
    (each : ∀ argument ∈ arguments, ∃ alternative, argument.path options = .ok alternative)
    (admits : ∃ argument ∈ arguments, argument.AdmitsAll options document) :
    ∃ condition, (condition = Condition.always → arguments.length = 1) ∧
      Tree.StepsAlike options document (.anyOf kind base arguments) base
        (path.addCondition condition) path := by
  obtain ⟨conditions, compiledArguments⟩ := Tree.exists_isArgument each
  obtain ⟨condition, added, isCondition, holds, single⟩ :=
    @Tree.exists_addCondition _ _ _ path _ compiledArguments admits
  have compiledAll : (Tree.anyOf kind base arguments).path options =
      .ok (path.addCondition condition) :=
    Tree.path_anyOf_eq_ok_iff.mpr ⟨path, conditions, compiled, compiledArguments, added.symm⟩
  have alike : HoldAlike document (path.conditions ++ [condition]) path.conditions :=
    .concat holds
  have evaluable := Tree.isEvaluable_pathFrom Origin.isEvaluable_none base compiled
  have steps (more : List Expr) (also : ∀ expr ∈ more, expr.IsCondition) :
      StepAlike document (path.conditions ++ [condition] ++ more) (path.conditions ++ more) :=
    (alike.append more).stepAlike
      (List.forall_mem_append.mpr ⟨(evaluable.addCondition isCondition).conditions, also⟩)
      (List.forall_mem_append.mpr ⟨evaluable.conditions, also⟩)
  refine ⟨condition, single, compiledAll, compiled, rfl, rfl, alike, steps, fun other alone => ?_⟩
  refine ⟨_, _, Tree.compilesTo_of_path compiledAll, Tree.compilesTo_of_path compiled,
    fun context => ?_⟩
  -- alone, the compounds have no conditions but their own
  have same := (steps [] (by simp)).same
  rw [List.append_nil, List.append_nil] at same
  exact LocationPath.eval_fromAnywhere_congr (Tree.valid_path compiledAll)
    fun axis start => same other alone axis _ start

/-- An alternative that is universal by its own alternative, beside another one. -/
theorem Tree.stepsAlike_anyOf_nested :
    let document : Document := ⟨"r", .none, [.element "a" .none [], .element "a" .none []]⟩
    let base : Tree := .element none (some "a")
    let arguments : List Tree :=
      [.element none (some "b"), .anyOf .matchesAny .universal [.universal]]
    base.path .generic = .ok (.ofTest "a") ∧
      (∀ argument ∈ arguments, ∃ alternative, argument.path .generic = .ok alternative) ∧
      (∃ argument ∈ arguments, argument.AdmitsAll .generic document) ∧
      ∃ condition, (condition = Condition.always → arguments.length = 1) ∧
        Tree.StepsAlike .generic document (.anyOf .specificityAdjustment base arguments) base
          ((LocationPath.ofTest "a").addCondition condition) (.ofTest "a") := by
  intro document base arguments
  have compiled : base.path .generic = .ok (.ofTest "a") := by cbv
  have each : ∀ argument ∈ arguments, ∃ alternative, argument.path .generic = .ok alternative := by
    rw [List.forall_mem_cons, List.forall_mem_singleton]
    exact ⟨⟨_, rfl⟩, ⟨_, rfl⟩⟩
  have nested : Tree.IsUniversal (.anyOf .matchesAny .universal [.universal]) :=
    .anyOf .matchesAny .universal List.mem_cons_self .universal
  have admits : ∃ argument ∈ arguments, argument.AdmitsAll .generic document :=
    ⟨_, List.mem_cons_of_mem _ List.mem_cons_self, nested.admitsAll .generic document⟩
  exact ⟨compiled, each, admits, Tree.stepsAlike_anyOf compiled each admits⟩

/-- A number that is added alone asks for a position: of two elements `a`, `a:is(*)` finds the first
one. -/
theorem selects_anyOf_universal :
    let document : Document := ⟨"r", .none, [.element "a" .none [], .element "a" .none []]⟩
    Options.generic.Selects document "a" (fun x => x = [0, 0] ∨ x = [1, 0]) ∧
      Options.generic.Selects document "a:is(*)" (fun x => x = [0, 0]) := by
  intro document
  have lexed : (tokenize "a").toOption = some [⟨.ident, "a", 0⟩, ⟨.eof, "", 1⟩] := by
    decide +kernel
  have lexedAnyOf : (tokenize "a:is(*)").toOption = some
      [⟨.ident, "a", 0⟩, ⟨.delim, ":", 1⟩, ⟨.ident, "is", 2⟩, ⟨.delim, "(", 4⟩, ⟨.delim, "*", 5⟩,
        ⟨.delim, ")", 6⟩, ⟨.eof, "", 7⟩] := by
    decide +kernel
  have accepted : parse "a" = .ok [⟨.element none (some "a"), none⟩] := by
    rw [parse_of_tokenize lexed]
    cbv
  have acceptedAnyOf : parse "a:is(*)" =
      .ok [⟨.anyOf .matchesAny (.element none (some "a")) [.universal], none⟩] := by
    rw [parse_of_tokenize lexedAnyOf]
    cbv
  constructor
  · have eval : (LocationPath.ofTest "a").fromAnywhere.eval document ⟨.tree [], 1, 1⟩ =
        some (.nodes [.tree [0, 0], .tree [1, 0]]) := by cbv
    exact Options.selects_of_eval rfl accepted (by cbv) eval (by simp [and_or_left, exists_or])
  · have eval : ((LocationPath.ofTest "a").addCondition Condition.always).fromAnywhere.eval
        document ⟨.tree [], 1, 1⟩ = some (.nodes [.tree [0, 0]]) := by cbv
    exact Options.selects_of_eval rfl acceptedAnyOf (by cbv) eval (by simp)

end Selector

end SelectorPath
