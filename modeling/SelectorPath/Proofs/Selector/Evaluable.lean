import SelectorPath.Proofs.Condition.Kinds
import SelectorPath.Proofs.Condition.Validity
import SelectorPath.Proofs.Selector.ValidText

/-!
# The conditions of compiled paths

Every condition on a step of a compiled path is a truth value, a node-set, or one of the numbers `0`
and `1`. So nothing in a compiled selector is ever without a value: it selects nodes in every
document, from whatever node it starts, or none.

## Main definitions

* `LocationPath.IsEvaluable` — the predicates of all steps of a path have values
* `Selector.CompilesTo` — what the text of a compiled selector reads as
* `Options.Selects` — what the text of a selector group selects once it is compiled

## Main results

* `Selector.Tree.isEvaluable_pathFrom` — the path of a tree is evaluable
* `Selector.CompilesTo.exists_eval` — what a selector is compiled to selects nodes
-/

namespace SelectorPath

open XPath Expr

namespace XPath

/-- The predicate of the segment has values, and a step follows it. -/
structure Segment.IsEvaluable (segment : Segment) : Prop where
  condition : ∀ condition ∈ segment.condition, condition.kind?.isSome
  link : ∀ text, segment.link ≠ .verbatim text

namespace LocationPath

/-- The last step has conditions, and the others have predicates with values. -/
structure IsEvaluable (path : LocationPath) : Prop where
  segments : ∀ segment ∈ path.segments, segment.IsEvaluable
  conditions : ∀ condition ∈ path.conditions, condition.IsCondition

theorem isSome_kinds?_predicates {condition : Option Expr}
    (known : ∀ expr ∈ condition, expr.kind?.isSome) :
    (kinds? (predicates condition)).isSome := by
  cases condition with
  | none => rfl
  | some expr =>
    obtain ⟨kind, known⟩ := Option.isSome_iff_exists.mp (known expr rfl)
    simp [predicates, kinds?, known]

section Build

variable {path : LocationPath} {condition : Expr}

theorem isEvaluable_ofTest (test : String) : (ofTest test).IsEvaluable :=
  ⟨by simp [ofTest], by simp [ofTest]⟩

theorem IsEvaluable.isCondition (evaluable : path.IsEvaluable) :
    ∀ condition ∈ path.condition?, condition.IsCondition :=
  isCondition_conjunction evaluable.conditions

theorem IsEvaluable.isSome_condition (evaluable : path.IsEvaluable) :
    ∀ condition ∈ path.condition?, condition.kind?.isSome :=
  fun condition member => (evaluable.isCondition condition member).isSome_kind?

theorem IsEvaluable.addCondition (evaluable : path.IsEvaluable) (also : condition.IsCondition) :
    (path.addCondition condition).IsEvaluable :=
  ⟨evaluable.segments, List.forall_mem_append.mpr
    ⟨evaluable.conditions, List.forall_mem_singleton.mpr also⟩⟩

theorem IsEvaluable.addAlternatives (evaluable : path.IsEvaluable) {alternatives : List Expr}
    (all : ∀ expr ∈ alternatives, expr.IsCondition) :
    (path.addAlternatives alternatives).IsEvaluable := by
  unfold LocationPath.addAlternatives
  split
  · exact evaluable
  · rename_i condition some
    exact evaluable.addCondition (isCondition_disjunction all condition some)

theorem IsEvaluable.isClaim_membership (evaluable : path.IsEvaluable) :
    path.membership.IsClaim := by
  have predicates := isSome_kinds?_predicates evaluable.isSome_condition
  obtain ⟨kinds, known⟩ := Option.isSome_iff_exists.mp predicates
  refine isClaim_of_boolean ?_
  simp [membership, siblings, kind?, kinds?, known, XPath.Operator.kind?, Function.kind?,
    Kind.isComparable]

theorem isClaim_nameIs (name : String) : (nameIs name).IsClaim := isClaim_of_boolean rfl

theorem isClaim_isFirst : isFirst.IsClaim := isClaim_of_boolean rfl

theorem IsEvaluable.addNameTest (evaluable : path.IsEvaluable) :
    path.addNameTest.IsEvaluable := by
  unfold LocationPath.addNameTest
  split
  · exact evaluable
  split
  · exact ⟨evaluable.segments,
      List.forall_mem_singleton.mpr evaluable.isClaim_membership.isSteady.isCondition⟩
  · exact ⟨evaluable.segments,
      (evaluable.addCondition (isClaim_nameIs path.test).isSteady.isCondition).conditions⟩

theorem isEvaluable_star : Segment.star.IsEvaluable :=
  ⟨by simp [Segment.star], by simp [Segment.star]⟩

theorem IsEvaluable.addStar (evaluable : path.IsEvaluable) : path.addStar.IsEvaluable := by
  unfold LocationPath.addStar
  split
  · exact evaluable
  · exact ⟨List.forall_mem_append.mpr
      ⟨evaluable.segments, List.forall_mem_singleton.mpr isEvaluable_star⟩, evaluable.conditions⟩

theorem IsEvaluable.addPosition (evaluable : path.IsEvaluable) {condition : Option Expr}
    (also : ∀ expr ∈ condition, expr.IsCondition) : (path.addPosition condition).IsEvaluable := by
  cases condition with
  | none => exact evaluable.addStar
  | some condition => exact evaluable.addStar.addCondition (also condition rfl)

theorem IsEvaluable.addPositionAmong (evaluable : path.IsEvaluable) (type : String)
    {condition : Option Expr} (also : ∀ expr ∈ condition, expr.IsCondition) :
    (path.addPositionAmong type condition).IsEvaluable := by
  cases condition with
  | none => exact evaluable.addStar
  | some condition =>
    have here := also condition rfl
    have counted := ((isEvaluable_ofTest type).addCondition here).isClaim_membership
    unfold LocationPath.addPositionAmong
    simp only
    split
    · exact evaluable.addStar.addCondition counted.isSteady.isCondition
    · exact evaluable.addStar.addCondition here

variable {other : LocationPath}

theorem IsEvaluable.joinedSegments (evaluable : path.IsEvaluable) :
    ∀ segment ∈ path.joinedSegments, segment.IsEvaluable := by
  unfold LocationPath.joinedSegments
  split
  · simp
  · exact evaluable.segments

theorem IsEvaluable.join (evaluable : path.IsEvaluable) (also : other.IsEvaluable) {link : Link}
    (plain : ∀ text, link ≠ .verbatim text) : (path.join link other).IsEvaluable :=
  ⟨List.forall_mem_append.mpr ⟨evaluable.segments, List.forall_mem_cons.mpr
    ⟨⟨evaluable.isSome_condition, plain⟩, also.joinedSegments⟩⟩, also.conditions⟩

theorem IsEvaluable.joinSibling (evaluable : path.IsEvaluable) (also : other.IsEvaluable)
    (adjacent : Bool) : (path.joinSibling other adjacent).IsEvaluable := by
  have plain : ∀ text, Link.followingSibling ≠ .verbatim text := by simp
  have first := isClaim_isFirst.isSteady.isCondition
  unfold LocationPath.joinSibling
  split
  · have joined := evaluable.join (isEvaluable_ofTest "*") plain
    have member := also.isClaim_membership.isSteady.isCondition
    cases adjacent with
    | false => exact joined.addCondition member
    | true => exact (joined.addCondition first).addCondition member
  · have joined := evaluable.join also plain
    cases adjacent with
    | false => exact joined
    | true => exact joined.addNameTest.addCondition first

/-- A step that follows what selects nodes selects nodes. -/
theorem kind?_stepExpr {base : Option (Expr × Link)}
    (before : ∀ expr link, base = some (expr, link) →
      expr.kind? = some .nodes ∧ ∀ text, link ≠ .verbatim text)
    (test : String) {condition : Option Expr} (known : ∀ expr ∈ condition, expr.kind?.isSome) :
    (stepExpr base test condition).kind? = some .nodes := by
  obtain ⟨kinds, known⟩ := Option.isSome_iff_exists.mp (isSome_kinds?_predicates known)
  unfold stepExpr
  split
  · split
    · rfl
    · simp [kind?, known]
  all_goals obtain ⟨isNodes, plain⟩ := before _ _ rfl
  case h_5 => exact absurd rfl (plain _)
  all_goals simp [kind?, kinds?, isNodes, known]

theorem kind?_exprFrom {base : Option (Expr × Link)}
    (before : ∀ expr link, base = some (expr, link) →
      expr.kind? = some .nodes ∧ ∀ text, link ≠ .verbatim text)
    {segments : List Segment} (steps : ∀ segment ∈ segments, segment.IsEvaluable) (test : String)
    {condition : Option Expr} (known : ∀ expr ∈ condition, expr.kind?.isSome) :
    (exprFrom base segments test condition).kind? = some .nodes := by
  induction segments generalizing base with
  | nil => exact kind?_stepExpr before test known
  | cons segment rest ih =>
    have here := steps segment List.mem_cons_self
    refine ih ?_ fun other member => steps other (List.mem_cons_of_mem _ member)
    rintro expr link ⟨⟩
    exact ⟨kind?_stepExpr before segment.test here.condition, here.link⟩

/-- A path in a predicate asks for nodes. -/
theorem IsEvaluable.isClaim_toExpr (evaluable : path.IsEvaluable) : path.toExpr.IsClaim :=
  isClaim_of_nodes (kind?_exprFrom (by simp) evaluable.segments path.test
    evaluable.isSome_condition)

theorem IsEvaluable.kind?_fromAnywhere (evaluable : path.IsEvaluable) :
    path.fromAnywhere.kind? = some .nodes := by
  have first {test : String} {condition : Option Expr}
      (known : ∀ expr ∈ condition, expr.kind?.isSome) :
      (anywhere test condition).kind? = some .nodes := by
    obtain ⟨kinds, known⟩ := Option.isSome_iff_exists.mp (isSome_kinds?_predicates known)
    simp [anywhere, kind?, known]
  unfold fromAnywhere
  split
  · exact first evaluable.isSome_condition
  · rename_i segment rest split
    have steps := evaluable.segments
    rw [split, List.forall_mem_cons] at steps
    refine kind?_exprFrom ?_ steps.2 path.test evaluable.isSome_condition
    rintro expr link ⟨⟩
    exact ⟨first steps.1.condition, steps.1.link⟩

end Build

end LocationPath

end XPath

/-! ### Simple selectors -/

theorem kind?_anchor (direction : Direction) (b : Int) :
    (direction.anchor b).kind? = some .number := by
  cases direction with
  | fromStart => rfl
  | fromEnd =>
    simp only [Direction.anchor, Condition.fromLast]
    repeat' split
    all_goals rfl

theorem kind?_distance (direction : Direction) (b : Int) :
    (direction.distance b).kind? = some .number := by
  cases direction <;> simp only [Direction.distance, Condition.minusNumber] <;> split <;> rfl

/-- The conditions of a series are claims; a remainder is asked for only if there is a step. -/
theorem Series.isClaim_conditions (series : Series) (direction : Direction) :
    ∀ condition ∈ series.conditions direction, condition.IsClaim := by
  intro condition member
  unfold conditions at member
  simp only at member
  split at member
  · rw [List.mem_singleton.mp member]
    exact isClaim_of_boolean (by simp [Direction.isAnchor, Condition.position, kind?, kinds?,
      Function.kind?, XPath.Operator.kind?, Kind.isComparable, kind?_anchor])
  rename_i nonzero
  rcases List.mem_append.mp member with first | second
  · split at first
    · simp at first
    · rw [List.mem_singleton.mp first]
      -- without a step there would be a remainder by zero
      have step : direction.step series.a.toInt ≠ 0 := by
        have value : series.a.toInt ≠ 0 := fun zero => nonzero (Int32.toInt_inj.mp zero)
        cases direction <;> simpa [Direction.step] using value
      exact isClaim_of_boolean (by simp [Direction.remainder, kind?, kind?_distance, divisor?,
        step, XPath.Operator.kind?, Kind.isComparable])
  · split at second
    · simp at second
    · rw [List.mem_singleton.mp second]
      refine isClaim_of_boolean ?_
      unfold Direction.bound
      split <;> simp [Condition.position, kind?, kinds?, Function.kind?, XPath.Operator.kind?,
        kind?_anchor]

theorem Series.isCondition_condition (series : Series) (direction : Direction) :
    ∀ condition ∈ series.condition? direction, condition.IsCondition := by
  intro condition member
  have all := series.isClaim_conditions direction
  obtain ⟨first, rest, split, rfl⟩ := Expr.join?_eq_some_iff.mp member
  rw [split] at all
  cases rest with
  | nil => exact (all first List.mem_cons_self).isSteady.isCondition
  | cons next rest =>
    have known : ∀ expr ∈ first :: next :: rest, expr.kind?.isSome :=
      fun expr inside => (all expr inside).isSteady.isCondition.isSome_kind?
    have joined := kind?_foldl (.inr rfl) (known first List.mem_cons_self)
      fun expr inside => known expr (List.mem_cons_of_mem _ inside)
    exact (isClaim_of_boolean (joined.2 (by simp))).isSteady.isCondition

theorem isEvaluable_typePath (options : Options) (ns name : Option String) :
    (typePath options ns name).IsEvaluable := by
  unfold typePath
  simp only
  split
  · split <;> exact LocationPath.isEvaluable_ofTest _
  · split <;> exact (LocationPath.isEvaluable_ofTest _).addNameTest

section Restrict

variable {options : Options} {path restricted : LocationPath}

theorem FunctionalClass.isEvaluable_restrict (evaluable : path.IsEvaluable)
    {function : FunctionalClass} {call : FunctionCall}
    (compiled : function.restrict options path call = .ok restricted) :
    restricted.IsEvaluable := by
  obtain ⟨series, direction, rfl⟩ | ⟨series, direction, type, -, rfl⟩ | ⟨value, rfl | rfl⟩ :=
    restrict_cases compiled
  · exact evaluable.addNameTest.addPosition (series.isCondition_condition direction)
  · exact evaluable.addPositionAmong type (series.isCondition_condition direction)
  · exact evaluable.addCondition (Condition.isClaim_containsText value).isSteady.isCondition
  · exact evaluable.addCondition (Condition.isClaim_ofLanguage options value).isSteady.isCondition

namespace Selector

theorem Simple.isEvaluable_restrict (evaluable : path.IsEvaluable) {simple : Simple}
    (compiled : simple.restrict options path = .ok restricted) : restricted.IsEvaluable := by
  match simple, compiled with
  | .className name, compiled =>
    obtain rfl := Except.ok.inj compiled
    exact evaluable.addCondition (Condition.isSteady_ofClass options name).isCondition
  | .id value, compiled =>
    obtain rfl := Except.ok.inj compiled
    exact evaluable.addCondition (Condition.isSteady_ofId options value).isCondition
  | .attribute selector, compiled =>
    obtain rfl := Except.ok.inj compiled
    exact evaluable.addCondition (Condition.isSteady_ofAttribute options selector).isCondition
  | .pseudoClass name, compiled =>
    obtain ⟨condition, known, rfl⟩ := restrict_pseudoClass_eq_ok_iff.mp compiled
    exact evaluable.addCondition (Condition.isCondition_ofPseudoClass known)
  | .function _, compiled =>
    obtain ⟨known, _, compiled⟩ := restrict_function_eq_ok_iff.mp compiled
    exact FunctionalClass.isEvaluable_restrict evaluable compiled

end Selector

end Restrict

/-! ### Trees -/

theorem isEvaluable_connect {left right : LocationPath} (before : left.IsEvaluable)
    (behind : right.IsEvaluable) (combinator : Combinator) :
    (connect left combinator right).IsEvaluable := by
  cases combinator with
  | descendant | child => exact before.join behind (by simp)
  | nextSibling => exact before.joinSibling behind true
  | subsequentSibling => exact before.joinSibling behind false

/-- The path that an origin starts at is evaluable. -/
def Origin.IsEvaluable (origin : Origin) : Prop := ∀ start ∈ origin, start.1.IsEvaluable

theorem Origin.isEvaluable_none : Origin.IsEvaluable none := by simp [Origin.IsEvaluable]

theorem Origin.isEvaluable_attach {origin : Origin} (start : origin.IsEvaluable)
    {path : LocationPath} (evaluable : path.IsEvaluable) : (origin.attach path).IsEvaluable := by
  match origin with
  | none => exact evaluable
  | some (before, combinator) =>
    exact isEvaluable_connect (start (before, combinator) rfl) evaluable combinator

theorem isCondition_argumentCondition {path : LocationPath} (evaluable : path.IsEvaluable) :
    ∀ condition ∈ argumentCondition? path, condition.IsCondition := by
  intro condition member
  unfold argumentCondition? at member
  split at member
  · obtain rfl := Option.mem_some_iff.mp member
    exact evaluable.isClaim_membership.isSteady.isCondition
  · exact evaluable.addNameTest.isCondition condition member

theorem isCondition_negationCondition {path : LocationPath} (evaluable : path.IsEvaluable) :
    (negationCondition path).IsCondition := by
  unfold negationCondition
  split
  · rename_i condition known
    have inner := isCondition_argumentCondition evaluable condition known
    exact (isClaim_of_boolean (kind?_not inner.isSome_kind?)).isSteady.isCondition
  · exact isSteady_never.isCondition

namespace Selector

mutual

/-- The path of a tree is evaluable. -/
theorem Tree.isEvaluable_pathFrom {options : Options} {origin : Origin}
    (start : origin.IsEvaluable) :
    (tree : Tree) → {path : LocationPath} → tree.pathFrom options origin = .ok path →
      path.IsEvaluable
  | .element ns name, path, compiled => by
    obtain rfl := Except.ok.inj compiled
    exact Origin.isEvaluable_attach start (isEvaluable_typePath options ns name)
  | .restricted base simple, path, compiled => by
    obtain ⟨before, restricted, compiledBase, compiledSimple, rfl⟩ :=
      pathFrom_restricted_eq_ok_iff.mp compiled
    have evaluable := isEvaluable_pathFrom Origin.isEvaluable_none base compiledBase
    exact Origin.isEvaluable_attach start (simple.isEvaluable_restrict evaluable compiledSimple)
  | .negation base argument, path, compiled => by
    obtain ⟨before, other, compiledBase, compiledArgument, rfl⟩ :=
      pathFrom_negation_eq_ok_iff.mp compiled
    have evaluable := isEvaluable_pathFrom Origin.isEvaluable_none base compiledBase
    have inner := isEvaluable_pathFrom Origin.isEvaluable_none argument compiledArgument
    exact Origin.isEvaluable_attach start
      (evaluable.addCondition (isCondition_negationCondition inner))
  | .anyOf kind base arguments, path, compiled => by
    obtain ⟨before, alternatives, compiledBase, compiledArguments, rfl⟩ :=
      pathFrom_anyOf_eq_ok_iff.mp compiled
    have evaluable := isEvaluable_pathFrom Origin.isEvaluable_none base compiledBase
    exact Origin.isEvaluable_attach start
      (evaluable.addAlternatives (isCondition_conditions arguments compiledArguments))
  | .relation base combinator argument, path, compiled => by
    obtain ⟨before, related, compiledBase, compiledArgument, rfl⟩ :=
      pathFrom_relation_eq_ok_iff.mp compiled
    have evaluable := isEvaluable_pathFrom Origin.isEvaluable_none base compiledBase
    -- the argument goes on from the element itself
    have here : Origin.IsEvaluable (some (.here, combinator)) := by
      rintro _ ⟨⟩
      exact LocationPath.isEvaluable_ofTest "."
    have inner := isEvaluable_pathFrom here argument compiledArgument
    exact Origin.isEvaluable_attach start
      (evaluable.addCondition inner.isClaim_toExpr.isSteady.isCondition)
  | .combined left combinator right, path, compiled => by
    obtain ⟨before, after, compiledLeft, compiledRight, rfl⟩ :=
      pathFrom_combined_eq_ok_iff.mp compiled
    exact isEvaluable_connect (isEvaluable_pathFrom start left compiledLeft)
      (isEvaluable_pathFrom Origin.isEvaluable_none right compiledRight) combinator

/-- The conditions of several arguments are conditions. -/
theorem Tree.isCondition_conditions {options : Options} :
    (trees : List Tree) → {conditions : List Expr} →
      Tree.conditions options trees = .ok conditions →
      ∀ condition ∈ conditions, condition.IsCondition
  | [], conditions, compiled => by
    obtain rfl := Except.ok.inj compiled
    simp
  | tree :: trees, conditions, compiled => by
    obtain ⟨path, others, compiledTree, compiledOthers, rfl⟩ :=
      conditions_cons_eq_ok_iff.mp compiled
    have evaluable := isEvaluable_pathFrom Origin.isEvaluable_none tree compiledTree
    refine List.forall_mem_cons.mpr ⟨?_, isCondition_conditions trees compiledOthers⟩
    cases known : argumentCondition? path with
    | none => exact isCondition_always
    | some condition => exact isCondition_argumentCondition evaluable condition known

end

end Selector

/-! ### What selectors find -/

/-- A restricted tree is compiled if the tree and the restriction are. -/
theorem Selector.Tree.path_restricted_eq_ok_iff {options : Options} {base : Tree}
    {simple : Simple} {restricted : LocationPath} :
    (Tree.restricted base simple).path options = .ok restricted ↔
      ∃ path, base.path options = .ok path ∧ simple.restrict options path = .ok restricted := by
  rw [path, pathFrom_restricted_eq_ok_iff]
  constructor
  · rintro ⟨path, _, compiledBase, compiledSimple, rfl⟩
    exact ⟨path, compiledBase, compiledSimple⟩
  · rintro ⟨path, compiledBase, compiledSimple⟩
    exact ⟨path, restricted, compiledBase, compiledSimple, rfl⟩

/-- The selector is compiled to a text that reads as the term. -/
def Selector.CompilesTo (options : Options) (selector : Selector) (term : Grammar.Term) : Prop :=
  ∃ text, selector.xpath options "descendant-or-self::" = .ok text ∧ Grammar.Reads text term

theorem Selector.Tree.compilesTo_of_path {options : Options} {tree : Tree} {path : LocationPath}
    (compiled : tree.path options = .ok path) :
    Selector.CompilesTo options ⟨tree, none⟩ path.fromAnywhere.term := by
  have reads := Expr.reads (Tree.valid_path compiled).valid_fromAnywhere.1
  rw [LocationPath.text_fromAnywhere] at reads
  exact ⟨_, by rw [xpath, compiled], reads⟩

/-- A selector that is compiled has a path, and is compiled to that path from anywhere. -/
theorem Selector.CompilesTo.exists_path {options : Options} {selector : Selector}
    {term : Grammar.Term} (compiles : selector.CompilesTo options term) :
    ∃ path, selector.tree.path options = .ok path ∧ term = path.fromAnywhere.term := by
  obtain ⟨text, compiled, reads⟩ := compiles
  unfold xpath at compiled
  split at compiled
  · simp at compiled
  split at compiled
  · rename_i path known
    obtain rfl := Except.ok.inj compiled
    obtain ⟨_, same, also⟩ := Selector.Tree.compilesTo_of_path known
    simp only [xpath, known] at same
    obtain rfl := Except.ok.inj same
    exact ⟨path, known, reads.unique also⟩
  · simp at compiled

/-- What a selector is compiled to has nodes as its value in every document and from every node. -/
theorem Selector.CompilesTo.exists_eval {options : Options} {selector : Selector}
    {term : Grammar.Term} (compiles : selector.CompilesTo options term) (document : Document)
    (context : Grammar.Context) : ∃ list, term.eval document context = some (.nodes list) := by
  obtain ⟨path, compiled, rfl⟩ := compiles.exists_path
  have evaluable := Selector.Tree.isEvaluable_pathFrom Origin.isEvaluable_none _ compiled
  obtain ⟨value, eval, isNodes⟩ :=
    path.fromAnywhere.exists_eval evaluable.kind?_fromAnywhere document context
  obtain ⟨list, rfl⟩ := exists_nodes isNodes
  exact ⟨list, eval⟩

/-- The selector group is compiled to an expression that, evaluated at the document, selects exactly
the given elements. -/
def Options.Selects (options : Options) (document : Document) (css : String)
    (Selected : Address → Prop) : Prop :=
  ∃ text term list, options.xpath css = .ok text ∧ Grammar.Reads text term ∧
    term.eval document ⟨.tree [], 1, 1⟩ = some (.nodes list) ∧
    ∀ node, node ∈ list ↔ ∃ x, node = .tree x ∧ Selected x

/-- A text that denotes one selector selects what the path of that finds. -/
theorem Options.selects_of_eval {options : Options}
    (anywhere : options.leading = "descendant-or-self::") {css : String} {tree : Selector.Tree}
    {path : LocationPath} {document : Document} {list : List Grammar.Node}
    {Selected : Address → Prop} (accepted : Selector.parse css = .ok [⟨tree, none⟩])
    (compiled : tree.path options = .ok path)
    (eval : path.fromAnywhere.eval document ⟨.tree [], 1, 1⟩ = some (.nodes list))
    (mem : ∀ node, node ∈ list ↔ ∃ x, node = .tree x ∧ Selected x) :
    options.Selects document css Selected := by
  obtain ⟨text, single, reads⟩ := Selector.Tree.compilesTo_of_path compiled
  refine ⟨text, _, list, ?_, reads, eval, mem⟩
  rw [Options.xpath, anywhere]
  have all : xpaths options "descendant-or-self::" [⟨tree, none⟩] = .ok [text] :=
    xpaths_cons_eq_ok_iff.mpr ⟨text, [], single, rfl, rfl⟩
  exact xpathOfGroup_eq_ok_iff.mpr ⟨_, [text], accepted, all, rfl⟩

end SelectorPath
