import SelectorPath.Proofs.Selector.Acceptance
import SelectorPath.Proofs.Selector.Compounds
import SelectorPath.Proofs.Selector.Evaluable
import SelectorPath.Proofs.Selector.Preservation
import SelectorPath.Proofs.XPath.Predicates

/-!
# The first step of a selector that starts with `:scope`

The condition of `:scope` is the number `1`. Where it is the only condition of the first step, it
asks for the first node of that step, and this is the context element: the step goes along the axis
`descendant-or-self`, on which an element stands in front of all elements below it. Beside other
conditions the number is a truth value that always holds, so the step is the one that there would be
without `:scope`.

## Main definitions

* `Grammar.Term.firstStep` — the step that a path starts with
* `Selector.Tree.firstCompound` — the compound that a selector starts with

## Main results

* `LocationPath.firstStep_fromAnywhere` — the first step of a path is made from its first compound
* `reached_first`, `reached_always_cons` — the condition `1` on its own and beside other conditions
* `Selector.firstStep_scope` — what the first step behind `:scope` leads to
-/

namespace SelectorPath

open XPath Expr Grammar LocationPath

variable {document : Document}

/-! ### The first step of a path -/

/-- The step that a path starts with; any other term is taken as a whole. -/
def XPath.Grammar.Term.firstStep : Term → Term
  | .path base _ _ _ => base.firstStep
  | term => term

namespace XPath.LocationPath

/-- The node test and the condition of the first step. -/
def first (path : LocationPath) : String × Option Expr :=
  match path.segments with
  | [] => (path.test, path.condition?)
  | segment :: _ => (segment.test, segment.condition)

theorem firstStep_stepExpr (base : Expr) {link : Link} (plain : ∀ text, link ≠ .verbatim text)
    (test : String) (condition : Option Expr) :
    (stepExpr (some (base, link)) test condition).term.firstStep = base.term.firstStep := by
  cases link with
  | child | descendant | followingSibling => rfl
  | verbatim text => exact absurd rfl (plain text)

theorem firstStep_exprFrom (base : Expr) {link : Link} (plain : ∀ text, link ≠ .verbatim text)
    {segments : List Segment} (steps : ∀ segment ∈ segments, segment.Valid) (test : String)
    (condition : Option Expr) :
    (exprFrom (some (base, link)) segments test condition).term.firstStep =
      base.term.firstStep := by
  induction segments generalizing base link with
  | nil => exact firstStep_stepExpr base plain test condition
  | cons segment rest ih =>
    rw [List.forall_mem_cons] at steps
    exact (ih _ steps.1.link steps.2).trans (firstStep_stepExpr base plain _ _)

/-- Whatever follows, a path starts with its first step. -/
theorem firstStep_fromAnywhere {path : LocationPath} (valid : path.Valid) :
    path.fromAnywhere.term.firstStep = (anywhere path.first.1 path.first.2).term := by
  obtain ⟨segments, split, steps⟩ := valid.segments
  rw [List.nil_append] at split
  unfold fromAnywhere first
  cases segments with
  | nil =>
    simp only [split]
    rfl
  | cons segment rest =>
    rw [List.forall_mem_cons] at steps
    simp only [split]
    exact firstStep_exprFrom _ steps.1.link steps.2 _ _

/-- A combinator leaves the first step of what stands in front of it. -/
theorem first_connect {right : LocationPath} (valid : right.Valid) (left : LocationPath)
    (combinator : Combinator) : (connect left combinator right).first = left.first := by
  obtain ⟨rest, split, -⟩ := (valid_connect_behind valid left combinator).segments
  unfold first
  rw [split]
  cases left.segments <;> rfl

end XPath.LocationPath

namespace Selector

variable {options : Options}

/-- The compound that a tree starts with. -/
def Tree.firstCompound : Tree → Tree
  | .combined left _ _ => left.firstCompound
  | tree => tree

/-- The first step of a path is that of the first compound. -/
theorem Tree.exists_first : (tree : Tree) → {path : LocationPath} →
    tree.path options = .ok path →
    ∃ compound, tree.firstCompound.path options = .ok compound ∧ compound.first = path.first
  | .combined left combinator right, path, compiled => by
    obtain ⟨before, after, compiledLeft, compiledRight, rfl⟩ :=
      pathFrom_combined_eq_ok_iff.mp compiled
    obtain ⟨compound, compiledFirst, same⟩ := left.exists_first compiledLeft
    have kept := first_connect (right.valid_pathFrom compiledRight) before combinator
    exact ⟨compound, compiledFirst, same.trans kept.symm⟩
  | .element _ _, path, compiled | .restricted _ _, path, compiled
  | .negation _ _, path, compiled | .anyOf _ _ _, path, compiled
  | .relation _ _ _, path, compiled => ⟨path, compiled, rfl⟩

theorem Tree.IsFormed.firstCompound {site : Site} : {tree : Tree} → tree.IsFormed site →
    tree.firstCompound.IsFormed site
  | .combined _ _ _, formed => formed.2.1.firstCompound
  | .element _ _, formed | .restricted _ _, formed | .negation _ _, formed
  | .anyOf _ _ _, formed | .relation _ _ _, formed => formed

/-! ### The conditions of simple selectors -/

/-- Whatever a step has been restricted by before, the simple selector adds the condition to it. It
is a number only for `:scope`. -/
structure Simple.Adds (options : Options) (simple : Simple) (condition : Expr) : Prop where
  restrict : ∀ path : LocationPath, path.typeName = none →
    simple.restrict options path = .ok (path.addCondition condition)
  steady : simple ≠ .pseudoClass "scope" → condition.IsSteady

/-- Conditions about elements of a type read the name that the step was made with. -/
theorem ofPseudoClass_congr {path other : LocationPath} (same : path.typeName = other.typeName)
    (name : String) :
    Condition.ofPseudoClass options path name = Condition.ofPseudoClass options other name := by
  have named : path.namedType? = other.namedType? := by
    rw [LocationPath.namedType?, LocationPath.namedType?, same]
  unfold Condition.ofPseudoClass Condition.structural Condition.ofType
  rw [named]

/-- A simple selector without arguments adds one condition. -/
theorem Simple.exists_adds {simple : Simple} (plain : ∀ call, simple ≠ .function call)
    {path restricted : LocationPath} (untyped : path.typeName = none)
    (compiled : simple.restrict options path = .ok restricted) :
    ∃ condition, simple.Adds options condition := by
  cases simple with
  | className name =>
    exact ⟨_, fun _ _ => rfl, fun _ => Condition.isSteady_ofClass options name⟩
  | id value => exact ⟨_, fun _ _ => rfl, fun _ => Condition.isSteady_ofId options value⟩
  | «attribute» selector =>
    exact ⟨_, fun _ _ => rfl, fun _ => Condition.isSteady_ofAttribute options selector⟩
  | pseudoClass name =>
    obtain ⟨condition, known, rfl⟩ := restrict_pseudoClass_eq_ok_iff.mp compiled
    refine ⟨condition, fun other also => ?_, fun noScope => ?_⟩
    · rw [restrict, ofPseudoClass_congr (also.trans untyped.symm), known]
    · exact (Condition.isSteady_ofPseudoClass known).resolve_right
        fun scope => noScope (by rw [scope.1])
  | function call => exact absurd rfl (plain call)

theorem Simple.adds_scope : (Simple.pseudoClass "scope").Adds options Condition.always := by
  refine ⟨fun path _ => ?_, fun noScope => absurd rfl noScope⟩
  have structural : Condition.ofPseudoClass options path "scope" = .ok Condition.always := by
    unfold Condition.ofPseudoClass
    rw [show Condition.inHtml? "scope" = none from rfl, ite_self]
    rfl
  rw [restrict, structural]

/-! ### Compounds of simple selectors -/

/-- The compound of the universal selector and some simple selectors. -/
def Tree.simpleCompound (simples : List Simple) : Tree :=
  Tree.compound none none (simples.map Part.simple)

theorem Tree.simpleCompound_concat (simples : List Simple) (simple : Simple) :
    Tree.simpleCompound (simples ++ [simple]) = .restricted (.simpleCompound simples) simple := by
  simp only [simpleCompound, List.map_append, List.map_cons, List.map_nil, compound_concat,
    Part.behind]

/-- A step that admits every element under some conditions. -/
def stepUnder (conditions : List Expr) : LocationPath :=
  { ofTest "*" with conditions := conditions }

/-- Simple selectors add their conditions in order. -/
theorem Tree.path_simpleCompound {simples : List Simple} {conditions : List Expr}
    (adds : List.Forall₂ (Simple.Adds options) simples conditions) :
    (Tree.simpleCompound simples).path options = .ok (stepUnder conditions) := by
  -- the rest of the list restricts whatever the front has been compiled to
  have behind : ∀ (base : Tree) (path : LocationPath), path.typeName = none →
      base.path options = .ok path →
      ((simples.map Part.simple).foldl Part.behind base).path options =
        .ok { path with conditions := path.conditions ++ conditions } := by
    induction adds with
    | nil =>
      intro base path _ compiled
      simpa using compiled
    | cons here _ ih =>
      intro base path untyped compiled
      have restricted := Tree.path_restricted_eq_ok_iff.mpr
        ⟨path, compiled, here.restrict path untyped⟩
      have all := ih (.restricted base _) (path.addCondition _) untyped restricted
      simpa [Part.behind, LocationPath.addCondition] using all
  have start : Tree.universal.path options = .ok (ofTest "*") := rfl
  exact behind _ _ rfl start

/-- A compound of simple selectors without arguments is compiled by adding a condition for each. -/
theorem Tree.exists_adds {simples : List Simple}
    (plain : ∀ simple ∈ simples, ∀ call, simple ≠ .function call) {path : LocationPath}
    (compiled : (Tree.simpleCompound simples).path options = .ok path) :
    ∃ conditions, List.Forall₂ (Simple.Adds options) simples conditions := by
  induction simples using List.reverseRecOn generalizing path with
  | nil => exact ⟨[], .nil⟩
  | append_singleton simples simple ih =>
    rw [List.forall_mem_append, List.forall_mem_singleton] at plain
    rw [simpleCompound_concat, path_restricted_eq_ok_iff] at compiled
    obtain ⟨before, compiledBase, compiledSimple⟩ := compiled
    obtain ⟨conditions, adds⟩ := ih plain.1 compiledBase
    have same := (path_simpleCompound adds).symm.trans compiledBase
    obtain rfl := Except.ok.inj same
    obtain ⟨condition, here⟩ := Simple.exists_adds plain.2 rfl compiledSimple
    exact ⟨conditions ++ [condition], List.rel_append adds (.cons here .nil)⟩

/-- Only `:scope` adds a number. -/
theorem Simple.isSteady_of_adds {simples : List Simple} {conditions : List Expr}
    (adds : List.Forall₂ (Simple.Adds options) simples conditions)
    (other : .pseudoClass "scope" ∉ simples) : ∀ expr ∈ conditions, expr.IsSteady := by
  induction adds with
  | nil => simp
  | cons here _ ih =>
    rw [List.mem_cons, not_or] at other
    exact List.forall_mem_cons.mpr ⟨here.steady (Ne.symm other.1), ih other.2⟩

/-- Where `:scope` starts a compound, it does not stand in it again. -/
theorem Tree.scope_notMem {simples : List Simple} {site : Site}
    (formed : (Tree.simpleCompound (.pseudoClass "scope" :: simples)).IsFormed site) :
    .pseudoClass "scope" ∉ simples := by
  induction simples using List.reverseRecOn generalizing site with
  | nil => simp
  | append_singleton simples simple ih =>
    rw [← List.cons_append, simpleCompound_concat] at formed
    obtain ⟨before, -, placed⟩ := formed
    rw [List.mem_append, List.mem_singleton, not_or]
    refine ⟨ih before, fun again => ?_⟩
    -- a second one would stand behind the universal selector, and not behind the first one
    have first := (placed again.symm).2
    rcases List.eq_nil_or_concat simples with rfl | ⟨others, last, rfl⟩
    · exact nomatch first
    · rw [List.concat_eq_append, ← List.cons_append, simpleCompound_concat] at first
      exact nomatch first

end Selector

/-! ### The first node of a step -/

/-- In document order the first of the nodes at or below a node is the node itself. -/
theorem take_one_of_suffix {addresses : List Address} {x : Address}
    (ordered : addresses.Pairwise fun earlier later => ¬ later <:+ earlier)
    (inside : x ∈ addresses) (below : ∀ y ∈ addresses, x <:+ y) : addresses.take 1 = [x] := by
  cases addresses with
  | nil => simp at inside
  | cons first rest =>
    rcases List.mem_cons.mp inside with rfl | inside
    · rfl
    · exact absurd (below first List.mem_cons_self) ((List.pairwise_cons.mp ordered).1 x inside)

/-- The condition `1`, on its own, keeps the context element. -/
theorem reached_first {x : Address} (inside : document.IsElement x) :
    reached document .descendantOrSelf "*" [Condition.always] (.tree x) = some [.tree x] := by
  have select : document.select (XPath.Axis.standard .descendantOrSelf) (nodeTest "*")
      (.tree x) = _ :=
    select_of_along .star (by simp) (along_descendantOrSelf x)
  have first : ((document.addresses.filter fun other => x <:+ other).filter
      (document.hasType none)).take 1 = [x] := by
    refine take_one_of_suffix ((document.pairwise_addresses.filter _).filter _) ?_ ?_
    · rw [List.mem_filter, List.mem_filter, Document.hasType_none]
      exact ⟨⟨mem_addresses_of_isElement inside, by simp⟩, inside⟩
    · intro y member
      exact of_decide_eq_true (List.mem_filter.mp (List.mem_filter.mp member).1).2
  have reachedAll : reached document .descendantOrSelf "*" [] (.tree x) =
      some (((document.addresses.filter fun other => x <:+ other).filter
        (document.hasType none)).map .tree) := by
    rw [reached, select]
    rfl
  rw [reached_always, reachedAll, Option.map_some, ← List.map_take, first]
  rfl

/-- Beside other conditions that are no numbers, the condition `1` makes no difference. -/
theorem reached_always_cons {conditions : List Expr} (some : conditions ≠ [])
    (steady : ∀ expr ∈ conditions, expr.IsSteady) {axis : XPath.Axis} (elements : axis ≠ .attribute)
    (test : String) (start : Node) :
    reached document axis test (Condition.always :: conditions) start =
      reached document axis test conditions start := by
  have conditioned : ∀ expr ∈ conditions, expr.IsCondition :=
    fun expr member => (steady expr member).isCondition
  have alike : HoldAlike document (Condition.always :: conditions) conditions :=
    fun x _ position size _ => by
      rw [List.forall_mem_cons]
      exact and_iff_right holds_always
  have steps := alike.stepAlike (List.forall_mem_cons.mpr ⟨isCondition_always, conditioned⟩)
    conditioned
  have other : conditions ≠ [Condition.always] := by
    rintro rfl
    exact (steady _ List.mem_cons_self).ne_always rfl
  exact steps.same (by simp [some]) other axis test start elements

namespace Selector

variable {options : Options} {selector : Selector} {simples : List Simple} {path : LocationPath}

/-- The first step of a selector that starts with `:scope` and some simple selectors has the number
and the conditions of these. -/
theorem exists_firstStep_scope
    (starts : selector.tree.firstCompound = .simpleCompound (.pseudoClass "scope" :: simples))
    (plain : ∀ simple ∈ simples, ∀ call, simple ≠ .function call)
    (compiled : selector.tree.path options = .ok path) :
    ∃ conditions, List.Forall₂ (Simple.Adds options) simples conditions ∧
      path.fromAnywhere.term.firstStep =
        (anywhere "*" (conjunction? (Condition.always :: conditions))).term := by
  obtain ⟨compound, compiledFirst, same⟩ := selector.tree.exists_first compiled
  rw [starts] at compiledFirst
  have noFunction : ∀ simple ∈ .pseudoClass "scope" :: simples, ∀ call,
      simple ≠ .function call := List.forall_mem_cons.mpr ⟨by simp, plain⟩
  obtain ⟨_, all⟩ := Tree.exists_adds noFunction compiledFirst
  obtain ⟨_, conditions, -, adds, rfl⟩ := List.forall₂_cons_left_iff.mp all
  have whole := (Tree.path_simpleCompound (.cons Simple.adds_scope adds)).symm.trans compiledFirst
  obtain rfl := Except.ok.inj whole
  refine ⟨conditions, adds, ?_⟩
  rw [firstStep_fromAnywhere (Tree.valid_path compiled), ← same]
  rfl

/-- What the first step of a selector that starts with `:scope` and some simple selectors leads to
from an element: to the element alone, if there are no further simple selectors, and else to what
they alone would lead to. -/
theorem firstStep_scope {css : String} {selectors : List Selector} {term : Term}
    (accepted : parse css = .ok selectors) (member : selector ∈ selectors)
    (starts : selector.tree.firstCompound = .simpleCompound (.pseudoClass "scope" :: simples))
    (plain : ∀ simple ∈ simples, ∀ call, simple ≠ .function call)
    (compiles : selector.CompilesTo options term) :
    ∃ alone, Selector.CompilesTo options ⟨.simpleCompound simples, none⟩ alone ∧
      ∀ (document : Document) (x : Address), document.IsElement x → ∀ position size,
        (simples = [] → term.firstStep.eval document ⟨.tree x, position, size⟩ =
          some (.nodes [.tree x])) ∧
        (simples ≠ [] → term.firstStep.eval document ⟨.tree x, position, size⟩ =
          alone.eval document ⟨.tree x, position, size⟩) := by
  obtain ⟨path, compiled, rfl⟩ := compiles.exists_path
  obtain ⟨conditions, adds, firstStep⟩ := exists_firstStep_scope starts plain compiled
  refine ⟨_, Tree.compilesTo_of_path (Tree.path_simpleCompound adds),
    fun document x inside position size => ?_⟩
  have eval (others : List Expr) :
      (anywhere "*" (conjunction? others)).term.eval document ⟨.tree x, position, size⟩ =
        (reached document .descendantOrSelf "*" others (.tree x)).map .nodes :=
    eval_step_reached (.named .descendantOrSelf) "*" others
  rw [firstStep, eval]
  constructor
  · rintro rfl
    obtain rfl := List.forall₂_nil_left_iff.mp adds
    rw [reached_first inside, Option.map_some]
  · intro further
    -- the reader admits `:scope` only once, so the others add no number
    obtain ⟨_, formed, rfl⟩ := exists_formed_of_parse accepted
    have formedFirst := (formed.finished selector (List.mem_reverse.mp member)).firstCompound
    rw [starts] at formedFirst
    have steady := Simple.isSteady_of_adds adds (Tree.scope_notMem formedFirst)
    have some : conditions ≠ [] := by
      rintro rfl
      exact further (List.forall₂_nil_right_iff.mp adds)
    rw [reached_always_cons some steady (by simp), ← eval]
    rfl

/-- The first step of `:scope.x>b` leads to what that of `.x` does. -/
theorem firstStep_scope_class :
    let simples : List Simple := [.className "x"]
    let tree : Tree := .combined (.simpleCompound (.pseudoClass "scope" :: simples)) .child
      (.element none (some "b"))
    parse ":scope.x>b" = .ok [⟨tree, none⟩] ∧
      tree.firstCompound = .simpleCompound (.pseudoClass "scope" :: simples) ∧
      (∀ simple ∈ simples, ∀ call, simple ≠ .function call) ∧
      ∃ term, Selector.CompilesTo .generic ⟨tree, none⟩ term ∧
        ∃ alone, Selector.CompilesTo .generic ⟨.simpleCompound simples, none⟩ alone ∧
          ∀ (document : Document) (x : Address), document.IsElement x → ∀ position size,
            (simples = [] → term.firstStep.eval document ⟨.tree x, position, size⟩ =
              some (.nodes [.tree x])) ∧
            (simples ≠ [] → term.firstStep.eval document ⟨.tree x, position, size⟩ =
              alone.eval document ⟨.tree x, position, size⟩) := by
  intro simples tree
  have lexed : (tokenize ":scope.x>b").toOption = some
      [⟨.delim, ":", 0⟩, ⟨.ident, "scope", 1⟩, ⟨.delim, ".", 6⟩, ⟨.ident, "x", 7⟩,
        ⟨.delim, ">", 8⟩, ⟨.ident, "b", 9⟩, ⟨.eof, "", 10⟩] := by
    decide +kernel
  have accepted : parse ":scope.x>b" = .ok [⟨tree, none⟩] := by
    rw [parse_of_tokenize lexed]
    cbv
  have plain : ∀ simple ∈ simples, ∀ call, simple ≠ .function call := by simp [simples]
  have compiles : Selector.CompilesTo .generic ⟨tree, none⟩ _ := Tree.compilesTo_of_path rfl
  exact ⟨accepted, rfl, plain, _, compiles,
    firstStep_scope accepted List.mem_cons_self rfl plain compiles⟩

/-- Below an element without the attribute, the first step of `:scope[c]` leads to one with it. -/
theorem firstStep_scope_below :
    let document : Document := ⟨"a", .none, [.element "b" ⟨[("c", "")], by decide⟩ []]⟩
    let tree : Tree :=
      .simpleCompound [.pseudoClass "scope", .attribute ⟨none, "c", .present, none⟩]
    parse ":scope[c]" = .ok [⟨tree, none⟩] ∧ document.IsElement [0] ∧
      ∃ term, Selector.CompilesTo .generic ⟨tree, none⟩ term ∧
        term.firstStep.eval document ⟨.tree [0], 1, 1⟩ = some (.nodes [.tree [0, 0]]) := by
  intro document tree
  have lexed : (tokenize ":scope[c]").toOption = some
      [⟨.delim, ":", 0⟩, ⟨.ident, "scope", 1⟩, ⟨.delim, "[", 6⟩, ⟨.ident, "c", 7⟩,
        ⟨.delim, "]", 8⟩, ⟨.eof, "", 9⟩] := by
    decide +kernel
  have accepted : parse ":scope[c]" = .ok [⟨tree, none⟩] := by
    rw [parse_of_tokenize lexed]
    cbv
  have compiled : tree.path .generic =
      .ok (stepUnder [Condition.always, Condition.attributeNamed "c"]) := by cbv
  exact ⟨accepted, rfl, _, Tree.compilesTo_of_path compiled, by cbv⟩

end Selector

end SelectorPath
