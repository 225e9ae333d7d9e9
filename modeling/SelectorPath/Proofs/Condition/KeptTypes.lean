import SelectorPath.Condition.FunctionalClass
import SelectorPath.Proofs.Condition.Attributes
import SelectorPath.Proofs.XPath.Remainders
import SelectorPath.Proofs.XPath.Validity

/-!
# Steps that keep their type

Elements of one type are counted by the name that a step was made with, also when the step has been
widened to every element. The name is no node test then, so a condition has to ask for it: for the
name itself, or for being one of the children of the parent that a step with that node test selects.
Whatever is done to a path, it has such a condition. Conditions are added, or are folded into one
that asks for the type; a step that admits every element is not widened again; and a join takes the
name and the conditions of one path. What such a step leaves has the type, whatever else it asks.

## Main definitions

* `Expr.AsksForType` — a condition that asks for elements of one type
* `LocationPath.KeepsType` — the type of a path is its node test, or a condition asks for it

## Main results

* `LocationPath.KeepsType.addNameTest`, `LocationPath.KeepsType.joinSibling`,
  `LocationPath.KeepsType.restrict` and the like — every operation keeps the type
* `LocationPath.KeepsType.nodeName_of_leaves` — what the last step leaves has the type
-/

namespace SelectorPath

namespace XPath

open Grammar

/-- The condition asks for the given name, or for one of the children of the parent that a step with
the name as its node test selects. -/
inductive Expr.AsksForType (type : String) : Expr → Prop
  | name : AsksForType type (.nameIs type)
  | membership (step : LocationPath) (tests : step.test = type) : AsksForType type step.membership

theorem Expr.text_nameIs (name : String) : (nameIs name).text = "name() = " ++ quote name := by
  simp [nameIs, Expr.text, Expr.listText, Function.text, Operator.text]

namespace LocationPath

theorem text_siblings (path : LocationPath) :
    path.siblings.text = "../" ++ stepText path.test path.condition? := by
  simp [← String.toList_inj, siblings, Expr.text, AxisSpecifier.text, stepText]

theorem text_membership (path : LocationPath) :
    path.membership.text =
      "count(. | " ++ path.siblings.text ++ ") = count(" ++ path.siblings.text ++ ")" := by
  simp [← String.toList_inj, membership, Expr.text, Expr.listText, Function.text, Operator.text]

/-! ### Operations keep the type -/

/-- The type of the last step is its node test, and a condition asks for it where the node test is
`*`. -/
structure KeepsType (path : LocationPath) : Prop where
  tested : path.test ≠ "*" → path.typeName = some path.test
  asked : path.test = "*" → ∀ type ∈ path.typeName,
    ∃ condition ∈ path.conditions, condition.AsksForType type

theorem keepsType_ofTest (test : String) : (ofTest test).KeepsType where
  tested other := if_neg other
  asked star := by
    have none : (ofTest test).typeName = none := if_pos star
    simp [none]

namespace KeepsType

variable {path other : LocationPath}

/-- More conditions ask for the same type. -/
theorem of_subset (keeps : path.KeepsType) (test : other.test = path.test)
    (type : other.typeName = path.typeName) (more : path.conditions ⊆ other.conditions) :
    other.KeepsType where
  tested := by
    rw [test, type]
    exact keeps.tested
  asked := by
    rw [test, type]
    intro star name named
    obtain ⟨condition, member, asks⟩ := keeps.asked star name named
    exact ⟨condition, more member, asks⟩

theorem addCondition (keeps : path.KeepsType) (condition : Expr) :
    (path.addCondition condition).KeepsType :=
  keeps.of_subset rfl rfl (List.subset_append_left _ _)

theorem addAlternatives (keeps : path.KeepsType) (alternatives : List Expr) :
    (path.addAlternatives alternatives).KeepsType := by
  unfold LocationPath.addAlternatives
  split
  · exact keeps
  · exact keeps.addCondition _

/-- A step gets a condition for its type when it is widened, even if that condition takes the place
of all others. -/
theorem addNameTest (keeps : path.KeepsType) : path.addNameTest.KeepsType := by
  unfold LocationPath.addNameTest
  by_cases wildcard : path.isWildcard = true
  · rw [if_pos wildcard]
    exact keeps
  · rw [if_neg wildcard]
    have other : path.test ≠ "*" := by simpa [isWildcard] using wildcard
    have type (name : String) (named : name ∈ path.typeName) : path.test = name := by
      rw [keeps.tested other] at named
      exact Option.some.inj named
    split
    -- all conditions are given up for one test, whose step still has the name
    · refine ⟨absurd rfl, fun _ name named => ?_⟩
      exact ⟨path.membership, List.mem_singleton_self _, .membership path (type name named)⟩
    · refine ⟨absurd rfl, fun _ name named => ?_⟩
      obtain rfl := type name named
      exact ⟨.nameIs path.test, List.mem_append_right _ (List.mem_singleton_self _), .name⟩

theorem addStar (keeps : path.KeepsType) : path.addStar.KeepsType := by
  unfold LocationPath.addStar
  split
  · exact keeps
  · exact keeps.of_subset rfl rfl (List.Subset.refl _)

/-- The last step of a join is that of the right path. -/
theorem join (keeps : other.KeepsType) (path : LocationPath) (link : Link) :
    (path.join link other).KeepsType :=
  keeps.of_subset rfl rfl (List.Subset.refl _)

/-- Behind the axis of siblings the step of the right path is kept, or a step without type takes its
place. -/
theorem joinSibling (keeps : other.KeepsType) (path : LocationPath) (adjacent : Bool) :
    (path.joinSibling other adjacent).KeepsType := by
  unfold LocationPath.joinSibling
  split
  -- the membership test says nothing about a type here: the new step is made with `*` and has none
  · have untyped := (keepsType_ofTest "*").join path .followingSibling
    cases adjacent with
    | false => exact untyped.addCondition _
    | true => exact (untyped.addCondition _).addCondition _
  · have joined := keeps.join path .followingSibling
    cases adjacent with
    | false => exact joined
    | true => exact joined.addNameTest.addCondition _

theorem addPosition (keeps : path.KeepsType) (condition : Option Expr) :
    (path.addPosition condition).KeepsType := by
  cases condition with
  | none => exact keeps.addStar
  | some condition => exact keeps.addStar.addCondition condition

theorem addPositionAmong (keeps : path.KeepsType) (type : String) (condition : Option Expr) :
    (path.addPositionAmong type condition).KeepsType := by
  cases condition with
  | none => exact keeps.addStar
  | some condition =>
    unfold LocationPath.addPositionAmong
    dsimp only
    split
    · exact keeps.addStar.addCondition _
    · exact keeps.addStar.addCondition condition

/-- So does a call of a functional pseudo-class. -/
theorem restrict (keeps : path.KeepsType) {options : Options} {function : FunctionalClass}
    {call : FunctionCall} {restricted : LocationPath}
    (compiled : function.restrict options path call = .ok restricted) : restricted.KeepsType := by
  obtain ⟨series, direction, rfl⟩ | ⟨series, direction, type, -, rfl⟩ | ⟨value, rfl | rfl⟩ :=
    FunctionalClass.restrict_cases compiled
  · exact keeps.addNameTest.addPosition _
  · exact keeps.addPositionAmong type _
  · exact keeps.addCondition _
  · exact keeps.addCondition _

end KeepsType

end LocationPath

/-! ### What a typed step leaves -/

section Evaluation

variable {document : Document} {type : String} {node : Node}

/-- A node that passes a name as a node test has the name. -/
theorem nodeName_of_passes {axis : Grammar.Axis} (plain : isPlainQName type = true)
    (passes : document.passes axis (nodeTest type) node = true) : document.nodeName node = type := by
  rw [nodeTest_qualified plain, Document.passes, Bool.and_eq_true] at passes
  exact beq_iff_eq.mp passes.2

/-- A condition that asks for a type holds of nodes with that name only. -/
theorem Expr.AsksForType.nodeName_eq {condition : Expr} {context : Context}
    (asks : condition.AsksForType type) (plain : isPlainQName type = true)
    (holds : condition.Holds document context) : document.nodeName context.node = type := by
  cases asks with
  | name => exact (Condition.asserts_nameIs type).holds.mp holds
  | membership step tests =>
    have passes := LocationPath.passes_of_membership holds
    rw [tests] at passes
    exact nodeName_of_passes plain passes

namespace LocationPath

variable {path : LocationPath}

/-- What the last step leaves has the type of the path. -/
theorem KeepsType.nodeName_of_leaves (keeps : path.KeepsType) (named : path.namedType? = some type)
    {axis : Grammar.Axis}
    (leaves : StepLeaves document axis path.test (predicates path.condition?) node) :
    document.nodeName node = type := by
  obtain ⟨kept, plain⟩ := Option.filter_eq_some_iff.mp named
  by_cases star : path.test = "*"
  -- the node test admits every element, so one of the conditions has to do
  · obtain ⟨condition, member, asks⟩ := keeps.asked star type kept
    obtain ⟨position, size, holds⟩ := leaves.exists_holds
    exact asks.nodeName_eq plain (holds condition member)
  · rw [keeps.tested star] at kept
    obtain rfl := Option.some.inj kept
    exact nodeName_of_passes plain leaves.passes

/-- The nodes that an expression of steps behind a base evaluates to have the type of its last
step. -/
theorem KeepsType.nodeName_of_exprFrom (keeps : path.KeepsType)
    (named : path.namedType? = some type) {base : Expr} {link : Link} {segments : List Segment}
    (linked : ∀ text, link ≠ .verbatim text)
    (valid : ∀ segment ∈ segments, segment.Valid) {context : Context} {value : Value}
    (eval : (exprFrom (some (base, link)) segments path.test path.condition?).eval document context =
      some value) :
    ∃ list, value = .nodes list ∧ ∀ node ∈ list, document.nodeName node = type := by
  induction segments generalizing base link with
  | nil =>
    have last {base : Expr} {axis : AxisSpecifier}
        (eval : (Expr.slash base axis path.test (predicates path.condition?)).eval document context =
          some value) :
        ∃ list, value = .nodes list ∧ ∀ node ∈ list, document.nodeName node = type := by
      obtain ⟨list, rfl, leaves⟩ := stepLeaves_of_eval_slash eval
      exact ⟨list, rfl, fun node member => keeps.nodeName_of_leaves named (leaves node member)⟩
    cases link with
    | child | descendant | followingSibling => exact last eval
    | verbatim text => exact absurd rfl (linked text)
  | cons segment rest ih =>
    obtain ⟨here, others⟩ := List.forall_mem_cons.mp valid
    exact ih here.link others eval

/-- The nodes that a path selects at and below the context node have its type. -/
theorem KeepsType.nodeName_of_fromAnywhere (keeps : path.KeepsType) (valid : path.Valid)
    (named : path.namedType? = some type) {context : Context} {value : Value}
    (eval : path.fromAnywhere.eval document context = some value) :
    ∃ list, value = .nodes list ∧ ∀ node ∈ list, document.nodeName node = type := by
  obtain ⟨segments, split, all⟩ := valid.segments
  rw [List.nil_append] at split
  unfold fromAnywhere at eval
  split at eval
  · obtain ⟨list, rfl, leaves⟩ := stepLeaves_of_eval_step eval
    exact ⟨list, rfl, fun node member => keeps.nodeName_of_leaves named (leaves node member)⟩
  · rename_i first rest cons
    rw [← split, cons] at all
    obtain ⟨here, others⟩ := List.forall_mem_cons.mp all
    exact keeps.nodeName_of_exprFrom named here.link others eval

end LocationPath

end Evaluation

end XPath

end SelectorPath
