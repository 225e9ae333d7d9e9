import SelectorPath.Proofs.Condition.KeptTypes
import SelectorPath.Proofs.Selector.Acceptance
import SelectorPath.Proofs.Selector.Evaluable

/-!
# Paths built by operations

Paths are built from single steps by the operations on them and by simple selectors, in any order
and each under options of its own. Whatever has been done to a path, the type of its last step is
the node test, or the step has a condition that asks for it. The paths of trees are built in that
way, so a tree whose path has a type selects nothing else.

## Main definitions

* `LocationPath.Built` — the paths that operations build from single steps

## Main results

* `LocationPath.Built.keepsType` — a built path keeps the type of its last step
* `LocationPath.Built.typeName_or_asks` — where the type is, and how the condition for it is written
* `Selector.Tree.built_pathFrom` — the path of a tree is built
* `Selector.Tree.exists_nodes_of_type` — all that a tree selects has the type of its path
-/

namespace SelectorPath

namespace XPath.LocationPath

/-- The paths that are built from single steps. Conditions may be any, and so may options. -/
inductive Built : LocationPath → Prop
  | ofTest (test : String) : Built (ofTest test)
  | addCondition {path : LocationPath} (built : Built path) (condition : Expr) :
    Built (path.addCondition condition)
  | addAlternatives {path : LocationPath} (built : Built path) (alternatives : List Expr) :
    Built (path.addAlternatives alternatives)
  | addNameTest {path : LocationPath} (built : Built path) : Built path.addNameTest
  | addStar {path : LocationPath} (built : Built path) : Built path.addStar
  | join {left right : LocationPath} (built : Built left) (link : Link) (also : Built right) :
    Built (left.join link right)
  | joinSibling {left right : LocationPath} (built : Built left) (also : Built right)
    (adjacent : Bool) : Built (left.joinSibling right adjacent)
  | simple {path restricted : LocationPath} (built : Built path) (options : Options)
    (simple : Selector.Simple) (compiled : simple.restrict options path = .ok restricted) :
    Built restricted
  | call {path restricted : LocationPath} (built : Built path) (options : Options)
    (function : FunctionalClass) (call : FunctionCall)
    (compiled : function.restrict options path call = .ok restricted) : Built restricted

end XPath.LocationPath

open XPath

/-- A simple selector keeps the type of a step. -/
theorem Selector.Simple.keepsType_restrict {options : Options} {simple : Simple}
    {path restricted : LocationPath} (keeps : path.KeepsType)
    (compiled : simple.restrict options path = .ok restricted) : restricted.KeepsType := by
  cases simple with
  | className | id | «attribute» =>
    obtain rfl := Except.ok.inj compiled
    exact keeps.addCondition _
  | pseudoClass name =>
    obtain ⟨condition, _, rfl⟩ := restrict_pseudoClass_eq_ok_iff.mp compiled
    exact keeps.addCondition condition
  | function call =>
    obtain ⟨known, _, compiled⟩ := restrict_function_eq_ok_iff.mp compiled
    exact keeps.restrict compiled

namespace XPath.LocationPath

variable {path : LocationPath}

/-- Whatever a path was built by, its last step keeps its type. -/
theorem Built.keepsType (built : path.Built) : path.KeepsType := by
  induction built with
  | ofTest test => exact keepsType_ofTest test
  | addCondition _ condition keeps => exact keeps.addCondition condition
  | addAlternatives _ alternatives keeps => exact keeps.addAlternatives alternatives
  | addNameTest _ keeps => exact keeps.addNameTest
  | addStar _ keeps => exact keeps.addStar
  | join _ link _ _ keeps => exact keeps.join _ link
  | joinSibling _ _ adjacent _ keeps => exact keeps.joinSibling _ adjacent
  | simple _ _ simple compiled keeps => exact simple.keepsType_restrict keeps compiled
  | call _ _ _ _ compiled keeps => exact keeps.restrict compiled

/-- The type of a step that does not admit every element is its node test. A type that is kept on a
step that does is asked for by one of its conditions: by the name, or by membership among the
children of the parent that a step with that node test, and with a predicate or without, selects. -/
theorem Built.typeName_or_asks (built : path.Built) :
    (path.test ≠ "*" → path.typeName = some path.test) ∧
      ∀ type, path.test = "*" → path.typeName = some type →
        ∃ condition ∈ path.conditions,
          (condition = .nameIs type ∧ condition.text = "name() = " ++ quote type) ∨
          ∃ step : LocationPath, step.test = type ∧ condition = step.membership ∧
            condition.text = "count(. | ../" ++ stepText type step.condition? ++ ") = count(../" ++
              stepText type step.condition? ++ ")" := by
  obtain ⟨tested, asked⟩ := built.keepsType
  refine ⟨tested, fun type star kept => ?_⟩
  obtain ⟨condition, member, asks⟩ := asked star type kept
  refine ⟨condition, member, ?_⟩
  cases asks with
  | name => exact .inl ⟨rfl, Expr.text_nameIs type⟩
  | membership step tests =>
    obtain rfl := tests
    exact .inr ⟨step, rfl, rfl, by simp [← String.toList_inj, text_membership, text_siblings]⟩

/-- Behind `ul >`, the second `p` is widened to find out whether it is the third child. All that was
asked of it is folded into a test of membership, which asks for `p` still. -/
theorem typeName_or_asks_folded :
    let second := (ofTest "p").addPosition (some (.binary .equal Condition.position (.integer 2)))
    let third := second.addNameTest.addPosition
      (some (.binary .equal Condition.position (.integer 3)))
    let path := (ofTest "ul").join .child third
    path.Built ∧ path.test = "*" ∧ path.typeName = some "p" ∧
      path.text = "ul/*[(count(. | ../p[position() = 2]) = count(../p[position() = 2])) and " ++
        "(position() = 3)]" ∧
      ∃ condition ∈ path.conditions,
        (condition = .nameIs "p" ∧ condition.text = "name() = " ++ quote "p") ∨
        ∃ step : LocationPath, step.test = "p" ∧ condition = step.membership ∧
          condition.text = "count(. | ../" ++ stepText "p" step.condition? ++ ") = count(../" ++
            stepText "p" step.condition? ++ ")" := by
  intro second third path
  have ofType : FunctionalClass.nthOfType.restrict .generic (ofTest "p")
      ⟨"nth-of-type", [⟨.number, "2", 0⟩]⟩ = .ok second := by cbv
  have ofChild : FunctionalClass.nthChild.restrict .generic second
      ⟨"nth-child", [⟨.number, "3", 0⟩]⟩ = .ok third := by cbv
  have built : path.Built :=
    .join (.ofTest "ul") .child (.call (.call (.ofTest "p") _ _ _ ofType) _ _ _ ofChild)
  exact ⟨built, rfl, rfl, by cbv, built.typeName_or_asks.2 "p" rfl rfl⟩

end XPath.LocationPath

open LocationPath

/-! ### Compiled trees -/

theorem built_typePath (options : Options) (ns name : Option String) :
    (typePath options ns name).Built := by
  rcases typePath_eq options ns name with same | same
  · rw [same]
    exact .ofTest _
  · rw [same]
    exact (Built.ofTest _).addNameTest

theorem built_connect {left right : LocationPath} (built : left.Built) (combinator : Combinator)
    (also : right.Built) : (connect left combinator right).Built := by
  cases combinator with
  | descendant | child => exact built.join _ also
  | nextSibling | subsequentSibling => exact built.joinSibling also _

theorem Origin.built_attach {origin : Origin} (start : ∀ pair ∈ origin, pair.1.Built)
    {path : LocationPath} (built : path.Built) : (origin.attach path).Built := by
  match origin with
  | none => exact built
  | some (before, combinator) => exact built_connect (start _ rfl) combinator built

namespace Selector

/-- The path of a tree is built, if the path in front of it is. -/
theorem Tree.built_pathFrom {options : Options} {origin : Origin}
    (start : ∀ pair ∈ origin, pair.1.Built) : (tree : Tree) → {path : LocationPath} →
      tree.pathFrom options origin = .ok path → path.Built
  | .element ns name, path, compiled => by
    obtain rfl := Except.ok.inj compiled
    exact Origin.built_attach start (built_typePath options ns name)
  | .restricted base simple, path, compiled => by
    obtain ⟨before, restricted, compiledBase, compiledSimple, rfl⟩ :=
      pathFrom_restricted_eq_ok_iff.mp compiled
    have built := built_pathFrom (by simp) base compiledBase
    exact Origin.built_attach start (built.simple options simple compiledSimple)
  | .negation base argument, path, compiled => by
    obtain ⟨before, other, compiledBase, -, rfl⟩ := pathFrom_negation_eq_ok_iff.mp compiled
    exact Origin.built_attach start ((built_pathFrom (by simp) base compiledBase).addCondition _)
  | .relation base _ argument, path, compiled => by
    obtain ⟨before, related, compiledBase, -, rfl⟩ := pathFrom_relation_eq_ok_iff.mp compiled
    exact Origin.built_attach start ((built_pathFrom (by simp) base compiledBase).addCondition _)
  | .anyOf kind base arguments, path, compiled => by
    obtain ⟨before, alternatives, compiledBase, compiledArguments, rfl⟩ :=
      pathFrom_anyOf_eq_ok_iff.mp compiled
    exact Origin.built_attach start ((built_pathFrom (by simp) base compiledBase).addAlternatives _)
  | .combined left combinator right, path, compiled => by
    obtain ⟨before, after, compiledLeft, compiledRight, rfl⟩ :=
      pathFrom_combined_eq_ok_iff.mp compiled
    exact built_connect (built_pathFrom start left compiledLeft) combinator
      (built_pathFrom (by simp) right compiledRight)

/-- A tree whose path has a type that can be written is compiled to an expression that selects nodes
of that type only, in every document and from every node. -/
theorem Tree.exists_nodes_of_type {options : Options} {tree : Tree} {path : LocationPath}
    (compiled : tree.path options = .ok path) {type : String}
    (named : path.namedType? = some type) :
    ∃ term, Selector.CompilesTo options ⟨tree, none⟩ term ∧ ∀ document context, ∃ nodes,
      term.eval document context = some (.nodes nodes) ∧
        ∀ node ∈ nodes, document.nodeName node = type := by
  have compiles := compilesTo_of_path compiled
  have keeps := (tree.built_pathFrom (by simp) compiled).keepsType
  refine ⟨_, compiles, fun document context => ?_⟩
  obtain ⟨nodes, eval⟩ := compiles.exists_eval document context
  obtain ⟨selected, same, typed⟩ :=
    keeps.nodeName_of_fromAnywhere (valid_path compiled) named eval
  obtain rfl := Grammar.Value.nodes.inj same
  exact ⟨nodes, eval, typed⟩

end Selector

end SelectorPath
