import SelectorPath.Proofs.Selector.Acceptance
import SelectorPath.Proofs.Selector.Arguments
import SelectorPath.Proofs.XPath.Steps

/-!
# Type selectors as node tests and as conditions

A type selector is the node test of a step as long as nothing else has to be counted there. Where
places among all children or the very next sibling are asked for, and where the type selector is an
argument, the step admits every element and the name becomes a condition. A name and a qualified
name keep their meaning, along every axis. The test `ns:*` does not: no element has the name `ns:*`.

The name `*` can be written as a type selector too, as `\*`. It is rendered like the universal
selector, and no other name is: two type selectors are compiled alike only if both are one name or
both are `*`, written in either way.

## Main definitions

* `Document.admitsName` — what a rendered name asks of a node along an axis
* `StepsAlike` — two steps leave the same of any nodes
* `Selector.Tree.Selects` — a selector is compiled to what selects some elements
* `Selector.Tree.MeansType` — a type selector means the same wherever it stands

## Main results

* `Selector.exists_typeStep` — what the step of a type selector without namespace leaves
* `Selector.stepsAlike_typePath_iff` — of which type selectors the name test can become a condition
-/

namespace SelectorPath

open Text XPath Grammar LocationPath

variable {document : Document} {axis : Grammar.Axis}

/-! ### Rendered names -/

/-- Along an axis, the node has the given name, or any name if that is `*`. -/
def Document.admitsName (document : Document) (axis : Grammar.Axis) (name : String) (node : Node) :
    Bool :=
  document.isPrincipal axis node && (name == "*" || document.nodeName node == name)

namespace XPath

/-- Two steps along an axis leave the same of any nodes. -/
def StepsAlike (document : Document) (axis : Grammar.Axis) (step other : String) : Prop :=
  ∃ claim, StepKeeps document axis step claim ∧ StepKeeps document axis other claim

theorem ne_star_of_isPlainQName {name : String} (plain : isPlainQName name = true) : name ≠ "*" := by
  rintro rfl
  exact absurd plain (by decide)

theorem stepKeeps_star : StepKeeps document axis "*" (document.admitsName axis "*") := by
  refine (stepKeeps_test axis .star).congr fun node => ?_
  rw [nodeTest_star]
  simp [Document.passes, Document.admitsName]

/-- A plain name as a node test asks for the name. -/
theorem stepKeeps_name {name : String} (plain : isPlainQName name = true) :
    StepKeeps document axis name (document.admitsName axis name) := by
  refine (stepKeeps_test axis (.of_qualified plain)).congr fun node => ?_
  rw [nodeTest_qualified plain]
  simp [Document.passes, Document.admitsName, beq_false_of_ne (ne_star_of_isPlainQName plain)]

/-- Every name but `*` asks for itself in a condition. -/
theorem text_addNameTest_ofTest {test : String} (other : test ≠ "*") :
    (ofTest test).addNameTest.text = stepText "*" (some (.nameIs test)) := by
  simp [addNameTest, ofTest, isWildcard, other, text, segmentsText, condition?]

/-- As a condition, any name asks for the name. -/
theorem stepKeeps_addNameTest (test : String) :
    StepKeeps document axis (ofTest test).addNameTest.text (document.admitsName axis test) := by
  by_cases star : test = "*"
  · rw [star]
    exact stepKeeps_star
  · rw [text_addNameTest_ofTest star]
    have named : StepKeeps document axis (stepText "*" (some (.nameIs test))) fun node =>
        document.passes axis (nodeTest "*") node && document.nodeName node == test :=
      stepKeeps_condition axis .star (valid_nameIs test) fun node position size _ =>
        (Condition.asserts_nameIs test).congr beq_iff_eq.symm
    refine named.congr fun node => ?_
    rw [nodeTest_star]
    simp [Document.passes, Document.admitsName, beq_false_of_ne star]

end XPath

/-- The name of the root element is admitted. -/
theorem Document.admitsName_root (name root : String) :
    (Document.mk root .none []).admitsName .child name (.tree [0]) = (name == "*" || root == name) :=
  rfl

/-- Names that admit the same nodes in every document are the same. -/
theorem Document.admitsName_injective {first second : String}
    (same : ∀ document : Document,
      document.admitsName .child first = document.admitsName .child second) : first = second := by
  have roots (root : String) :
      (first == "*" || root == first) = (second == "*" || root == second) := by
    have here := congrFun (same ⟨root, .none, []⟩) (.tree [0])
    rwa [admitsName_root, admitsName_root] at here
  have longer (name : String) : name ++ "a" ≠ name := by
    intro same
    have := congrArg (fun text => text.toList.length) same
    simp at this
  -- only `*` admits a root with the name of the other and one more letter
  have ofFirst := roots first
  have ofSecond := roots second
  have beyondFirst := roots (first ++ "a")
  have beyondSecond := roots (second ++ "a")
  simp only [beq_self_eq_true, Bool.or_true] at ofFirst ofSecond
  by_cases starFirst : first = "*"
  · simp [starFirst, longer] at beyondSecond
    rw [starFirst, beyondSecond]
  · by_cases starSecond : second = "*"
    · simp [starFirst, starSecond, longer] at beyondFirst
    · simpa [starSecond] using ofFirst.symm

namespace Selector

variable {options : Options}

/-! ### Type selectors without namespace -/

/-- The step of a type selector without namespace, under whatever name, asks for that name. -/
theorem stepKeeps_typePath (document : Document) (axis : Grammar.Axis) (name : Option String) :
    StepKeeps document axis (typePath .generic none name).text
      (document.admitsName axis (name.getD "*")) := by
  have folded : name.map (Options.foldCase false) = name := by cases name <;> rfl
  simp only [typePath, Options.generic, folded, Option.all_none, Bool.and_true]
  split
  · rename_i plain
    rw [text_ofTest]
    cases name with
    | none => exact stepKeeps_star
    | some name =>
      have plainName : isPlainName name = true := by simpa using plain
      exact stepKeeps_name (isPlainQNameChars_of_isPlainNameChars plainName)
  · exact stepKeeps_addNameTest _

/-- Written as a name, `*` is compiled like the universal selector. -/
theorem typePath_getD (name : Option String) :
    typePath .generic none (some (name.getD "*")) = typePath .generic none name := by
  cases name with
  | none => cbv
  | some name => rfl

/-- A type selector without namespace is compiled to a step that asks for its name along every axis;
the name `*` is asked of no node. Two of them are compiled alike only if their names are the same,
or one is `*` and the other is universal. -/
theorem exists_typeStep (name : Option String) :
    ∃ step, (∀ leading, Selector.xpath .generic leading ⟨.element none name, none⟩ =
        .ok (leading ++ step)) ∧
      (∀ document axis, StepKeeps document axis step (document.admitsName axis (name.getD "*"))) ∧
      ∀ other leading, Selector.xpath .generic leading ⟨.element none name, none⟩ =
        Selector.xpath .generic leading ⟨.element none other, none⟩ ↔
          name.getD "*" = other.getD "*" := by
  refine ⟨_, fun _ => rfl, fun document axis => stepKeeps_typePath document axis name,
    fun other leading => ⟨fun same => ?_, fun same => ?_⟩⟩
  · have texts : (typePath .generic none name).text = (typePath .generic none other).text := by
      have whole : leading ++ (typePath .generic none name).text =
          leading ++ (typePath .generic none other).text := Except.ok.inj same
      simpa using whole
    -- equal texts keep the same nodes in every document, and so admit the same names
    refine Document.admitsName_injective fun document => ?_
    have keeps := stepKeeps_typePath document .child name
    rw [texts] at keeps
    exact keeps.unique (stepKeeps_typePath document .child other)
  · simp only [Selector.xpath, Tree.path, Tree.pathFrom, Origin.attach]
    rw [← typePath_getD name, same, typePath_getD other]

/-- The escaped name `*` is compiled like the universal selector, to a step that leaves an element
`a`. -/
theorem exists_typeStep_star :
    Selector.parse "\\*" = .ok [⟨.element none (some "*"), none⟩] ∧
      cssToXPath "\\*" = .ok "descendant-or-self::*" ∧
      cssToXPath "*" = .ok "descendant-or-self::*" ∧
      (Document.mk "a" .none []).nodeName (.tree [0]) ≠ "*" ∧
      ∃ claim, StepKeeps ⟨"a", .none, []⟩ .descendantOrSelf "*" claim ∧ claim (.tree [0]) = true :=
  ⟨by cbv, by cbv, by cbv, by decide, _, stepKeeps_star, by decide⟩

/-! ### Type selectors wherever they stand -/

/-- The selector is compiled to an expression that, evaluated at the document, selects exactly the
given elements. -/
def Tree.Selects (options : Options) (document : Document) (tree : Tree)
    (Selected : Address → Prop) : Prop :=
  ∃ text term list,
    Selector.xpath options Options.generic.leading ⟨tree, none⟩ = .ok text ∧ Reads text term ∧
      term.eval document ⟨.tree [], 1, 1⟩ = some (.nodes list) ∧
      ∀ node, node ∈ list ↔ ∃ x, node = .tree x ∧ Selected x

/-- What the path of a selector finds is what the selector selects. -/
theorem Tree.selects_of_finds {tree : Tree} {path : LocationPath}
    (compiled : tree.path options = .ok path) {Selected : Address → Prop}
    (finds : path.fromAnywhere.Finds document Selected) :
    tree.Selects options document Selected := by
  obtain ⟨list, eval, mem⟩ := finds.eval
  have valid : path.fromAnywhere.Valid := (Tree.valid_path compiled).valid_fromAnywhere.1
  refine ⟨_, _, list, ?_, Expr.reads valid, eval, mem⟩
  rw [text_fromAnywhere]
  exact Selector.xpath_eq_ok_iff.mpr ⟨rfl, path, compiled, rfl⟩

/-- What a selector selects is found by its path, if it consists of elements. -/
theorem Tree.Selects.exists_finds {tree : Tree} {Selected : Address → Prop}
    (selects : tree.Selects options document Selected)
    (elements : ∀ x, Selected x → document.IsElement x) :
    ∃ path, tree.path options = .ok path ∧ path.fromAnywhere.Finds document Selected := by
  obtain ⟨text, term, list, accepted, reads, eval, mem⟩ := selects
  obtain ⟨_, path, compiled, written⟩ := Selector.xpath_eq_ok_iff.mp accepted
  have valid : path.fromAnywhere.Valid := (Tree.valid_path compiled).valid_fromAnywhere.1
  -- the text is read in one way, so its value is that of the path
  obtain rfl := reads.unique ((path.text_fromAnywhere.trans written.symm) ▸ Expr.reads valid)
  exact ⟨path, compiled, ⟨list, eval, mem⟩, elements⟩

/-- The tree means the elements with one name, alone and where the name is asked for in a condition:
negated, among alternatives, as the very next sibling, and counted among all children. -/
structure Tree.MeansType (options : Options) (tree : Tree) (name : String) : Prop where
  alone : ∀ document : Document,
    tree.Selects options document fun x => document.hasType (some name) x = true
  negated : ∀ base, Tree.AddsCondition options base (.negation base tree) fun document x =>
    ¬ document.hasType (some name) x = true
  alternative : ∀ kind base others claims, List.Forall₂ (Tree.AsksFor options) others claims →
    Tree.AddsCondition options base (.anyOf kind base (tree :: others)) fun document x =>
      document.hasType (some name) x = true ∨ ∃ claim ∈ claims, claim document x
  nextSibling : ∀ (document : Document) left Before, (∀ x, Before x → document.IsElement x) →
    Tree.Selects options document left Before →
      Tree.Selects options document (.combined left .nextSibling tree) fun y =>
        (∃ x, Before x ∧ Combinator.nextSibling.Relates document x y) ∧
          document.hasType (some name) y = true
  counted : ∀ (document : Document) call direction series,
    FunctionCall.Counts call direction .children series →
      Tree.Selects options document (.restricted tree (.function call)) fun x =>
        document.hasType (some name) x = true ∧ document.IsNth none series direction x

/-- A path of one step that tests for a plain name means the elements with that name. -/
theorem Tree.meansType_of_path {tree : Tree} {name : String} (plain : isPlainQName name = true)
    (compiled : tree.path options = .ok (ofTest name)) : tree.MeansType options name := by
  have describes (document : Document) (above : Address → Prop) :
      (ofTest name).DescribesBelow document above (some name) fun x =>
        document.hasType (some name) x = true :=
    @describes_ofTest document above (some name) (by simpa using plain)
  have asks : tree.AsksFor options fun document x => document.hasType (some name) x = true := by
    refine Tree.asksFor_of_describes compiled (fun document => describes document AnyNode) ?_
    refine argumentCondition?_ne_none (.inr (.inr ?_))
    exact beq_false_of_ne (ne_star_of_isPlainQName plain)
  refine ⟨fun document => ?_, fun base => ?_, fun kind base others claims each => ?_,
    fun document left Before elements selects => ?_, fun document call direction series counts => ?_⟩
  · exact Tree.selects_of_finds compiled (describes document document.IsElement).finds
  · exact Tree.addsCondition_negation_of_describes compiled
      (fun document => describes document AnyNode) base
  · have adds := Tree.addsCondition_anyOf_of_asksFor kind base (List.cons_ne_nil tree others)
      (.cons asks each)
    simpa only [List.exists_mem_cons_iff] using adds
  -- the very next sibling is asked for with the name as a condition, which means the same
  · obtain ⟨before, compiledLeft, finds⟩ := selects.exists_finds elements
    have found := finds_connect finds (describes document document.IsElement) before .nextSibling
    have joined : (Tree.combined left .nextSibling tree).path options =
        .ok (connect before .nextSibling (ofTest name)) :=
      pathFrom_combined_eq_ok_iff.mpr ⟨before, _, compiledLeft, compiled, rfl⟩
    refine Tree.selects_of_finds joined ?_
    rwa [fromAnywhere_linked
      (segments_connect (describes document document.IsElement) before .nextSibling)]
  · obtain ⟨restricted, compiledSimple, described⟩ :=
      exists_restrictPosition (describes document document.IsElement) counts.2 (by simp)
    have compiledCall := (Simple.restrict_of_counts counts options (ofTest name)).trans compiledSimple
    have joined : (Tree.restricted tree (.function call)).path options = .ok restricted :=
      pathFrom_restricted_eq_ok_iff.mpr ⟨_, restricted, compiled, compiledCall, rfl⟩
    exact Tree.selects_of_finds joined described.finds

/-! ### Type selectors with a namespace -/

section Plain

variable {ns name : Option String}

/-- Plain names are rendered as a node test. -/
theorem typePath_of_plain (options : Options) (plainNs : ∀ text ∈ ns, isPlainName text = true)
    (plain : ∀ text ∈ name, isPlainName text = true) :
    typePath options ns name = ofTest (typeName options ns name) := by
  have folded : (name.map (Options.foldCase options.lowerCaseElementNames)).all isPlainName =
      true := by
    rw [Option.all_map]
    exact (Option.all_eq_true _ _).mpr fun text member => isPlainName_foldCase _ (plain text member)
  have allNs : ns.all isPlainName = true := (Option.all_eq_true _ _).mpr plainNs
  simp only [typePath, folded, allNs, Bool.and_self, if_true]
  cases ns <;> rfl

theorem isPlainQName_typeName (options : Options) {text : String}
    (plainNs : ∀ text ∈ ns, isPlainName text = true) (plain : isPlainName text = true) :
    isPlainQName (typeName options ns (some text)) = true := by
  have folded := isPlainName_foldCase options.lowerCaseElementNames plain
  cases ns with
  | none => exact isPlainQNameChars_of_isPlainNameChars folded
  | some ns => exact isPlainQName_iff.mpr (.inr ⟨ns, _, plainNs ns rfl, folded, rfl⟩)

end Plain

/-- As a node test, `ns:*` admits an element of the namespace; in a condition it does not. -/
theorem not_stepsAlike_anyIn {ns : String} (plain : isPlainName ns = true) :
    ¬ StepsAlike ⟨ns ++ ":a", .none, []⟩ .child (ofTest (ns ++ ":*")).text
      (ofTest (ns ++ ":*")).addNameTest.text := by
  rintro ⟨claim, direct, widened⟩
  have valid : IsNodeTest (ns ++ ":*") := .inr (.inr ⟨ns, plain, rfl⟩)
  rw [text_ofTest] at direct
  obtain rfl := widened.unique (stepKeeps_addNameTest _)
  have same := congrFun (direct.unique (stepKeeps_test .child valid)) (.tree [0])
  -- the root element has a name with the prefix, but not the name `ns:*`
  have other : ns ++ ":a" ≠ ns ++ ":*" := by
    intro same
    have := congrArg String.toList same
    simp at this
  have star : ns ++ ":*" ≠ "*" := by
    intro same
    have := congrArg (fun text => text.toList.length) same
    simp at this
  have inside : (Document.mk (ns ++ ":a") .none []).passes .child (.anyIn ns) (.tree [0]) = true := by
    have root : (Document.mk (ns ++ ":a") .none []).nodeName (.tree [0]) = ns ++ ":a" := rfl
    have principal : (Document.mk (ns ++ ":a") .none []).isPrincipal .child (.tree [0]) = true := rfl
    simp [Document.passes, root, principal]
  rw [Document.admitsName_root, nodeTest_anyIn plain, inside] at same
  simp [star, other] at same

/-- The name test of a type selector can become a condition if a name is tested for, or any name
without regard to namespaces; then both steps leave the same nodes along every axis, in every
document. A type selector with a name means the elements with that name wherever it stands. -/
theorem stepsAlike_typePath_iff (options : Options) {ns name : Option String}
    (plainNs : ∀ text ∈ ns, isPlainName text = true)
    (plain : ∀ text ∈ name, isPlainName text = true) :
    ((∀ document axis, StepsAlike document axis (typePath options ns name).text
        (typePath options ns name).addNameTest.text) ↔ (name = none → ns = none)) ∧
      (name.isSome → (Tree.element ns name).MeansType options (typeName options ns name)) := by
  rw [typePath_of_plain options plainNs plain]
  refine ⟨⟨fun alike withoutName => ?_, fun single document axis => ?_⟩, fun named => ?_⟩
  · by_contra other
    -- any name in a namespace: one document is enough, with a root that the test `ns:*` admits
    obtain ⟨ns, rfl⟩ := Option.ne_none_iff_exists'.mp other
    have prefixed : typeName options (some ns) none = ns ++ ":*" := by
      simp [typeName, String.append_assoc]
    rw [withoutName, prefixed] at alike
    exact not_stepsAlike_anyIn (plainNs ns rfl) (alike _ _)
  · refine ⟨_, ?_, stepKeeps_addNameTest _⟩
    rw [text_ofTest]
    cases name with
    | none =>
      rw [single rfl]
      exact stepKeeps_star
    | some text => exact stepKeeps_name (isPlainQName_typeName options plainNs (plain text rfl))
  · obtain ⟨text, rfl⟩ := Option.isSome_iff_exists.mp named
    refine Tree.meansType_of_path (isPlainQName_typeName options plainNs (plain text rfl)) ?_
    rw [Tree.path, Tree.pathFrom, Origin.attach, typePath_of_plain options plainNs plain]

/-- The type selector `svg|a` means the elements `svg:a` wherever it stands. -/
theorem stepsAlike_typePath_svg :
    (∀ text ∈ some "svg", isPlainName text = true) ∧ (∀ text ∈ some "a", isPlainName text = true) ∧
      (∀ document axis, StepsAlike document axis (typePath .generic (some "svg") (some "a")).text
        (typePath .generic (some "svg") (some "a")).addNameTest.text) ∧
      (Tree.element (some "svg") (some "a")).MeansType .generic "svg:a" := by
  have plainNs : ∀ text ∈ some "svg", isPlainName text = true := by decide
  have plain : ∀ text ∈ some "a", isPlainName text = true := by decide
  obtain ⟨alike, means⟩ := stepsAlike_typePath_iff .generic plainNs plain
  exact ⟨plainNs, plain, alike.mpr (by simp), means rfl⟩

/-- The type selector `svg|*` selects an element `svg:a`, and its negation does not rule that
out. -/
theorem not_stepsAlike_svg :
    cssToXPath "svg|*" = .ok "descendant-or-self::svg:*" ∧
      cssToXPath ":not(svg|*)" = .ok "descendant-or-self::*[not(name() = 'svg:*')]" ∧
      (typePath .generic (some "svg") none).text = "svg:*" ∧
      (typePath .generic (some "svg") none).addNameTest.text = "*[name() = 'svg:*']" ∧
      ¬ StepsAlike ⟨"svg:a", .none, []⟩ .child "svg:*" "*[name() = 'svg:*']" := by
  have plain : isPlainName "svg" = true := by decide
  have direct : (typePath .generic (some "svg") none).text = "svg:*" := by cbv
  have widened : (typePath .generic (some "svg") none).addNameTest.text = "*[name() = 'svg:*']" := by
    cbv
  exact ⟨by cbv, by cbv, direct, widened, not_stepsAlike_anyIn plain⟩

end Selector

end SelectorPath
