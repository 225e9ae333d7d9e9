import SelectorPath.Proofs.Selector.Alternatives
import SelectorPath.Proofs.Selector.Preservation

/-!
# Arguments are asked for wherever an element stands

The argument of `:not()`, `:is()` and `:where()` becomes one condition on an element that some step
has reached. Without a star the conditions of the argument do not count, and with the name of its
type among them they are that condition. Behind a star they do count, and a membership test counts
again below the parent, whatever the step. So the condition says of every element, at every position
of every step, whether the compound matches it, with its places counted among the children of its
parent. Only if a word in the compound holds a foreign blank does it say so of no element.

## Main definitions

* `Selector.Tree.AddsCondition` — a tree adds one condition, which says when a claim holds
* `Selector.Tree.RestrictsTo` — the same in documents without form feeds
* `Selector.Tree.AsksFor` — as an argument, a tree adds a condition for a claim

## Main results

* `DescribesBelow.asserts_argumentCondition` — the condition of an argument
* `Selector.Tree.argumentCondition?_eq_none` — only the universal selector has none
* `Selector.Tree.exists_argumentCondition` — the condition of a compound, its negation and lists of
  alternatives
-/

namespace SelectorPath

open Text XPath Grammar LocationPath

namespace Selector

/-- Behind any compound `base`, the tree adds one condition, and its text says of the elements of a
document whether the claim holds. -/
def Tree.AddsCondition (options : Options) (base restricted : Tree)
    (Claim : Document → Address → Prop) : Prop :=
  ∀ path, base.path options = .ok path → ∃ condition : Expr,
    restricted.path options = .ok (path.addCondition condition) ∧
      ∀ document, IsConditionFor document condition.text (Claim document)

/-- Behind any compound `base`, the tree adds one condition, and its text says of the elements of a
document without form feeds whether the claim holds. -/
def Tree.RestrictsTo (options : Options) (base restricted : Tree)
    (Claim : Document → Address → Prop) : Prop :=
  ∀ path, base.path options = .ok path → ∃ condition : Expr,
    restricted.path options = .ok (path.addCondition condition) ∧
      ∀ document, document.NoFormFeed → IsConditionFor document condition.text (Claim document)

section AddsCondition

variable {options : Options} {base restricted : Tree} {Claim Other : Document → Address → Prop}

/-- A condition restricts to what it asks for in documents without form feeds. -/
theorem Tree.AddsCondition.restrictsTo (adds : Tree.AddsCondition options base restricted Claim)
    (same : ∀ document, document.NoFormFeed → ∀ x, Claim document x ↔ Other document x) :
    Tree.RestrictsTo options base restricted Other := by
  intro path compiled
  obtain ⟨condition, compiledAlso, asks⟩ := adds path compiled
  exact ⟨condition, compiledAlso, fun document noFeed =>
    (asks document).congr (same document noFeed)⟩

/-- The condition behind a compiled compound asks for one thing. -/
theorem Tree.AddsCondition.unique (adds : Tree.AddsCondition options base restricted Claim)
    (also : Tree.RestrictsTo options base restricted Other) {path : LocationPath}
    (compiled : base.path options = .ok path) {document : Document} (noFeed : document.NoFormFeed)
    {x : Address} (inside : document.IsElement x) : Claim document x ↔ Other document x := by
  obtain ⟨condition, added, asks⟩ := adds path compiled
  obtain ⟨other, addedAlso, asksAlso⟩ := also path compiled
  have same := congrArg LocationPath.conditions (Except.ok.inj (added.symm.trans addedAlso))
  obtain rfl : condition = other := by simpa [addCondition] using same
  exact (asks document).unique (asksAlso document noFeed) inside

end AddsCondition

end Selector

/-! ### The condition of an argument -/

section Argument

variable {document : Document} {path : LocationPath} {type : Option String}
  {Matched : Address → Prop}

theorem argumentCondition?_of_starred (starred : path.starred = true) :
    argumentCondition? path = some path.membership := if_pos starred

theorem argumentCondition?_of_free (free : path.starred = false) :
    argumentCondition? path = path.addNameTest.condition? := if_neg (by simp [free])

/-- There is no condition if nothing counts and nothing is left to ask. -/
theorem eq_nil_of_argumentCondition? (without : argumentCondition? path = none) :
    path.starred = false ∧ path.addNameTest.conditions = [] := by
  cases starred : path.starred with
  | true =>
    rw [argumentCondition?_of_starred starred] at without
    exact nomatch without
  | false =>
    rw [argumentCondition?_of_free starred] at without
    exact ⟨rfl, Expr.eq_nil_of_joinGroups? without⟩

namespace XPath.LocationPath.DescribesBelow

/-- Without a star, the conditions with the name among them say what is matched. -/
theorem forall_holds_addNameTest
    (describes : path.DescribesBelow document AnyNode type Matched)
    (free : path.starred = false) {x : Address} (inside : document.IsElement x)
    {position size : Nat} (positive : 0 < position) :
    (∀ expr ∈ path.addNameTest.conditions, expr.Holds document ⟨.tree x, position, size⟩) ↔
      Matched x := by
  have freeAlso : path.addNameTest.starred = false := by rw [starred_addNameTest, free]
  refine describes.addNameTest.forall_holds_iff freeAlso ?_ positive
  rw [named_addNameTest]
  exact Document.hasType_none.mpr inside

/-- The condition of an argument says of every element whether it is matched, wherever it stands. -/
theorem asserts_argumentCondition
    (describes : path.DescribesBelow document AnyNode type Matched) {condition : Expr}
    (known : argumentCondition? path = some condition) {x : Address}
    (inside : document.IsElement x) (position size : Nat) (positive : 0 < position) :
    condition.Asserts document ⟨.tree x, position, size⟩ (Matched x) := by
  cases starred : path.starred with
  | true =>
    -- counted again below the parent, so the step that reached the element does not matter
    rw [argumentCondition?_of_starred starred] at known
    obtain rfl := Option.some.inj known
    obtain ⟨index, parent, rfl⟩ := inside.exists_parent
    exact asserts_membership_matched describes ⟨index, parent, rfl, trivial⟩ position size
  | false =>
    rw [argumentCondition?_of_free starred] at known
    have decides := describes.addNameTest.decides x inside position size positive
    exact (Expr.asserts_conjunction decides known).congr
      (describes.forall_holds_addNameTest starred inside positive)

/-- Without a condition, every element is matched. -/
theorem matched_of_argumentCondition
    (describes : path.DescribesBelow document AnyNode type Matched)
    (without : argumentCondition? path = none) {x : Address} (inside : document.IsElement x) :
    Matched x := by
  obtain ⟨free, empty⟩ := eq_nil_of_argumentCondition? without
  have holds := @forall_holds_addNameTest _ _ _ _ describes free x inside 1 1 Nat.one_pos
  rw [empty] at holds
  exact holds.mp (by simp)

/-- The negation of an argument says of every element that it is not matched. -/
theorem asserts_negationCondition
    (describes : path.DescribesBelow document AnyNode type Matched) {x : Address}
    (inside : document.IsElement x) (position size : Nat) (positive : 0 < position) :
    (negationCondition path).Asserts document ⟨.tree x, position, size⟩ (¬ Matched x) := by
  unfold negationCondition
  split
  · rename_i condition known
    exact (describes.asserts_argumentCondition known inside position size positive).not
  · rename_i none
    have matched := describes.matched_of_argumentCondition none inside
    exact (Expr.asserts_zero positive).congr (iff_of_false id (not_not_intro matched))

end XPath.LocationPath.DescribesBelow

/-- What is behind a star, has conditions or asks for a name has a condition as an argument. -/
theorem argumentCondition?_ne_none
    (restricted : path.starred = true ∨ path.conditions ≠ [] ∨ path.isWildcard = false) :
    argumentCondition? path ≠ none := by
  intro without
  obtain ⟨free, empty⟩ := eq_nil_of_argumentCondition? without
  unfold addNameTest at empty
  cases wildcard : path.isWildcard with
  | true => simp_all
  | false => simp [wildcard, free] at empty

end Argument

namespace Selector

variable {options : Options} {tree : Tree}

/-! ### Universal arguments -/

/-- A describable simple selector adds a condition or a star. -/
theorem Simple.isRestricted_of_restrict {simple : Simple} {type : Option String}
    {path restricted : LocationPath} (describable : simple.IsDescribable type)
    (compiled : simple.restrict options path = .ok restricted) :
    restricted.starred = true ∨ restricted.conditions ≠ [] := by
  match simple, describable, compiled with
  | .className _, _, rfl | .id _, _, rfl | .attribute _, _, rfl =>
    exact .inr (by simp [addCondition])
  | .function call, ⟨direction, counting, series, counts, _⟩, compiled =>
    rw [restrict_of_counts counts] at compiled
    exact .inl (starred_restrictPosition compiled)

/-- As an argument, only the universal selector has no condition. -/
theorem Tree.argumentCondition?_eq_none (describable : tree.IsDescribable) {path : LocationPath}
    (compiled : tree.path options = .ok path) (without : argumentCondition? path = none) :
    tree = .universal := by
  by_contra other
  -- any other compound asks for a name or has been restricted
  refine argumentCondition?_ne_none ?_ without
  match tree, describable, compiled with
  | .restricted base simple, ⟨_, describable⟩, compiled =>
    obtain ⟨before, restricted, -, compiledSimple, rfl⟩ := pathFrom_restricted_eq_ok_iff.mp compiled
    exact (Simple.isRestricted_of_restrict describable compiledSimple).imp_right .inl
  | .element _ (some name), ⟨rfl, plain⟩, compiled =>
    obtain rfl := Except.ok.inj compiled
    have plainName := isPlainName_foldCase options.lowerCaseElementNames (plain name rfl)
    have star : Options.foldCase options.lowerCaseElementNames name ≠ "*" := by
      intro star
      rw [star] at plainName
      exact absurd plainName (by decide +kernel)
    refine .inr (.inr ?_)
    simp [Origin.attach, typePath, plainName, isWildcard, ofTest, star]
  | .element _ none, ⟨rfl, _⟩, _ => exact absurd rfl other

/-! ### Arguments of compounds -/

/-- A describable compound is compiled to one path, which describes it in every document and below
any nodes. -/
theorem Tree.exists_path_describesBelow (options : Options) (describable : tree.IsDescribable) :
    ∃ path, tree.path options = .ok path ∧ ∀ document above, path.DescribesBelow document above
      (tree.type?.map (Options.foldCase options.lowerCaseElementNames))
      (tree.Fits options document above) := by
  -- any document will do to compile it
  obtain ⟨path, compiled, -⟩ :=
    tree.exists_describesBelow options ⟨"", .none, []⟩ AnyNode describable
  refine ⟨path, compiled, fun document above => ?_⟩
  obtain ⟨also, compiledAlso, describes⟩ :=
    tree.exists_describesBelow options document above describable
  obtain rfl := Except.ok.inj (compiled.symm.trans compiledAlso)
  exact describes

/-- As an argument the tree adds a condition, which says of every element whether the claim
holds. -/
def Tree.AsksFor (options : Options) (tree : Tree) (Claim : Document → Address → Prop) : Prop :=
  ∃ condition, tree.IsArgument options condition ∧ condition.Valid ∧
    ∀ document x, document.IsElement x → ∀ position size, 0 < position →
      condition.Asserts document ⟨.tree x, position, size⟩ (Claim document x)

/-- What a path describes is what its condition asks for, if it has one. -/
theorem Tree.asksFor_of_describes {path : LocationPath} (compiled : tree.path options = .ok path)
    {type : Option String} {Claim : Document → Address → Prop}
    (describes : ∀ document, path.DescribesBelow document AnyNode type (Claim document))
    (asks : argumentCondition? path ≠ none) : tree.AsksFor options Claim := by
  obtain ⟨condition, known⟩ := Option.ne_none_iff_exists'.mp asks
  refine ⟨condition, ⟨path, compiled, by rw [known]; rfl⟩,
    valid_argumentCondition (Tree.valid_path compiled) condition known,
    fun document x inside => ?_⟩
  exact (describes document).asserts_argumentCondition known inside

/-- A compound other than the universal one asks for what it fits. -/
theorem Tree.IsDescribable.asksFor (options : Options) (describable : tree.IsDescribable)
    (other : tree ≠ .universal) :
    tree.AsksFor options fun document => tree.Fits options document AnyNode := by
  obtain ⟨path, compiled, describes⟩ := Tree.exists_path_describesBelow options describable
  refine Tree.asksFor_of_describes compiled (fun document => describes document AnyNode) ?_
  exact fun none => other (Tree.argumentCondition?_eq_none describable compiled none)

/-- The conditions of several arguments. -/
theorem Tree.exists_conditions_assert {arguments : List Tree}
    {claims : List (Document → Address → Prop)}
    (each : List.Forall₂ (Tree.AsksFor options) arguments claims) :
    ∃ conditions, List.Forall₂ (Tree.IsArgument options) arguments conditions ∧
      (∀ condition ∈ conditions, condition.Valid) ∧
      ∀ document x, document.IsElement x → ∀ position size, 0 < position →
        (∀ condition ∈ conditions, condition.Decides document ⟨.tree x, position, size⟩) ∧
        ((∃ condition ∈ conditions, condition.Holds document ⟨.tree x, position, size⟩) ↔
          ∃ claim ∈ claims, claim document x) := by
  induction each with
  | nil => exact ⟨[], .nil, by simp, by simp⟩
  | cons first _ ih =>
    obtain ⟨condition, isArgument, valid, asserts⟩ := first
    obtain ⟨conditions, compiled, allValid, others⟩ := ih
    refine ⟨condition :: conditions, .cons isArgument compiled,
      List.forall_mem_cons.mpr ⟨valid, allValid⟩,
      fun document x inside position size positive => ?_⟩
    have here := asserts document x inside position size positive
    obtain ⟨decides, holds⟩ := others document x inside position size positive
    refine ⟨List.forall_mem_cons.mpr ⟨here.decides, decides⟩, ?_⟩
    rw [List.exists_mem_cons_iff, List.exists_mem_cons_iff, here.holds, holds]

/-- Negating what a path describes adds the condition that it does not hold. -/
theorem Tree.addsCondition_negation_of_describes {path : LocationPath}
    (compiled : tree.path options = .ok path) {type : Option String}
    {Claim : Document → Address → Prop}
    (describes : ∀ document, path.DescribesBelow document AnyNode type (Claim document))
    (base : Tree) :
    Tree.AddsCondition options base (.negation base tree) fun document x => ¬ Claim document x := by
  intro before compiledBase
  have negated : (Tree.negation base tree).path options =
      .ok (before.addCondition (negationCondition path)) :=
    pathFrom_negation_eq_ok_iff.mpr ⟨before, path, compiledBase, compiled, rfl⟩
  refine ⟨negationCondition path, negated, fun document => ?_⟩
  exact Expr.isConditionFor (valid_negationCondition (Tree.valid_path compiled))
    fun x inside => (describes document).asserts_negationCondition inside

/-- Alternatives add the condition that holds where one of their claims does. -/
theorem Tree.addsCondition_anyOf_of_asksFor (kind : Alternation) (base : Tree)
    {arguments : List Tree} (nonempty : arguments ≠ [])
    {claims : List (Document → Address → Prop)}
    (each : List.Forall₂ (Tree.AsksFor options) arguments claims) :
    Tree.AddsCondition options base (.anyOf kind base arguments) fun document x =>
      ∃ claim ∈ claims, claim document x := by
  intro before compiledBase
  obtain ⟨conditions, compiled, valid, asserts⟩ := Tree.exists_conditions_assert each
  cases joined : Expr.disjunction? conditions with
  | none =>
    obtain rfl := Expr.eq_nil_of_joinGroups? joined
    exact absurd (List.forall₂_nil_right_iff.mp compiled) nonempty
  | some condition =>
    refine ⟨condition,
      Tree.path_anyOf_eq_ok_iff.mpr ⟨before, conditions, compiledBase, compiled, ?_⟩,
      fun document => Expr.isConditionFor (Expr.valid_disjunction valid condition joined) ?_⟩
    · rw [addAlternatives, joined]
    · intro x inside position size positive
      obtain ⟨decides, holds⟩ := asserts document x inside position size positive
      exact (Expr.asserts_disjunction decides joined).congr holds

/-- Negating a compound adds the condition that it does not fit. -/
theorem Tree.addsCondition_negation (options : Options) (describable : tree.IsDescribable)
    (base : Tree) :
    Tree.AddsCondition options base (.negation base tree) fun document x =>
      ¬ tree.Fits options document AnyNode x := by
  obtain ⟨path, compiled, describes⟩ := Tree.exists_path_describesBelow options describable
  exact Tree.addsCondition_negation_of_describes compiled
    (fun document => describes document AnyNode) base

/-- Alternatives, none of them universal, add the condition that one of them fits. -/
theorem Tree.addsCondition_anyOf (options : Options) (kind : Alternation) (base : Tree)
    {arguments : List Tree} (nonempty : arguments ≠ [])
    (each : ∀ argument ∈ arguments, argument.IsDescribable ∧ argument ≠ .universal) :
    Tree.AddsCondition options base (.anyOf kind base arguments) fun document x =>
      ∃ argument ∈ arguments, argument.Fits options document AnyNode x := by
  have asks : List.Forall₂ (Tree.AsksFor options) arguments
      (arguments.map fun argument document => argument.Fits options document AnyNode) :=
    List.forall₂_map_right_iff.mpr <| List.forall₂_same.mpr fun argument member =>
      (each argument member).1.asksFor options (each argument member).2
  have adds := Tree.addsCondition_anyOf_of_asksFor kind base nonempty asks
  simpa only [List.mem_map, exists_exists_and_eq_and] using adds

theorem Tree.matchesBelow_universal {document : Document} {above : Address → Prop} {x : Address}
    (inside : document.IsElement x) :
    Tree.universal.MatchesBelow options document above x :=
  ⟨rfl, Document.hasType_none.mpr inside⟩

/-- A describable compound is compiled, and as an argument it has a condition unless it matches
every element. The condition says of every element, at every position of every step, whether the
compound matches it, but of none if a word in the compound holds a foreign blank. So `:not()` adds a
condition that holds where the compound does not match, and `:is()` and `:where()` one that holds
where some argument does, if none of them is universal, and an argument with such a word counts as
matching nothing. -/
theorem Tree.exists_argumentCondition (options : Options) (describable : tree.IsDescribable) :
    (∃ path, tree.path options = .ok path ∧
      (argumentCondition? path = none → ∀ document x, document.IsElement x →
        tree.MatchesBelow options document AnyNode x) ∧
      ∀ condition, argumentCondition? path = some condition → ∀ document, document.NoFormFeed →
        IsConditionFor document condition.text fun x =>
          ¬ tree.HoldsForeignWord options ∧ tree.MatchesBelow options document AnyNode x) ∧
    (∀ base, Tree.RestrictsTo options base (.negation base tree) fun document x =>
      ¬ (¬ tree.HoldsForeignWord options ∧ tree.MatchesBelow options document AnyNode x)) ∧
    ∀ kind base others,
      (∀ argument ∈ tree :: others, argument.IsDescribable ∧ argument ≠ .universal) →
        Tree.RestrictsTo options base (.anyOf kind base (tree :: others)) fun document x =>
          ∃ argument ∈ tree :: others, ¬ argument.HoldsForeignWord options ∧
            argument.MatchesBelow options document AnyNode x := by
  refine ⟨?_, fun base => ?_, fun kind base others each => ?_⟩
  · -- one path describes the compound in every document, below any node
    obtain ⟨path, compiled, describes⟩ := Tree.exists_path_describesBelow options describable
    refine ⟨path, compiled, fun without document x inside => ?_,
      fun condition known document noFeed => ?_⟩
    · obtain rfl := Tree.argumentCondition?_eq_none describable compiled without
      exact Tree.matchesBelow_universal inside
    · have fits : IsConditionFor document condition.text (tree.Fits options document AnyNode) :=
        Expr.isConditionFor (valid_argumentCondition (Tree.valid_path compiled) condition known)
          fun x inside => (describes document AnyNode).asserts_argumentCondition known inside
      exact fits.congr fun x => tree.fits_iff_matchesBelow noFeed x
  · exact (Tree.addsCondition_negation options describable base).restrictsTo
      fun document noFeed x => not_congr (tree.fits_iff_matchesBelow noFeed x)
  · have adds := Tree.addsCondition_anyOf options kind base (List.cons_ne_nil tree others) each
    refine adds.restrictsTo fun document noFeed x => exists_congr fun argument => ?_
    exact and_congr_right fun _ => argument.fits_iff_matchesBelow noFeed x

/-- `b:nth-of-type(2)` counts again below the parent. -/
theorem Tree.exists_argumentCondition_second :
    let tree : Tree := .restricted (.element none (some "b"))
      (.function ⟨"nth-of-type", [⟨.number, "2", 14⟩]⟩)
    tree.IsDescribable ∧ ¬ tree.HoldsForeignWord .generic ∧
      ∃ path condition, tree.path .generic = .ok path ∧
        argumentCondition? path = some condition ∧
        condition.text = "count(. | ../b[position() = 2]) = count(../b[position() = 2])" ∧
        ∀ document, document.NoFormFeed → IsConditionFor document condition.text fun x =>
          ¬ tree.HoldsForeignWord .generic ∧ tree.MatchesBelow .generic document AnyNode x := by
  intro tree
  have counts : FunctionCall.Counts ⟨"nth-of-type", [⟨.number, "2", 14⟩]⟩ .fromStart .sameType
      (.index 2) := ⟨⟨.nthOfType, by decide +kernel, rfl⟩, by cbv⟩
  have describable : tree.IsDescribable :=
    ⟨⟨rfl, by decide +kernel⟩, _, _, _, counts, fun _ => rfl⟩
  have known : ¬ tree.HoldsForeignWord .generic := not_or.mpr ⟨not_false, not_false⟩
  obtain ⟨⟨path, compiled, -, asserts⟩, -⟩ := Tree.exists_argumentCondition .generic describable
  have text : ((tree.path .generic).toOption.bind argumentCondition?).map Expr.text =
      some "count(. | ../b[position() = 2]) = count(../b[position() = 2])" := by cbv
  rw [compiled] at text
  obtain ⟨condition, isCondition, text⟩ := Option.map_eq_some_iff.mp text
  exact ⟨describable, known, path, condition, compiled, isCondition, text,
    asserts condition isCondition⟩

/-- A class with a no-break space is matched by an element that has it, and the negation of the
class does not exclude the element. -/
theorem Tree.not_restrictsTo_negation_nbsp :
    let tree : Tree := .restricted .universal (.className "a\u00a0b")
    let document := Condition.documentOf "class" "a\u00a0b"
    tree.IsDescribable ∧ document.NoFormFeed ∧ tree.Matches document [0] ∧
      (Selector.mk (.negation .universal tree) none).xpath .generic "" = .ok "*[not(0)]" ∧
      ¬ Tree.RestrictsTo .generic .universal (.negation .universal tree) fun document x =>
        ¬ tree.MatchesBelow .generic document AnyNode x := by
  intro tree document
  have describable : tree.IsDescribable := ⟨⟨rfl, by simp⟩, trivial⟩
  have noFeed : document.NoFormFeed := Document.forall_value_of_addresses (by decide +kernel)
  have root : document.IsElement [0] := rfl
  have universal : Tree.universal.MatchesBelow .generic document AnyNode [0] :=
    Tree.matchesBelow_universal root
  have accepts : AttributeOperator.includes.Accepts "a\u00a0b" (document.value? [0] "class") :=
    ⟨_, Condition.value?_documentOf _ _, holdsForeignBlank_nbsp.isCssWord.mem_words⟩
  refine ⟨describable, noFeed, ⟨⟨rfl, universal.2, by simp⟩, accepts⟩, by cbv, fun restricts => ?_⟩
  have adds := Tree.addsCondition_negation .generic describable .universal
  refine (adds.unique restricts rfl noFeed root).mp (fun fits => ?_) ⟨universal, accepts⟩
  exact ((tree.fits_iff_matchesBelow noFeed [0]).mp fits).1 (.inr holdsForeignBlank_nbsp)

end Selector

end SelectorPath
