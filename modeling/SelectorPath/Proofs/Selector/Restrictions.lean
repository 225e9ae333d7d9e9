import SelectorPath.Proofs.Selector.Preservation

/-!
# Restrictions in any order

A step is restricted by conditions that do not count and by places in series, one after the other.
What a restriction does to the step depends on those in front of it. Places among all children make
the step admit every element, and then the name is asked for in a condition, or all conditions so
far become one membership test. Places among the children of the type are a condition of the step as
long as it asks for the name, and a membership test after that. A series of all places adds no
condition.

What the step selects does not depend on any of this. It is each child with the name of the type
that every restriction admits on its own. So the order of the restrictions does not matter.

## Main definitions

* `Restriction`, `LocationPath.restrictAll` — restrictions of a step, one after the other
* `Restriction.Admits`, `IsSelected` — the elements that are left
* `LocationPath.SelectsChildren` — what the text of a step finds among the children of a node

## Main results

* `Restriction.exists_apply` — one restriction leaves what it admits
* `LocationPath.exists_restrictAll` — so do several
* `LocationPath.exists_selectsChildren_perm` — in any order they select the same children
-/

namespace SelectorPath

open Text XPath Grammar LocationPath

variable {document : Document}

/-! ### Conditions that depend on the node alone -/

/-- The condition can be written, and says the same of an element wherever it stands in a step. -/
structure XPath.Expr.IsNodeCondition (document : Document) (condition : Expr) : Prop where
  valid : condition.Valid
  asserts : ∀ x, document.IsElement x → ∀ position size, 0 < position →
    condition.Asserts document ⟨.tree x, position, size⟩ (condition.Holds document ⟨.tree x, 1, 1⟩)

/-- What asserts a claim about the element depends on the element alone. -/
theorem XPath.Expr.isNodeCondition_of_asserts {condition : Expr} (valid : condition.Valid)
    {Claim : Address → Prop}
    (asserts : ∀ x, document.IsElement x → ∀ position size, 0 < position →
      condition.Asserts document ⟨.tree x, position, size⟩ (Claim x)) :
    condition.IsNodeCondition document where
  valid := valid
  asserts x inside position size positive :=
    (asserts x inside position size positive).congr (asserts x inside 1 1 Nat.one_pos).holds.symm

/-! ### Restrictions -/

/-- A restriction of a step: a condition, or a call whose argument is a series. The call asks for
the places of the series, counted from an end among all children or among those of the type. -/
inductive Restriction
  | condition (condition : Expr)
  | places (direction : Direction) (counting : Counting) (call : FunctionCall) (series : Series)
      (parsed : Series.parse call.arguments = .ok series)

namespace Restriction

/-- The path whose last step is restricted. -/
def apply (path : LocationPath) : Restriction → Except CompileError LocationPath
  | .condition expr => .ok (path.addCondition expr)
  | .places direction counting call _ _ =>
    FunctionalClass.restrictPosition path call direction counting

/-- The restriction asks for places. -/
def IsPositional : Restriction → Prop
  | .condition _ => False
  | .places .. => True

/-- The condition depends on the node alone, and places are counted among the children of the type
only if there is a type. -/
def IsAdmissible (document : Document) (type : Option String) : Restriction → Prop
  | .condition expr => expr.IsNodeCondition document
  | .places _ counting _ _ _ => counting = .sameType → type.isSome

/-- The restriction admits an element, whatever node its parent is. -/
def Admits (document : Document) (x : Address) : Restriction → Prop
  | .condition expr => expr.Holds document ⟨.tree x, 1, 1⟩
  | .places direction counting _ series _ =>
    document.IsNthBelow AnyNode (counting.type document x) series direction x

end Restriction

/-- The element has the type, and all restrictions admit it. -/
def IsSelected (document : Document) (type : Option String) (restrictions : List Restriction)
    (x : Address) : Prop :=
  document.hasType type x = true ∧ ∀ restriction ∈ restrictions, restriction.Admits document x

namespace XPath.LocationPath

/-- The path with several restrictions, one after the other. -/
def restrictAll (path : LocationPath) (restrictions : List Restriction) :
    Except CompileError LocationPath :=
  restrictions.foldlM Restriction.apply path

/-- The text of the last step, as a step from any node, finds the children that are selected. -/
def SelectsChildren (document : Document) (path : LocationPath) (Selected : Address → Prop) : Prop :=
  ∃ term, Reads (stepText path.test path.condition?) term ∧ ∀ parent position size,
    ∃ list, term.eval document ⟨.tree parent, position, size⟩ = some (.nodes list) ∧
      ∀ node, node ∈ list ↔ ∃ index, node = .tree (index :: parent) ∧ Selected (index :: parent)

end XPath.LocationPath

/-! ### One restriction -/

section Restrict

variable {path : LocationPath} {type : Option String} {Matched : Address → Prop}

theorem FunctionalClass.exists_counting (direction : Direction) (counting : Counting) :
    ∃ function : FunctionalClass, function.counting? = some (direction, counting) := by
  cases direction <;> cases counting
  · exact ⟨.nthChild, rfl⟩
  · exact ⟨.nthOfType, rfl⟩
  · exact ⟨.nthLastChild, rfl⟩
  · exact ⟨.nthLastOfType, rfl⟩

theorem FunctionalClass.valid_restrictPosition {call : FunctionCall} {direction : Direction}
    {counting : Counting} {restricted : LocationPath} (valid : path.Valid)
    (compiled : restrictPosition path call direction counting = .ok restricted) :
    restricted.Valid := by
  obtain ⟨function, counted⟩ := exists_counting direction counting
  exact valid_restrict valid ((restrict_of_counting counted .generic path call).trans compiled)

/-- What a path is when it has been restricted: it can be written, its last step describes what is
matched, and the step stands behind a star if one of the restrictions asks for places. -/
structure XPath.LocationPath.IsRestricted (document : Document) (path : LocationPath)
    (type : Option String) (Positional : Prop) (Matched : Address → Prop) : Prop where
  valid : path.Valid
  describes : path.DescribesBelow document AnyNode type Matched
  starred : Positional → path.starred = true

/-- An admissible restriction leaves what it admits. -/
theorem Restriction.exists_apply {Positional : Prop}
    (restricted : path.IsRestricted document type Positional Matched) {restriction : Restriction}
    (admissible : restriction.IsAdmissible document type) :
    ∃ further, restriction.apply path = .ok further ∧
      further.IsRestricted document type (Positional ∨ restriction.IsPositional) fun x =>
        Matched x ∧ restriction.Admits document x := by
  cases restriction with
  | condition expr =>
    exact ⟨_, rfl, restricted.valid.addCondition admissible.valid,
      restricted.describes.addCondition admissible.asserts, fun positional =>
        restricted.starred (positional.resolve_right id)⟩
  | places direction counting call series parsed =>
    obtain ⟨further, compiled, describes⟩ :=
      Selector.exists_restrictPosition restricted.describes parsed admissible
    exact ⟨further, compiled, FunctionalClass.valid_restrictPosition restricted.valid compiled,
      describes, fun _ => starred_restrictPosition compiled⟩

/-! ### Several restrictions -/

namespace XPath.LocationPath

/-- Admissible restrictions, one after the other, leave what they all admit. -/
theorem exists_restrictAll {Positional : Prop}
    (restricted : path.IsRestricted document type Positional Matched)
    {restrictions : List Restriction}
    (admissible : ∀ restriction ∈ restrictions, restriction.IsAdmissible document type) :
    ∃ further, path.restrictAll restrictions = .ok further ∧
      further.IsRestricted document type
        (Positional ∨ ∃ restriction ∈ restrictions, restriction.IsPositional) fun x =>
          Matched x ∧ ∀ restriction ∈ restrictions, restriction.Admits document x := by
  -- what has been admitted so far is part of the invariant, so all of it is generalized
  induction restrictions generalizing path Positional Matched with
  | nil => exact ⟨path, rfl, by simpa using restricted⟩
  | cons first rest ih =>
    rw [List.forall_mem_cons] at admissible
    obtain ⟨next, applied, restrictedNext⟩ := first.exists_apply restricted admissible.1
    obtain ⟨further, appliedRest, restrictedRest⟩ := ih restrictedNext admissible.2
    refine ⟨further, ?_, ?_⟩
    · rw [restrictAll, List.foldlM_cons, applied]
      exact appliedRest
    · simp only [List.forall_mem_cons, List.exists_mem_cons_iff]
      simpa only [and_assoc, or_assoc] using restrictedRest

/-- A path that describes what is matched selects it among the children of any node. -/
theorem IsRestricted.selectsChildren {Positional : Prop}
    (restricted : path.IsRestricted document type Positional Matched) :
    path.SelectsChildren document Matched := by
  have valid : (Expr.step .child path.test (predicates path.condition?)).Valid :=
    ⟨restricted.valid.test, restricted.valid.predicates⟩
  refine ⟨_, Expr.reads valid, fun parent position size => ?_⟩
  obtain ⟨list, eval, mem⟩ := exists_eval_step ⟨.tree parent, position, size⟩ .child
    (restricted.describes.decided_child parent)
  refine ⟨list, eval, fun node => (mem node).trans ?_⟩
  refine (restricted.describes.selects_child_iff trivial node).trans ?_
  constructor
  · rintro ⟨_, rfl, ⟨index, rfl⟩, matched⟩
    exact ⟨index, rfl, matched⟩
  · rintro ⟨index, rfl, matched⟩
    exact ⟨_, rfl, ⟨index, rfl⟩, matched⟩

/-- The path of a type that has been restricted, at least once by places. Behind a star, its last
step selects the children that have the type and that all restrictions admit. -/
theorem exists_selectsChildren (plain : ∀ name ∈ type, isPlainName name = true)
    {restrictions : List Restriction}
    (admissible : ∀ restriction ∈ restrictions, restriction.IsAdmissible document type)
    (positional : ∃ restriction ∈ restrictions, restriction.IsPositional) :
    ∃ path, (ofTest (type.getD "*")).restrictAll restrictions = .ok path ∧
      path.text = "*/" ++ stepText path.test path.condition? ∧
      path.SelectsChildren document (IsSelected document type restrictions) := by
  have test : IsNodeTest (type.getD "*") := by
    cases type with
    | none => exact .star
    | some name => exact .of_plain (plain name rfl)
  -- no restriction has asked for places yet
  have start : (ofTest (type.getD "*")).IsRestricted document type False fun x =>
      document.hasType type x = true :=
    ⟨valid_ofTest test, Selector.describes_ofTest fun name member =>
      isPlainQNameChars_of_isPlainNameChars (plain name member), False.elim⟩
  obtain ⟨path, applied, restricted⟩ := exists_restrictAll start admissible
  refine ⟨path, applied, ?_, restricted.selectsChildren⟩
  have starred := restricted.starred (.inr positional)
  obtain ⟨free, -⟩ | ⟨-, segments, -⟩ := restricted.describes.step
  · rw [starred] at free
    exact absurd free (by decide)
  · rw [text, segments, segmentsText_star]

/-- Restrictions of a type, at least one of them by places, select the same children in any order:
those that have the type and that all of them admit. -/
theorem exists_selectsChildren_perm (plain : ∀ name ∈ type, isPlainName name = true)
    {restrictions : List Restriction}
    (admissible : ∀ restriction ∈ restrictions, restriction.IsAdmissible document type)
    (positional : ∃ restriction ∈ restrictions, restriction.IsPositional) :
    (∃ path, (ofTest (type.getD "*")).restrictAll restrictions = .ok path ∧
      path.text = "*/" ++ stepText path.test path.condition? ∧
      path.SelectsChildren document (IsSelected document type restrictions)) ∧
    ∀ others, restrictions.Perm others →
      ∃ path, (ofTest (type.getD "*")).restrictAll others = .ok path ∧
        path.text = "*/" ++ stepText path.test path.condition? ∧
        path.SelectsChildren document (IsSelected document type restrictions) := by
  refine ⟨exists_selectsChildren plain admissible positional, fun others perm => ?_⟩
  have same : IsSelected document type others = IsSelected document type restrictions := by
    funext x
    -- of the restrictions, only which ones there are is asked
    simp only [IsSelected, perm.mem_iff]
  rw [← same]
  refine exists_selectsChildren plain (fun restriction inside => ?_) ?_
  · exact admissible restriction (perm.mem_iff.mpr inside)
  · obtain ⟨restriction, inside, asks⟩ := positional
    exact ⟨restriction, perm.mem_iff.mp inside, asks⟩

/-- The second `b`, from the end at an odd place, by its id: in this order and backwards. -/
theorem exists_selectsChildren_perm_backwards :
    let document : Document := ⟨"a", .none, [.element "b" .none [], .element "c" .none [],
      .element "b" ⟨[("id", "x")], by decide⟩ []]⟩
    let second : Restriction := .places .fromStart .sameType
      ⟨"nth-of-type", [⟨.number, "2", 14⟩]⟩ (.index 2) (by cbv)
    let odd : Restriction := .places .fromEnd .children
      ⟨"nth-last-child", [⟨.ident, "odd", 32⟩]⟩ .odd (by cbv)
    let named : Restriction := .condition (Condition.ofId .generic "x")
    (∀ restriction ∈ [second, odd, named], restriction.IsAdmissible document (some "b")) ∧
      (∃ restriction ∈ [second, odd, named], restriction.IsPositional) ∧
      ∃ path, (ofTest "b").restrictAll [named, odd, second] = .ok path ∧
        path.text = "*/" ++ stepText path.test path.condition? ∧
        path.SelectsChildren document (IsSelected document (some "b") [second, odd, named]) := by
  intro document second odd named
  have admissible : ∀ restriction ∈ [second, odd, named],
      restriction.IsAdmissible document (some "b") := by
    have condition : (Condition.ofId .generic "x").IsNodeCondition document :=
      Expr.isNodeCondition_of_asserts (Condition.valid_ofId .generic "x")
        fun x _ position size _ => Condition.asserts_ofId .generic "x"
    simp only [List.forall_mem_cons]
    exact ⟨fun _ => rfl, fun _ => rfl, condition, by simp⟩
  have positional : ∃ restriction ∈ [second, odd, named], restriction.IsPositional :=
    ⟨second, List.mem_cons_self, trivial⟩
  have plain : ∀ name ∈ some "b", isPlainName name = true := by decide +kernel
  obtain ⟨-, anyOrder⟩ := exists_selectsChildren_perm plain admissible positional
  exact ⟨admissible, positional, anyOrder _ (List.reverse_perm _).symm⟩

end XPath.LocationPath

end Restrict

end SelectorPath
