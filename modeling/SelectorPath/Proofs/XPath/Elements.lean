import SelectorPath.Proofs.XPath.Selection

/-!
# Steps between elements

What the steps of a path select in a document: the children of a node, the elements at or below it,
and its later siblings. The place of a child among those its step admits is what conditions on
positions ask for, and a membership test asks for the same from any other place.

## Main definitions

* `IsTest` — a node test admits the elements of one name, or all of them

## Main results

* `selects_child` — what a child step selects
* `LocationPath.asserts_membership` — a membership test asks whether the child step selects the node
* `selects_first` — the condition of being the first one
-/

namespace SelectorPath.XPath

open Grammar

variable {document : Document} {context : Context} {named : Option String} {test : String}

/-- The node test admits the elements with the given name, or all elements. -/
def IsTest (named : Option String) (test : String) : Prop :=
  test = named.getD "*" ∧ ∀ name ∈ named, isPlainQName name = true

theorem IsTest.star : IsTest none "*" := ⟨rfl, by simp⟩

/-! ### Node tests -/

/-- Off the attribute axis a node test admits the elements with its name. -/
theorem passes_iff (isTest : IsTest named test) {axis : Grammar.Axis} (elements : axis ≠ .attribute)
    (address : Address) :
    document.passes axis (nodeTest test) (.tree address) = document.hasType named address := by
  obtain ⟨rfl, plain⟩ := isTest
  rw [Bool.eq_iff_iff]
  cases named with
  | none =>
    rw [Option.getD_none, nodeTest_star, Document.hasType_none]
    simp [Document.passes, Document.isPrincipal, elements, Document.IsElement]
  | some name =>
    rw [Option.getD_some, nodeTest_qualified (plain name rfl), Document.hasType_some]
    cases known : document.name? address <;>
      simp [Document.passes, Document.isPrincipal, elements, Document.nodeName, known]

/-- A step along an axis of elements selects those with the name of its test. -/
theorem select_of_along (isTest : IsTest named test) {axis : Axis} (elements : axis ≠ .attribute)
    {start : Node} {addresses : List Address}
    (along : document.along axis.standard start = some (addresses.map .tree)) :
    document.select axis.standard (nodeTest test) start =
      some ((addresses.filter (document.hasType named)).map .tree) := by
  have standard : axis.standard ≠ .attribute := by cases axis <;> simp_all [Axis.standard]
  rw [Document.select, along, Option.map_some, List.filter_map]
  refine congrArg (fun list => some (List.map Node.tree list)) (List.filter_congr ?_)
  intro address _
  exact passes_iff isTest standard address

/-! ### Children -/

theorem select_child (isTest : IsTest named test) (parent : Address) :
    document.select .child (nodeTest test) (.tree parent) =
      some ((document.elements named parent).map .tree) :=
  @select_of_along _ _ _ isTest .child (by simp) _ _ rfl

/-- A child step selects the elements at whose place among its nodes all conditions hold. -/
theorem selects_child (isTest : IsTest named test) {conditions : List Expr} {parent : Address}
    {node : Node} :
    Selects document .child test conditions (.tree parent) node ↔
      ∃ index address, node = .tree address ∧
        (document.elements named parent)[index]? = some address ∧
        ∀ expr ∈ conditions, expr.Holds document
          ⟨.tree address, index + 1, (document.elements named parent).length⟩ := by
  have select := @select_child document _ _ isTest parent
  constructor
  · rintro ⟨nodes, index, selectAlso, found, holds⟩
    obtain rfl := Option.some.inj (select.symm.trans selectAlso)
    rw [List.getElem?_map, Option.map_eq_some_iff] at found
    obtain ⟨address, found, rfl⟩ := found
    rw [HoldAt, List.length_map] at holds
    exact ⟨index, address, rfl, found, holds⟩
  · rintro ⟨index, address, rfl, found, holds⟩
    refine ⟨_, index, select, by rw [List.getElem?_map, found]; rfl, ?_⟩
    rwa [HoldAt, List.length_map]

/-! ### Membership -/

theorem eval_parent (index : Nat) (parent : Address) (position size : Nat) :
    Expr.parent.eval document ⟨.tree (index :: parent), position, size⟩ =
      some (.nodes [.tree parent]) := rfl

/-- Nodes do not become more by one that is among them, and become more by any other. -/
theorem length_dedup_cons {node : Node} {list : List Node} :
    (node :: list).dedup.length = list.dedup.length ↔ node ∈ list := by
  by_cases member : node ∈ list
  · rw [List.dedup_cons_of_mem member]
    exact iff_of_true rfl member
  · rw [List.dedup_cons_of_notMem member, List.length_cons]
    exact iff_of_false (by omega) member

/-- A membership test asks whether the last step of the path, taken as a child step from the parent,
selects the node. -/
theorem LocationPath.asserts_membership {path : LocationPath} {index : Nat} {parent : Address}
    (decided : Decided document .child path.test path.conditions (.tree parent))
    (position size : Nat) :
    path.membership.Asserts document ⟨.tree (index :: parent), position, size⟩
      (Selects document .child path.test path.conditions (.tree parent)
        (.tree (index :: parent))) := by
  have each : ∀ start ∈ [Node.tree parent],
      Decided document .child path.test path.conditions start := by
    intro start member
    rwa [List.mem_singleton.mp member]
  obtain ⟨list, eval, mem⟩ :=
    exists_eval_slash (eval_parent index parent position size) .child each
  have siblings : path.siblings.eval document ⟨.tree (index :: parent), position, size⟩ =
      some (.nodes list) := eval
  have union : (Expr.binary .union .self path.siblings).eval document
      ⟨.tree (index :: parent), position, size⟩ =
        some (.nodes (.tree (index :: parent) :: list)) :=
    Expr.eval_binary (by simp) Expr.eval_self siblings
  have count (expr : Expr) (nodes : List Node) (eval : expr.eval document
      ⟨.tree (index :: parent), position, size⟩ = some (.nodes nodes)) :
      (Expr.call .count [expr]).eval document ⟨.tree (index :: parent), position, size⟩ =
        some (.number nodes.dedup.length) :=
    Expr.eval_call (Expr.evalAll_cons eval Expr.evalAll_nil)
  refine Expr.asserts_of_boolean
    (Expr.eval_binary (by simp) (count _ _ union) (count _ _ siblings)) ?_
  rw [beq_true, beq_iff_eq, Int.natCast_inj, length_dedup_cons, mem]
  simp [AxisSpecifier.axis]

/-! ### Later siblings -/

/-- The children of a node behind the one with the given index. -/
def laterSiblings (document : Document) (index : Nat) (parent : Address) : List Address :=
  (document.children parent).drop (index + 1)

theorem along_followingSibling (index : Nat) (parent : Address) :
    document.along .followingSibling (.tree (index :: parent)) =
      some ((laterSiblings document index parent).map .tree) := by
  rw [laterSiblings, List.map_drop]
  rfl

theorem laterSiblings_eq (index : Nat) (parent : Address) :
    laterSiblings document index parent =
      (List.range' (index + 1) ((document.contents parent).length - (index + 1))).map
        (· :: parent) := by
  rw [laterSiblings, Document.children, ← List.map_drop, List.range_eq_range', List.drop_range']
  simp

theorem mem_laterSiblings {index : Nat} {parent address : Address} :
    address ∈ laterSiblings document index parent ↔
      ∃ later, index < later ∧ address = later :: parent ∧
        (document.content? address).isSome := by
  rw [laterSiblings_eq, List.mem_map]
  refine exists_congr fun later => ?_
  rw [List.mem_range'_1]
  constructor
  · rintro ⟨⟨behind, bound⟩, rfl⟩
    refine ⟨behind, rfl, ?_⟩
    rw [Document.isSome_content?]
    omega
  · rintro ⟨behind, rfl, stands⟩
    rw [Document.isSome_content?] at stands
    exact ⟨by omega, rfl⟩

/-- The first element behind a node is the one with no element between them. -/
theorem first_laterSibling {index : Nat} {parent address : Address} :
    ((laterSiblings document index parent).filter (document.hasType none))[0]? = some address ↔
      ∃ later, index < later ∧ address = later :: parent ∧ document.IsElement address ∧
        ∀ between, index < between → between < later →
          ¬ document.IsElement (between :: parent) := by
  rw [laterSiblings_eq, List.filter_map, List.getElem?_map, ← List.head?_eq_getElem?,
    List.head?_filter, Option.map_eq_some_iff]
  refine exists_congr fun later => ?_
  rw [List.find?_range'_eq_some, List.mem_range'_1]
  simp only [Function.comp_apply, Document.hasType_none, Bool.not_eq_true', ← Bool.not_eq_true]
  constructor
  · rintro ⟨⟨inside, ⟨behind, _⟩, none⟩, rfl⟩
    exact ⟨behind, rfl, inside, none⟩
  · rintro ⟨behind, rfl, inside, none⟩
    have bound := Document.isSome_content?.mp inside.isSome
    exact ⟨⟨inside, by omega, none⟩, rfl⟩

/-- A step of which no condition counts selects what its test and its conditions admit. -/
theorem selects_of_along (isTest : IsTest named test) {axis : Axis} (elements : axis ≠ .attribute)
    {start : Node} {addresses : List Address}
    (along : document.along axis.standard start = some (addresses.map .tree))
    {conditions : List Expr} {Claim : Address → Prop}
    (same : ∀ x ∈ addresses, document.hasType named x = true → ∀ position size, 0 < position →
      ((∀ expr ∈ conditions, expr.Holds document ⟨.tree x, position, size⟩) ↔ Claim x))
    {node : Node} :
    Selects document axis test conditions start node ↔
      ∃ x, node = .tree x ∧ x ∈ addresses ∧ document.hasType named x = true ∧ Claim x := by
  have select := select_of_along isTest elements along
  constructor
  · rintro ⟨nodes, index, selectAlso, found, holds⟩
    obtain rfl := Option.some.inj (select.symm.trans selectAlso)
    obtain ⟨x, member, rfl⟩ := List.mem_map.mp (List.mem_of_getElem? found)
    obtain ⟨inside, typed⟩ := List.mem_filter.mp member
    exact ⟨x, rfl, inside, typed, (same x inside typed _ _ (Nat.succ_pos index)).mp holds⟩
  · rintro ⟨x, rfl, inside, typed, claimed⟩
    obtain ⟨index, found⟩ := List.mem_iff_getElem?.mp
      (List.mem_map_of_mem (f := Node.tree) (List.mem_filter.mpr ⟨inside, typed⟩))
    exact ⟨_, index, select, found, (same x inside typed _ _ (Nat.succ_pos index)).mpr claimed⟩

/-- Where one of the conditions asks for the first position, the step to later siblings selects at
most the next element. -/
theorem selects_first {index : Nat} {parent : Address} {conditions : List Expr}
    (Claim : Address → Prop)
    (same : ∀ x ∈ laterSiblings document index parent, document.IsElement x →
      ∀ position size, 0 < position →
        ((∀ expr ∈ conditions, expr.Holds document ⟨.tree x, position, size⟩) ↔
          position = 1 ∧ Claim x))
    {node : Node} :
    Selects document .followingSibling "*" conditions (.tree (index :: parent)) node ↔
      ∃ x, node = .tree x ∧ ((laterSiblings document index parent).filter
        (document.hasType none))[0]? = some x ∧ Claim x := by
  have select : document.select .followingSibling (nodeTest "*") (.tree (index :: parent)) = _ :=
    @select_of_along document none "*" .star .followingSibling (by simp) _ _
      (along_followingSibling index parent)
  constructor
  · rintro ⟨nodes, place, selectAlso, found, holds⟩
    obtain rfl := Option.some.inj (select.symm.trans selectAlso)
    rw [List.getElem?_map, Option.map_eq_some_iff] at found
    obtain ⟨x, found, rfl⟩ := found
    obtain ⟨inside, any⟩ := List.mem_filter.mp (List.mem_of_getElem? found)
    obtain ⟨first, claimed⟩ :=
      (same x inside (Document.hasType_none.mp any) _ _ (Nat.succ_pos place)).mp holds
    obtain rfl : place = 0 := by omega
    exact ⟨x, rfl, found, claimed⟩
  · rintro ⟨x, rfl, found, claimed⟩
    obtain ⟨inside, any⟩ := List.mem_filter.mp (List.mem_of_getElem? found)
    refine ⟨_, 0, select, by rw [List.getElem?_map, found]; rfl, ?_⟩
    exact (same x inside (Document.hasType_none.mp any) _ _ Nat.one_pos).mpr ⟨rfl, claimed⟩

/-- The condition of being the first node. -/
theorem asserts_isFirst (node : Node) (position size : Nat) :
    LocationPath.isFirst.Asserts document ⟨node, position, size⟩ (position = 1) := by
  have here : (Expr.call .position []).eval document ⟨node, position, size⟩ =
      some (.number position) := rfl
  have eval : LocationPath.isFirst.eval document ⟨node, position, size⟩ =
      some (.boolean (((position : Int) == 1) == true)) :=
    Expr.eval_binary (by simp) here (Expr.eval_integer 1)
  refine Expr.asserts_of_boolean eval ?_
  rw [beq_true, beq_iff_eq]
  exact Int.natCast_inj (m := position) (n := 1)

end SelectorPath.XPath
