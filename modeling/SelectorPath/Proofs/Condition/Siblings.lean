import SelectorPath.Proofs.Selector.Compound

/-!
# Conditions on the siblings of an element

The pseudo-classes without arguments count elements along an axis: those in front of an element or
behind it, or all children of its parent. The children of a node with the given name are those in
front of any one of them, that one, and those behind it, so its place is the number of those in
front.

## Main definitions

* `Document.elementsBefore`, `Document.elementsBehind` — the siblings of an element on either side

## Main results

* `Document.elements_eq` — the children of a node split at one of them
* `Document.isNth_first_iff` — the first place from either end
* `Condition.asserts_noneBefore`, `Condition.asserts_noneBehind`, `Condition.asserts_onlyChild` —
  what the conditions on siblings say
-/

namespace SelectorPath

open XPath Grammar LocationPath.DescribesBelow

/-! ### The siblings on either side -/

namespace Document

variable {document : Document} {named : Option String} {index : Nat} {parent : Address}

/-- The elements with the given name in front of a child of the parent. -/
def elementsBefore (document : Document) (named : Option String) (index : Nat) (parent : Address) :
    List Address :=
  ((document.children parent).take index).filter (document.hasType named)

/-- The elements with the given name behind a child of the parent. -/
def elementsBehind (document : Document) (named : Option String) (index : Nat) (parent : Address) :
    List Address :=
  (laterSiblings document index parent).filter (document.hasType named)

/-- An element of the given name has none of them on one side. -/
def EndsSiblings (document : Document) (named : Option String) (direction : Direction) :
    Address → Prop
  | [] => False
  | index :: parent =>
    match direction with
    | .fromStart => document.elementsBefore named index parent = []
    | .fromEnd => document.elementsBehind named index parent = []

/-- The children of a node split at one of them. -/
theorem elements_eq (typed : document.hasType named (index :: parent) = true) :
    document.elements named parent =
      document.elementsBefore named index parent ++
        (index :: parent) :: document.elementsBehind named index parent := by
  have bound : index < (document.children parent).length := by
    have stands := isSome_content?.mp (isElement_of_hasType typed).isSome
    simpa [children] using stands
  have here : (document.children parent)[index] = index :: parent := by simp [children]
  have split := List.take_append_drop index (document.children parent)
  rw [List.drop_eq_getElem_cons bound, here] at split
  rw [elements, ← split, List.filter_append, List.filter_cons_of_pos typed]
  rfl

/-- The place of an element is the number of those in front of it. -/
theorem getElem?_elements_iff (typed : document.hasType named (index :: parent) = true)
    {place : Nat} :
    (document.elements named parent)[place]? = some (index :: parent) ↔
      place = (document.elementsBefore named index parent).length := by
  have found : (document.elements named parent)[(document.elementsBefore named index
      parent).length]? = some (index :: parent) := by
    rw [elements_eq typed, List.getElem?_append_right (Nat.le_refl _), Nat.sub_self]
    rfl
  constructor
  · -- no node is listed twice, so there is no other place
    intro also
    have bound := (List.getElem?_eq_some_iff.mp also).1
    exact (List.getElem?_inj bound (document.nodup_elements named parent)).mp
      (also.trans found.symm)
  · rintro rfl
    exact found

theorem reaches_first (position : Int) : (Series.index 1).Reaches position ↔ position = 1 := by
  constructor
  · rintro ⟨_, same⟩
    simpa [Series.index, eq_comm] using same
  · rintro rfl
    exact ⟨0, by decide⟩

/-- The first place counted from an end is at that end, and below an element. -/
theorem isNth_first_iff {direction : Direction} {x : Address}
    (typed : document.hasType named x = true) :
    document.IsNth named (.index 1) direction x ↔
      document.HasParent x ∧ document.EndsSiblings named direction x := by
  have first {index : Nat} {parent : Address}
      (typed : document.hasType named (index :: parent) = true) :
      (Series.index 1).Reaches (direction.count
        ((document.elementsBefore named index parent).length + 1)
          (document.elements named parent).length) ↔
        document.EndsSiblings named direction (index :: parent) := by
    -- from the end, a place is counted by the elements behind it
    rw [reaches_first, elements_eq typed, List.length_append, List.length_cons]
    cases direction <;> simp only [EndsSiblings, ← List.length_eq_zero_iff, Direction.count] <;>
      omega
  constructor
  · rintro ⟨parent, place, above, found, reached⟩
    obtain ⟨⟨index, rfl⟩, -⟩ := parent_of_getElem? found
    obtain rfl := (getElem?_elements_iff typed).mp found
    exact ⟨⟨index, parent, rfl, above⟩, (first typed).mp reached⟩
  · rintro ⟨⟨index, parent, rfl, above⟩, ends⟩
    exact ⟨parent, _, above, (getElem?_elements_iff typed).mpr rfl, (first typed).mpr ends⟩

end Document

/-! ### Conditions -/

namespace Condition

variable {document : Document} {named : Option String} {test : String} {index : Nat}
  {parent : Address} {position size : Nat}

/-- A step without conditions has the nodes that it leads to. -/
theorem eval_step_nil {axis : AxisSpecifier} {context : Context} {nodes : List Node}
    (select : document.select axis.axis.standard (nodeTest test) context.node = some nodes) :
    (Expr.step axis test []).eval document context = some (.nodes nodes) := by
  simp [Expr.eval, Expr.term, Expr.terms, Term.eval_step, Term.restrict, select]

/-- A step without conditions from several nodes has what it leads to from each of them. -/
theorem eval_slash_nil {base : Expr} (axis : AxisSpecifier) {context : Context} {bases : List Node}
    (next : Node → List Node) (eval : base.eval document context = some (.nodes bases))
    (select : ∀ start ∈ bases,
      document.select axis.axis.standard (nodeTest test) start = some (next start)) :
    (Expr.slash base axis test []).eval document context =
      some (.nodes (bases.flatMap next)) := by
  have all : collect (fun start => do
      Term.restrict document [] (← document.select axis.axis.standard (nodeTest test) start))
        bases = some (bases.flatMap next) := by
    clear eval
    induction bases with
    | nil => rfl
    | cons start rest ih =>
      rw [List.forall_mem_cons] at select
      rw [collect, ih select.2]
      simp [select.1, Term.restrict]
  unfold Expr.eval at eval ⊢
  simp only [Expr.term, Expr.terms, Term.eval_path, eval, Option.bind_eq_bind, Option.bind_some,
    Value.nodes?] at all ⊢
  rw [all]
  rfl

/-- The number of elements that an expression selects. -/
theorem asserts_countIs {nodes : Expr} {context : Context} {addresses : List Address}
    (eval : nodes.eval document context = some (.nodes (addresses.map .tree)))
    (distinct : addresses.Nodup) (number : Nat) :
    (countIs nodes number).Asserts document context (addresses.length = number) := by
  -- `count` takes a node that is listed twice for one
  have once : (addresses.map Node.tree).dedup = addresses.map Node.tree :=
    (distinct.map fun _ _ same => by simpa using same).dedup
  have count : (Expr.call .count [nodes]).eval document context =
      some (.number addresses.length) := by
    rw [Expr.eval_call (Expr.evalAll_cons eval Expr.evalAll_nil)]
    show some (Value.number (addresses.map Node.tree).dedup.length) = _
    rw [once, List.length_map]
  refine Expr.asserts_of_boolean (Expr.eval_binary (by simp) count (Expr.eval_integer number)) ?_
  rw [beq_true, beq_iff_eq, Int.natCast_inj]

theorem eval_siblingsBefore (isTest : IsTest named test) :
    (siblingsAlong .precedingSibling test).eval document ⟨.tree (index :: parent), position, size⟩ =
      some (.nodes ((document.elementsBefore named index parent).reverse.map .tree)) := by
  have along : document.along .precedingSibling (.tree (index :: parent)) =
      some (((document.children parent).take index).reverse.map .tree) := by
    rw [List.map_reverse, List.map_take]
    rfl
  have select := @select_of_along document named test isTest .precedingSibling (by simp) _ _ along
  rw [List.filter_reverse] at select
  exact eval_step_nil select

theorem eval_siblingsBehind (isTest : IsTest named test) :
    (siblingsAlong .followingSibling test).eval document ⟨.tree (index :: parent), position, size⟩ =
      some (.nodes ((document.elementsBehind named index parent).map .tree)) :=
  eval_step_nil (@select_of_along document named test isTest .followingSibling (by simp) _ _
    (along_followingSibling index parent))

/-- No sibling stands in front. -/
theorem asserts_noneBefore (isTest : IsTest named test) {x : Address}
    (inside : document.IsElement x) :
    (countIs (siblingsAlong .precedingSibling test) 0).Asserts document ⟨.tree x, position, size⟩
      (document.EndsSiblings named .fromStart x) := by
  obtain ⟨index, parent, rfl⟩ := inside.exists_parent
  have some := (document.nodup_children parent).sublist (List.take_sublist index _)
  refine (asserts_countIs (eval_siblingsBefore isTest) ?_ 0).congr ?_
  · exact List.nodup_reverse.mpr (some.filter _)
  · rw [List.length_reverse, List.length_eq_zero_iff]
    rfl

/-- No sibling stands behind. -/
theorem asserts_noneBehind (isTest : IsTest named test) {x : Address}
    (inside : document.IsElement x) :
    (countIs (siblingsAlong .followingSibling test) 0).Asserts document ⟨.tree x, position, size⟩
      (document.EndsSiblings named .fromEnd x) := by
  obtain ⟨index, parent, rfl⟩ := inside.exists_parent
  have some := (document.nodup_children parent).sublist (List.drop_sublist (index + 1) _)
  refine (asserts_countIs (eval_siblingsBehind isTest) (some.filter _) 0).congr ?_
  rw [List.length_eq_zero_iff]
  rfl

/-- The children of the parent, if it is an element. -/
theorem eval_childrenOfParent (isTest : IsTest named test) :
    (childrenOfParent test).eval document ⟨.tree (index :: parent), position, size⟩ =
      some (.nodes ((if document.IsElement parent then document.elements named parent
        else []).map .tree)) := by
  -- the document has no name, so from the root element the step to the parent finds nothing
  have above : (Expr.step (.named .parent) "*" []).eval document
      ⟨.tree (index :: parent), position, size⟩ =
        some (.nodes (([parent].filter (document.hasType none)).map .tree)) :=
    eval_step_nil (@select_of_along document none "*" .star .parent (by simp) _ _ rfl)
  have children := eval_slash_nil (.named .child)
    (fun _ => (document.elements named parent).map .tree) above fun start member => by
      obtain ⟨x, inside, rfl⟩ := List.mem_map.mp member
      rw [List.mem_singleton.mp (List.mem_filter.mp inside).1]
      exact select_child isTest parent
  refine children.trans ?_
  by_cases element : document.IsElement parent <;> simp [element]

/-- The element has no siblings, and its parent is an element. -/
theorem asserts_onlyChild (isTest : IsTest named test) {x : Address}
    (typed : document.hasType named x = true) :
    (countIs (childrenOfParent test) 1).Asserts document ⟨.tree x, position, size⟩
      (document.HasParent x ∧ document.EndsSiblings named .fromStart x ∧
        document.EndsSiblings named .fromEnd x) := by
  obtain ⟨index, parent, rfl⟩ := (Document.isElement_of_hasType typed).exists_parent
  refine (asserts_countIs (eval_childrenOfParent isTest) ?_ 1).congr ?_
  · split
    · exact document.nodup_elements named parent
    · exact List.nodup_nil
  · have hasParent : document.HasParent (index :: parent) ↔ document.IsElement parent :=
      ⟨fun ⟨_, _, same, above⟩ => (List.cons.inj same).2 ▸ above, fun above => ⟨_, _, rfl, above⟩⟩
    rw [hasParent]
    split
    · rename_i above
      simp only [Document.EndsSiblings, Document.elements_eq typed, above, true_and,
        List.length_append, List.length_cons, ← List.length_eq_zero_iff]
      omega
    · rename_i noElement
      simp [noElement]

end Condition

end SelectorPath
