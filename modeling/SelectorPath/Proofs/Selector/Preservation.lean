import SelectorPath.Proofs.Selector.Compound
import SelectorPath.Proofs.Selector.ValidText

/-!
# Compiled selectors select what the selector matches

The path of a plain selector is followed from left to right. What stands in front of a combinator
finds the elements that the selector on its left matches, and the compound on its right describes
which of the elements related to those are matched. A compound that counts behind a star keeps
counting children behind every combinator: the link to children and descendants stands where the
star stood, and among siblings a membership test asks for the place among the children.

## Main definitions

* `Expr.FindsIn`, `Expr.Finds` — an expression finds the elements that are matched, evaluated in a
  context or at the document
* `LocationPath.lastStep` — the last step of a path behind any expression

## Main results

* `LocationPath.fromAnywhere_linked`, `LocationPath.toExpr_linked` — a path linked to another one is
  one step behind it
* `DescribesBelow.finds`, `finds_connect` — a compound, and a compound behind a combinator
* `Selector.xpath_selects` — a plain selector is compiled to what selects the elements it matches
-/

namespace SelectorPath

open Text XPath Grammar LocationPath

variable {document : Document} {context : Context}

/-! ### Paths as one step behind another -/

namespace XPath.LocationPath

theorem exprFrom_concat (base : Option (Expr × Link)) (segments : List Segment) (last : Segment)
    (test : String) (condition : Option Expr) :
    exprFrom base (segments ++ [last]) test condition =
      stepExpr (some (exprFrom base segments last.test last.condition, last.link)) test
        condition := by
  induction segments generalizing base with
  | nil => rfl
  | cons segment rest ih => exact ih _

/-- The last step of the path, behind what `base` selects. -/
def lastStep (path : LocationPath) (base : Expr) (link : Link) : Expr :=
  stepExpr (some (base, link)) path.test path.condition?

section Linked

variable {path base : LocationPath} {link : Link}

/-- A path that goes on behind another one by one step. -/
theorem fromAnywhere_linked
    (linked : path.segments = base.segments ++ [⟨base.test, base.condition?, link⟩]) :
    path.fromAnywhere = path.lastStep base.fromAnywhere link := by
  unfold fromAnywhere
  rw [linked]
  cases base.segments with
  | nil => rfl
  | cons first rest => exact exprFrom_concat _ _ _ _ _

/-- The same where the path starts at the context node. -/
theorem toExpr_linked
    (linked : path.segments = base.segments ++ [⟨base.test, base.condition?, link⟩]) :
    path.toExpr = path.lastStep base.toExpr link := by
  unfold toExpr
  rw [linked]
  exact exprFrom_concat _ _ _ _ _

end Linked

/-- A path of one step, starred or not, is linked to another one by that step alone. -/
theorem DescribesBelow.joinedSegments {path : LocationPath} {above : Address → Prop}
    {type : Option String} {Matched : Address → Prop}
    (describes : path.DescribesBelow document above type Matched) :
    path.joinedSegments = [] := by
  unfold LocationPath.joinedSegments
  obtain ⟨-, segments, -⟩ | ⟨-, segments, -⟩ := describes.step
  · rw [segments]
    rfl
  · have star : segmentsText [.star] = "*/" := segmentsText_star
    rw [segments, if_pos star]

end XPath.LocationPath

/-! ### What an expression finds -/

/-- The expression, evaluated in the context, gives the nodes of the elements that are matched. -/
structure XPath.Expr.FindsIn (document : Document) (context : Context) (expr : Expr)
    (Matched : Address → Prop) : Prop where
  eval : ∃ list, expr.eval document context = some (.nodes list) ∧
    ∀ node, node ∈ list ↔ ∃ x, node = .tree x ∧ Matched x
  isElement : ∀ x, Matched x → document.IsElement x

/-- The same for an expression that is evaluated at the document. -/
abbrev XPath.Expr.Finds (document : Document) (expr : Expr) (Matched : Address → Prop) : Prop :=
  expr.FindsIn document ⟨.tree [], 1, 1⟩ Matched

namespace XPath.Expr.FindsIn

variable {base : Expr} {Before : Address → Prop} {test : String} {conditions : List Expr}

theorem congr (finds : base.FindsIn document context Before) {Others : Address → Prop}
    (same : ∀ x, Before x ↔ Others x) : base.FindsIn document context Others := by
  obtain rfl : Before = Others := funext fun x => propext (same x)
  exact finds

/-- A step from what was found. -/
theorem slash (finds : base.FindsIn document context Before) (axis : AxisSpecifier)
    (After : Address → Address → Prop)
    (decided : ∀ x, Before x → Decided document axis.axis test conditions (.tree x))
    (selects : ∀ x, Before x → ∀ node, Selects document axis.axis test conditions (.tree x) node ↔
      ∃ y, node = .tree y ∧ After x y)
    (isElement : ∀ x y, After x y → document.IsElement y) :
    (Expr.slash base axis test (predicates (Expr.conjunction? conditions))).FindsIn document context
      fun y => ∃ x, Before x ∧ After x y := by
  obtain ⟨bases, eval, mem⟩ := finds.eval
  have each : ∀ start ∈ bases, Decided document axis.axis test conditions start := by
    intro start member
    obtain ⟨x, rfl, before⟩ := (mem start).mp member
    exact decided x before
  obtain ⟨list, evalStep, memStep⟩ := exists_eval_slash eval axis each
  refine ⟨⟨list, evalStep, fun node => (memStep node).trans ?_⟩, ?_⟩
  · constructor
    · rintro ⟨start, member, selected⟩
      obtain ⟨x, rfl, before⟩ := (mem start).mp member
      obtain ⟨y, rfl, after⟩ := (selects x before node).mp selected
      exact ⟨y, rfl, x, before, after⟩
    · rintro ⟨y, rfl, x, before, after⟩
      exact ⟨.tree x, (mem _).mpr ⟨x, rfl, before⟩, (selects x before _).mpr ⟨y, rfl, after⟩⟩
  · rintro y ⟨x, -, after⟩
    exact isElement x y after

/-- As a condition, an expression that finds elements says that there is one to be found. -/
theorem asserts (finds : base.FindsIn document context Before) :
    base.Asserts document context (∃ x, Before x) := by
  obtain ⟨list, eval, mem⟩ := finds.eval
  refine Expr.asserts_of_nodes eval ⟨fun nonempty => ?_, ?_⟩
  · obtain ⟨node, member⟩ := List.exists_mem_of_ne_nil list nonempty
    obtain ⟨x, -, before⟩ := (mem node).mp member
    exact ⟨x, before⟩
  · rintro ⟨x, before⟩
    exact List.ne_nil_of_mem ((mem (.tree x)).mpr ⟨x, rfl, before⟩)

end XPath.Expr.FindsIn

/-! ### The first compound -/

/-- The nodes along the axis that paths start with. -/
theorem along_descendantOrSelf (x : Address) :
    document.along .descendantOrSelf (.tree x) =
      some ((document.addresses.filter fun other => x <:+ other).map .tree) := rfl

theorem mem_addresses_of_isElement {x : Address} (inside : document.IsElement x) :
    x ∈ document.addresses := Document.mem_addresses.mpr (.inr inside.isSome)

/-- A first step of which no condition counts. -/
theorem finds_anywhere {named : Option String} {test : String} (isTest : IsTest named test)
    (conditions : List Expr) (Claim : Address → Prop)
    (asserts : ∀ x, document.hasType named x = true → ∀ position size, 0 < position →
      (∀ expr ∈ conditions, expr.Decides document ⟨.tree x, position, size⟩) ∧
        ((∀ expr ∈ conditions, expr.Holds document ⟨.tree x, position, size⟩) ↔ Claim x)) :
    (anywhere test (Expr.conjunction? conditions)).Finds document fun x =>
      document.hasType named x = true ∧ Claim x := by
  have select : document.select .descendantOrSelf (nodeTest test) (.tree []) = _ :=
    @select_of_along document named test isTest .descendantOrSelf (by simp) _ _
      (along_descendantOrSelf [])
  have decided : Decided document .descendantOrSelf test conditions (.tree []) := by
    refine decided_of_select select fun node member position size positive expr inside => ?_
    obtain ⟨x, found, rfl⟩ := List.mem_map.mp member
    have typed := (List.mem_filter.mp found).2
    exact (asserts x typed position size positive).1 expr inside
  obtain ⟨list, eval, mem⟩ := exists_eval_step ⟨.tree [], 1, 1⟩ (.named .descendantOrSelf) decided
  refine ⟨⟨list, eval, fun node => (mem node).trans ?_⟩,
    fun x matched => Document.isElement_of_hasType matched.1⟩
  refine (@selects_of_along document named test isTest .descendantOrSelf (by simp) _ _
    (along_descendantOrSelf []) conditions Claim
    (fun x _ typed position size positive => (asserts x typed position size positive).2) _).trans ?_
  refine exists_congr fun x => and_congr_right fun _ => and_iff_right_of_imp fun matched => ?_
  have inside := Document.isElement_of_hasType matched.1
  exact List.mem_filter.mpr ⟨mem_addresses_of_isElement inside, by simp⟩

namespace XPath.LocationPath.DescribesBelow

variable {path : LocationPath} {above : Address → Prop} {type : Option String}
  {Matched : Address → Prop}

/-- Below one of the nodes, a child step selects what is matched. -/
theorem matched_iff_selectsChild (describes : path.DescribesBelow document above type Matched)
    {x parent : Address} (inAbove : above parent) (child : ∃ index, x = index :: parent) :
    Matched x ↔ path.SelectsChild document parent x := by
  obtain ⟨-, -, step⟩ | ⟨-, -, step⟩ := describes.step
  · rw [selectsChild_iff describes.isTest]
    constructor
    · intro matched
      have inside := describes.isElement matched
      obtain ⟨place, found⟩ := List.mem_iff_getElem?.mp
        (Document.mem_elements.mpr ⟨child, describes.hasType_named matched⟩)
      exact ⟨place, found, ((step x inside _ _ (Nat.succ_pos place)).mp matched).2⟩
    · rintro ⟨place, found, holds⟩
      have typed := (parent_of_getElem? found).2
      have inside := Document.isElement_of_hasType typed
      exact (step x inside _ _ (Nat.succ_pos place)).mpr ⟨typed, holds⟩
  · rw [step]
    constructor
    · rintro ⟨other, -, selects⟩
      obtain ⟨place, found, -⟩ := (selectsChild_iff describes.isTest).mp selects
      obtain ⟨index, rfl⟩ := child
      obtain ⟨⟨_, same⟩, -⟩ := parent_of_getElem? found
      obtain rfl := (List.cons.inj same).2
      exact selects
    · exact fun selects => ⟨parent, inAbove, selects⟩

/-- What a child step from one of the nodes selects. -/
theorem selects_child_iff (describes : path.DescribesBelow document above type Matched)
    {parent : Address} (inAbove : above parent) (node : Node) :
    Selects document .child path.test path.conditions (.tree parent) node ↔
      ∃ x, node = .tree x ∧ (∃ index, x = index :: parent) ∧ Matched x := by
  constructor
  · intro selects
    obtain ⟨place, x, rfl, found, -⟩ := (selects_child describes.isTest).mp selects
    have child := (parent_of_getElem? found).1
    exact ⟨x, rfl, child, (describes.matched_iff_selectsChild inAbove child).mpr selects⟩
  · rintro ⟨x, rfl, child, matched⟩
    exact (describes.matched_iff_selectsChild inAbove child).mp matched

/-- A child step behind what finds elements. -/
theorem finds_child (describes : path.Describes document type Matched) {base : Expr}
    {Before : Address → Prop} (finds : base.FindsIn document context Before) :
    (path.lastStep base .child).FindsIn document context fun x =>
      (∃ parent, Before parent ∧ ∃ index, x = index :: parent) ∧ Matched x := by
  refine (finds.slash .child _ (fun x _ => describes.decided_child x)
    (fun x before => describes.selects_child_iff (finds.isElement x before))
    fun _ x after => describes.isElement after.2).congr fun x => ?_
  constructor
  · rintro ⟨parent, before, child, matched⟩
    exact ⟨⟨parent, before, child⟩, matched⟩
  · rintro ⟨⟨parent, before, child⟩, matched⟩
    exact ⟨parent, before, child, matched⟩

/-- Without a star, the conditions say which of the elements that pass the test are matched. -/
theorem forall_holds_iff (describes : path.DescribesBelow document above type Matched)
    (free : path.starred = false) {x : Address} (typed : document.hasType path.named x = true)
    {position size : Nat} (positive : 0 < position) :
    (∀ expr ∈ path.conditions, expr.Holds document ⟨.tree x, position, size⟩) ↔ Matched x := by
  obtain ⟨-, -, step⟩ | ⟨starred, -⟩ := describes.step
  · have inside := Document.isElement_of_hasType typed
    rw [step x inside position size positive]
    exact (and_iff_right typed).symm
  · rw [free] at starred
    exact absurd starred (by decide)

/-- A path that describes a compound finds what the compound matches. -/
theorem finds (describes : path.Describes document type Matched) :
    path.fromAnywhere.Finds document Matched := by
  obtain ⟨free, segments, -⟩ | ⟨starred, segments, -⟩ := describes.step
  · have start : path.fromAnywhere = anywhere path.test (Expr.conjunction? path.conditions) := by
      rw [fromAnywhere, segments]
      rfl
    rw [start]
    refine (finds_anywhere describes.isTest path.conditions Matched
      fun x typed position size positive => ?_).congr fun x =>
        and_iff_right_of_imp describes.hasType_named
    have inside := Document.isElement_of_hasType typed
    exact ⟨describes.decides x inside position size positive,
      describes.forall_holds_iff free typed positive⟩
  · have start : path.fromAnywhere =
        .slash (anywhere "*" none) .child path.test (predicates path.condition?) := by
      rw [fromAnywhere, segments]
      rfl
    have all : (anywhere "*" none).Finds document document.IsElement :=
      (finds_anywhere .star [] (fun _ => True) (by simp)).congr fun x => by simp
    rw [start]
    refine (describes.finds_child all).congr fun x => and_iff_right_of_imp fun matched => ?_
    obtain ⟨index, parent, rfl, above⟩ := describes.hasParent starred matched
    exact ⟨parent, above, index, rfl⟩

end XPath.LocationPath.DescribesBelow

/-! ### Later siblings -/

/-- Only elements have several children. -/
theorem isElement_of_laterSibling {index : Nat} {parent x : Address}
    (later : x ∈ laterSiblings document index parent) : document.IsElement parent := by
  obtain ⟨place, behind, rfl, stands⟩ := mem_laterSiblings.mp later
  refine (Document.isElement_of_child stands).resolve_left ?_
  rintro rfl
  have bound : place < 1 := Document.isSome_content?.mp stands
  omega

theorem hasParent_of_laterSibling {index : Nat} {parent x : Address}
    (later : x ∈ laterSiblings document index parent) : document.HasParent x := by
  obtain ⟨place, -, rfl, -⟩ := mem_laterSiblings.mp later
  exact ⟨place, parent, rfl, isElement_of_laterSibling later⟩

section Siblings

variable {base : Expr} {Before After : Address → Prop} {conditions : List Expr}

theorem decided_sibling {named : Option String} {test : String} (isTest : IsTest named test)
    (decides : ∀ x, document.HasParent x → document.hasType named x = true →
      ∀ position size, 0 < position → ∀ expr ∈ conditions,
        expr.Decides document ⟨.tree x, position, size⟩) {start : Address}
    (inside : document.IsElement start) :
    Decided document .followingSibling test conditions (.tree start) := by
  obtain ⟨index, parent, rfl⟩ := inside.exists_parent
  have select : document.select .followingSibling (nodeTest test) (.tree (index :: parent)) = _ :=
    @select_of_along document named test isTest .followingSibling (by simp) _ _
      (along_followingSibling index parent)
  refine decided_of_select select fun node member position size positive => ?_
  obtain ⟨x, found, rfl⟩ := List.mem_map.mp member
  obtain ⟨later, typed⟩ := List.mem_filter.mp found
  exact decides x (hasParent_of_laterSibling later) typed position size positive

/-- A step to later siblings of which no condition counts. -/
theorem finds_subsequentSibling (finds : base.FindsIn document context Before) {named : Option String}
    {test : String} (isTest : IsTest named test)
    (decides : ∀ x, document.HasParent x → document.hasType named x = true →
      ∀ position size, 0 < position → ∀ expr ∈ conditions,
        expr.Decides document ⟨.tree x, position, size⟩)
    (same : ∀ x, document.HasParent x → document.hasType named x = true →
      ∀ position size, 0 < position →
        ((∀ expr ∈ conditions, expr.Holds document ⟨.tree x, position, size⟩) ↔ After x))
    (typed : ∀ x, After x → document.hasType named x = true) :
    (Expr.slash base (.named .followingSibling) test
      (predicates (Expr.conjunction? conditions))).FindsIn document context fun y =>
        (∃ x, Before x ∧ Combinator.subsequentSibling.Relates document x y) ∧ After y := by
  refine (finds.slash (.named .followingSibling)
    (fun x y => Combinator.subsequentSibling.Relates document x y ∧ After y)
    (fun x before => decided_sibling isTest decides (finds.isElement x before)) ?_ ?_).congr
    fun y => ?_
  · intro x before node
    obtain ⟨index, parent, rfl⟩ := (finds.isElement x before).exists_parent
    refine (@selects_of_along document named test isTest .followingSibling (by simp) _ _
      (along_followingSibling index parent) conditions After
      (fun y later => same y (hasParent_of_laterSibling later)) node).trans ?_
    refine exists_congr fun y => and_congr_right fun _ => ?_
    constructor
    · rintro ⟨later, -, after⟩
      obtain ⟨place, behind, rfl, -⟩ := mem_laterSiblings.mp later
      exact ⟨⟨parent, index, place, rfl, rfl, behind⟩, after⟩
    · rintro ⟨⟨above, before, place, first, rfl, behind⟩, after⟩
      obtain ⟨rfl, rfl⟩ := List.cons.inj first
      have stands := (Document.isElement_of_hasType (typed _ after)).isSome
      exact ⟨mem_laterSiblings.mpr ⟨place, behind, rfl, stands⟩, typed _ after, after⟩
  · exact fun x y after => Document.isElement_of_hasType (typed y after.2)
  · constructor
    · rintro ⟨x, before, relates, after⟩
      exact ⟨⟨x, before, relates⟩, after⟩
    · rintro ⟨⟨x, before, relates⟩, after⟩
      exact ⟨x, before, relates, after⟩

/-- A step to later siblings with the condition of being the first. -/
theorem finds_nextSibling (finds : base.FindsIn document context Before)
    (decides : ∀ x, document.HasParent x → document.hasType none x = true →
      ∀ position size, 0 < position → ∀ expr ∈ conditions,
        expr.Decides document ⟨.tree x, position, size⟩)
    (same : ∀ x, document.HasParent x → document.IsElement x → ∀ position size, 0 < position →
      ((∀ expr ∈ conditions, expr.Holds document ⟨.tree x, position, size⟩) ↔
        position = 1 ∧ After x))
    (isElement : ∀ x, After x → document.IsElement x) :
    (Expr.slash base (.named .followingSibling) "*"
      (predicates (Expr.conjunction? conditions))).FindsIn document context fun y =>
        (∃ x, Before x ∧ Combinator.nextSibling.Relates document x y) ∧ After y := by
  refine (finds.slash (.named .followingSibling)
    (fun x y => Combinator.nextSibling.Relates document x y ∧ After y)
    (fun x before => decided_sibling .star decides (finds.isElement x before)) ?_ ?_).congr
    fun y => ?_
  · intro x before node
    obtain ⟨index, parent, rfl⟩ := (finds.isElement x before).exists_parent
    refine (selects_first After
      (fun y later => same y (hasParent_of_laterSibling later))).trans ?_
    refine exists_congr fun y => and_congr_right fun _ => ?_
    rw [first_laterSibling]
    constructor
    · rintro ⟨⟨place, behind, rfl, -, none⟩, after⟩
      exact ⟨⟨parent, index, place, rfl, rfl, behind, none⟩, after⟩
    · rintro ⟨⟨above, before, place, first, rfl, behind, none⟩, after⟩
      obtain ⟨rfl, rfl⟩ := List.cons.inj first
      exact ⟨⟨place, behind, rfl, isElement _ after, none⟩, after⟩
  · exact fun x y after => isElement y after.2
  · constructor
    · rintro ⟨x, before, relates, after⟩
      exact ⟨⟨x, before, relates⟩, after⟩
    · rintro ⟨⟨x, before, relates⟩, after⟩
      exact ⟨x, before, relates, after⟩

end Siblings

/-! ### Combinators -/

section Connect

variable {base : Expr} {right : LocationPath} {type : Option String}
  {Before Matched : Address → Prop}

/-- Below one of the nodes, the membership test asks for what is matched. -/
theorem asserts_membership_matched {above : Address → Prop}
    (describes : right.DescribesBelow document above type Matched) {x : Address}
    (below : IsBelow above x) (position size : Nat) :
    right.membership.Asserts document ⟨.tree x, position, size⟩ (Matched x) := by
  obtain ⟨index, parent, rfl, inAbove⟩ := below
  exact (describes.asserts_membership ⟨index, rfl⟩ position size).congr
    (describes.matched_iff_selectsChild inAbove ⟨index, rfl⟩).symm

/-- The elements at or below those that were found. -/
theorem finds_descendantOrSelf (finds : base.FindsIn document context Before) :
    (Expr.slash base (.named .descendantOrSelf) "*" []).FindsIn document context fun y =>
      ∃ x, Before x ∧ x <:+ y ∧ document.IsElement y := by
  have select (x : Address) : document.select .descendantOrSelf (nodeTest "*") (.tree x) = _ :=
    @select_of_along document none "*" .star .descendantOrSelf (by simp) _ _
      (along_descendantOrSelf x)
  have decided (x : Address) : Decided document .descendantOrSelf "*" [] (.tree x) :=
    decided_of_select (select x) (by simp)
  refine finds.slash (.named .descendantOrSelf) _ (fun x _ => decided x) ?_ fun x y after => after.2
  intro x before node
  refine (@selects_of_along document none "*" .star .descendantOrSelf (by simp) _ _
    (along_descendantOrSelf x) [] (fun _ => True) (by simp) node).trans ?_
  refine exists_congr fun y => and_congr_right fun _ => ?_
  rw [Document.hasType_none, List.mem_filter, and_true]
  constructor
  · rintro ⟨⟨-, below⟩, inside⟩
    exact ⟨of_decide_eq_true below, inside⟩
  · rintro ⟨below, inside⟩
    exact ⟨⟨mem_addresses_of_isElement inside, decide_eq_true below⟩, inside⟩

theorem finds_descendant (finds : base.FindsIn document context Before)
    (describes : right.Describes document type Matched) :
    (right.lastStep base .descendant).FindsIn document context fun y =>
      (∃ x, Before x ∧ Combinator.descendant.Relates document x y) ∧ Matched y := by
  refine (describes.finds_child (finds_descendantOrSelf finds)).congr fun y =>
    and_congr_left fun matched => ?_
  constructor
  · rintro ⟨parent, ⟨x, before, below, -⟩, index, rfl⟩
    refine ⟨x, before, below.trans (List.suffix_cons index parent), ?_⟩
    rintro rfl
    exact absurd below.length_le (by simp)
  · rintro ⟨x, before, below, other⟩
    have inside := describes.isElement matched
    obtain ⟨index, parent, rfl⟩ := inside.exists_parent
    have inParent : x <:+ parent := (List.suffix_cons_iff.mp below).resolve_left other
    have above : document.IsElement parent := by
      refine (Document.isElement_of_child inside.isSome).resolve_left ?_
      rintro rfl
      obtain ⟨_, _, rfl⟩ := (finds.isElement x before).exists_parent
      exact absurd inParent.length_le (by simp)
    exact ⟨parent, ⟨x, before, inParent, above⟩, index, rfl⟩

theorem starred_addNameTest (path : LocationPath) : path.addNameTest.starred = path.starred := by
  unfold addNameTest
  split
  · rfl
  · split <;> rfl

theorem test_addNameTest (path : LocationPath) : path.addNameTest.test = "*" := by
  unfold addNameTest
  split
  · rename_i star
    exact eq_of_beq star
  · split <;> rfl

/-- Without a star, the name can be asked for before or after a join. -/
theorem addNameTest_join (free : right.starred = false) (left : LocationPath) (link : Link) :
    (left.join link right).addNameTest = left.join link right.addNameTest := by
  have plain : ¬ (right.starred && !right.conditions.isEmpty) = true := by simp [free]
  by_cases star : right.isWildcard = true
  · have joinedStar : (left.join link right).isWildcard = true := star
    rw [addNameTest, if_pos joinedStar, addNameTest, if_pos star]
  · have joinedStar : ¬ (left.join link right).isWildcard = true := star
    have joinedPlain : ¬ ((left.join link right).starred &&
        !(left.join link right).conditions.isEmpty) = true := plain
    rw [addNameTest, if_neg joinedStar, if_neg joinedPlain, addNameTest, if_neg star, if_neg plain]
    rfl

/-- A starred path among later siblings. -/
theorem joinSibling_starred (starred : right.starred = true) (left : LocationPath)
    (adjacent : Bool) :
    left.joinSibling right adjacent =
      { left.join .followingSibling (ofTest "*") with
        conditions := (if adjacent then [isFirst] else []) ++ [right.membership] } := by
  rw [joinSibling, if_pos starred]
  cases adjacent <;> rfl

theorem joinSibling_free (free : right.starred = false) (left : LocationPath) (adjacent : Bool) :
    left.joinSibling right adjacent =
      if adjacent then (left.join .followingSibling right.addNameTest).addCondition isFirst
      else left.join .followingSibling right := by
  rw [joinSibling, free, ← addNameTest_join free]
  rfl

theorem finds_joinSibling (finds : base.FindsIn document context Before)
    (describes : right.Describes document type Matched) (left : LocationPath) :
    ((left.joinSibling right false).lastStep base .followingSibling).FindsIn document context
      fun y => (∃ x, Before x ∧ Combinator.subsequentSibling.Relates document x y) ∧ Matched y := by
  cases starred : right.starred with
  | true =>
    rw [joinSibling_starred starred]
    have asserts (x : Address) (hasParent : document.HasParent x) (position size : Nat) :=
      asserts_membership_matched describes hasParent position size
    refine finds_subsequentSibling finds .star ?_ ?_ fun x matched =>
      Document.hasType_none.mpr (describes.isElement matched)
    · intro x hasParent _ position size _ expr member
      rw [List.mem_singleton.mp member]
      exact (asserts x hasParent position size).decides
    · intro x hasParent _ position size _
      exact List.forall_mem_singleton.trans (asserts x hasParent position size).holds
  | false =>
    rw [joinSibling_free starred]
    refine finds_subsequentSibling finds describes.isTest ?_ ?_ fun x => describes.hasType_named
    · intro x _ typed position size positive
      exact describes.decides x (Document.isElement_of_hasType typed) position size positive
    · intro x _ typed position size positive
      exact describes.forall_holds_iff starred typed positive

theorem finds_joinSibling_adjacent (finds : base.FindsIn document context Before)
    (describes : right.Describes document type Matched) (left : LocationPath) :
    ((left.joinSibling right true).lastStep base .followingSibling).FindsIn document context
      fun y => (∃ x, Before x ∧ Combinator.nextSibling.Relates document x y) ∧ Matched y := by
  have first (x : Address) (position size : Nat) :
      isFirst.Asserts document ⟨.tree x, position, size⟩ (position = 1) :=
    asserts_isFirst _ position size
  cases starred : right.starred with
  | true =>
    -- the element is compared with the members among the children of its parent
    rw [joinSibling_starred starred]
    have asserts (x : Address) (hasParent : document.HasParent x) (position size : Nat) :=
      asserts_membership_matched describes hasParent position size
    refine finds_nextSibling finds ?_ ?_ fun x => describes.isElement
    · intro x hasParent _ position size _
      rw [List.forall_mem_append, List.forall_mem_singleton]
      exact ⟨List.forall_mem_singleton.mpr (first x position size).decides,
        (asserts x hasParent position size).decides⟩
    · intro x hasParent _ position size _
      rw [List.forall_mem_append, List.forall_mem_singleton,
        (asserts x hasParent position size).holds]
      exact and_congr_left fun _ =>
        List.forall_mem_singleton.trans (first x position size).holds
  | false =>
    -- the first sibling of any name is meant, so the name is asked for in a condition
    rw [joinSibling_free starred]
    have widened := describes.addNameTest
    have free : right.addNameTest.starred = false := by rw [starred_addNameTest, starred]
    have step : ((left.join .followingSibling right.addNameTest).addCondition isFirst).lastStep base
        .followingSibling = .slash base (.named .followingSibling) "*"
          (predicates (Expr.conjunction? (right.addNameTest.conditions ++ [isFirst]))) := by
      rw [← test_addNameTest right]
      rfl
    rw [if_pos rfl, step]
    refine finds_nextSibling finds ?_ ?_ fun x => describes.isElement
    · intro x _ typed position size positive
      rw [List.forall_mem_append, List.forall_mem_singleton]
      exact ⟨widened.decides x (Document.isElement_of_hasType typed) position size positive,
        (first x position size).decides⟩
    · intro x _ inside position size positive
      have typed : document.hasType right.addNameTest.named x = true := by
        rw [DescribesBelow.named_addNameTest]
        exact Document.hasType_none.mpr inside
      rw [List.forall_mem_append, List.forall_mem_singleton, (first x position size).holds,
        widened.forall_holds_iff free typed positive, and_comm]

/-- A compound behind a combinator finds what it matches among the related elements, whatever found
those it is related to. -/
theorem finds_connect (finds : base.FindsIn document context Before)
    (describes : right.Describes document type Matched) (left : LocationPath)
    (combinator : Combinator) :
    ((connect left combinator right).lastStep base combinator.link).FindsIn document context
      fun y => (∃ x, Before x ∧ combinator.Relates document x y) ∧ Matched y := by
  cases combinator with
  | descendant =>
    have found := finds_descendant finds describes
    exact found
  | child => exact describes.finds_child finds
  | nextSibling => exact finds_joinSibling_adjacent finds describes left
  | subsequentSibling => exact finds_joinSibling finds describes left

/-- The combinator links the step of a compound to the path in front of it. -/
theorem segments_connect (describes : right.Describes document type Matched) (left : LocationPath)
    (combinator : Combinator) :
    (connect left combinator right).segments =
      left.segments ++ [⟨left.test, left.condition?, combinator.link⟩] := by
  have joined (link : Link) : (left.join link right).segments =
      left.segments ++ [⟨left.test, left.condition?, link⟩] := by
    rw [join, describes.joinedSegments]
  have sibling (adjacent : Bool) : (left.joinSibling right adjacent).segments =
      left.segments ++ [⟨left.test, left.condition?, .followingSibling⟩] := by
    cases starred : right.starred with
    | true =>
      rw [joinSibling_starred starred]
      rfl
    | false =>
      rw [joinSibling_free starred]
      cases adjacent with
      | true => rw [if_pos rfl, addCondition, join, describes.addNameTest.joinedSegments]
      | false => exact joined _
  cases combinator with
  | descendant => exact joined _
  | child => exact joined _
  | nextSibling => exact sibling true
  | subsequentSibling => exact sibling false

end Connect

/-! ### Selectors -/

namespace Selector

/-- The path of a plain selector finds the elements that the selector matches. -/
theorem Tree.exists_finds (spaced : document.IsSpaced) :
    (tree : Tree) → tree.IsPlain →
      ∃ path, tree.pathFrom .generic none = .ok path ∧
        path.fromAnywhere.Finds document (tree.Matches document)
  | .combined left combinator right, ⟨plain, compound⟩ => by
    obtain ⟨before, compiledLeft, finds⟩ := Tree.exists_finds spaced left plain
    obtain ⟨after, compiledRight, describes⟩ := Tree.exists_describes spaced compound
    refine ⟨connect before combinator after, ?_, ?_⟩
    · rw [Tree.pathFrom, compiledLeft]
      simp only [compiledRight, bind, Except.bind, pure, Except.pure]
    · rw [fromAnywhere_linked (segments_connect describes before combinator)]
      exact finds_connect finds describes before combinator
  | .element ns name, plain => by
    obtain ⟨path, compiled, describes⟩ := Tree.exists_describes spaced plain
    exact ⟨path, compiled, describes.finds⟩
  | .restricted base simple, plain => by
    obtain ⟨path, compiled, describes⟩ := Tree.exists_describes spaced plain
    exact ⟨path, compiled, describes.finds⟩

/-- A plain selector is compiled to an expression that, evaluated at the document, selects exactly
the elements that the selector matches. -/
theorem exists_xpath_selects (spaced : document.IsSpaced) {tree : Tree} (plain : tree.IsPlain) :
    ∃ text term list,
      Selector.xpath .generic Options.generic.leading ⟨tree, none⟩ = .ok text ∧
      Grammar.Reads text term ∧
      term.eval document ⟨.tree [], 1, 1⟩ = some (.nodes list) ∧
      ∀ node, node ∈ list ↔ ∃ x, node = .tree x ∧ tree.Matches document x := by
  obtain ⟨path, compiled, finds⟩ := Tree.exists_finds spaced tree plain
  obtain ⟨list, eval, mem⟩ := finds.eval
  have valid : path.fromAnywhere.Valid := (Tree.valid_path compiled).valid_fromAnywhere.1
  have text : Selector.xpath .generic Options.generic.leading ⟨tree, none⟩ =
      .ok path.fromAnywhere.text := by
    rw [text_fromAnywhere]
    exact Selector.xpath_eq_ok_iff.mpr ⟨rfl, path, compiled, rfl⟩
  exact ⟨_, path.fromAnywhere.term, list, text, Expr.reads valid, eval, mem⟩

/-- In an element `a` with two elements `b`, the first of them in class `x`, the selector
`a > b.x:nth-child(odd)` is compiled to what selects the elements it matches. -/
theorem exists_xpath_selects_odd :
    let document : Document := ⟨"a", .none, [.element "b" ⟨[("class", "w x")], by decide⟩ [],
      .text " ", .element "b" .none []]⟩
    let tree : Tree := .combined (.element none (some "a")) .child
      (.restricted (.restricted (.element none (some "b")) (.className "x"))
        (.function ⟨"nth-child", [⟨.ident, "odd", 0⟩]⟩))
    document.IsSpaced ∧ tree.IsPlain ∧ ∃ text term list,
      Selector.xpath .generic Options.generic.leading ⟨tree, none⟩ = .ok text ∧
      Grammar.Reads text term ∧
      term.eval document ⟨.tree [], 1, 1⟩ = some (.nodes list) ∧
      ∀ node, node ∈ list ↔ ∃ x, node = .tree x ∧ tree.Matches document x := by
  intro document tree
  have spaced : document.IsSpaced := Document.forall_value_of_addresses (by decide +kernel)
  have plain : tree.IsPlain := by
    refine ⟨⟨rfl, by decide +kernel⟩, ⟨⟨rfl, by decide +kernel⟩, ?_⟩, ?_⟩
    · exact (by decide +kernel : IsSpaced "x")
    · exact ⟨.fromStart, .children, .odd, ⟨⟨.nthChild, by decide +kernel, rfl⟩, by cbv⟩, by simp⟩
  exact ⟨spaced, plain, exists_xpath_selects spaced plain⟩

end Selector

end SelectorPath
