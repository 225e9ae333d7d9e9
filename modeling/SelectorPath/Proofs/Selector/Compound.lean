import SelectorPath.Proofs.Selector.Matching
import SelectorPath.Proofs.Text.Case
import SelectorPath.Proofs.XPath.Elements
import SelectorPath.Selector.Path

/-!
# The path of a compound

The path of a compound has one step with conditions. As long as none of them counts, the step says
of any element whether it is matched. Once one counts, the step stands behind `*`, and says it of an
element at its place among the children of its parent. `DescribesBelow` is what both have in common,
and every simple selector keeps it. Which nodes count as parents is left open: behind a path from
anywhere the star finds elements only, and a single step may start at the document as well.

## Main definitions

* `LocationPath.DescribesBelow`, `LocationPath.Describes` — the last step of a path says which
  elements are matched, below some nodes or below elements

## Main results

* `DescribesBelow.addCondition`, `DescribesBelow.addNameTest`, `DescribesBelow.addPosition`,
  `DescribesBelow.addPositionAmong` — each restriction keeps it
* `Selector.Tree.exists_describesBelow` — the path of a compound describes what the compound fits
* `Selector.Tree.exists_describes` — the path of a plain compound describes what it matches
-/

namespace SelectorPath

open Text XPath Grammar Condition

/-! ### Conditions of a series -/

namespace Series

variable {document : Document} {node : Node} {position size : Nat}

/-- The value of a valid expression is the value of its text. -/
theorem eval_of_isBooleanAt {expr : Expr} (valid : expr.Valid) {value : Bool}
    (isBoolean : IsBooleanAt expr.text position size value) :
    expr.eval document ⟨node, position, size⟩ = some (.boolean value) := by
  obtain ⟨term, reads, eval⟩ := isBoolean
  obtain rfl := reads.unique (Expr.reads valid)
  exact eval document node

theorem decides_of_isBooleanAt {expr : Expr} (valid : expr.Valid) {value : Bool}
    (isBoolean : IsBooleanAt expr.text position size value) :
    expr.Decides document ⟨node, position, size⟩ :=
  ⟨_, eval_of_isBooleanAt valid isBoolean, rfl⟩

/-- Every condition of a series is decided at every position. -/
theorem decides_conditions (series : Series) (direction : Direction) :
    ∀ expr ∈ series.conditions direction, expr.Decides document ⟨node, position, size⟩ := by
  intro expr member
  obtain ⟨value, isBoolean⟩ := series.decided_conditions direction position size expr member
  exact decides_of_isBooleanAt (series.valid_conditions direction expr member).1 isBoolean

/-- The conditions of a series hold together at its members. -/
theorem forall_holds_conditions (series : Series) (direction : Direction)
    (positive : 1 ≤ position) (bounded : position ≤ size) :
    (∀ expr ∈ series.conditions direction, expr.Holds document ⟨node, position, size⟩) ↔
      series.Reaches (direction.count position size) := by
  rw [← series.holdsAt_iff direction positive bounded]
  refine forall₂_congr fun expr member => ?_
  have valid := (series.valid_conditions direction expr member).1
  obtain ⟨value, isBoolean⟩ := series.decided_conditions direction position size expr member
  rw [Expr.holds_iff (eval_of_isBooleanAt valid isBoolean)]
  constructor
  · rintro rfl
    exact isBoolean
  · exact fun isTrue => isBoolean.unique isTrue

/-- The condition of a series says that all its conditions hold. -/
theorem asserts_condition {series : Series} {direction : Direction} {condition : Expr}
    (known : series.condition? direction = some condition) :
    condition.Asserts document ⟨node, position, size⟩
      (∀ expr ∈ series.conditions direction, expr.Holds document ⟨node, position, size⟩) := by
  have decides : ∀ expr ∈ series.conditions direction,
      expr.Decides document ⟨node, position, size⟩ := series.decides_conditions direction
  obtain ⟨first, rest, split, rfl⟩ := Expr.join?_eq_some_iff.mp known
  rw [split, List.forall_mem_cons] at decides ⊢
  exact Expr.asserts_foldl_and (.of_decides decides.1) decides.2

/-- Without a condition, all positions are members. -/
theorem reaches_of_condition {series : Series} {direction : Direction}
    (none : series.condition? direction = none) (positive : 1 ≤ position)
    (bounded : position ≤ size) : series.Reaches (direction.count position size) := by
  rw [← series.holdsAt_iff direction positive bounded, HoldsAt]
  rw [condition?] at none
  cases split : series.conditions direction with
  | nil => simp
  | cons first rest => simp [split, Expr.join?] at none

end Series

/-! ### What a path describes -/

/-- The node is a child of one of some nodes. -/
def IsBelow (above : Address → Prop) (x : Address) : Prop :=
  ∃ index parent, x = index :: parent ∧ above parent

/-- The element has a parent that is an element. -/
def Document.HasParent (document : Document) (x : Address) : Prop :=
  ∃ index parent, x = index :: parent ∧ document.IsElement parent

namespace XPath.LocationPath

/-- The name that the last step asks for, if it does not admit every element. -/
def named (path : LocationPath) : Option String := if path.isWildcard then none else some path.test

/-- The path whose last step admits every element, under the given conditions. -/
def widen (path : LocationPath) (conditions : List Expr) : LocationPath :=
  { path with test := "*", conditions := conditions }

@[simp] theorem conditions_widen (path : LocationPath) (conditions : List Expr) :
    (path.widen conditions).conditions = conditions := rfl

@[simp] theorem named_widen (path : LocationPath) (conditions : List Expr) :
    (path.widen conditions).named = none := rfl

/-- The last step, taken as a child step from its parent, selects the element. -/
def SelectsChild (document : Document) (path : LocationPath) (parent x : Address) : Prop :=
  Selects document .child path.test path.conditions (.tree parent) (.tree x)

/-- The last step of the path says which elements are matched. Without a star its conditions hold of
an element wherever it stands; behind a star they hold at its place among the children of its
parent, which is one of the nodes `above`. -/
structure DescribesBelow (document : Document) (path : LocationPath) (above : Address → Prop)
    (type : Option String) (Matched : Address → Prop) : Prop where
  typeName : path.typeName = type
  plain : ∀ name ∈ type, isPlainQName name = true
  named : path.named = none ∨ path.named = type
  typed : ∀ x, Matched x → document.hasType type x = true
  decides : ∀ x, document.IsElement x → ∀ position size, 0 < position →
    ∀ expr ∈ path.conditions, expr.Decides document ⟨.tree x, position, size⟩
  step : (path.starred = false ∧ path.segments = [] ∧
      ∀ x, document.IsElement x → ∀ position size, 0 < position →
        (Matched x ↔ document.hasType path.named x = true ∧
          ∀ expr ∈ path.conditions, expr.Holds document ⟨.tree x, position, size⟩)) ∨
    (path.starred = true ∧ path.segments = [.star] ∧
      ∀ x, Matched x ↔ ∃ parent, above parent ∧ path.SelectsChild document parent x)

/-- The same where the parent is an element, as it is behind the star of a path from anywhere. -/
abbrev Describes (document : Document) (path : LocationPath) (type : Option String)
    (Matched : Address → Prop) : Prop :=
  path.DescribesBelow document document.IsElement type Matched

variable {document : Document} {path : LocationPath} {above : Address → Prop}
  {type : Option String} {Matched : Address → Prop}

namespace DescribesBelow

/-- The node test of the last step is a plain name, qualified or not, or `*`. -/
theorem isTest (describes : path.DescribesBelow document above type Matched) :
    IsTest path.named path.test := by
  have named := describes.named
  unfold LocationPath.named at named ⊢
  by_cases star : path.isWildcard = true
  · rw [if_pos star, eq_of_beq star]
    exact .star
  · rw [if_neg star] at named ⊢
    refine ⟨rfl, fun name member => ?_⟩
    obtain rfl := Option.some.inj member
    exact describes.plain _ (named.resolve_left (Option.some_ne_none _)).symm

theorem isElement (describes : path.DescribesBelow document above type Matched) {x : Address}
    (matched : Matched x) : document.IsElement x :=
  Document.isElement_of_hasType (describes.typed x matched)

/-- What a child step from the parent selects, by the place among the children. -/
theorem selectsChild_iff (isTest : IsTest path.named path.test) {parent x : Address} :
    path.SelectsChild document parent x ↔
      ∃ place, (document.elements path.named parent)[place]? = some x ∧
        ∀ expr ∈ path.conditions, expr.Holds document
          ⟨.tree x, place + 1, (document.elements path.named parent).length⟩ := by
  refine (selects_child isTest).trans (exists_congr fun place => ?_)
  constructor
  · rintro ⟨address, ⟨⟩, found, holds⟩
    exact ⟨found, holds⟩
  · rintro ⟨found, holds⟩
    exact ⟨x, rfl, found, holds⟩

theorem selectsChild_widen {conditions : List Expr} {parent x : Address} :
    (path.widen conditions).SelectsChild document parent x ↔
      ∃ place, (document.elements none parent)[place]? = some x ∧
        ∀ expr ∈ conditions, expr.Holds document
          ⟨.tree x, place + 1, (document.elements none parent).length⟩ :=
  selectsChild_iff (show IsTest (path.widen conditions).named _ from .star)

/-- The place of an element among the children of its parent determines the parent. -/
theorem parent_of_getElem? {type : Option String} {parent x : Address} {place : Nat}
    (found : (document.elements type parent)[place]? = some x) :
    (∃ index, x = index :: parent) ∧ document.hasType type x = true :=
  Document.mem_elements.mp (List.mem_of_getElem? found)

theorem parent_unique {type other : Option String} {parent above x : Address} {place also : Nat}
    (found : (document.elements type parent)[place]? = some x)
    (foundAlso : (document.elements other above)[also]? = some x) : parent = above := by
  obtain ⟨⟨index, rfl⟩, -⟩ := parent_of_getElem? found
  obtain ⟨⟨_, same⟩, -⟩ := parent_of_getElem? foundAlso
  exact (List.cons.inj same).2

/-- What a child step selects with one more condition. -/
theorem selectsChild_addCondition (isTest : IsTest path.named path.test) {parent x : Address}
    {condition : Expr} :
    (path.addCondition condition).SelectsChild document parent x ↔
      ∃ place, (document.elements path.named parent)[place]? = some x ∧
        (∀ expr ∈ path.conditions, expr.Holds document
          ⟨.tree x, place + 1, (document.elements path.named parent).length⟩) ∧
        condition.Holds document
          ⟨.tree x, place + 1, (document.elements path.named parent).length⟩ := by
  have sameTest : IsTest (path.addCondition condition).named (path.addCondition condition).test :=
    isTest
  refine (selectsChild_iff sameTest).trans (exists_congr fun place => and_congr_right fun _ => ?_)
  simp only [LocationPath.addCondition, List.forall_mem_append, List.forall_mem_singleton]
  rfl

theorem decides_append (describes : path.DescribesBelow document above type Matched)
    {condition : Expr} (decides : ∀ x, document.IsElement x → ∀ position size, 0 < position →
      condition.Decides document ⟨.tree x, position, size⟩) :
    ∀ x, document.IsElement x → ∀ position size, 0 < position →
      ∀ expr ∈ path.conditions ++ [condition], expr.Decides document ⟨.tree x, position, size⟩ := by
  intro x inside position size positive expr member
  rcases List.mem_append.mp member with member | member
  · exact describes.decides x inside position size positive expr member
  · rw [List.mem_singleton.mp member]
    exact decides x inside position size positive

/-- One more condition that does not count. -/
theorem addCondition (describes : path.DescribesBelow document above type Matched)
    {condition : Expr} {Also : Address → Prop}
    (asserts : ∀ x, document.IsElement x → ∀ position size, 0 < position →
      condition.Asserts document ⟨.tree x, position, size⟩ (Also x)) :
    (path.addCondition condition).DescribesBelow document above type
      fun x => Matched x ∧ Also x where
  typeName := describes.typeName
  plain := describes.plain
  named := describes.named
  typed x matched := describes.typed x matched.1
  decides := describes.decides_append fun x inside position size positive =>
    (asserts x inside position size positive).decides
  step := by
    refine describes.step.imp ?_ ?_
    · rintro ⟨free, segments, step⟩
      refine ⟨free, segments, fun x inside position size positive => ?_⟩
      -- no place is counted, so the old conditions and the new one stand side by side
      rw [step x inside position size positive, ← (asserts x inside position size positive).holds]
      simp only [LocationPath.addCondition, List.forall_mem_append, List.forall_mem_singleton,
        and_assoc]
      rfl
    · rintro ⟨starred, segments, step⟩
      refine ⟨starred, segments, fun x => ?_⟩
      -- the list that is counted stays the same, and the new condition says the same at every place
      have holds (place size : Nat) (inside : document.IsElement x) :=
        (asserts x inside (place + 1) size (Nat.succ_pos place)).holds
      simp only [step x, selectsChild_addCondition describes.isTest,
        selectsChild_iff describes.isTest]
      constructor
      · rintro ⟨⟨parent, above, place, found, all⟩, also⟩
        have inside := Document.isElement_of_hasType (parent_of_getElem? found).2
        exact ⟨parent, above, place, found, all, (holds _ _ inside).mpr also⟩
      · rintro ⟨parent, above, place, found, all, condition⟩
        have inside := Document.isElement_of_hasType (parent_of_getElem? found).2
        exact ⟨⟨parent, above, place, found, all⟩, (holds _ _ inside).mp condition⟩

theorem congr (describes : path.DescribesBelow document above type Matched)
    {Others : Address → Prop} (same : ∀ x, Matched x ↔ Others x) :
    path.DescribesBelow document above type Others := by
  obtain rfl : Matched = Others := funext fun x => propext (same x)
  exact describes

/-- Behind a star, what is matched has a parent. -/
theorem hasParent (describes : path.DescribesBelow document above type Matched)
    (starred : path.starred = true) {x : Address} (matched : Matched x) : IsBelow above x := by
  obtain ⟨free, -⟩ | ⟨-, -, step⟩ := describes.step
  · rw [starred] at free
    exact absurd free (by decide)
  · obtain ⟨parent, above, selects⟩ := (step x).mp matched
    obtain ⟨place, found, -⟩ := (selectsChild_iff describes.isTest).mp selects
    obtain ⟨⟨index, rfl⟩, -⟩ := parent_of_getElem? found
    exact ⟨index, parent, rfl, above⟩

/-- A star in front asks for a parent. -/
theorem addStar (describes : path.DescribesBelow document above type Matched) :
    path.addStar.DescribesBelow document above type fun x => Matched x ∧ IsBelow above x := by
  obtain ⟨free, segments, step⟩ | ⟨starred, -⟩ := describes.step
  · have added : path.addStar = { path with segments := [.star], starred := true } := by
      rw [LocationPath.addStar, free, segments]
      rfl
    rw [added]
    refine ⟨describes.typeName, describes.plain, describes.named,
      fun x matched => describes.typed x matched.1, describes.decides, .inr ⟨rfl, rfl, fun x => ?_⟩⟩
    have sameStep (parent : Address) :
        SelectsChild document { path with segments := [.star], starred := true } parent x ↔ _ :=
      selectsChild_iff describes.isTest
    simp only [sameStep]
    constructor
    · rintro ⟨matched, index, parent, rfl, above⟩
      have inside := describes.isElement matched
      have typed := ((step _ inside 1 1 Nat.one_pos).mp matched).1
      obtain ⟨place, found⟩ := List.mem_iff_getElem?.mp
        (Document.mem_elements.mpr ⟨⟨index, rfl⟩, typed⟩)
      exact ⟨parent, above, place, found,
        ((step _ inside _ _ (Nat.succ_pos place)).mp matched).2⟩
    · rintro ⟨parent, above, place, found, holds⟩
      obtain ⟨⟨index, rfl⟩, typed⟩ := parent_of_getElem? found
      have inside := Document.isElement_of_hasType typed
      exact ⟨(step _ inside _ _ (Nat.succ_pos place)).mpr ⟨typed, holds⟩,
        index, parent, rfl, above⟩
  · have same : path.addStar = path := by rw [LocationPath.addStar, if_pos starred]
    rw [same]
    exact describes.congr fun x =>
      ⟨fun matched => ⟨matched, describes.hasParent starred matched⟩, And.left⟩

/-- A condition about the places that the last step counts, behind a star. -/
theorem addCounting (describes : path.DescribesBelow document above type Matched)
    (starred : path.starred = true) (condition : Expr) (Counted : Nat → Nat → Prop)
    (decides : ∀ node position size, condition.Decides document ⟨node, position, size⟩)
    (holds : ∀ node place size, place < size →
      (condition.Holds document ⟨node, place + 1, size⟩ ↔ Counted place size)) :
    (path.addCondition condition).DescribesBelow document above type fun x => Matched x ∧
      ∃ parent place, above parent ∧
        (document.elements path.named parent)[place]? = some x ∧
        Counted place (document.elements path.named parent).length where
  typeName := describes.typeName
  plain := describes.plain
  named := describes.named
  typed x matched := describes.typed x matched.1
  decides := describes.decides_append fun _ _ _ _ _ => decides _ _ _
  step := by
    obtain ⟨free, -⟩ | ⟨-, segments, step⟩ := describes.step
    · rw [starred] at free
      exact absurd free (by decide)
    refine .inr ⟨starred, segments, fun x => ?_⟩
    simp only [step x, selectsChild_addCondition describes.isTest,
      selectsChild_iff describes.isTest]
    constructor
    · rintro ⟨⟨parent, above, place, found, all⟩, other, also, -, foundAlso, counted⟩
      -- an element has one parent and one place among its children
      obtain rfl : parent = other := parent_unique found foundAlso
      have bound := (List.getElem?_eq_some_iff.mp found).1
      obtain rfl : place = also := (List.getElem?_inj bound (document.nodup_elements _ parent)).mp
        (found.trans foundAlso.symm)
      exact ⟨parent, above, place, found, all, (holds _ _ _ bound).mpr counted⟩
    · rintro ⟨parent, above, place, found, all, condition⟩
      have bound := (List.getElem?_eq_some_iff.mp found).1
      exact ⟨⟨parent, above, place, found, all⟩, parent, place, above, found,
        (holds _ _ _ bound).mp condition⟩

/-- A child step meets only nodes at which the conditions are decided. -/
theorem decided_child (describes : path.DescribesBelow document above type Matched)
    (parent : Address) : Decided document .child path.test path.conditions (.tree parent) := by
  refine decided_of_select (select_child describes.isTest parent) ?_
  intro node member position size positive expr inside
  obtain ⟨x, found, rfl⟩ := List.mem_map.mp member
  have typed := (Document.mem_elements.mp found).2
  exact describes.decides x (Document.isElement_of_hasType typed) position size positive expr inside

/-- A membership test says what a child step from the parent selects. -/
theorem asserts_membership (describes : path.DescribesBelow document above type Matched)
    {x parent : Address} (child : ∃ index, x = index :: parent) (position size : Nat) :
    path.membership.Asserts document ⟨.tree x, position, size⟩
      (path.SelectsChild document parent x) := by
  obtain ⟨index, rfl⟩ := child
  exact LocationPath.asserts_membership (describes.decided_child parent) position size

theorem asserts_nameIs {x : Address} (inside : document.IsElement x) (name : String)
    (position size : Nat) :
    (Expr.nameIs name).Asserts document ⟨.tree x, position, size⟩
      (document.hasType (some name) x = true) := by
  refine (Condition.asserts_nameIs name).congr ?_
  obtain ⟨actual, known⟩ := Option.isSome_iff_exists.mp inside
  rw [Document.hasType_some, known]
  simp [Document.nodeName, known]

/-- Behind a star with conditions, a membership test takes the place of name and conditions. -/
theorem ofMembership (describes : path.DescribesBelow document above type Matched)
    (starred : path.starred = true) :
    (path.widen [path.membership]).DescribesBelow document above type Matched where
  typeName := describes.typeName
  plain := describes.plain
  named := .inl rfl
  typed := describes.typed
  decides x inside position size _ expr member := by
    obtain ⟨index, parent, rfl⟩ := inside.exists_parent
    rw [List.mem_singleton.mp member]
    exact (describes.asserts_membership ⟨index, rfl⟩ position size).decides
  step := by
    obtain ⟨free, -⟩ | ⟨-, segments, step⟩ := describes.step
    · rw [starred] at free
      exact absurd free (by decide)
    refine .inr ⟨starred, segments, fun x => (step x).trans ?_⟩
    refine exists_congr fun parent => and_congr_right fun _ => Iff.trans ?_ selectsChild_widen.symm
    simp only [List.forall_mem_singleton]
    -- a child has one place among those of its name and one among all, so the place is found anew
    constructor
    · intro selects
      obtain ⟨place, found, -⟩ := (selectsChild_iff describes.isTest).mp selects
      obtain ⟨child, typed⟩ := parent_of_getElem? found
      have inside := Document.isElement_of_hasType typed
      obtain ⟨place, found⟩ := List.mem_iff_getElem?.mp
        (Document.mem_elements.mpr ⟨child, Document.hasType_none.mpr inside⟩)
      exact ⟨place, found, (describes.asserts_membership child _ _).holds.mpr selects⟩
    · rintro ⟨place, found, holds⟩
      obtain ⟨child, -⟩ := parent_of_getElem? found
      exact (describes.asserts_membership child _ _).holds.mp holds

/-- As long as no condition counts, the name can be asked for in one. -/
theorem ofNameTest (describes : path.DescribesBelow document above type Matched)
    (plain : path.starred = false ∨ path.conditions = []) (name : path.named = some path.test) :
    (path.widen (path.conditions ++ [.nameIs path.test])).DescribesBelow document above type
      Matched where
  typeName := describes.typeName
  plain := describes.plain
  named := .inl rfl
  typed := describes.typed
  decides := describes.decides_append fun x inside position size _ =>
    (asserts_nameIs inside path.test position size).decides
  step := by
    obtain ⟨free, segments, step⟩ | ⟨starred, segments, step⟩ := describes.step
    · refine .inl ⟨free, segments, fun x inside position size positive => ?_⟩
      have any : document.hasType none x = true := Document.hasType_none.mpr inside
      rw [step x inside position size positive, name, conditions_widen, named_widen,
        List.forall_mem_append, List.forall_mem_singleton,
        (asserts_nameIs inside path.test position size).holds]
      exact ⟨fun ⟨typed, holds⟩ => ⟨any, holds, typed⟩, fun ⟨_, holds, typed⟩ => ⟨typed, holds⟩⟩
    · -- the step admits more children than before, but there is no condition that could count them
      have none : path.conditions = [] := plain.resolve_left (by simp [starred])
      refine .inr ⟨starred, segments, fun x => (step x).trans ?_⟩
      refine exists_congr fun parent => and_congr_right fun _ => ?_
      refine (selectsChild_iff describes.isTest).trans (Iff.trans ?_ selectsChild_widen.symm)
      rw [name, none]
      simp only [List.nil_append, List.forall_mem_singleton, List.not_mem_nil, false_imp_iff,
        implies_true, and_true]
      rw [← List.mem_iff_getElem?, Document.mem_elements]
      constructor
      · rintro ⟨child, typed⟩
        have inside := Document.isElement_of_hasType typed
        obtain ⟨place, found⟩ := List.mem_iff_getElem?.mp
          (Document.mem_elements.mpr ⟨child, Document.hasType_none.mpr inside⟩)
        exact ⟨place, found, (asserts_nameIs inside path.test _ _).holds.mpr typed⟩
      · rintro ⟨place, found, holds⟩
        obtain ⟨child, any⟩ := parent_of_getElem? found
        exact ⟨child, (asserts_nameIs (Document.isElement_of_hasType any) _ _ _).holds.mp holds⟩

theorem named_addNameTest (path : LocationPath) : path.addNameTest.named = none := by
  unfold addNameTest
  by_cases star : path.isWildcard = true
  · rw [if_pos star, LocationPath.named, if_pos star]
  · rw [if_neg star]
    split <;> rfl

/-- The name of the last step can be asked for in its conditions. -/
theorem addNameTest (describes : path.DescribesBelow document above type Matched) :
    path.addNameTest.DescribesBelow document above type Matched := by
  unfold LocationPath.addNameTest
  by_cases star : path.isWildcard = true
  · rwa [if_pos star]
  rw [if_neg star]
  have name : path.named = some path.test := if_neg star
  by_cases counts : (path.starred && !path.conditions.isEmpty) = true
  · rw [if_pos counts]
    exact describes.ofMembership (Bool.and_eq_true_iff.mp counts).1
  · rw [if_neg counts]
    refine describes.ofNameTest ?_ name
    cases starred : path.starred with
    | false => exact .inl rfl
    | true => exact .inr (by simpa [starred] using counts)

/-! ### Positions -/

section Positions

variable {series : Series} {direction : Direction}

theorem hasParent_of_isNth {named : Option String} {x : Address}
    (nth : document.IsNthBelow above named series direction x) : IsBelow above x := by
  obtain ⟨parent, place, above, found, -⟩ := nth
  obtain ⟨⟨index, rfl⟩, -⟩ := parent_of_getElem? found
  exact ⟨index, parent, rfl, above⟩

/-- A series without a condition reaches every place. -/
theorem isNth_of_hasParent {named : Option String} {x : Address}
    (none : series.condition? direction = none) (typed : document.hasType named x = true)
    (hasParent : IsBelow above x) : document.IsNthBelow above named series direction x := by
  obtain ⟨index, parent, rfl, above⟩ := hasParent
  obtain ⟨place, found⟩ := List.mem_iff_getElem?.mp
    (Document.mem_elements.mpr ⟨⟨index, rfl⟩, typed⟩)
  have bound := (List.getElem?_eq_some_iff.mp found).1
  exact ⟨parent, place, above, found, Series.reaches_of_condition none (Nat.succ_pos place) bound⟩

theorem hasType_named (describes : path.DescribesBelow document above type Matched) {x : Address}
    (matched : Matched x) : document.hasType path.named x = true := by
  rcases describes.named with none | same
  · rw [none]
    exact Document.hasType_none.mpr (describes.isElement matched)
  · rw [same]
    exact describes.typed x matched

/-- The condition of a series in its place restricts to what the series reaches among the elements
that the last step admits. -/
theorem addPosition (describes : path.DescribesBelow document above type Matched) :
    (path.addPosition (series.condition? direction)).DescribesBelow document above type fun x =>
      Matched x ∧ document.IsNthBelow above path.named series direction x := by
  cases known : series.condition? direction with
  | none =>
    refine describes.addStar.congr fun x => and_congr_right fun matched => ?_
    exact ⟨isNth_of_hasParent known (describes.hasType_named matched), hasParent_of_isNth⟩
  | some condition =>
    have starred := starred_addStar path
    have named : path.addStar.named = path.named := by
      unfold LocationPath.addStar
      split <;> rfl
    have counting := describes.addStar.addCounting starred condition
      (fun place size => series.Reaches (direction.count (place + 1) size))
      (fun node position size => (Series.asserts_condition known).decides)
      (fun node place size bound => (Series.asserts_condition known).holds.trans
        (series.forall_holds_conditions direction (Nat.succ_pos place) bound))
    rw [named] at counting
    refine counting.congr fun x => ?_
    exact ⟨fun ⟨⟨matched, _⟩, nth⟩ => ⟨matched, nth⟩,
      fun ⟨matched, nth⟩ => ⟨⟨matched, hasParent_of_isNth nth⟩, nth⟩⟩

/-- A membership test for the places of a series among the elements of one name. -/
theorem asserts_membership_series {name : String} (plain : isPlainQName name = true)
    {condition : Expr} (known : series.condition? direction = some condition) {x : Address}
    (inside : document.IsElement x) (position size : Nat) :
    ((ofTest name).addCondition condition).membership.Asserts document ⟨.tree x, position, size⟩
      (∃ parent place, (document.elements (some name) parent)[place]? = some x ∧
        series.Reaches (direction.count (place + 1)
          (document.elements (some name) parent).length)) := by
  obtain ⟨index, parent, rfl⟩ := inside.exists_parent
  have isTest : IsTest (some name) name := ⟨rfl, by simpa using plain⟩
  have decided : Decided document .child name [condition] (.tree parent) := by
    refine decided_of_select (select_child isTest parent) ?_
    intro node _ position size _ expr member
    rw [List.mem_singleton.mp member]
    exact (Series.asserts_condition known).decides
  have reaches (x : Address) (place size : Nat) (bound : place < size) :
      condition.Holds document ⟨.tree x, place + 1, size⟩ ↔
        series.Reaches (direction.count (place + 1) size) :=
    (Series.asserts_condition known).holds.trans
      (series.forall_holds_conditions direction (Nat.succ_pos place) bound)
  refine (LocationPath.asserts_membership decided position size).congr ((selects_child isTest).trans
    ⟨?_, ?_⟩)
  · rintro ⟨place, address, ⟨⟩, found, holds⟩
    have bound := (List.getElem?_eq_some_iff.mp found).1
    exact ⟨parent, place, found, (reaches _ _ _ bound).mp (holds condition List.mem_cons_self)⟩
  · rintro ⟨above, place, found, reached⟩
    obtain ⟨⟨_, same⟩, -⟩ := parent_of_getElem? found
    obtain rfl := (List.cons.inj same).2
    have bound := (List.getElem?_eq_some_iff.mp found).1
    refine ⟨place, _, rfl, found, fun expr member => ?_⟩
    rw [List.mem_singleton.mp member]
    exact (reaches _ _ _ bound).mpr reached

/-- A series counted among the elements of the type, in whichever way the last step asks for it. -/
theorem addPositionAmong {name : String}
    (describes : path.DescribesBelow document above (some name) Matched) :
    (path.addPositionAmong name (series.condition? direction)).DescribesBelow document above
      (some name) fun x => Matched x ∧ document.IsNthBelow above (some name) series direction x := by
  -- a `*` is counted by membership among the elements of the name, a name test by position
  by_cases star : path.isWildcard = true
  · cases known : series.condition? direction with
    | none =>
      refine describes.addStar.congr fun x => and_congr_right fun matched => ?_
      exact ⟨isNth_of_hasParent known (describes.typed x matched), hasParent_of_isNth⟩
    | some condition =>
      have among : path.addPositionAmong name (some condition) =
          path.addStar.addCondition ((ofTest name).addCondition condition).membership := by
        rw [LocationPath.addPositionAmong, if_pos star]
      rw [among]
      have counted := describes.addStar.addCondition fun x inside position size _ =>
        asserts_membership_series (describes.plain name rfl) known inside position size
      refine counted.congr fun x => ?_
      constructor
      · rintro ⟨⟨matched, index, parent, rfl, above⟩, other, place, found, reached⟩
        obtain ⟨⟨_, same⟩, -⟩ := parent_of_getElem? found
        obtain rfl := (List.cons.inj same).2
        exact ⟨matched, parent, place, above, found, reached⟩
      · rintro ⟨matched, parent, place, above, found, reached⟩
        have hasParent := hasParent_of_isNth ⟨parent, place, above, found, reached⟩
        exact ⟨⟨matched, hasParent⟩, parent, place, found, reached⟩
  · have same : path.addPositionAmong name (series.condition? direction) =
        path.addPosition (series.condition? direction) := by
      unfold LocationPath.addPositionAmong LocationPath.addPosition
      cases series.condition? direction with
      | none => rfl
      | some condition => exact if_neg star
    have named : path.named = some name :=
      describes.named.resolve_left (by simp [LocationPath.named, star])
    have counted : (path.addPosition (series.condition? direction)).DescribesBelow document above
        (some name) fun x => Matched x ∧ document.IsNthBelow above path.named series direction x :=
      describes.addPosition
    rw [named] at counted
    rwa [same]

end Positions

end DescribesBelow

end XPath.LocationPath

/-! ### Compounds -/

open LocationPath

section Compound

variable {document : Document} {path : LocationPath} {above : Address → Prop}
  {type : Option String} {Matched : Address → Prop}

/-- A call counts in one way. -/
theorem FunctionCall.Counts.unique {call : FunctionCall} {direction other : Direction}
    {counting also : Counting} {series same : Series}
    (counts : call.Counts direction counting series) (countsAlso : call.Counts other also same) :
    direction = other ∧ counting = also ∧ series = same := by
  obtain ⟨⟨function, known, counted⟩, parsed⟩ := counts
  obtain ⟨⟨_, knownAlso, countedAlso⟩, parsedAlso⟩ := countsAlso
  obtain rfl := Option.some.inj (known.symm.trans knownAlso)
  obtain ⟨rfl, rfl⟩ := Prod.mk.inj (Option.some.inj (counted.symm.trans countedAlso))
  exact ⟨rfl, rfl, Except.ok.inj (parsed.symm.trans parsedAlso)⟩

/-- A functional pseudo-class that counts restricts a path by positions. -/
theorem FunctionalClass.restrict_of_counting {function : FunctionalClass} {direction : Direction}
    {counting : Counting} (counted : function.counting? = some (direction, counting))
    (options : Options) (path : LocationPath) (call : FunctionCall) :
    function.restrict options path call = restrictPosition path call direction counting := by
  cases function <;>
    simp only [counting?, Option.some.injEq, Prod.mk.injEq, reduceCtorEq] at counted
  all_goals
    obtain ⟨rfl, rfl⟩ := counted
    rfl

/-- Positions are asked for behind a star. -/
theorem starred_restrictPosition {call : FunctionCall} {direction : Direction} {counting : Counting}
    {restricted : LocationPath}
    (compiled : FunctionalClass.restrictPosition path call direction counting = .ok restricted) :
    restricted.starred = true := by
  cases counting with
  | children =>
    obtain ⟨series, _, rfl⟩ := FunctionalClass.restrictPosition_children_eq_ok_iff.mp compiled
    exact starred_addPosition _ _
  | sameType =>
    obtain ⟨type, series, _, _, rfl⟩ :=
      FunctionalClass.restrictPosition_sameType_eq_ok_iff.mp compiled
    exact starred_addPositionAmong _ _ _

namespace Selector

/-- A call that counts restricts the path to what it counts. -/
theorem exists_restrictPosition (describes : path.DescribesBelow document above type Matched)
    {call : FunctionCall} {direction : Direction} {counting : Counting} {series : Series}
    (parsed : Series.parse call.arguments = .ok series)
    (typed : counting = .sameType → type.isSome) :
    ∃ restricted, FunctionalClass.restrictPosition path call direction counting = .ok restricted ∧
      restricted.DescribesBelow document above type fun x =>
        Matched x ∧ document.IsNthBelow above (counting.type document x) series direction x := by
  cases counting with
  | children =>
    refine ⟨_, FunctionalClass.restrictPosition_children_eq_ok_iff.mpr ⟨series, parsed, rfl⟩, ?_⟩
    have counted := @DescribesBelow.addPosition _ _ _ _ _ series direction describes.addNameTest
    rw [DescribesBelow.named_addNameTest] at counted
    exact counted
  | sameType =>
    obtain ⟨name, rfl⟩ := Option.isSome_iff_exists.mp (typed rfl)
    have plain := describes.plain name rfl
    have named : path.namedType? = some name := by
      rw [namedType?, describes.typeName]
      simp [plain]
    refine ⟨_, FunctionalClass.restrictPosition_sameType_eq_ok_iff.mpr
      ⟨name, series, named, parsed, rfl⟩, ?_⟩
    refine describes.addPositionAmong.congr fun x => and_congr_right fun matched => ?_
    rw [Counting.type, Document.hasType_some.mp (describes.typed x matched)]

/-- A call that counts restricts a path by positions, whatever the options. -/
theorem Simple.restrict_of_counts {call : FunctionCall} {direction : Direction}
    {counting : Counting} {series : Series} (counts : call.Counts direction counting series)
    (options : Options) (path : LocationPath) :
    (Simple.function call).restrict options path =
      FunctionalClass.restrictPosition path call direction counting := by
  obtain ⟨⟨function, known, counted⟩, -⟩ := counts
  simp only [Simple.restrict, known, FunctionalClass.restrict_of_counting counted]

/-- A describable simple selector restricts the path to what it fits. -/
theorem Simple.exists_restrict (options : Options) {simple : Simple}
    (describable : simple.IsDescribable type)
    (describes : path.DescribesBelow document above type Matched) :
    ∃ restricted, simple.restrict options path = .ok restricted ∧
      restricted.DescribesBelow document above type fun x =>
        Matched x ∧ simple.Fits options document above x := by
  match simple, describable with
  | .className name, _ =>
    exact ⟨_, rfl, describes.addCondition fun x _ position size positive =>
      asserts_ofClass positive options name⟩
  | .id value, _ =>
    exact ⟨_, rfl, describes.addCondition fun x _ position size _ => asserts_ofId options value⟩
  | .attribute selector, _ =>
    exact ⟨_, rfl, describes.addCondition fun x _ position size positive =>
      asserts_ofAttribute positive options selector⟩
  | .function call, ⟨direction, counting, series, counts, typed⟩ =>
    obtain ⟨restricted, compiled, describes'⟩ := exists_restrictPosition describes counts.2 typed
    refine ⟨restricted, (restrict_of_counts counts options path).trans compiled,
      describes'.congr fun x => and_congr_right fun _ => ⟨?_, ?_⟩⟩
    · exact fun nth => ⟨direction, counting, series, counts, nth⟩
    · rintro ⟨_, _, _, countsAlso, nth⟩
      obtain ⟨rfl, rfl, rfl⟩ := counts.unique countsAlso
      exact nth

/-- The path of a type selector. -/
theorem describes_ofTest {name : Option String}
    (plain : ∀ text ∈ name, isPlainQName text = true) :
    (ofTest (name.getD "*")).DescribesBelow document above name fun x =>
      document.hasType name x = true := by
  have star (text : String) (known : name = some text) : text ≠ "*" := by
    rintro rfl
    exact absurd (plain "*" known) (by decide +kernel)
  have named : (ofTest (name.getD "*")).named = name := by
    cases known : name with
    | none => rfl
    | some text => simp [LocationPath.named, isWildcard, ofTest, star text known]
  refine ⟨?_, plain, .inr named, fun x typed => typed, by simp [ofTest], .inl ⟨rfl, rfl, ?_⟩⟩
  · cases known : name with
    | none => rfl
    | some text => simp [ofTest, star text known]
  · intro x _ position size _
    rw [named]
    simp [ofTest]

/-- The path of a type selector without namespace, its name folded as the options ask for. -/
theorem describes_typePath (options : Options) {name : Option String}
    (plain : ∀ text ∈ name, isPlainName text = true) :
    (typePath options none name).DescribesBelow document above
      (name.map (Options.foldCase options.lowerCaseElementNames)) fun x =>
        document.hasType (name.map (Options.foldCase options.lowerCaseElementNames)) x = true := by
  have folded : ∀ text ∈ name.map (Options.foldCase options.lowerCaseElementNames),
      isPlainName text = true := by
    intro text member
    obtain ⟨written, inside, rfl⟩ := Option.map_eq_some_iff.mp member
    exact isPlainName_foldCase _ (plain written inside)
  have all : (name.map (Options.foldCase options.lowerCaseElementNames)).all isPlainName = true :=
    Option.all_eq_true _ _ |>.mpr folded
  have same : typePath options none name =
      ofTest ((name.map (Options.foldCase options.lowerCaseElementNames)).getD "*") := by
    simp only [typePath, all, Option.all_none, Bool.and_self, if_true]
  rw [same]
  exact describes_ofTest fun text member => isPlainQNameChars_of_isPlainNameChars (folded text member)

/-- The path of a describable compound says which elements the compound fits. -/
theorem Tree.exists_describesBelow (options : Options) (document : Document)
    (above : Address → Prop) : (tree : Tree) → tree.IsDescribable →
      ∃ path, tree.path options = .ok path ∧ path.DescribesBelow document above
        (tree.type?.map (Options.foldCase options.lowerCaseElementNames))
        (tree.Fits options document above)
  | .element _ _, ⟨rfl, plain⟩ =>
    ⟨_, rfl, (describes_typePath options plain).congr fun _ => (and_iff_right rfl).symm⟩
  | .restricted base simple, describable => by
    obtain ⟨path, compiled, describes⟩ :=
      exists_describesBelow options document above base describable.1
    have typed : simple.IsDescribable
        (base.type?.map (Options.foldCase options.lowerCaseElementNames)) := by
      cases simple with
      | function => simpa [Simple.IsDescribable] using describable.2
      | _ => exact describable.2
    obtain ⟨restricted, compiledSimple, describes'⟩ :=
      simple.exists_restrict options typed describes
    refine ⟨restricted, ?_, describes'⟩
    unfold Tree.path at compiled ⊢
    rw [pathFrom, compiled]
    simp only [compiledSimple, bind, Except.bind, pure, Except.pure]
    rfl

/-- The path of a plain compound says which elements the compound matches. -/
theorem Tree.exists_describes (spaced : document.IsSpaced) {tree : Tree}
    (plain : tree.IsPlainCompound) :
    ∃ path, tree.pathFrom .generic none = .ok path ∧
      path.Describes document tree.type? (tree.Matches document) := by
  obtain ⟨path, compiled, describes⟩ :=
    tree.exists_describesBelow .generic document document.IsElement plain.isDescribable
  have folded : tree.type?.map (Options.foldCase false) = tree.type? := by cases tree.type? <;> rfl
  rw [Options.generic, folded] at describes
  exact ⟨path, compiled, describes.congr fun x => Tree.fits_iff_matches spaced x plain⟩

end Selector

end Compound

end SelectorPath
