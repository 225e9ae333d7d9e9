import SelectorPath.Condition.FunctionalClass
import SelectorPath.Condition.PseudoClass
import SelectorPath.Proofs.XPath.Kinds

/-!
# The kinds of conditions

Most conditions are truth values or node-sets, which say the same in a predicate and as an operand.
The others are the numbers `0` and `1`, which as truth values never hold and always hold. In a
predicate a number is a position. No node is at position `0`, so that the first of the two says the
same there; but `1` is the position of the first node.

## Main definitions

* `Expr.IsClaim` — an expression is a truth value or a node-set
* `Expr.IsSteady` — a claim, or the condition that never holds
* `Expr.IsCondition` — a steady condition, or the one that always holds

## Main results

* `Expr.IsSteady.decides` — a steady condition says the same in both places
* `Condition.isSteady_ofAttribute`, `Condition.isSteady_ofPseudoClass` — what selectors ask for
-/

namespace SelectorPath

open XPath Grammar

namespace XPath.Expr

variable {document : Document} {context : Context} {expr : Expr}

/-- The expression is a truth value or a node-set. -/
def IsClaim (expr : Expr) : Prop := expr.kind? = some .boolean ∨ expr.kind? = some .nodes

/-- A claim, or the condition that never holds. -/
def IsSteady (expr : Expr) : Prop := expr.IsClaim ∨ expr = Condition.never

/-- A steady condition, or the one that always holds. -/
def IsCondition (expr : Expr) : Prop := expr.IsSteady ∨ expr = Condition.always

theorem isClaim_of_boolean (known : expr.kind? = some .boolean) : expr.IsClaim := .inl known

theorem isClaim_of_nodes (known : expr.kind? = some .nodes) : expr.IsClaim := .inr known

theorem IsClaim.isSteady (claim : expr.IsClaim) : expr.IsSteady := .inl claim

theorem IsSteady.isCondition (steady : expr.IsSteady) : expr.IsCondition := .inl steady

theorem isSteady_never : Condition.never.IsSteady := .inr rfl

theorem isCondition_always : Condition.always.IsCondition := .inr rfl

/-- A claim says the same in a predicate as in an operand. -/
theorem IsClaim.decides (claim : expr.IsClaim) : expr.Decides document context := by
  rcases claim with known | known
  all_goals
    obtain ⟨value, eval, isKind⟩ := expr.exists_eval known document context
    refine ⟨value, eval, ?_⟩
    cases value <;> simp_all [Value.kind, Value.holdsAt]

/-- So does every steady condition, since nothing is at position zero. -/
theorem IsSteady.decides (steady : expr.IsSteady) (positive : 0 < context.position) :
    expr.Decides document context := by
  rcases steady with claim | rfl
  · exact claim.decides
  · exact (asserts_zero positive).decides

/-- Every condition has a value. -/
theorem IsCondition.isSome_kind? (condition : expr.IsCondition) : expr.kind?.isSome := by
  rcases condition with ((known | known) | rfl) | rfl
  · rw [known]; rfl
  · rw [known]; rfl
  · rfl
  · rfl

theorem IsCondition.exists_eval (condition : expr.IsCondition) (document : Document)
    (context : Context) : ∃ value, expr.eval document context = some value := by
  obtain ⟨kind, known⟩ := Option.isSome_iff_exists.mp condition.isSome_kind?
  obtain ⟨value, eval, -⟩ := expr.exists_eval known document context
  exact ⟨value, eval⟩

theorem holds_always : Condition.always.Holds document context := ⟨_, eval_integer 1, rfl⟩

/-- The condition that always holds is not steady. -/
theorem IsSteady.ne_always (steady : expr.IsSteady) : expr ≠ Condition.always := by
  rintro rfl
  rcases steady with (known | known) | same
  · exact nomatch known
  · exact nomatch known
  · exact nomatch same

/-! ### Operands -/

theorem kind?_not {arguments : Expr} (known : arguments.kind?.isSome) :
    (Expr.call .not [arguments]).kind? = some .boolean := by
  obtain ⟨kind, known⟩ := Option.isSome_iff_exists.mp known
  simp [kind?, kinds?, known, Function.kind?]

theorem kind?_connective {operator : XPath.Operator} (connects : operator = .or ∨ operator = .and)
    {left right : Expr} (known : left.kind?.isSome) (also : right.kind?.isSome) :
    (Expr.binary operator left right).kind? = some .boolean := by
  obtain ⟨kind, known⟩ := Option.isSome_iff_exists.mp known
  obtain ⟨other, also⟩ := Option.isSome_iff_exists.mp also
  rcases connects with rfl | rfl <;> simp [kind?, known, also, Operator.kind?]

/-- Several expressions with a kind, joined by a connective. -/
theorem kind?_foldl {operator : XPath.Operator} (connects : operator = .or ∨ operator = .and)
    {first : Expr} {rest : List Expr} (known : first.kind?.isSome)
    (others : ∀ expr ∈ rest, expr.kind?.isSome) :
    (rest.foldl (.binary operator) first).kind?.isSome ∧
      (rest ≠ [] → (rest.foldl (.binary operator) first).kind? = some .boolean) := by
  induction rest generalizing first with
  | nil => exact ⟨known, fun empty => absurd rfl empty⟩
  | cons next rest ih =>
    have joined := kind?_connective connects known (others next List.mem_cons_self)
    have behind := ih (by rw [joined]; rfl) fun expr member =>
      others expr (List.mem_cons_of_mem _ member)
    refine ⟨behind.1, fun _ => ?_⟩
    cases rest with
    | nil => exact joined
    | cons => exact behind.2 (by simp)

/-- Conditions joined by a connective in parentheses are one condition. -/
theorem isClaim_join_group {operator : XPath.Operator} (connects : operator = .or ∨ operator = .and)
    {first next : Expr} {rest : List Expr}
    (conditions : ∀ expr ∈ first :: next :: rest, expr.IsCondition) :
    (((next :: rest).map Expr.group).foldl (Expr.binary operator) (Expr.group first)).IsClaim := by
  have kinds : ∀ expr ∈ (first :: next :: rest).map Expr.group, expr.kind?.isSome := by
    intro expr member
    obtain ⟨inner, inside, rfl⟩ := List.mem_map.mp member
    exact (conditions inner inside).isSome_kind?
  exact .inl ((kind?_foldl connects (kinds _ (by simp)) fun expr member =>
    kinds expr (List.mem_cons_of_mem _ member)).2 (by simp))

theorem Joined.isCondition {operator : XPath.Operator} {conditions : List Expr} {condition : Expr}
    (joined : Joined operator conditions condition) (connects : operator = .or ∨ operator = .and)
    (all : ∀ expr ∈ conditions, expr.IsCondition) : condition.IsCondition := by
  cases joined with
  | single => exact all _ List.mem_cons_self
  | groups => exact (isClaim_join_group connects all).isSteady.isCondition

theorem isCondition_conjunction {conditions : List Expr}
    (all : ∀ expr ∈ conditions, expr.IsCondition) :
    ∀ condition ∈ conjunction? conditions, condition.IsCondition :=
  fun _ member => (joined_of_joinGroups? member).isCondition (.inr rfl) all

theorem isCondition_disjunction {conditions : List Expr}
    (all : ∀ expr ∈ conditions, expr.IsCondition) :
    ∀ condition ∈ disjunction? conditions, condition.IsCondition :=
  fun _ member => (joined_of_joinGroups? member).isCondition (.inl rfl) all

end XPath.Expr

namespace Condition

open Expr

/-! ### Attributes -/

theorem kind?_attributeNamed (name : String) : (attributeNamed name).kind? = some .nodes := by
  unfold attributeNamed
  split <;> rfl

theorem kind?_attributeInNamespace (ns name : String) :
    (attributeInNamespace ns name).kind? = some .nodes := by
  unfold attributeInNamespace
  split
  · rfl
  · exact kind?_attributeNamed _

theorem isSteady_hasWord {attr : Expr} (known : attr.kind? = some .nodes) (word : String) :
    (hasWord attr word).IsSteady := by
  unfold hasWord
  split
  · exact (isClaim_of_boolean (by
      simp [kind?, kinds?, known, Function.kind?, Operator.kind?])).isSteady
  · exact isSteady_never

theorem isSteady_unlessEmpty {test : Expr} (claim : test.IsClaim) (value : String) :
    (unlessEmpty value test).IsSteady := by
  unfold unlessEmpty
  split
  · exact isSteady_never
  · exact claim.isSteady

/-- What an operator asks of an attribute. -/
theorem isSteady_compare {attr : Expr} (known : attr.kind? = some .nodes)
    (operator : AttributeOperator) (value : String) : (compare attr operator value).IsSteady := by
  cases operator with
  | present => exact (isClaim_of_nodes known).isSteady
  | includes => exact isSteady_hasWord known value
  | equal | dashMatch | notEqual =>
    exact (isClaim_of_boolean (by simp [compare, ifPresent, kind?, kinds?, known, Function.kind?,
      Operator.kind?, Kind.isComparable])).isSteady
  | prefixMatch | suffixMatch | substringMatch =>
    exact isSteady_unlessEmpty (isClaim_of_boolean (by simp [ifPresent, hasSuffix, kind?, kinds?,
      known, Function.kind?, Operator.kind?, Kind.isComparable])) value

theorem isSteady_ofAttribute (options : Options) (selector : AttributeSelector) :
    (ofAttribute options selector).IsSteady := by
  refine isSteady_compare ?_ selector.operator _
  split
  · exact kind?_attributeNamed _
  · exact kind?_attributeInNamespace _ _

theorem isSteady_ofClass (options : Options) (name : String) : (ofClass options name).IsSteady :=
  isSteady_hasWord (kind?_attributeNamed _) name

theorem isSteady_ofId (options : Options) (value : String) : (ofId options value).IsSteady :=
  isSteady_compare (kind?_attributeNamed _) .equal value

/-! ### Pseudo-classes -/

theorem isSteady_inHtml {name : String} {condition : Expr} (known : inHtml? name = some condition) :
    condition.IsSteady := by
  obtain ⟨-, rfl⟩ | ⟨-, rfl⟩ | ⟨-, rfl⟩ | ⟨-, rfl⟩ := inHtml?_cases known
  all_goals exact (isClaim_of_boolean rfl).isSteady

theorem Structural.isSteady {path : LocationPath} {name : String} {condition : Expr}
    (structural : Structural path name condition) :
    condition.IsSteady ∨ name = "scope" ∧ condition = always := by
  cases structural with
  | scope => exact .inr ⟨rfl, rfl⟩
  | never => exact .inl isSteady_never
  | root | firstChild | lastChild | onlyChild | firstOfType | lastOfType | onlyOfType | empty =>
    exact .inl (isClaim_of_boolean rfl).isSteady

/-- Of the pseudo-classes without arguments only `:scope` has the condition that always holds. -/
theorem isSteady_ofPseudoClass {options : Options} {path : LocationPath} {name : String}
    {condition : Expr} (known : ofPseudoClass options path name = .ok condition) :
    condition.IsSteady ∨ name = "scope" ∧ condition = always := by
  obtain html | structural := ofPseudoClass_cases known
  · exact .inl (isSteady_inHtml html)
  · exact structural.isSteady

theorem isCondition_ofPseudoClass {options : Options} {path : LocationPath} {name : String}
    {condition : Expr} (known : ofPseudoClass options path name = .ok condition) :
    condition.IsCondition := by
  obtain steady | ⟨-, rfl⟩ := isSteady_ofPseudoClass known
  · exact steady.isCondition
  · exact isCondition_always

/-! ### Functional pseudo-classes -/

theorem isClaim_containsText (value : String) : (containsText value).IsClaim :=
  isClaim_of_boolean rfl

theorem isClaim_ofLanguage (options : Options) (value : String) :
    (ofLanguage options value).IsClaim := by
  unfold ofLanguage
  split
  · exact isClaim_of_nodes (by simp [kind?, kinds?, kind?_attributeNamed, foldedWithHyphen,
      Function.kind?])
  · exact isClaim_of_boolean rfl

end Condition

end SelectorPath
