import SelectorPath.Proofs.Condition.Kinds
import SelectorPath.Proofs.XPath.Selection

/-!
# Predicates of conditions

The conditions on a step stand in one predicate. As soon as there are several of them, each is an
operand of `and`, and only its truth matters. A condition that stands alone is the whole predicate,
and the number `1` then asks for the first node. So a condition that always holds makes no
difference to a step unless it is the only one there.

## Main definitions

* `reached` — the nodes that a step with some conditions leads to
* `HoldAlike`, `StepAlike` — two lists of conditions that hold together, and that steps cannot tell
  apart but for the condition that always holds

## Main results

* `restrict_congr` — conditions that hold at the same nodes leave the same nodes
* `restrict_always` — the condition that always holds, on its own, leaves the first node
* `HoldAlike.stepAlike` — conditions that hold at the same elements make the same steps
-/

namespace SelectorPath.XPath

open Grammar

variable {document : Document} {context : Context}

/-! ### Several conditions -/

/-- Conditions that have values are joined by `and` to a truth value. -/
theorem Expr.exists_eval_foldl_and {first next : Expr} {rest : List Expr}
    (values : ∀ expr ∈ first :: next :: rest, ∃ value, expr.eval document context = some value) :
    ∃ truth, ((next :: rest).foldl (.binary .and) first).eval document context =
        some (.boolean truth) ∧
      (truth = true ↔ ∀ expr ∈ first :: next :: rest, expr.Holds document context) := by
  induction rest generalizing first next with
  | nil =>
    obtain ⟨x, evalFirst⟩ := values first (by simp)
    obtain ⟨y, evalNext⟩ := values next (by simp)
    refine ⟨_, eval_and evalFirst evalNext, ?_⟩
    rw [Bool.and_eq_true, ← holds_iff evalFirst, ← holds_iff evalNext, List.forall_mem_cons,
      List.forall_mem_singleton]
  | cons last rest ih =>
    obtain ⟨x, evalFirst⟩ := values first (by simp)
    obtain ⟨y, evalNext⟩ := values next (by simp)
    -- the first two are one operand of the others
    have both := eval_and evalFirst evalNext
    obtain ⟨truth, eval, iff⟩ := @ih (.binary .and first next) last fun expr member => by
      rcases List.mem_cons.mp member with rfl | member
      · exact ⟨_, both⟩
      · exact values expr (List.mem_cons_of_mem _ (List.mem_cons_of_mem _ member))
    refine ⟨truth, eval, iff.trans ?_⟩
    simp only [List.forall_mem_cons, holds_iff both, holds_iff evalFirst, holds_iff evalNext]
    simp [Value.truth, and_assoc]

theorem Expr.exists_eval_group {conditions : List Expr}
    (all : ∀ expr ∈ conditions, expr.IsCondition) :
    ∀ expr ∈ conditions.map group, ∃ value, expr.eval document context = some value := by
  intro expr member
  obtain ⟨inner, inside, rfl⟩ := List.mem_map.mp member
  exact (all inner inside).exists_eval document context

/-- Unless the only condition is the one that always holds, the predicate of several conditions
holds where all of them do. -/
theorem Expr.exists_eval_conjunction {conditions : List Expr}
    (all : ∀ expr ∈ conditions, expr.IsCondition) (other : conditions ≠ [Condition.always])
    (positive : 0 < context.position) {condition : Expr}
    (joined : conjunction? conditions = some condition) :
    ∃ value, condition.eval document context = some value ∧
      (value.holdsAt context.position = true ↔
        ∀ expr ∈ conditions, expr.Holds document context) := by
  cases joined_of_joinGroups? joined with
  | single =>
    have steady : condition.IsSteady := (all condition List.mem_cons_self).resolve_right
      fun always => other (by rw [always])
    have decides : condition.Decides document context := steady.decides positive
    obtain ⟨value, eval, same⟩ := decides
    exact ⟨value, eval, by rw [same, List.forall_mem_singleton, holds_iff eval]⟩
  | @groups first next rest =>
    obtain ⟨truth, eval, iff⟩ := exists_eval_foldl_and (exists_eval_group all)
    exact ⟨.boolean truth, eval, iff.trans (@List.forall_mem_map _ _ _ (first :: next :: rest) _)⟩

/-! ### What a predicate leaves -/

theorem keep_congr {holds others : Node → Nat → Option Bool} {start : Nat} {nodes : List Node}
    (same : ∀ index node, nodes[index]? = some node →
      holds node (start + index) = others node (start + index)) :
    keep holds start nodes = keep others start nodes := by
  induction nodes generalizing start with
  | nil => rfl
  | cons first rest ih =>
    have here := same 0 first rfl
    have behind := @ih (start + 1) fun index node found => by
      have there := same (index + 1) node found
      rwa [show start + (index + 1) = start + 1 + index by omega] at there
    rw [Nat.add_zero] at here
    rw [keep, keep, here, behind]

/-- The nodes that the predicate of some conditions leaves. -/
def restrict (document : Document) (conditions : List Expr) (nodes : List Node) :
    Option (List Node) :=
  Term.restrict document (Expr.terms (predicates (Expr.conjunction? conditions))) nodes

@[simp] theorem restrict_nil (nodes : List Node) : restrict document [] nodes = some nodes := rfl

theorem keep_some_true {holds : Node → Nat → Option Bool} {start : Nat} {nodes : List Node}
    (all : ∀ index node, nodes[index]? = some node → holds node (start + index) = some true) :
    keep holds start nodes = some nodes := by
  induction nodes generalizing start with
  | nil => rfl
  | cons first rest ih =>
    have here := all 0 first rfl
    have behind := @ih (start + 1) fun index node found => by
      have there := all (index + 1) node found
      rwa [show start + (index + 1) = start + 1 + index by omega] at there
    rw [Nat.add_zero] at here
    rw [keep, here, behind]
    rfl

theorem restrict_of_conjunction {conditions : List Expr} {condition : Expr}
    (joined : Expr.conjunction? conditions = some condition) (nodes : List Node) :
    restrict document conditions nodes =
      keep (fun node position =>
        (condition.eval document ⟨node, position, nodes.length⟩).map (·.holdsAt position)) 1
        nodes := by
  rw [restrict, joined]
  simp [predicates, Expr.terms, Term.restrict]
  rfl

open Classical in
/-- The predicate of several conditions leaves the nodes at whose place all of them hold. -/
theorem restrict_eq_keep {conditions : List Expr} (all : ∀ expr ∈ conditions, expr.IsCondition)
    (other : conditions ≠ [Condition.always]) (nodes : List Node) :
    restrict document conditions nodes =
      keep (fun node position => some (decide (∀ expr ∈ conditions,
        expr.Holds document ⟨node, position, nodes.length⟩))) 1 nodes := by
  cases joined : Expr.conjunction? conditions with
  | none =>
    obtain rfl := Expr.eq_nil_of_joinGroups? joined
    rw [restrict_nil, keep_some_true]
    simp
  | some condition =>
    rw [restrict_of_conjunction joined]
    refine keep_congr fun index node _ => ?_
    let context : Context := ⟨node, 1 + index, nodes.length⟩
    have positive : 0 < context.position := Nat.add_pos_left Nat.one_pos index
    obtain ⟨value, eval, iff⟩ := @Expr.exists_eval_conjunction document context _ all other
      positive _ joined
    rw [eval, Option.map_some, Option.some.injEq, Bool.eq_iff_iff, iff, decide_eq_true_iff]

/-- Conditions that hold at the same nodes leave the same nodes. -/
theorem restrict_congr {conditions others : List Expr}
    (all : ∀ expr ∈ conditions, expr.IsCondition) (other : conditions ≠ [Condition.always])
    (allAlso : ∀ expr ∈ others, expr.IsCondition) (otherAlso : others ≠ [Condition.always])
    {nodes : List Node}
    (same : ∀ index node, nodes[index]? = some node →
      (HoldAt document conditions nodes index node ↔ HoldAt document others nodes index node)) :
    restrict document conditions nodes = restrict document others nodes := by
  classical
  rw [restrict_eq_keep all other, restrict_eq_keep allAlso otherAlso]
  refine keep_congr fun index node found => ?_
  have here := same index node found
  rw [HoldAt, HoldAt, Nat.add_comm] at here
  simp only [here]

theorem keep_some_false {holds : Node → Nat → Option Bool} {start : Nat} {nodes : List Node}
    (none : ∀ node position, start ≤ position → holds node position = some false) :
    keep holds start nodes = some [] := by
  induction nodes generalizing start with
  | nil => rfl
  | cons first rest ih =>
    have behind := @ih (start + 1) fun node position le => none node position (by omega)
    rw [keep, none first start (Nat.le_refl _), behind]
    rfl

/-- The condition that always holds, on its own, leaves the first node. -/
theorem restrict_always (nodes : List Node) :
    restrict document [Condition.always] nodes = some (nodes.take 1) := by
  rw [restrict_of_conjunction rfl]
  have holds (node : Node) (position : Nat) :
      ((Condition.always.eval document ⟨node, position, nodes.length⟩).map (·.holdsAt position)) =
        some (decide (position = 1)) := by
    rw [Condition.always, Expr.eval_integer, Option.map_some, Option.some.injEq, Value.holdsAt,
      Bool.eq_iff_iff, beq_iff_eq, decide_eq_true_iff]
    omega
  cases nodes with
  | nil => rfl
  | cons first rest =>
    simp only [holds]
    rw [keep, keep_some_false fun node position le => by simp; omega]
    rfl

/-! ### Steps -/

/-- The nodes that a step with some conditions leads to. -/
def reached (document : Document) (axis : Axis) (test : String) (conditions : List Expr)
    (start : Node) : Option (List Node) :=
  document.select axis.standard (nodeTest test) start >>= restrict document conditions

theorem eval_step_reached (axis : AxisSpecifier) (test : String) (conditions : List Expr) :
    (Expr.step axis test (predicates (Expr.conjunction? conditions))).eval document context =
      (reached document axis.axis test conditions context.node).map .nodes := by
  simp only [Expr.eval, Expr.term, Term.eval_step, reached]
  cases document.select axis.axis.standard (nodeTest test) context.node with
  | none => rfl
  | some nodes =>
    simp only [Option.bind_eq_bind, Option.bind_some, restrict]
    cases Term.restrict document _ nodes <;> rfl

/-- A step from what was found collects what is reached from each of the nodes. -/
theorem eval_slash_reached (base : Expr) (axis : AxisSpecifier) (test : String)
    (conditions : List Expr) :
    (Expr.slash base axis test (predicates (Expr.conjunction? conditions))).eval document context =
      (do
        let bases ← (← base.eval document context).nodes?
        return .nodes (← collect (reached document axis.axis test conditions) bases)) := rfl

/-- Off the attribute axis, the node tests of steps admit elements only. -/
theorem exists_element_of_select {axis : Axis} (elements : axis ≠ .attribute) {test : String}
    {start : Node} {nodes : List Node}
    (select : document.select axis.standard (nodeTest test) start = some nodes) :
    ∀ node ∈ nodes, ∃ x, node = .tree x ∧ document.IsElement x := by
  intro node member
  obtain ⟨along, -, rfl⟩ := Option.map_eq_some_iff.mp select
  have passes := (List.mem_filter.mp member).2
  have principal : document.isPrincipal axis.standard node = true := by
    unfold nodeTest at passes
    repeat' split at passes
    all_goals simp_all [Document.passes]
  -- attributes pass a name test on their own axis only
  have standard : axis.standard ≠ .attribute := by cases axis <;> simp_all [Axis.standard]
  cases node with
  | tree x => exact ⟨x, rfl, by
    simpa [Document.isPrincipal, standard, Document.IsElement] using principal⟩
  | «attribute» owner name => simp [Document.isPrincipal, standard] at principal

/-- The condition that always holds, on its own, keeps the first node of a step. -/
theorem reached_always (axis : Axis) (test : String) (start : Node) :
    reached document axis test [Condition.always] start =
      (reached document axis test [] start).map (·.take 1) := by
  unfold reached
  cases document.select axis.standard (nodeTest test) start with
  | none => rfl
  | some nodes => exact restrict_always nodes

/-! ### Conditions that hold at the same elements -/

/-- The condition holds at every element of the document. -/
def Expr.HoldsEverywhere (document : Document) (condition : Expr) : Prop :=
  ∀ x, document.IsElement x → ∀ position size, 0 < position →
    condition.Holds document ⟨.tree x, position, size⟩

section Alike

variable {conditions others : List Expr}

/-- At every element and every position, all of the conditions hold if all of the others do. -/
def HoldAlike (document : Document) (conditions others : List Expr) : Prop :=
  ∀ x, document.IsElement x → ∀ position size, 0 < position →
    ((∀ expr ∈ conditions, expr.Holds document ⟨.tree x, position, size⟩) ↔
      ∀ expr ∈ others, expr.Holds document ⟨.tree x, position, size⟩)

theorem HoldAlike.symm (alike : HoldAlike document conditions others) :
    HoldAlike document others conditions :=
  fun x inside position size positive => (alike x inside position size positive).symm

theorem HoldAlike.append (alike : HoldAlike document conditions others) (more : List Expr) :
    HoldAlike document (conditions ++ more) (others ++ more) := by
  intro x inside position size positive
  rw [List.forall_mem_append, List.forall_mem_append, alike x inside position size positive]

/-- One more condition that holds everywhere. -/
theorem HoldAlike.concat {condition : Expr} (holds : condition.HoldsEverywhere document) :
    HoldAlike document (conditions ++ [condition]) conditions := by
  intro x inside position size positive
  rw [List.forall_mem_append, List.forall_mem_singleton]
  exact and_iff_left (holds x inside position size positive)

/-- Under both lists of conditions every step leads to the same nodes, except that the condition
that always holds, where it is alone, keeps the first of them only. -/
structure StepAlike (document : Document) (conditions others : List Expr) : Prop where
  same : conditions ≠ [Condition.always] → others ≠ [Condition.always] →
    ∀ axis test start, axis ≠ .attribute →
      reached document axis test conditions start = reached document axis test others start
  left : conditions = [Condition.always] → ∀ axis test start, axis ≠ .attribute →
    reached document axis test conditions start =
      (reached document axis test others start).map (·.take 1)
  right : others = [Condition.always] → ∀ axis test start, axis ≠ .attribute →
    reached document axis test others start =
      (reached document axis test conditions start).map (·.take 1)

/-- Conditions that hold at the same elements let a step lead to the same nodes. -/
theorem reached_congr (alike : HoldAlike document conditions others)
    (all : ∀ expr ∈ conditions, expr.IsCondition) (other : conditions ≠ [Condition.always])
    (allAlso : ∀ expr ∈ others, expr.IsCondition) (otherAlso : others ≠ [Condition.always])
    (axis : Axis) (test : String) (start : Node) (elements : axis ≠ .attribute) :
    reached document axis test conditions start = reached document axis test others start := by
  unfold reached
  cases select : document.select axis.standard (nodeTest test) start with
  | none => rfl
  | some nodes =>
    refine restrict_congr all other allAlso otherAlso fun index node found => ?_
    obtain ⟨x, rfl, inside⟩ :=
      exists_element_of_select elements select node (List.mem_of_getElem? found)
    exact alike x inside _ _ (Nat.succ_pos index)

/-- The condition that always holds, on its own, keeps the first of the nodes that conditions which
hold everywhere lead to. -/
theorem reached_always_of_holdAlike (alike : HoldAlike document [Condition.always] others)
    (allAlso : ∀ expr ∈ others, expr.IsCondition) (axis : Axis) (test : String) (start : Node)
    (elements : axis ≠ .attribute) :
    reached document axis test [Condition.always] start =
      (reached document axis test others start).map (·.take 1) := by
  by_cases alone : others = [Condition.always]
  · rw [alone, reached_always, Option.map_map]
    refine congrArg (Option.map · _) (funext fun nodes => ?_)
    simp [List.take_take]
  · -- what always holds asks nothing of an element, so neither do the others
    have everywhere : HoldAlike document [] others := fun x inside position size positive =>
      (iff_of_true (by simp) (by simpa using Expr.holds_always)).trans
        (alike x inside position size positive)
    rw [reached_always,
      reached_congr everywhere (by simp) (by simp) allAlso alone axis test start elements]

theorem HoldAlike.stepAlike (alike : HoldAlike document conditions others)
    (all : ∀ expr ∈ conditions, expr.IsCondition) (allAlso : ∀ expr ∈ others, expr.IsCondition) :
    StepAlike document conditions others where
  same other otherAlso := reached_congr alike all other allAlso otherAlso
  left alone := by
    subst alone
    exact reached_always_of_holdAlike alike allAlso
  right alone := by
    subst alone
    exact reached_always_of_holdAlike alike.symm all

end Alike

end SelectorPath.XPath
