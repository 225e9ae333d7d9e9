import SelectorPath.Proofs.XPath.Meaning
import SelectorPath.XPath.LocationPath

/-!
# What a step selects

A step with conditions selects the nodes along its axis that pass the node test and at whose place
among those all conditions hold. All conditions stand in one predicate, so the place does not depend
on the order in which they were added.

## Main definitions

* `Selects` — a node is selected by a step from another one

## Main results

* `Expr.asserts_conjunction`, `Expr.asserts_disjunction` — conditions joined to one
* `exists_eval_step`, `exists_eval_slash` — the nodes that a step evaluates to
* `selects_iff` — conditions that do not count say which nodes are selected
-/

namespace SelectorPath.XPath

open Grammar

variable {document : Document} {context : Context}

/-! ### Several conditions -/

theorem Expr.Asserts.of_decides {expr : Expr} (decides : expr.Decides document context) :
    expr.Asserts document context (expr.Holds document context) :=
  ⟨decides, Iff.rfl⟩

/-- Conditions joined by `and` hold together. -/
theorem Expr.asserts_foldl_and {first : Expr} {rest : List Expr} {p : Prop}
    (head : first.Asserts document context p)
    (decides : ∀ expr ∈ rest, expr.Decides document context) :
    (rest.foldl (.binary .and) first).Asserts document context
      (p ∧ ∀ expr ∈ rest, expr.Holds document context) := by
  induction rest generalizing first p with
  | nil => simpa using head
  | cons next rest ih =>
    have joined := head.and (.of_decides (decides next List.mem_cons_self))
    refine (ih joined fun expr member => decides expr (List.mem_cons_of_mem _ member)).congr ?_
    rw [List.forall_mem_cons, and_assoc]

/-- Parentheses change nothing about what is decided. -/
theorem Expr.decides_map_group {conditions : List Expr}
    (decides : ∀ expr ∈ conditions, expr.Decides document context) :
    ∀ expr ∈ conditions.map Expr.group, expr.Decides document context :=
  List.forall_mem_map.mpr decides

/-- Conditions in one predicate hold together. -/
theorem Expr.asserts_conjunction {conditions : List Expr}
    (decides : ∀ expr ∈ conditions, expr.Decides document context) {condition : Expr}
    (joined : conjunction? conditions = some condition) :
    condition.Asserts document context (∀ expr ∈ conditions, expr.Holds document context) := by
  cases joined_of_joinGroups? joined with
  | single => exact (Asserts.of_decides (decides _ List.mem_cons_self)).congr (by simp)
  | @groups first next rest =>
    have head := (Asserts.of_decides (decides first List.mem_cons_self)).group
    have others := decides_map_group (List.forall_mem_cons.mp decides).2
    refine (asserts_foldl_and head others).congr ?_
    rw [List.forall_mem_cons, List.forall_mem_map]
    rfl

/-- One of several conditions joined by `or` holds. -/
theorem Expr.asserts_foldl_or {first : Expr} {rest : List Expr} {p : Prop}
    (head : first.Asserts document context p)
    (decides : ∀ expr ∈ rest, expr.Decides document context) :
    (rest.foldl (.binary .or) first).Asserts document context
      (p ∨ ∃ expr ∈ rest, expr.Holds document context) := by
  induction rest generalizing first p with
  | nil => simpa using head
  | cons next rest ih =>
    have joined := head.or (.of_decides (decides next List.mem_cons_self))
    refine (ih joined fun expr member => decides expr (List.mem_cons_of_mem _ member)).congr ?_
    rw [List.exists_mem_cons_iff, or_assoc]

/-- One of several alternatives holds. -/
theorem Expr.asserts_disjunction {conditions : List Expr}
    (decides : ∀ expr ∈ conditions, expr.Decides document context) {condition : Expr}
    (joined : disjunction? conditions = some condition) :
    condition.Asserts document context (∃ expr ∈ conditions, expr.Holds document context) := by
  cases joined_of_joinGroups? joined with
  | single => exact (Asserts.of_decides (decides _ List.mem_cons_self)).congr (by simp)
  | @groups first next rest =>
    have head := (Asserts.of_decides (decides first List.mem_cons_self)).group
    have others := decides_map_group (List.forall_mem_cons.mp decides).2
    refine (asserts_foldl_or head others).congr ?_
    rw [List.exists_mem_cons_iff]
    refine or_congr Iff.rfl ?_
    simp only [List.mem_map, exists_exists_and_eq_and]
    rfl

/-! ### Predicates -/

/-- A predicate that is decided for every node keeps those for which it holds. -/
theorem exists_keep (holds : Node → Nat → Option Bool) (start : Nat) (nodes : List Node)
    (decided : ∀ index node, nodes[index]? = some node →
      ∃ value, holds node (start + index) = some value) :
    ∃ kept, keep holds start nodes = some kept ∧ ∀ node, node ∈ kept ↔
      ∃ index, nodes[index]? = some node ∧ holds node (start + index) = some true := by
  induction nodes generalizing start with
  | nil => exact ⟨[], rfl, by simp⟩
  | cons first rest ih =>
    obtain ⟨value, here⟩ := decided 0 first rfl
    have shift (index : Nat) : start + 1 + index = start + (index + 1) := by omega
    obtain ⟨kept, eq, mem⟩ := ih (start + 1) fun index node found => by
      rw [shift]
      exact decided (index + 1) node found
    rw [Nat.add_zero] at here
    refine ⟨if value then first :: kept else kept, by simp [keep, here, eq], fun node => ?_⟩
    constructor
    · intro member
      rcases (show node = first ∧ value = true ∨ node ∈ kept by
        cases value <;> simp_all) with ⟨rfl, rfl⟩ | inside
      · exact ⟨0, rfl, here⟩
      · obtain ⟨index, found, holdsThere⟩ := (mem node).mp inside
        exact ⟨index + 1, found, by rwa [shift] at holdsThere⟩
    · rintro ⟨index, found, holdsThere⟩
      cases index with
      | zero =>
        obtain rfl : first = node := by simpa using found
        have isTrue : value = true := by simpa [here] using holdsThere
        simp [isTrue]
      | succ index =>
        have inside := (mem node).mpr ⟨index, found, by rwa [shift]⟩
        split
        · exact List.mem_cons_of_mem _ inside
        · exact inside

/-- The conditions hold at the place `index` of a node among others. -/
def HoldAt (document : Document) (conditions : List Expr) (nodes : List Node) (index : Nat)
    (node : Node) : Prop :=
  ∀ expr ∈ conditions, expr.Holds document ⟨node, index + 1, nodes.length⟩

/-- All conditions are decided wherever one of the nodes stands. -/
def DecideAmong (document : Document) (conditions : List Expr) (nodes : List Node) : Prop :=
  ∀ index node, nodes[index]? = some node → ∀ expr ∈ conditions,
    expr.Decides document ⟨node, index + 1, nodes.length⟩

/-- The predicate of some conditions keeps the nodes at whose place they all hold. -/
theorem exists_restrict {conditions : List Expr} {nodes : List Node}
    (decide : DecideAmong document conditions nodes) :
    ∃ kept, Term.restrict document
        (Expr.terms (predicates (Expr.conjunction? conditions))) nodes = some kept ∧
      ∀ node, node ∈ kept ↔
        ∃ index, nodes[index]? = some node ∧ HoldAt document conditions nodes index node := by
  cases joined : Expr.conjunction? conditions with
  | none =>
    have empty := Expr.eq_nil_of_joinGroups? joined
    exact ⟨nodes, rfl, fun node => by simp [empty, HoldAt, List.mem_iff_getElem?]⟩
  | some condition =>
    have asserts (index : Nat) (node : Node) (found : nodes[index]? = some node) :=
      Expr.asserts_conjunction (decide index node found) joined
    let holds := fun (node : Node) (position : Nat) =>
      (condition.eval document ⟨node, position, nodes.length⟩).map (·.holdsAt position)
    obtain ⟨kept, eq, mem⟩ := exists_keep holds 1 nodes fun index node found => by
      obtain ⟨value, eval, -⟩ := (asserts index node found).decides
      exact ⟨_, by simp only [holds]; rw [Nat.add_comm, eval]; rfl⟩
    have passed : passing (Term.eval document condition.term) nodes = some kept := eq
    have single : Term.restrict document (Expr.terms (predicates (some condition))) nodes =
        some kept := by
      simp [predicates, Expr.terms, Term.restrict, passed]
    refine ⟨kept, single, fun node => (mem node).trans (exists_congr fun index => ?_)⟩
    refine and_congr_right fun found => ?_
    have asserts := asserts index node found
    obtain ⟨value, eval, asPredicate⟩ := asserts.decides
    simp only [holds]
    rw [HoldAt, ← asserts.holds, Expr.holds_iff eval, Nat.add_comm, eval, Option.map_some,
      Option.some.injEq]
    exact iff_of_eq (congrArg (· = true) asPredicate)

/-! ### Steps -/

/-- The step along `axis` from a node selects another node, at whose place all conditions hold. -/
def Selects (document : Document) (axis : Axis) (test : String) (conditions : List Expr)
    (start node : Node) : Prop :=
  ∃ nodes index, document.select axis.standard (nodeTest test) start = some nodes ∧
    nodes[index]? = some node ∧ HoldAt document conditions nodes index node

/-- The step along `axis` from a node leads to nodes at which all conditions are decided. -/
def Decided (document : Document) (axis : Axis) (test : String) (conditions : List Expr)
    (start : Node) : Prop :=
  ∃ nodes, document.select axis.standard (nodeTest test) start = some nodes ∧
    DecideAmong document conditions nodes

/-- The nodes that a step leads to from one node. -/
theorem exists_step {axis : Axis} {test : String} {conditions : List Expr} {start : Node}
    (decided : Decided document axis test conditions start) :
    ∃ kept, (document.select axis.standard (nodeTest test) start >>=
        Term.restrict document (Expr.terms (predicates (Expr.conjunction? conditions)))) =
          some kept ∧
      ∀ node, node ∈ kept ↔ Selects document axis test conditions start node := by
  obtain ⟨nodes, select, decide⟩ := decided
  obtain ⟨kept, eq, mem⟩ := exists_restrict decide
  refine ⟨kept, by simp [select, eq], fun node => (mem node).trans ?_⟩
  constructor
  · rintro ⟨index, found, holds⟩
    exact ⟨nodes, index, select, found, holds⟩
  · rintro ⟨others, index, selectAlso, found, holds⟩
    obtain rfl := Option.some.inj (select.symm.trans selectAlso)
    exact ⟨index, found, holds⟩

/-- A step from the context node evaluates to what it selects. -/
theorem exists_eval_step (context : Context) (axis : AxisSpecifier) {test : String}
    {conditions : List Expr}
    (decided : Decided document axis.axis test conditions context.node) :
    ∃ list, (Expr.step axis test (predicates (Expr.conjunction? conditions))).eval document
        context = some (.nodes list) ∧
      ∀ node, node ∈ list ↔ Selects document axis.axis test conditions context.node node := by
  obtain ⟨kept, eq, mem⟩ := exists_step decided
  refine ⟨kept, ?_, mem⟩
  simp only [Expr.eval, Expr.term, Term.eval_step]
  simp only [Option.bind_eq_bind] at eq ⊢
  rw [← Option.bind_assoc, eq]
  rfl

/-- Where positions do not matter to the conditions, they say which nodes are selected. -/
theorem selects_iff {axis : Axis} {test : String} {conditions : List Expr} {start : Node}
    {nodes : List Node} (select : document.select axis.standard (nodeTest test) start = some nodes)
    (claim : Node → Prop)
    (same : ∀ node ∈ nodes, ∀ position size, 0 < position →
      ((∀ expr ∈ conditions, expr.Holds document ⟨node, position, size⟩) ↔ claim node))
    (node : Node) :
    Selects document axis test conditions start node ↔ node ∈ nodes ∧ claim node := by
  constructor
  · rintro ⟨others, index, selectAlso, found, holds⟩
    obtain rfl := Option.some.inj (select.symm.trans selectAlso)
    have member := List.mem_of_getElem? found
    exact ⟨member, (same node member _ _ (Nat.succ_pos index)).mp holds⟩
  · rintro ⟨member, claimed⟩
    obtain ⟨index, found⟩ := List.mem_iff_getElem?.mp member
    exact ⟨nodes, index, select, found, (same node member _ _ (Nat.succ_pos index)).mpr claimed⟩

/-- Conditions that are decided at every position are decided at the nodes of a step. -/
theorem decided_of_select {axis : Axis} {test : String} {conditions : List Expr} {start : Node}
    {nodes : List Node} (select : document.select axis.standard (nodeTest test) start = some nodes)
    (decides : ∀ node ∈ nodes, ∀ position size, 0 < position →
      ∀ expr ∈ conditions, expr.Decides document ⟨node, position, size⟩) :
    Decided document axis test conditions start :=
  ⟨nodes, select, fun index node found =>
    decides node (List.mem_of_getElem? found) _ _ (Nat.succ_pos index)⟩

theorem exists_collect {select : Node → Option (List Node)} {p : Node → Node → Prop}
    {nodes : List Node}
    (each : ∀ start ∈ nodes, ∃ list, select start = some list ∧ ∀ node, node ∈ list ↔ p start node) :
    ∃ list, collect select nodes = some list ∧
      ∀ node, node ∈ list ↔ ∃ start ∈ nodes, p start node := by
  induction nodes with
  | nil => exact ⟨[], rfl, by simp⟩
  | cons first rest ih =>
    obtain ⟨here, eqHere, memHere⟩ := each first List.mem_cons_self
    obtain ⟨others, eq, mem⟩ := ih fun start member => each start (List.mem_cons_of_mem _ member)
    refine ⟨here ++ others, by simp [collect, eqHere, eq], fun node => ?_⟩
    rw [List.mem_append, memHere, mem]
    simp

/-- A step from the nodes of `base` evaluates to what it selects from any of them. -/
theorem exists_eval_slash {base : Expr} {bases : List Node}
    (eval : base.eval document context = some (.nodes bases)) (axis : AxisSpecifier)
    {test : String} {conditions : List Expr}
    (decided : ∀ start ∈ bases, Decided document axis.axis test conditions start) :
    ∃ list, (Expr.slash base axis test (predicates (Expr.conjunction? conditions))).eval document
        context = some (.nodes list) ∧
      ∀ node, node ∈ list ↔
        ∃ start ∈ bases, Selects document axis.axis test conditions start node := by
  obtain ⟨list, eq, mem⟩ := exists_collect fun start member => exists_step (decided start member)
  refine ⟨list, ?_, mem⟩
  unfold Expr.eval at *
  simp only [Expr.term, Term.eval_path, eval, Option.bind_eq_bind, Option.bind_some, Value.nodes?] at eq ⊢
  rw [eq]
  rfl

end SelectorPath.XPath
