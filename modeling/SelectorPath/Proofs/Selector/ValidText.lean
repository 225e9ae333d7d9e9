import Mathlib
import SelectorPath.Proofs.Condition.Validity
import SelectorPath.Proofs.Selector.Reader
import SelectorPath.Selector.Path

/-!
# Compiled selectors are expressions of XPath

Whatever names and strings a selector holds, what it is compiled to is an expression of XPath 1.0:
the path of every tree can be written, and the paths of a group are joined by `|`. The text in front
of every path must itself be the axis of a step, as `descendant-or-self::` is.

## Main results

* `Selector.Tree.valid_path` — the path of a tree can be written
* `Options.reads_xpath` — an accepted group is compiled to an expression
-/

namespace SelectorPath

open XPath

/-- Whatever it is, a name can be asked for in a condition. -/
theorem LocationPath.valid_addNameTest_ofTest (test : String) :
    (LocationPath.ofTest test).addNameTest.Valid := by
  by_cases star : test = "*"
  · rw [star]
    exact (LocationPath.valid_ofTest .star).addNameTest
  · refine ⟨⟨[], ?_, by simp⟩, ?_, ?_⟩ <;>
      simp [LocationPath.addNameTest, LocationPath.ofTest, LocationPath.isWildcard, star,
        IsNodeTest.star, LocationPath.valid_nameIs]

theorem valid_typePath (options : Options) (ns name : Option String) :
    (typePath options ns name).Valid := by
  unfold typePath
  simp only
  split
  · rename_i plain
    rw [Bool.and_eq_true] at plain
    obtain ⟨plainName, plainNs⟩ := plain
    cases ns with
    | none =>
      cases name with
      | none => exact LocationPath.valid_ofTest .star
      | some name => exact LocationPath.valid_ofTest (.of_plain (by simpa using plainName))
    | some ns =>
      have plainNs : isPlainName ns = true := by simpa using plainNs
      cases name with
      | none =>
        have test : ns ++ ":" ++ "*" = ns ++ ":*" := by
          rw [String.append_assoc]
          rfl
        exact LocationPath.valid_ofTest (.inr (.inr ⟨ns, plainNs, test⟩))
      | some name => exact LocationPath.valid_ofTest (.of_pair plainNs (by simpa using plainName))
  · split
    · exact LocationPath.valid_addNameTest_ofTest _
    · exact LocationPath.valid_addNameTest_ofTest _

namespace Selector

theorem Simple.valid_restrict {options : Options} {path restricted : LocationPath}
    {simple : Simple} (valid : path.Valid)
    (compiled : simple.restrict options path = .ok restricted) : restricted.Valid := by
  match simple, compiled with
  | .className name, compiled =>
    obtain rfl := Except.ok.inj compiled
    exact valid.addCondition (Condition.valid_ofClass options name)
  | .id value, compiled =>
    obtain rfl := Except.ok.inj compiled
    exact valid.addCondition (Condition.valid_ofId options value)
  | .attribute selector, compiled =>
    obtain rfl := Except.ok.inj compiled
    exact valid.addCondition (Condition.valid_ofAttribute options selector)
  | .pseudoClass name, compiled =>
    obtain ⟨condition, known, rfl⟩ := restrict_pseudoClass_eq_ok_iff.mp compiled
    exact valid.addCondition (Condition.valid_ofPseudoClass known)
  | .function call, compiled =>
    obtain ⟨known, _, compiled⟩ := restrict_function_eq_ok_iff.mp compiled
    exact FunctionalClass.valid_restrict valid compiled

end Selector

/-! ### Combinators -/

/-- The link that a combinator puts between two steps. -/
def Combinator.link : Combinator → Link
  | .descendant => .descendant
  | .child => .child
  | .nextSibling | .subsequentSibling => .followingSibling

theorem Combinator.link_ne_verbatim (combinator : Combinator) (text : String) :
    combinator.link ≠ .verbatim text := by
  cases combinator <;> simp [link]

/-- Behind any path and a combinator, a valid path can be written. -/
theorem valid_connect_behind {right : LocationPath} (valid : right.Valid) (left : LocationPath)
    (combinator : Combinator) :
    (connect left combinator right).ValidBehind
      (left.segments ++ [⟨left.test, left.condition?, combinator.link⟩]) := by
  cases combinator with
  | descendant => exact valid.join_behind left .descendant
  | child => exact valid.join_behind left .child
  | nextSibling => exact valid.joinSibling_behind left true
  | subsequentSibling => exact valid.joinSibling_behind left false

/-- The segments that a path starts with if it starts at the origin. -/
def Origin.lead : Origin → List Segment
  | none => []
  | some (start, combinator) =>
    start.segments ++ [⟨start.test, start.condition?, combinator.link⟩]

theorem Origin.valid_attach (origin : Origin) {path : LocationPath} (valid : path.Valid) :
    (origin.attach path).ValidBehind origin.lead := by
  match origin with
  | none => exact valid
  | some (start, combinator) => exact valid_connect_behind valid start combinator

/-! ### Trees -/

theorem valid_argumentCondition {path : LocationPath} (valid : path.Valid) :
    ∀ condition ∈ argumentCondition? path, condition.Valid := by
  intro condition member
  unfold argumentCondition? at member
  split at member
  · obtain rfl : condition = _ := by simpa [eq_comm] using member
    exact valid.membership
  · exact valid.addNameTest.condition condition member

theorem valid_negationCondition {path : LocationPath} (valid : path.Valid) :
    (negationCondition path).Valid := by
  unfold negationCondition
  split
  · rename_i condition known
    exact ⟨valid_argumentCondition valid condition known, trivial⟩
  · trivial

namespace Selector

mutual

/-- The path of a tree, its first compound behind an origin, can be written behind that. -/
theorem Tree.valid_pathFrom {options : Options} {origin : Origin} :
    (tree : Tree) → {path : LocationPath} → tree.pathFrom options origin = .ok path →
      path.ValidBehind origin.lead
  | .element ns name, path, compiled => by
    obtain rfl := Except.ok.inj compiled
    exact origin.valid_attach (valid_typePath options ns name)
  | .restricted base simple, path, compiled => by
    obtain ⟨before, restricted, compiledBase, compiledSimple, rfl⟩ :=
      pathFrom_restricted_eq_ok_iff.mp compiled
    have valid := simple.valid_restrict (valid_pathFrom base compiledBase) compiledSimple
    exact origin.valid_attach valid
  | .negation base argument, path, compiled => by
    obtain ⟨before, other, compiledBase, compiledArgument, rfl⟩ :=
      pathFrom_negation_eq_ok_iff.mp compiled
    have condition := valid_negationCondition (valid_pathFrom argument compiledArgument)
    exact origin.valid_attach ((valid_pathFrom base compiledBase).addCondition condition)
  | .anyOf kind base arguments, path, compiled => by
    obtain ⟨before, alternatives, compiledBase, compiledArguments, rfl⟩ :=
      pathFrom_anyOf_eq_ok_iff.mp compiled
    have all := valid_conditions arguments compiledArguments
    exact origin.valid_attach ((valid_pathFrom base compiledBase).addAlternatives all)
  | .relation base combinator argument, path, compiled => by
    obtain ⟨before, related, compiledBase, compiledArgument, rfl⟩ :=
      pathFrom_relation_eq_ok_iff.mp compiled
    have behind := valid_pathFrom argument compiledArgument
    have condition :=
      LocationPath.valid_toExpr_behind_here combinator.link_ne_verbatim behind
    exact origin.valid_attach ((valid_pathFrom base compiledBase).addCondition condition)
  | .combined left combinator right, path, compiled => by
    obtain ⟨before, after, compiledLeft, compiledRight, rfl⟩ :=
      pathFrom_combined_eq_ok_iff.mp compiled
    exact (valid_pathFrom left compiledLeft).extend combinator.link_ne_verbatim
      (valid_connect_behind (valid_pathFrom right compiledRight) before combinator)

/-- The conditions of several arguments are valid. -/
theorem Tree.valid_conditions {options : Options} :
    (trees : List Tree) → {conditions : List Expr} →
      Tree.conditions options trees = .ok conditions → ∀ condition ∈ conditions, condition.Valid
  | [], conditions, compiled => by
    obtain rfl := Except.ok.inj compiled
    simp
  | tree :: trees, conditions, compiled => by
    obtain ⟨path, others, compiledTree, compiledOthers, rfl⟩ :=
      conditions_cons_eq_ok_iff.mp compiled
    have valid := valid_argumentCondition (valid_pathFrom tree compiledTree)
    intro condition member
    rcases List.mem_cons.mp member with rfl | member
    · cases known : argumentCondition? path with
      | none => trivial
      | some condition => exact valid condition known
    · exact valid_conditions trees compiledOthers condition member

end

/-- The path of a tree can be written. -/
theorem Tree.valid_path {options : Options} {tree : Tree} {path : LocationPath}
    (compiled : tree.path options = .ok path) : path.Valid :=
  tree.valid_pathFrom compiled

end Selector

/-! ### Groups -/

/-- A selector is compiled to a valid path with the axis in front. -/
theorem Selector.valid_xpath {options : Options} {selector : Selector} {text : String}
    (compiled : selector.xpath options "descendant-or-self::" = .ok text) :
    ∃ expr : Expr, expr.Valid ∧ expr.isPath = true ∧ expr.text = text := by
  obtain ⟨_, path, known, rfl⟩ := xpath_eq_ok_iff.mp compiled
  obtain ⟨valid, isPath⟩ := (Tree.valid_path known).valid_fromAnywhere
  exact ⟨path.fromAnywhere, valid, isPath, path.text_fromAnywhere⟩

theorem valid_xpaths {options : Options} {selectors : List Selector} {texts : List String}
    (compiled : xpaths options "descendant-or-self::" selectors = .ok texts) :
    ∃ exprs : List Expr, exprs.map Expr.text = texts ∧ exprs.length = selectors.length ∧
      ∀ expr ∈ exprs, expr.Valid ∧ expr.isPath = true := by
  induction selectors generalizing texts with
  | nil =>
    obtain rfl := Except.ok.inj compiled
    exact ⟨[], rfl, rfl, by simp⟩
  | cons selector rest ih =>
    obtain ⟨text, others, known, compiledRest, rfl⟩ := xpaths_cons_eq_ok_iff.mp compiled
    obtain ⟨expr, valid, isPath, rfl⟩ := selector.valid_xpath known
    obtain ⟨exprs, rfl, length, all⟩ := ih compiledRest
    refine ⟨expr :: exprs, rfl, by simp [length], ?_⟩
    intro other member
    rcases List.mem_cons.mp member with rfl | member
    · exact ⟨valid, isPath⟩
    · exact all other member

/-- What the options make of an accepted selector group is an expression of XPath 1.0. -/
theorem Options.reads_xpath {options : Options}
    (standard : options.leading = "descendant-or-self::") {css text : String}
    (accepted : options.xpath css = .ok text) : ∃ term, Grammar.Reads text term := by
  rw [Options.xpath, standard] at accepted
  obtain ⟨selectors, texts, parsed, compiled, rfl⟩ := xpathOfGroup_eq_ok_iff.mp accepted
  -- each selector gives a path, and the text of the group is that of their union
  obtain ⟨exprs, rfl, length, all⟩ := valid_xpaths compiled
  cases exprs with
  | nil =>
    exact absurd (List.length_eq_zero_iff.mp length.symm) (Selector.parse_ne_nil parsed)
  | cons first rest =>
    have level (expr : Expr) (member : expr ∈ first :: rest) : expr.level = Grammar.pathLevel :=
      Expr.level_of_isPath (all expr member).2
    have spaced : XPath.Operator.isSpaced .union = true := rfl
    have valid : (rest.foldl (.binary .union) first).Valid := by
      refine (Expr.valid_foldl spaced (all first List.mem_cons_self).1 ?_ fun expr member => ?_).1
      · rw [level first List.mem_cons_self]
        decide
      · have inside := List.mem_cons_of_mem first member
        rw [level expr inside]
        exact ⟨(all expr inside).1, by decide⟩
    have union : XPath.Operator.text .union = " | " := rfl
    rw [← union, ← Expr.text_foldl]
    exact ⟨_, Expr.reads valid⟩

/-- An apostrophe in an id takes quotes of the other kind. -/
theorem Options.reads_xpath_apostrophe :
    Options.html.leading = "descendant-or-self::" ∧
      Options.html.xpath "#it\\'s" = .ok "descendant-or-self::*[@id = \"it's\"]" ∧
        ∃ term, Grammar.Reads "descendant-or-self::*[@id = \"it's\"]" term := by
  have accepted :
      Options.html.xpath "#it\\'s" = .ok "descendant-or-self::*[@id = \"it's\"]" := by cbv
  exact ⟨rfl, accepted, Options.reads_xpath rfl accepted⟩

end SelectorPath
