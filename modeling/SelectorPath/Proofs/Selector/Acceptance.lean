import Mathlib.Data.List.Induction
import SelectorPath.Proofs.Condition.Acceptance
import SelectorPath.Proofs.Selector.Compounds
import SelectorPath.Proofs.Selector.Group

/-!
# Selectors that can be compiled

Every simple selector of a tree is compiled on the path of its compound, and of that path only the
name it was made with decides whether it can be. Nothing in a compound changes that name. So a tree
has a path exactly if each of its simple selectors, those in arguments too, can be compiled behind
the type selector of its compound, and the order of what stands in a compound makes no difference.

A condition behind joined compounds would be about the last one only, and no text has one.

## Main definitions

* `Selector.Simple.IsCompilable` — a simple selector that can be compiled behind a type selector
* `Selector.Tree.placedSimples` — the simple selectors of a tree, each with its type selector
* `Selector.Part`, `Selector.Tree.compound` — a compound as its parts behind a type selector
* `Selector.Tree.Rearranged` — the tree with other orders in its compounds

## Main results

* `Selector.Tree.exists_path_iff` — the trees that have a path
* `exists_xpathOfGroup_iff` — the texts that have an expression
-/

namespace SelectorPath

open XPath

/-- The name that the step of a type selector is made with: folded if the options ask for it, and
behind the prefix of its namespace. -/
def typeName (options : Options) (ns name : Option String) : String :=
  let folded := (name.map (Options.foldCase options.lowerCaseElementNames)).getD "*"
  match ns with
  | none => folded
  | some ns => ns ++ ":" ++ folded

/-- The path of a type selector is the step made with its name, whose test may be a condition. -/
theorem typePath_eq (options : Options) (ns name : Option String) :
    typePath options ns name = .ofTest (typeName options ns name) ∨
      typePath options ns name = (LocationPath.ofTest (typeName options ns name)).addNameTest := by
  unfold typePath typeName
  cases ns with
  | none | some ns =>
    simp only
    split
    · exact .inl rfl
    · exact .inr rfl

theorem typeName_typePath (options : Options) (ns name : Option String) :
    (typePath options ns name).typeName =
      (LocationPath.ofTest (typeName options ns name)).typeName := by
  rcases typePath_eq options ns name with same | same
  · rw [same]
  · rw [same, LocationPath.typeName_addNameTest]

namespace Selector

/-- The simple selector can be compiled in a compound whose step is made with the name `type`. -/
def Simple.IsCompilable (type : String) : Simple → Prop
  | .className _ | .id _ | .attribute _ => True
  | .pseudoClass name =>
    name ∈ Condition.knownNames ∧ (name ∈ Condition.ofTypeNames → IsTypeName type)
  | .function call => ∃ function : FunctionalClass,
      Text.lowerCase call.name = function.name ∧ function.Accepts type call.arguments

section Simple

variable {options : Options} {path restricted : LocationPath}

theorem ofName?_eq_some_iff {name : String} {function : FunctionalClass} :
    FunctionalClass.ofName? name = some function ↔ Text.lowerCase name = function.name := by
  unfold FunctionalClass.ofName?
  constructor
  · intro found
    have same := List.find?_some found
    exact (beq_iff_eq.mp same).symm
  · intro same
    rw [same]
    cases function <;> decide

theorem Simple.exists_restrict_iff {simple : Simple} {type : String}
    (made : path.typeName = (LocationPath.ofTest type).typeName) :
    (∃ restricted, simple.restrict options path = .ok restricted) ↔ simple.IsCompilable type := by
  match simple with
  | .className _ | .id _ | .attribute _ => simp [restrict, IsCompilable]
  | .pseudoClass name =>
    have known : (∃ condition, Condition.ofPseudoClass options path name = .ok condition) ↔
        name ∈ Condition.knownNames ∧
          (name ∈ Condition.ofTypeNames → path.namedType?.isSome = true) :=
      Condition.exists_ofPseudoClass_iff
    rw [IsCompilable, ← isSome_namedType?_iff made, ← known]
    simp [restrict_pseudoClass_eq_ok_iff]
  | .function call =>
    simp only [IsCompilable, ← ofName?_eq_some_iff, restrict_function_eq_ok_iff]
    rw [exists_comm]
    simp only [exists_and_left, FunctionalClass.exists_restrict_iff made]

theorem Simple.typeName_restrict {simple : Simple}
    (compiled : simple.restrict options path = .ok restricted) :
    restricted.typeName = path.typeName := by
  match simple, compiled with
  | .className _, compiled | .id _, compiled | .attribute _, compiled =>
    obtain rfl := Except.ok.inj compiled
    rfl
  | .pseudoClass name, compiled =>
    obtain ⟨condition, _, rfl⟩ := restrict_pseudoClass_eq_ok_iff.mp compiled
    rfl
  | .function call, compiled =>
    obtain ⟨known, _, compiled⟩ := restrict_function_eq_ok_iff.mp compiled
    exact FunctionalClass.typeName_restrict compiled

end Simple

/-! ### Trees -/

/-- The name that the step of the last compound is made with. -/
def Tree.typeName (options : Options) : Tree → String
  | .element ns name => SelectorPath.typeName options ns name
  | .restricted base _ | .negation base _ | .anyOf _ base _ | .relation base _ _ =>
    base.typeName options
  | .combined _ _ right => right.typeName options

mutual

/-- The simple selectors of all compounds of a tree, those in arguments too, each with the name that
the step of its compound is made with. -/
def Tree.placedSimples (options : Options) : Tree → List (String × Simple)
  | .element _ _ => []
  | .restricted base simple => base.placedSimples options ++ [(base.typeName options, simple)]
  | .negation base argument => base.placedSimples options ++ argument.placedSimples options
  | .anyOf _ base arguments =>
    base.placedSimples options ++ Tree.allPlacedSimples options arguments
  | .relation base _ argument => base.placedSimples options ++ argument.placedSimples options
  | .combined left _ right => left.placedSimples options ++ right.placedSimples options

def Tree.allPlacedSimples (options : Options) : List Tree → List (String × Simple)
  | [] => []
  | tree :: rest => tree.placedSimples options ++ Tree.allPlacedSimples options rest

end

/-- Every simple selector of the tree can be compiled where it stands. -/
def Tree.IsCompilable (options : Options) (tree : Tree) : Prop :=
  ∀ placed ∈ tree.placedSimples options, placed.2.IsCompilable placed.1

section Tree

variable {options : Options}

theorem Tree.isCompilable_element (ns name : Option String) :
    (Tree.element ns name).IsCompilable options := by
  simp [IsCompilable, placedSimples]

theorem Tree.isCompilable_restricted_iff {base : Tree} {simple : Simple} :
    (Tree.restricted base simple).IsCompilable options ↔
      base.IsCompilable options ∧ simple.IsCompilable (base.typeName options) := by
  simp [IsCompilable, placedSimples, or_imp, forall_and]

theorem Tree.isCompilable_negation_iff {base argument : Tree} :
    (Tree.negation base argument).IsCompilable options ↔
      base.IsCompilable options ∧ argument.IsCompilable options := by
  simp only [IsCompilable, placedSimples, List.forall_mem_append]

theorem Tree.isCompilable_relation_iff {base argument : Tree} {combinator : Combinator} :
    (Tree.relation base combinator argument).IsCompilable options ↔
      base.IsCompilable options ∧ argument.IsCompilable options := by
  simp only [IsCompilable, placedSimples, List.forall_mem_append]

theorem Tree.isCompilable_combined_iff {left right : Tree} {combinator : Combinator} :
    (Tree.combined left combinator right).IsCompilable options ↔
      left.IsCompilable options ∧ right.IsCompilable options := by
  simp only [IsCompilable, placedSimples, List.forall_mem_append]

theorem Tree.allCompilable_iff {trees : List Tree} :
    (∀ placed ∈ Tree.allPlacedSimples options trees, placed.2.IsCompilable placed.1) ↔
      ∀ tree ∈ trees, tree.IsCompilable options := by
  induction trees with
  | nil => simp [allPlacedSimples]
  | cons tree rest ih =>
    rw [allPlacedSimples, List.forall_mem_append, ih, List.forall_mem_cons]
    rfl

theorem Tree.isCompilable_anyOf_iff {kind : Alternation} {base : Tree} {arguments : List Tree} :
    (Tree.anyOf kind base arguments).IsCompilable options ↔
      base.IsCompilable options ∧ ∀ argument ∈ arguments, argument.IsCompilable options := by
  rw [← allCompilable_iff]
  simp only [IsCompilable, placedSimples, List.forall_mem_append]

/-- The path of a compound keeps the name that its step was made with. -/
theorem Tree.typeName_pathFrom : (tree : Tree) → tree.IsShaped false → {path : LocationPath} →
    tree.pathFrom options none = .ok path →
      path.typeName = (LocationPath.ofTest (tree.typeName options)).typeName
  | .element ns name, _, path, compiled => by
    obtain rfl := Except.ok.inj compiled
    exact typeName_typePath options ns name
  | .restricted base simple, shaped, path, compiled => by
    obtain ⟨before, restricted, compiledBase, compiledSimple, rfl⟩ :=
      pathFrom_restricted_eq_ok_iff.mp compiled
    exact (simple.typeName_restrict compiledSimple).trans
      (typeName_pathFrom base shaped compiledBase)
  | .negation base argument, shaped, path, compiled => by
    obtain ⟨before, other, compiledBase, -, rfl⟩ := pathFrom_negation_eq_ok_iff.mp compiled
    exact (before.typeName_addCondition _).trans (typeName_pathFrom base shaped.1 compiledBase)
  | .relation base _ argument, shaped, path, compiled => by
    obtain ⟨before, related, compiledBase, -, rfl⟩ := pathFrom_relation_eq_ok_iff.mp compiled
    exact (before.typeName_addCondition _).trans (typeName_pathFrom base shaped.1 compiledBase)
  | .anyOf kind base arguments, shaped, path, compiled => by
    obtain ⟨before, alternatives, compiledBase, compiledArguments, rfl⟩ :=
      pathFrom_anyOf_eq_ok_iff.mp compiled
    exact (before.typeName_addAlternatives alternatives).trans
      (typeName_pathFrom base shaped.1 compiledBase)
  -- joined compounds are no compound
  | .combined left combinator right, shaped, path, compiled => absurd shaped.1 (by simp)

/-- Two steps of a compilation have a result if each of them has one. -/
theorem exists_bind_iff {α β γ ε : Type} {first : Except ε α} {second : α → Except ε β}
    {result : α → β → γ} :
    (∃ value, (first >>= fun a => second a >>= fun b => pure (result a b)) = .ok value) ↔
      ∃ a, first = .ok a ∧ ∃ b, second a = .ok b := by
  constructor
  · rintro ⟨value, compiled⟩
    obtain ⟨a, b, compiledFirst, compiledSecond, -⟩ := bind_bind_eq_ok_iff.mp compiled
    exact ⟨a, compiledFirst, b, compiledSecond⟩
  · rintro ⟨a, compiledFirst, b, compiledSecond⟩
    exact ⟨_, bind_bind_eq_ok_iff.mpr ⟨a, b, compiledFirst, compiledSecond, rfl⟩⟩

mutual

/-- A tree has a path behind an origin exactly if all its simple selectors can be compiled. -/
theorem Tree.exists_pathFrom_iff {origin : Origin} : (tree : Tree) → {joined : Bool} →
    tree.IsShaped joined →
      ((∃ path, tree.pathFrom options origin = .ok path) ↔ tree.IsCompilable options)
  | .element ns name, _, _ => iff_of_true ⟨_, rfl⟩ (isCompilable_element ns name)
  | .restricted base simple, _, shaped => by
    rw [isCompilable_restricted_iff]
    have compiles : (∃ path, base.pathFrom options none = .ok path) ↔ base.IsCompilable options :=
      exists_pathFrom_iff base shaped
    -- The simple selector sees the path of its base, but only the name of that matters.
    have restricts {before : LocationPath} (compiled : base.pathFrom options none = .ok before) :
        (∃ restricted, simple.restrict options before = .ok restricted) ↔
          simple.IsCompilable (base.typeName options) :=
      simple.exists_restrict_iff (base.typeName_pathFrom shaped compiled)
    constructor
    · intro compiled
      obtain ⟨before, compiledBase, compiledSimple⟩ := exists_bind_iff.mp compiled
      exact ⟨compiles.mp ⟨before, compiledBase⟩, (restricts compiledBase).mp compiledSimple⟩
    · rintro ⟨compilable, compilableSimple⟩
      obtain ⟨before, compiledBase⟩ := compiles.mpr compilable
      exact exists_bind_iff.mpr
        ⟨before, compiledBase, (restricts compiledBase).mpr compilableSimple⟩
  | .negation base argument, _, shaped => by
    rw [isCompilable_negation_iff, ← exists_pathFrom_iff base shaped.1,
      ← exists_pathFrom_iff argument shaped.2, ← exists_and_right]
    exact exists_bind_iff
  | .anyOf kind base arguments, _, shaped => by
    rw [isCompilable_anyOf_iff, ← exists_pathFrom_iff base shaped.1,
      ← exists_conditions_iff arguments shaped.2, ← exists_and_right]
    exact exists_bind_iff
  | .relation base combinator argument, _, shaped => by
    rw [isCompilable_relation_iff, ← exists_pathFrom_iff base shaped.1,
      ← exists_pathFrom_iff argument shaped.2, ← exists_and_right]
    exact exists_bind_iff
  | .combined left combinator right, _, shaped => by
    rw [isCompilable_combined_iff, ← exists_pathFrom_iff left shaped.2.1,
      ← exists_pathFrom_iff right shaped.2.2, ← exists_and_right]
    exact exists_bind_iff

theorem Tree.exists_conditions_iff : (trees : List Tree) → Tree.AllShaped trees →
    ((∃ conditions, Tree.conditions options trees = .ok conditions) ↔
      ∀ tree ∈ trees, tree.IsCompilable options)
  | [], _ => iff_of_true ⟨_, rfl⟩ (by simp)
  | tree :: trees, shaped => by
    rw [List.forall_mem_cons, ← exists_pathFrom_iff tree shaped.1,
      ← exists_conditions_iff trees shaped.2, ← exists_and_right]
    exact exists_bind_iff

end

end Tree

/-! ### Other orders -/

/-- What can stand in a compound behind its type selector. -/
inductive Part
  | simple (simple : Simple)
  | negation (argument : Tree)
  | anyOf (kind : Alternation) (arguments : List Tree)
  | relation (combinator : Combinator) (argument : Tree)

/-- The tree `base` with one more part behind it. -/
def Part.behind (base : Tree) : Part → Tree
  | .simple condition => .restricted base condition
  | .negation argument => .negation base argument
  | .anyOf kind arguments => .anyOf kind base arguments
  | .relation combinator argument => .relation base combinator argument

/-- The compound of a type selector and the parts behind it. -/
def Tree.compound (ns name : Option String) (parts : List Part) : Tree :=
  parts.foldl Part.behind (.element ns name)

/-- The parts of compounds stand in other orders, anywhere in the tree. -/
inductive Tree.Rearranged : Tree → Tree → Prop
  | reorder {ns name : Option String} {parts others : List Part} (same : parts.Perm others) :
      Rearranged (Tree.compound ns name parts) (Tree.compound ns name others)
  | behind {base other : Tree} (part : Part) (inside : Rearranged base other) :
      Rearranged (part.behind base) (part.behind other)
  | negation (base : Tree) {argument other : Tree} (inside : Rearranged argument other) :
      Rearranged (.negation base argument) (.negation base other)
  | anyOf (kind : Alternation) (base : Tree) (before after : List Tree) {argument other : Tree}
      (inside : Rearranged argument other) :
      Rearranged (.anyOf kind base (before ++ argument :: after))
        (.anyOf kind base (before ++ other :: after))
  | relation (base : Tree) (combinator : Combinator) {argument other : Tree}
      (inside : Rearranged argument other) :
      Rearranged (.relation base combinator argument) (.relation base combinator other)
  | left {left other : Tree} (combinator : Combinator) (right : Tree)
      (inside : Rearranged left other) :
      Rearranged (.combined left combinator right) (.combined other combinator right)
  | right (left : Tree) (combinator : Combinator) {right other : Tree}
      (inside : Rearranged right other) :
      Rearranged (.combined left combinator right) (.combined left combinator other)
  | trans {tree middle other : Tree} (first : Rearranged tree middle)
      (second : Rearranged middle other) : Rearranged tree other

def Part.IsShaped : Part → Prop
  | .simple _ => True
  | .negation argument => argument.IsShaped false
  | .anyOf _ arguments => ∀ argument ∈ arguments, argument.IsShaped false
  | .relation _ argument => argument.IsShaped true

/-- The part can be compiled in a compound whose step is made with the name `type`. -/
def Part.IsCompilable (options : Options) (type : String) : Part → Prop
  | .simple condition => condition.IsCompilable type
  | .negation argument | .relation _ argument => argument.IsCompilable options
  | .anyOf _ arguments => ∀ argument ∈ arguments, argument.IsCompilable options

section Part

variable {options : Options} {joined : Bool} {base tree other : Tree} {part : Part}
  {parts : List Part} {ns name : Option String}

theorem Part.typeName_behind : (part.behind base).typeName options = base.typeName options := by
  cases part <;> rfl

theorem Part.isShaped_behind_iff :
    (part.behind base).IsShaped joined ↔ base.IsShaped false ∧ part.IsShaped := by
  cases part with
  | simple => simp [behind, Tree.IsShaped, IsShaped]
  | anyOf => rw [behind, Tree.IsShaped, Tree.allShaped_iff, IsShaped]
  | negation | relation => rw [behind, Tree.IsShaped, IsShaped]

theorem Part.isCompilable_behind_iff :
    (part.behind base).IsCompilable options ↔
      base.IsCompilable options ∧ part.IsCompilable options (base.typeName options) := by
  cases part with
  | simple => exact Tree.isCompilable_restricted_iff
  | negation => exact Tree.isCompilable_negation_iff
  | anyOf => exact Tree.isCompilable_anyOf_iff
  | relation => exact Tree.isCompilable_relation_iff

/-- A compound with one more part at its end. -/
theorem Tree.compound_concat (ns name : Option String) (parts : List Part) (part : Part) :
    Tree.compound ns name (parts ++ [part]) = part.behind (Tree.compound ns name parts) := by
  simp [compound]

theorem Tree.typeName_compound :
    (Tree.compound ns name parts).typeName options = SelectorPath.typeName options ns name := by
  induction parts using List.reverseRecOn with
  | nil => rfl
  | append_singleton parts part ih => rw [compound_concat, Part.typeName_behind, ih]

theorem Tree.isShaped_compound_iff :
    (Tree.compound ns name parts).IsShaped joined ↔ ∀ part ∈ parts, part.IsShaped := by
  induction parts using List.reverseRecOn generalizing joined with
  | nil => simp [compound, IsShaped]
  | append_singleton parts part ih =>
    rw [compound_concat, Part.isShaped_behind_iff, ih]
    simp [or_imp, forall_and]

/-- A compound can be compiled exactly if all its parts can, whatever their order is. -/
theorem Tree.isCompilable_compound_iff :
    (Tree.compound ns name parts).IsCompilable options ↔
      ∀ part ∈ parts, part.IsCompilable options (SelectorPath.typeName options ns name) := by
  induction parts using List.reverseRecOn with
  | nil => simp [compound, isCompilable_element]
  | append_singleton parts part ih =>
    rw [compound_concat, Part.isCompilable_behind_iff, ih, typeName_compound]
    simp [or_imp, forall_and]

theorem Tree.Rearranged.typeName (rearranged : Rearranged tree other) :
    tree.typeName options = other.typeName options := by
  induction rearranged with
  | reorder => rw [typeName_compound, typeName_compound]
  | behind part _ ih => rw [Part.typeName_behind, Part.typeName_behind, ih]
  | right _ _ _ ih => exact ih
  | trans _ _ first second => rw [first, second]
  | _ => rfl

theorem Tree.Rearranged.isShaped_iff (rearranged : Rearranged tree other) :
    tree.IsShaped joined ↔ other.IsShaped joined := by
  induction rearranged generalizing joined with
  | reorder same =>
    rw [isShaped_compound_iff, isShaped_compound_iff]
    exact forall_congr' fun part => by rw [same.mem_iff]
  | behind part _ ih => rw [Part.isShaped_behind_iff, Part.isShaped_behind_iff, ih]
  | negation base _ ih => rw [IsShaped, IsShaped, ih]
  | anyOf kind base before after _ ih =>
    rw [IsShaped, IsShaped, allShaped_iff, allShaped_iff]
    simp only [List.forall_mem_append, List.forall_mem_cons, ih]
  | relation base combinator _ ih => rw [IsShaped, IsShaped, ih]
  | left combinator right _ ih => rw [IsShaped, IsShaped, ih]
  | right left combinator _ ih => rw [IsShaped, IsShaped, ih]
  | trans _ _ first second => rw [first, second]

/-- Whether a tree can be compiled does not depend on the order in its compounds. -/
theorem Tree.Rearranged.isCompilable_iff (rearranged : Rearranged tree other) :
    tree.IsCompilable options ↔ other.IsCompilable options := by
  induction rearranged with
  | reorder same =>
    rw [isCompilable_compound_iff, isCompilable_compound_iff]
    exact forall_congr' fun part => by rw [same.mem_iff]
  | behind part inside ih =>
    -- the part stands behind the same type selector as before
    rw [Part.isCompilable_behind_iff, Part.isCompilable_behind_iff, ih, inside.typeName]
  | negation base _ ih => rw [isCompilable_negation_iff, isCompilable_negation_iff, ih]
  | anyOf kind base before after _ ih =>
    rw [isCompilable_anyOf_iff, isCompilable_anyOf_iff]
    simp only [List.forall_mem_append, List.forall_mem_cons, ih]
  | relation base combinator _ ih => rw [isCompilable_relation_iff, isCompilable_relation_iff, ih]
  | left combinator right _ ih => rw [isCompilable_combined_iff, isCompilable_combined_iff, ih]
  | right left combinator _ ih => rw [isCompilable_combined_iff, isCompilable_combined_iff, ih]
  | trans _ _ first second => rw [first, second]

end Part

/-! ### Acceptance -/

/-- A tree has a path exactly if each of its simple selectors, those in arguments too, can be
compiled in its compound. It has one exactly if it has one with other orders in its compounds. -/
theorem Tree.exists_path_iff (options : Options) {tree : Tree} (shaped : tree.IsShaped true) :
    ((∃ path, tree.path options = .ok path) ↔
      ∀ type simple, (type, simple) ∈ tree.placedSimples options → simple.IsCompilable type) ∧
    ∀ other, tree.Rearranged other →
      ((∃ path, tree.path options = .ok path) ↔ ∃ path, other.path options = .ok path) := by
  have compiles : (∃ path, tree.path options = .ok path) ↔ tree.IsCompilable options :=
    exists_pathFrom_iff tree shaped
  refine ⟨compiles.trans Prod.forall, fun other rearranged => ?_⟩
  have compilesOther : (∃ path, other.path options = .ok path) ↔ other.IsCompilable options :=
    exists_pathFrom_iff other (rearranged.isShaped_iff.mp shaped)
  rw [compiles, compilesOther, rearranged.isCompilable_iff]

/-- A position among all children asks for the name in a condition, and behind that a position among
those of one type is still counted by the name. -/
theorem Tree.exists_path_iff_swapped :
    let byType : Part := .simple (.function ⟨"nth-of-type", [⟨.number, "2", 14⟩]⟩)
    let byChild : Part := .simple (.function ⟨"nth-child", [⟨.ident, "odd", 28⟩]⟩)
    (Tree.compound none (some "A") [byType, byChild]).IsShaped true ∧
      (∃ path, (Tree.compound none (some "A") [byType, byChild]).path .html = .ok path) ∧
        ∃ path, (Tree.compound none (some "A") [byChild, byType]).path .html = .ok path := by
  intro byType byChild
  have shaped : (Tree.compound none (some "A") [byType, byChild]).IsShaped true := by
    simp [isShaped_compound_iff, Part.IsShaped, byType, byChild]
  obtain ⟨accepted, reordered⟩ := Tree.exists_path_iff .html shaped
  -- in HTML the name of the type is folded, and the folded name is plain
  have typed : IsTypeName (SelectorPath.typeName .html none (some "A")) :=
    ⟨by decide +kernel, .inl (by decide +kernel)⟩
  have compilable : (Tree.compound none (some "A") [byType, byChild]).IsCompilable .html := by
    rw [isCompilable_compound_iff, List.forall_mem_cons, List.forall_mem_singleton]
    have second : Series.parse [⟨.number, "2", 14⟩] = .ok (.index 2) := by cbv
    have odd : Series.parse [⟨.ident, "odd", 28⟩] = .ok .odd := by cbv
    exact ⟨⟨.nthOfType, by decide +kernel, ⟨_, second⟩, typed⟩,
      .nthChild, by decide +kernel, _, odd⟩
  have compiles := accepted.mpr (Prod.forall.mp compilable)
  exact ⟨shaped, compiles, (reordered _ (.reorder (.swap _ _ _))).mp compiles⟩

end Selector

section Group

variable {options : Options} {leading : String}

theorem Selector.exists_xpath_iff {selector : Selector} (shaped : selector.tree.IsShaped true) :
    (∃ text, selector.xpath options leading = .ok text) ↔
      selector.pseudoElement = none ∧ selector.tree.IsCompilable options := by
  have compiles : (∃ path, selector.tree.path options = .ok path) ↔
      selector.tree.IsCompilable options :=
    Tree.exists_pathFrom_iff selector.tree shaped
  simp only [xpath_eq_ok_iff, ← compiles]
  constructor
  · rintro ⟨_, plain, path, known, _⟩
    exact ⟨plain, path, known⟩
  · rintro ⟨plain, path, known⟩
    exact ⟨_, plain, path, known, rfl⟩

theorem exists_xpaths_iff {selectors : List Selector}
    (shaped : ∀ selector ∈ selectors, selector.tree.IsShaped true) :
    (∃ texts, xpaths options leading selectors = .ok texts) ↔
      ∀ selector ∈ selectors,
        selector.pseudoElement = none ∧ selector.tree.IsCompilable options := by
  simp only [xpaths_eq_ok_iff]
  induction selectors with
  | nil => simp
  | cons selector rest ih =>
    obtain ⟨here, behind⟩ := List.forall_mem_cons.mp shaped
    have compiles : (∃ text, selector.xpath options leading = .ok text) ↔
        selector.pseudoElement = none ∧ selector.tree.IsCompilable options :=
      Selector.exists_xpath_iff here
    rw [List.forall_mem_cons, ← ih behind, ← compiles]
    constructor
    · rintro ⟨texts, all⟩
      obtain ⟨text, others, first, second, rfl⟩ := List.forall₂_cons_left_iff.mp all
      exact ⟨⟨text, first⟩, others, second⟩
    · rintro ⟨⟨text, first⟩, others, second⟩
      exact ⟨text :: others, .cons first second⟩

/-- An accepted text has an expression exactly if its selectors have no pseudo-elements and all
their simple selectors can be compiled. -/
theorem exists_xpathOfGroup_iff {css : String} {selectors : List Selector}
    (parsed : Selector.parse css = .ok selectors) :
    (∃ text, xpathOfGroup options leading css = .ok text) ↔
      ∀ selector ∈ selectors,
        selector.pseudoElement = none ∧ selector.tree.IsCompilable options := by
  have shaped := Selector.shaped_of_parse parsed
  constructor
  · rintro ⟨text, compiled⟩
    obtain ⟨others, texts, same, all, -⟩ := xpathOfGroup_eq_ok_iff.mp compiled
    obtain rfl := Except.ok.inj (parsed.symm.trans same)
    exact (exists_xpaths_iff shaped).mp ⟨texts, all⟩
  · intro compilable
    obtain ⟨texts, all⟩ := (exists_xpaths_iff shaped).mpr compilable
    exact ⟨_, xpathOfGroup_eq_ok_iff.mpr ⟨selectors, texts, parsed, all, rfl⟩⟩

end Group

end SelectorPath
