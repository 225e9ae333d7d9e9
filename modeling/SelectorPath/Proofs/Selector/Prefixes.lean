import SelectorPath.Proofs.Condition.Prefixes
import SelectorPath.Proofs.Selector.Acceptance
import SelectorPath.Proofs.Selector.Matching

/-!
# Selectors without namespaces

A selector without namespaces is compiled to an expression without prefixes, but for the type that a
pseudo-class counts: a type selector quotes a name that holds a colon, yet the name is kept, and is
written as a node test where elements of that type are counted. There `a:b`, written `a\:b` in the
selector, has become the name `b` with the prefix `a`.

## Main definitions

* `Selector.Tree.IsUnqualified` — no type selector and no attribute selector has a namespace
* `Selector.Simple.CountsType` — the conditions that mention elements of one type

## Main results

* `Selector.Tree.isUnprefixed_pathFrom` — the path of a tree without namespaces
* `Selector.colonsPaired_xpath` — the text of a selector without namespaces has no prefixes, unless
  a type with a colon in its name is counted
-/

namespace SelectorPath

open XPath

/-! ### Parts of the compilation -/

theorem isUnprefixed_typePath (options : Options) (name : Option String) :
    (typePath options none name).IsUnprefixed := by
  unfold typePath
  simp only [Option.all_none, Bool.and_true]
  split
  · rename_i plain
    refine LocationPath.isUnprefixed_ofTest ?_
    cases name with
    | none => exact LocationPath.colonsPaired_star
    | some name => exact colonsPaired_of_isPlainName (by simpa using plain)
  · exact LocationPath.isUnprefixed_addNameTest_ofTest _

theorem isUnprefixed_connect {left right : LocationPath} (unprefixed : left.IsUnprefixed)
    (combinator : Combinator) (also : right.IsUnprefixed) :
    (connect left combinator right).IsUnprefixed := by
  cases combinator with
  | descendant | child => exact unprefixed.join (by simp) also
  | nextSibling => exact unprefixed.joinSibling also true
  | subsequentSibling => exact unprefixed.joinSibling also false

/-- A joined path is made with the name that its last part was made with, if with any. -/
theorem typeName_connect {left right : LocationPath} {combinator : Combinator} {type : String}
    (made : (connect left combinator right).typeName = some type) : right.typeName = some type := by
  have joined (adjacent : Bool) (made : (left.joinSibling right adjacent).typeName = some type) :
      right.typeName = some type := by
    unfold LocationPath.joinSibling at made
    split at made
    -- behind a star the step is a new one, and has no name
    · split at made <;> simp [LocationPath.join, LocationPath.ofTest] at made
    · simp only at made
      split at made <;> simpa [LocationPath.join] using made
  cases combinator with
  | descendant | child => exact made
  | nextSibling => exact joined true made
  | subsequentSibling => exact joined false made

/-- The path that a selector starts at has no prefixes. -/
def Origin.IsUnprefixed (origin : Origin) : Prop := ∀ start ∈ origin, start.1.IsUnprefixed

theorem Origin.IsUnprefixed.nowhere : Origin.IsUnprefixed none := by simp [Origin.IsUnprefixed]

theorem Origin.IsUnprefixed.here (combinator : Combinator) :
    Origin.IsUnprefixed (some (.here, combinator)) := by
  have dot : ColonsPaired "." := by decide
  rintro start ⟨⟩
  exact LocationPath.isUnprefixed_ofTest dot

theorem Origin.IsUnprefixed.attach {origin : Origin} (unprefixed : origin.IsUnprefixed)
    {path : LocationPath} (also : path.IsUnprefixed) : (origin.attach path).IsUnprefixed := by
  match origin with
  | none => exact also
  | some (start, combinator) => exact isUnprefixed_connect (unprefixed _ rfl) combinator also

theorem Origin.typeName_attach {origin : Origin} {path : LocationPath} {type : String}
    (made : (origin.attach path).typeName = some type) : path.typeName = some type := by
  match origin with
  | none => exact made
  | some (start, combinator) => exact typeName_connect made

theorem isUnprefixed_argumentCondition {path : LocationPath} (unprefixed : path.IsUnprefixed) :
    ∀ condition ∈ argumentCondition? path, condition.IsUnprefixed := by
  unfold argumentCondition?
  split
  · simpa using unprefixed.membership
  · exact unprefixed.addNameTest.condition

theorem isUnprefixed_negationCondition {path : LocationPath} (unprefixed : path.IsUnprefixed) :
    (negationCondition path).IsUnprefixed := by
  unfold negationCondition
  split
  · rename_i condition known
    exact (isUnprefixed_argumentCondition unprefixed condition known).call .not
  · exact Expr.isUnprefixed_integer 0

namespace Selector

variable {options : Options}

/-! ### Simple selectors -/

/-- The simple selector has no namespace. -/
def Simple.IsUnqualified : Simple → Prop
  | .attribute selector => selector.ns = none
  | _ => True

/-- The simple selector asks for a place among the elements of one type. A series that every place
is in asks for nothing. -/
def Simple.CountsType : Simple → Prop
  | .pseudoClass name => name ∈ Condition.ofTypeNames
  | .function call => ∃ direction series, call.Counts direction .sameType series ∧
      series.condition? direction ≠ none
  | _ => False

section Simple

variable {path restricted : LocationPath}

/-- Only the type that it counts can bring a prefix in with a simple selector. -/
theorem Simple.isUnprefixed_restrict {simple : Simple} (unprefixed : path.IsUnprefixed)
    (unqualified : simple.IsUnqualified)
    (noColon : simple.CountsType → ∀ type ∈ path.namedType?, ':' ∉ type.toList)
    (compiled : simple.restrict options path = .ok restricted) : restricted.IsUnprefixed := by
  match simple, unqualified, noColon, compiled with
  | .className name, _, _, compiled =>
    obtain rfl := Except.ok.inj compiled
    exact unprefixed.addCondition (Condition.isUnprefixed_ofClass options name)
  | .id value, _, _, compiled =>
    obtain rfl := Except.ok.inj compiled
    exact unprefixed.addCondition (Condition.isUnprefixed_ofId options value)
  | .attribute selector, unqualified, _, compiled =>
    obtain rfl := Except.ok.inj compiled
    exact unprefixed.addCondition (Condition.isUnprefixed_ofAttribute options unqualified)
  | .pseudoClass name, _, noColon, compiled =>
    obtain ⟨condition, known, rfl⟩ := restrict_pseudoClass_eq_ok_iff.mp compiled
    exact unprefixed.addCondition (Condition.isUnprefixed_ofPseudoClass noColon known)
  | .function call, _, noColon, compiled =>
    obtain ⟨function, known, compiled⟩ := restrict_function_eq_ok_iff.mp compiled
    have positions {direction : Direction} {counting : Counting}
        (counted : function.counting? = some (direction, counting))
        (compiled : FunctionalClass.restrictPosition path call direction counting =
          .ok restricted) : restricted.IsUnprefixed := by
      refine FunctionalClass.isUnprefixed_restrictPosition unprefixed ?_ compiled
      rintro series parsed rfl restricts
      exact noColon ⟨direction, series, ⟨⟨function, known, counted⟩, parsed⟩, restricts⟩
    cases function with
    | nthChild | nthLastChild | nthOfType | nthLastOfType => exact positions rfl compiled
    | contains =>
      exact FunctionalClass.isUnprefixed_restrictLiteral unprefixed
        Condition.isUnprefixed_containsText compiled
    | lang =>
      exact FunctionalClass.isUnprefixed_restrictLiteral unprefixed
        (Condition.isUnprefixed_ofLanguage options) compiled

end Simple

/-! ### Trees -/

mutual

/-- No type selector and no attribute selector in the tree has a namespace. -/
def Tree.IsUnqualified : Tree → Prop
  | .element ns _ => ns = none
  | .restricted base simple => base.IsUnqualified ∧ simple.IsUnqualified
  | .negation base argument | .relation base _ argument =>
    base.IsUnqualified ∧ argument.IsUnqualified
  | .anyOf _ base arguments => base.IsUnqualified ∧ Tree.AllUnqualified arguments
  | .combined left _ right => left.IsUnqualified ∧ right.IsUnqualified

/-- No tree in the list has a namespace in it. -/
def Tree.AllUnqualified : List Tree → Prop
  | [] => True
  | tree :: rest => tree.IsUnqualified ∧ Tree.AllUnqualified rest

end

/-- If the step of a tree keeps a name, that is the name of the type selector of its last
compound. -/
theorem Tree.typeName_eq {type : String} : (tree : Tree) → {origin : Origin} →
    {path : LocationPath} → tree.pathFrom options origin = .ok path → path.typeName = some type →
      tree.typeName options = type
  | .element ns name, origin, path, compiled, made => by
    obtain rfl := Except.ok.inj compiled
    have made := (typeName_typePath options ns name).symm.trans (Origin.typeName_attach made)
    simp only [LocationPath.ofTest] at made
    split at made
    · simp at made
    · exact Option.some.inj made
  | .restricted base simple, origin, path, compiled, made => by
    obtain ⟨before, restricted, compiledBase, compiledSimple, rfl⟩ :=
      pathFrom_restricted_eq_ok_iff.mp compiled
    exact typeName_eq base compiledBase
      ((simple.typeName_restrict compiledSimple).symm.trans (Origin.typeName_attach made))
  | .negation base argument, origin, path, compiled, made => by
    obtain ⟨before, other, compiledBase, -, rfl⟩ := pathFrom_negation_eq_ok_iff.mp compiled
    exact typeName_eq base compiledBase
      ((before.typeName_addCondition _).symm.trans (Origin.typeName_attach made))
  | .relation base _ argument, origin, path, compiled, made => by
    obtain ⟨before, related, compiledBase, -, rfl⟩ := pathFrom_relation_eq_ok_iff.mp compiled
    exact typeName_eq base compiledBase
      ((before.typeName_addCondition _).symm.trans (Origin.typeName_attach made))
  | .anyOf kind base arguments, origin, path, compiled, made => by
    obtain ⟨before, alternatives, compiledBase, compiledArguments, rfl⟩ :=
      pathFrom_anyOf_eq_ok_iff.mp compiled
    exact typeName_eq base compiledBase
      ((before.typeName_addAlternatives alternatives).symm.trans (Origin.typeName_attach made))
  | .combined left combinator right, origin, path, compiled, made => by
    obtain ⟨before, after, compiledLeft, compiledRight, rfl⟩ :=
      pathFrom_combined_eq_ok_iff.mp compiled
    exact typeName_eq right compiledRight (typeName_connect made)

/-- No type with a colon in its name is counted by the simple selectors placed behind the names. -/
def CountsPlainTypes (placed : List (String × Simple)) : Prop :=
  ∀ entry ∈ placed, entry.2.CountsType → ':' ∉ entry.1.toList

theorem countsPlainTypes_append {first second : List (String × Simple)} :
    CountsPlainTypes (first ++ second) ↔ CountsPlainTypes first ∧ CountsPlainTypes second :=
  List.forall_mem_append

mutual

/-- Without namespaces, the path of a tree has no prefixes if no type with a colon is counted. -/
theorem Tree.isUnprefixed_pathFrom : (tree : Tree) → tree.IsUnqualified →
    CountsPlainTypes (tree.placedSimples options) → {origin : Origin} → origin.IsUnprefixed →
      {path : LocationPath} → tree.pathFrom options origin = .ok path → path.IsUnprefixed
  | .element ns name, unqualified, _, origin, start, path, compiled => by
    obtain rfl : ns = none := unqualified
    obtain rfl := Except.ok.inj compiled
    exact start.attach (isUnprefixed_typePath options name)
  | .restricted base simple, unqualified, counts, origin, start, path, compiled => by
    rw [placedSimples, countsPlainTypes_append] at counts
    obtain ⟨before, restricted, compiledBase, compiledSimple, rfl⟩ :=
      pathFrom_restricted_eq_ok_iff.mp compiled
    have unprefixed := isUnprefixed_pathFrom base unqualified.1 counts.1 .nowhere compiledBase
    refine start.attach (simple.isUnprefixed_restrict unprefixed unqualified.2 ?_ compiledSimple)
    intro countsType type named
    -- what was added to the step since it was made has not changed its name
    rw [← base.typeName_eq compiledBase (Option.filter_eq_some_iff.mp named).1]
    exact counts.2 _ List.mem_cons_self countsType
  | .negation base argument, unqualified, counts, origin, start, path, compiled => by
    rw [placedSimples, countsPlainTypes_append] at counts
    obtain ⟨before, other, compiledBase, compiledArgument, rfl⟩ :=
      pathFrom_negation_eq_ok_iff.mp compiled
    have unprefixed := isUnprefixed_pathFrom base unqualified.1 counts.1 .nowhere compiledBase
    have negated := isUnprefixed_pathFrom argument unqualified.2 counts.2 .nowhere compiledArgument
    exact start.attach (unprefixed.addCondition (isUnprefixed_negationCondition negated))
  | .anyOf kind base arguments, unqualified, counts, origin, start, path, compiled => by
    rw [placedSimples, countsPlainTypes_append] at counts
    obtain ⟨before, alternatives, compiledBase, compiledArguments, rfl⟩ :=
      pathFrom_anyOf_eq_ok_iff.mp compiled
    have unprefixed := isUnprefixed_pathFrom base unqualified.1 counts.1 .nowhere compiledBase
    have all := isUnprefixed_conditions arguments unqualified.2 counts.2 compiledArguments
    exact start.attach (unprefixed.addAlternatives all)
  | .relation base combinator argument, unqualified, counts, origin, start, path, compiled => by
    rw [placedSimples, countsPlainTypes_append] at counts
    obtain ⟨before, related, compiledBase, compiledArgument, rfl⟩ :=
      pathFrom_relation_eq_ok_iff.mp compiled
    have unprefixed := isUnprefixed_pathFrom base unqualified.1 counts.1 .nowhere compiledBase
    -- the argument is the only tree that starts at a given node
    have behind := isUnprefixed_pathFrom argument unqualified.2 counts.2 (.here combinator)
      compiledArgument
    exact start.attach (unprefixed.addCondition behind.toExpr)
  | .combined left combinator right, unqualified, counts, origin, start, path, compiled => by
    rw [placedSimples, countsPlainTypes_append] at counts
    obtain ⟨before, after, compiledLeft, compiledRight, rfl⟩ :=
      pathFrom_combined_eq_ok_iff.mp compiled
    have unprefixed := isUnprefixed_pathFrom left unqualified.1 counts.1 start compiledLeft
    have behind := isUnprefixed_pathFrom right unqualified.2 counts.2 .nowhere compiledRight
    exact isUnprefixed_connect unprefixed combinator behind

/-- The conditions of several arguments have no prefixes. -/
theorem Tree.isUnprefixed_conditions : (trees : List Tree) → Tree.AllUnqualified trees →
    CountsPlainTypes (Tree.allPlacedSimples options trees) → {conditions : List Expr} →
      Tree.conditions options trees = .ok conditions →
        ∀ condition ∈ conditions, condition.IsUnprefixed
  | [], _, _, conditions, compiled => by
    obtain rfl := Except.ok.inj compiled
    simp
  | tree :: trees, unqualified, counts, conditions, compiled => by
    rw [allPlacedSimples, countsPlainTypes_append] at counts
    obtain ⟨path, others, compiledTree, compiledOthers, rfl⟩ :=
      conditions_cons_eq_ok_iff.mp compiled
    have unprefixed := isUnprefixed_pathFrom tree unqualified.1 counts.1 .nowhere compiledTree
    have first := isUnprefixed_argumentCondition unprefixed
    refine List.forall_mem_cons.mpr ⟨?_, ?_⟩
    · cases known : argumentCondition? path with
      | none => exact Expr.isUnprefixed_integer 1
      | some condition => exact first condition known
    · exact isUnprefixed_conditions trees unqualified.2 counts.2 compiledOthers

end

/-- A selector without namespaces is compiled to an expression in which every colon outside of
literals is one of two behind an axis, so that none of its names has a prefix, if no type with a
colon in its name is counted. -/
theorem colonsPaired_xpath (standard : options.leading = "descendant-or-self::")
    {selector : Selector} (unqualified : selector.tree.IsUnqualified)
    (counts : CountsPlainTypes (selector.tree.placedSimples options)) {text : String}
    (compiled : selector.xpath options options.leading = .ok text) :
    ColonsPaired text ∧ ∃ tokens term, Grammar.Lexes true text.toList tokens ∧
      Grammar.Expression 0 tokens term ∧ ∀ token ∈ tokens, token.IsUnprefixed := by
  rw [standard] at compiled
  -- the text is that of a valid expression, and its colons are those of the path behind the axis
  obtain ⟨expr, valid, -, same⟩ := selector.valid_xpath compiled
  have paired : ColonsPaired text := by
    obtain ⟨_, path, known, rfl⟩ := Selector.xpath_eq_ok_iff.mp compiled
    have leading : ColonsPaired "descendant-or-self::" := by decide
    have unprefixed := selector.tree.isUnprefixed_pathFrom unqualified counts .nowhere known
    exact leading.append unprefixed.colonsPaired_text
  obtain ⟨tokens, lexes, expression⟩ := Expr.reads valid
  rw [same] at lexes
  exact ⟨paired, tokens, expr.term, lexes, expression, lexes.isUnprefixed paired⟩

/-- A name that holds a colon is quoted, and elements of another type can be counted behind it. -/
theorem colonsPaired_xpath_behind :
    Selector.parse "a\\:b > p:first-of-type" = .ok
        [⟨.combined (.element none (some "a:b")) .child
          (.restricted (.element none (some "p")) (.pseudoClass "first-of-type")), none⟩] ∧
      cssToXPath "a\\:b > p:first-of-type" =
        .ok "descendant-or-self::*[name() = 'a:b']/p[count(preceding-sibling::p) = 0]" ∧
      ColonsPaired "descendant-or-self::*[name() = 'a:b']/p[count(preceding-sibling::p) = 0]" := by
  have compiled : Selector.xpath .generic Options.generic.leading
      ⟨.combined (.element none (some "a:b")) .child
        (.restricted (.element none (some "p")) (.pseudoClass "first-of-type")), none⟩ =
      .ok "descendant-or-self::*[name() = 'a:b']/p[count(preceding-sibling::p) = 0]" := by
    cbv
  have counts : CountsPlainTypes (Tree.placedSimples .generic
      (.combined (.element none (some "a:b")) .child
        (.restricted (.element none (some "p")) (.pseudoClass "first-of-type")))) := by
    intro entry member _
    obtain rfl := List.mem_singleton.mp member
    decide
  have unqualified : (Tree.combined (.element none (some "a:b")) .child
      (.restricted (.element none (some "p")) (.pseudoClass "first-of-type"))).IsUnqualified :=
    ⟨rfl, rfl, trivial⟩
  exact ⟨by cbv, by cbv, (colonsPaired_xpath rfl unqualified counts compiled).1⟩

/-- Where elements named `a:b` are counted, the name turns into one with the prefix `a`. -/
theorem not_colonsPaired_xpath :
    Selector.parse "a\\:b:first-of-type" = .ok
        [⟨.restricted (.element none (some "a:b")) (.pseudoClass "first-of-type"), none⟩] ∧
      (Tree.restricted (.element none (some "a:b")) (.pseudoClass "first-of-type")).IsUnqualified ∧
      cssToXPath "a\\:b:first-of-type" =
        .ok "descendant-or-self::*[(name() = 'a:b') and (count(preceding-sibling::a:b) = 0)]" ∧
      ¬ ColonsPaired
        "descendant-or-self::*[(name() = 'a:b') and (count(preceding-sibling::a:b) = 0)]" :=
  ⟨by cbv, by simp [Tree.IsUnqualified, Simple.IsUnqualified], by cbv, by decide⟩

end Selector

end SelectorPath
