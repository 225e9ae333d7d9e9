import SelectorPath.Proofs.Condition.Length
import SelectorPath.Proofs.Selector.Acceptance

/-!
# How long the path of a selector is

A compound that asks for positions becomes a membership test where it is an argument, and that
writes its conditions twice; so the text of a path can double with each compound of this kind that
stands in an argument of another one. How deep they are nested is the only thing that makes a text
long. Up to a factor of four for each level, the text of a path is at most quadratic in the text of
the selector: quadratic and not linear, because a pseudo-class about one type writes the name of the
type again.

## Main definitions

* `Selector.Tree.isPositional` — the last compound asks for positions
* `Selector.Tree.depth` — how many compounds of this kind stand one in an argument of another
* `Selector.allowance` — the characters that a text of a given length may become, without nesting
* `Selector.Restricts`, `Selector.Tree.Allows` — what a simple selector may add to the weight of a
  path, and what the weight of the path of a tree may be
* `Selector.Tree.nested` — trees of any depth

## Main results

* `Selector.Simple.restricts`, `Selector.Tree.allows_pathFrom` — simple selectors and trees add no
  more
* `Selector.Tree.length_text_path_le` — the text of the path of a tree
* `Selector.Tree.length_text_nested` — the text does double with each level
-/

namespace SelectorPath

open XPath

/-- The pseudo-class asks for a position. -/
def FunctionalClass.isPositional : FunctionalClass → Bool
  | .nthChild | .nthLastChild | .nthOfType | .nthLastOfType => true
  | .contains | .lang => false

namespace Selector

/-! ### Nested positions -/

/-- The simple selector asks for a position. -/
def Simple.isPositional : Simple → Bool
  | .function call => (FunctionalClass.ofName? call.name).any (·.isPositional)
  | _ => false

/-- The last compound of the tree asks for positions. -/
def Tree.isPositional : Tree → Bool
  | .element _ _ => false
  | .restricted base simple => base.isPositional || simple.isPositional
  | .negation base _ | .anyOf _ base _ | .relation base _ _ => base.isPositional
  | .combined _ _ right => right.isPositional

mutual

/-- The greatest number of compounds that ask for positions and stand each in an argument of the one
before. -/
def Tree.depth : Tree → ℕ
  | .element _ _ => 0
  | .restricted base simple =>
    base.depth + if simple.isPositional && !base.isPositional then 1 else 0
  | .negation base argument | .relation base _ argument =>
    max base.depth (base.isPositional.toNat + argument.depth)
  | .anyOf _ base arguments =>
    max base.depth (base.isPositional.toNat + Tree.depths arguments)
  | .combined left _ right => max left.depth right.depth

/-- The greatest depth of several trees. -/
def Tree.depths : List Tree → ℕ
  | [] => 0
  | tree :: rest => max tree.depth (Tree.depths rest)

end

/-- A compound that asks for positions is one level deep itself. -/
theorem Tree.toNat_isPositional_le_depth (tree : Tree) :
    tree.isPositional.toNat ≤ tree.depth := by
  induction tree using Tree.isPositional.induct with
  | case1 => exact Nat.le_refl _
  | case2 base simple ih =>
    rw [isPositional, depth]
    revert ih
    cases base.isPositional <;> cases simple.isPositional <;> simp
  | case3 base argument ih => exact ih.trans (by rw [depth]; exact Nat.le_max_left _ _)
  | case4 kind base arguments ih => exact ih.trans (by rw [depth]; exact Nat.le_max_left _ _)
  | case5 base combinator argument ih =>
    exact ih.trans (by rw [depth]; exact Nat.le_max_left _ _)
  | case6 left combinator right ih => exact ih.trans (by rw [depth]; exact Nat.le_max_right _ _)

/-! ### What a text may become -/

/-- The characters that `n` characters of a selector may become where nothing is nested. -/
def allowance (n : ℕ) : ℕ := 31 * n ^ 2

theorem allowance_add (m n : ℕ) : allowance (m + n) = allowance m + allowance n + 62 * (m * n) := by
  unfold allowance
  ring

theorem allowance_mono {m n : ℕ} (le : m ≤ n) : allowance m ≤ allowance n :=
  Nat.mul_le_mul_left 31 (Nat.pow_le_pow_left le 2)

/-- What stands at two depths is as long as if both stood at the greater one. -/
theorem add_le_pow_mul {x y p q depth a b c : ℕ} (first : x ≤ 4 ^ p * a) (second : y ≤ 4 ^ q * b)
    (left : p ≤ depth) (right : q ≤ depth) (sum : a + b ≤ c) : x + y ≤ 4 ^ depth * c :=
  calc
    x + y ≤ 4 ^ p * a + 4 ^ q * b := Nat.add_le_add first second
    _ ≤ 4 ^ depth * a + 4 ^ depth * b :=
      Nat.add_le_add (Nat.mul_le_mul_right _ (Nat.pow_le_pow_right (by decide) left))
        (Nat.mul_le_mul_right _ (Nat.pow_le_pow_right (by decide) right))
    _ = 4 ^ depth * (a + b) := (Nat.mul_add _ _ _).symm
    _ ≤ 4 ^ depth * c := Nat.mul_le_mul_left _ sum

/-- Copies of what stands deeper. -/
theorem mul_le_pow_mul {copies long p q b : ℕ} (few : copies ≤ 4 ^ p) (short : long ≤ 4 ^ q * b) :
    copies * long ≤ 4 ^ (p + q) * b := by
  rw [Nat.pow_add, Nat.mul_assoc]
  exact Nat.mul_le_mul few short

theorem add_allowance_le {x n size : ℕ} (short : x ≤ 31 * (size * size) + 62 * (n * size)) :
    x + allowance n ≤ allowance (n + size) := by
  rw [allowance_add]
  unfold allowance at *
  rw [Nat.pow_two size]
  omega

/-! ### Simple selectors -/

section Simple

variable {path restricted : LocationPath} {n : ℕ}

theorem length_value_le_call {call : FunctionCall} {value : String}
    (accepted : FunctionalClass.literalArgument call = .ok value) :
    value.length + 3 ≤ (Simple.function call).css.length := by
  obtain ⟨⟨first, rest, arguments, rfl⟩, literal⟩ :=
    FunctionalClass.literalArgument_eq_ok_iff.mp accepted
  have isLiteral := literal first (by simp [arguments])
  simp only [Token.isLiteral, Bool.or_eq_true, beq_iff_eq] at isLiteral
  have printed := (Token.length_value_le isLiteral).1
  simp [← String.length_toList, Simple.css, FunctionCall.css, FunctionCall.argumentsCss,
    arguments, Token.join] at *
  omega

theorem three_le_length_call (call : FunctionCall) : 3 ≤ (Simple.function call).css.length := by
  simp [← String.length_toList, Simple.css, FunctionCall.css]
  omega

/-- What a restriction does to the weight of a path whose names have at most `n` characters: a
position makes four copies of the last step if there is none yet, and what is added has room in what
`size` more characters of a selector allow for. -/
structure Restricts (path restricted : LocationPath) (positional : Bool) (n size : ℕ) : Prop where
  within : restricted.NamesWithin n
  starred : restricted.starred = (path.starred || positional)
  weight : ∃ more, more + allowance n ≤ allowance (n + size) ∧
    restricted.weight ≤ (if positional && !path.starred then 4 else 1) * path.weight +
      4 ^ restricted.starred.toNat * more

/-- A condition that the selector is long enough for. -/
theorem restricts_addCondition (within : path.NamesWithin n) {condition : Expr} {size : ℕ}
    (short : condition.text.length + 7 ≤ 31 * (size * size) + 62 * (n * size)) :
    Restricts path (path.addCondition condition) false n size where
  within := within.addCondition condition
  starred := (Bool.or_false _).symm
  weight := by
    refine ⟨condition.text.length + 7, add_allowance_le short, ?_⟩
    rw [LocationPath.weight_addCondition, Bool.false_and, if_neg (by decide), Nat.one_mul]
    exact Nat.add_le_add_left (Nat.mul_le_mul_right _ path.copies_le) _

/-- A position that the selector is long enough for. -/
theorem restricts_position (within : restricted.NamesWithin n) (starred : restricted.starred = true)
    {size more : ℕ} (short : more ≤ 31 * (size * size) + 62 * (n * size))
    (weight : restricted.weight ≤ (if path.starred then 1 else 4) * path.weight + 4 * more) :
    Restricts path restricted true n size where
  within := within
  starred := by rw [starred, Bool.or_true]
  weight := by
    refine ⟨more, add_allowance_le short, ?_⟩
    rw [starred]
    cases before : path.starred <;> simpa [before] using weight

/-- A position among all children, or among those of one type. -/
theorem restricts_restrictPosition (within : path.NamesWithin n) (positive : 1 ≤ n)
    {call : FunctionCall} {direction : Direction} {counting : Counting}
    (compiled : FunctionalClass.restrictPosition path call direction counting = .ok restricted) :
    Restricts path restricted true n (Simple.function call).css.length := by
  have long := three_le_length_call call
  -- three characters of a call and one of a name are few, but their squares are enough
  have room : 5 * n + 252 ≤ 31 * ((Simple.function call).css.length *
      (Simple.function call).css.length) + 62 * (n * (Simple.function call).css.length) := by
    nlinarith
  cases counting with
  | children =>
    obtain ⟨series, _, rfl⟩ := FunctionalClass.restrictPosition_children_eq_ok_iff.mp compiled
    have test := within.test
    have weight := @LocationPath.weight_addNameTest_addPosition_le path _ _
      (series.length_condition_le direction)
    refine restricts_position ((within.addNameTest positive).addPosition _)
      (LocationPath.starred_addPosition _ _) room
      (weight.trans (Nat.add_le_add_left (Nat.mul_le_mul_left 4 ?_) _))
    omega
  | sameType =>
    obtain ⟨type, series, named, _, rfl⟩ :=
      FunctionalClass.restrictPosition_sameType_eq_ok_iff.mp compiled
    have short := within.type type (Option.filter_eq_some_iff.mp named).1
    have weight := @LocationPath.weight_addPositionAmong_le path _ _
      (series.length_condition_le direction) type
    refine restricts_position (within.addPositionAmong type _)
      (LocationPath.starred_addPositionAmong _ _ _) room
      (weight.trans (Nat.add_le_add_left (Nat.mul_le_mul_left 4 ?_) _))
    omega

/-- A condition on a literal argument. -/
theorem restricts_restrictLiteral (within : path.NamesWithin n) (positive : 1 ≤ n)
    {call : FunctionCall} {condition : String → Expr}
    (short : ∀ value, (condition value).text.length ≤ 5 * value.length + 25)
    (compiled : FunctionalClass.restrictLiteral path call condition = .ok restricted) :
    Restricts path restricted false n (Simple.function call).css.length := by
  obtain ⟨value, accepted, rfl⟩ := FunctionalClass.restrictLiteral_eq_ok_iff.mp compiled
  have long := length_value_le_call accepted
  have := short value
  refine restricts_addCondition within ?_
  nlinarith

/-- A call of a functional pseudo-class. -/
theorem restricts_function (within : path.NamesWithin n) (positive : 1 ≤ n) {call : FunctionCall}
    (compiled : (Simple.function call).restrict .generic path = .ok restricted) :
    Restricts path restricted (Simple.function call).isPositional n
      (Simple.function call).css.length := by
  obtain ⟨function, known, compiled⟩ := Simple.restrict_function_eq_ok_iff.mp compiled
  simp only [Simple.isPositional, known, Option.any_some]
  unfold FunctionalClass.restrict at compiled
  cases function with
  | nthChild | nthLastChild | nthOfType | nthLastOfType =>
    exact restricts_restrictPosition within positive compiled
  | contains =>
    exact restricts_restrictLiteral within positive Condition.length_containsText_le compiled
  | lang =>
    exact restricts_restrictLiteral within positive Condition.length_ofLanguage_le compiled

/-- A simple selector adds to a path what its length allows for. -/
theorem Simple.restricts {simple : Simple} (formed : simple.IsFormed) (within : path.NamesWithin n)
    (positive : 1 ≤ n) (compiled : simple.restrict .generic path = .ok restricted) :
    Restricts path restricted simple.isPositional n simple.css.length := by
  -- the bounds are quadratic in the printed length, which is more than the length of the condition
  cases simple with
  | className name =>
    obtain rfl := Except.ok.inj compiled
    have printed : name.length + 1 ≤ (Simple.className name).css.length := by
      have := Text.length_le_identifier name
      simp [← String.length_toList, Simple.css] at *
      omega
    have short := Condition.length_ofClass_le name
    refine restricts_addCondition within ?_
    nlinarith
  | id value =>
    obtain rfl := Except.ok.inj compiled
    have printed : value.length + 1 ≤ (Simple.id value).css.length := by
      have := Text.length_le_identifier value
      simp [← String.length_toList, Simple.css] at *
      omega
    have short := Condition.length_ofId_le value
    refine restricts_addCondition within ?_
    nlinarith
  | «attribute» selector =>
    obtain rfl := Except.ok.inj compiled
    have printed : 2 ≤ (Simple.attribute selector).css.length := by
      simp [← String.length_toList, Simple.css, AttributeSelector.css]
      omega
    have short := Condition.length_ofAttribute_le formed.literal
    refine restricts_addCondition within ?_
    change _ ≤ 15 * (Simple.attribute selector).css.length + 158 at short
    nlinarith
  | pseudoClass name =>
    obtain ⟨condition, known, rfl⟩ := restrict_pseudoClass_eq_ok_iff.mp compiled
    have printed : 1 ≤ (Simple.pseudoClass name).css.length := by
      simp [← String.length_toList, Simple.css]
    have short := Condition.length_ofPseudoClass_le within known
    refine restricts_addCondition within ?_
    nlinarith
  | function call => exact restricts_function within positive compiled

end Simple

/-! ### Type selectors and arguments -/

theorem within_ofTest (test : String) : (LocationPath.ofTest test).NamesWithin test.length where
  test := Nat.le_refl _
  type := by
    intro type named
    unfold LocationPath.ofTest at named
    dsimp only at named
    split at named
    · exact nomatch named
    · rw [← Option.some.inj named]

theorem weight_ofTest (test : String) : (LocationPath.ofTest test).weight = test.length + 2 := by
  have load : (LocationPath.ofTest test).load = test.length := rfl
  have copies : (LocationPath.ofTest test).copies = 1 := rfl
  have segments : (segmentsText (LocationPath.ofTest test).segments).length = 0 := rfl
  rw [LocationPath.weight, load, copies, segments]
  omega

theorem weight_addNameTest_ofTest_le (test : String) :
    (LocationPath.ofTest test).addNameTest.weight ≤ 6 * test.length + 27 := by
  have named := (LocationPath.ofTest test).weight_addNameTest_le
  have same : (LocationPath.ofTest test).test = test := rfl
  have copies : (LocationPath.ofTest test).copies = 1 := rfl
  rw [weight_ofTest, same, copies] at named
  omega

theorem length_typeName_le (ns name : Option String) :
    (typeName .generic ns name).length ≤ (typeCss ns name).length := by
  have same : name.map (Options.foldCase Options.generic.lowerCaseElementNames) = name := by
    cases name <;> rfl
  unfold typeName typeCss
  rw [same]
  cases ns with
  | none =>
    cases name with
    | none => decide
    | some name => simpa [qualifierCss] using Text.length_le_identifier name
  | some ns =>
    have qualifier := length_le_qualifierCss ns
    cases name with
    | none =>
      simp [← String.length_toList] at *
      omega
    | some name =>
      have identifier := Text.length_le_identifier name
      simp [← String.length_toList] at *
      omega

/-! ### The path of a tree -/

/-- The path starts anywhere, or at the context node. -/
def IsLocal (origin : Origin) : Prop := ∀ pair ∈ origin, pair.1 = .here

/-- The characters that the context node and its combinator take in front of names of `n`
characters. -/
def originLength (origin : Origin) (n : ℕ) : ℕ := if origin.isSome then 5 * n + 85 else 0

/-- The path of a tree is within what the tree allows for at its depth. That of a compound is
starred exactly if the compound asks for positions. -/
structure Tree.Allows (tree : Tree) (origin : Origin) (path : LocationPath) : Prop where
  starred : origin = none → tree.IsShaped false → path.starred = tree.isPositional
  within : path.NamesWithin (tree.css.length + 1)
  weight : path.weight ≤ 4 ^ tree.depth * allowance (tree.css.length + 1) +
    originLength origin (tree.css.length + 1)

section Anywhere

variable {tree : Tree} {path : LocationPath}

theorem Tree.Allows.weight_le (allowed : tree.Allows none path) :
    path.weight ≤ 4 ^ tree.depth * allowance (tree.css.length + 1) := by
  have weight := allowed.weight
  rwa [originLength, Option.isSome_none, if_neg Bool.false_ne_true, Nat.add_zero] at weight

/-- The bounds of a path with nothing in front of it. -/
theorem Tree.Allows.anywhere (starred : tree.IsShaped false → path.starred = tree.isPositional)
    (within : path.NamesWithin (tree.css.length + 1))
    (weight : path.weight ≤ 4 ^ tree.depth * allowance (tree.css.length + 1)) :
    tree.Allows none path :=
  ⟨fun _ => starred, within, weight.trans (Nat.le_add_right _ _)⟩

end Anywhere

section Connect

variable {left right path : LocationPath} {n : ℕ}

theorem within_connect (within : right.NamesWithin n) (positive : 1 ≤ n) (left : LocationPath)
    (combinator : Combinator) : (connect left combinator right).NamesWithin n := by
  cases combinator with
  | descendant | child => exact ⟨within.test, within.type⟩
  | nextSibling | subsequentSibling => exact within.joinSibling positive left _

/-- A combinator adds what it is written as; between siblings also the name and the place. -/
theorem weight_connect_le (within : right.NamesWithin n) (left : LocationPath)
    (combinator : Combinator) :
    (connect left combinator right).weight ≤ left.weight + right.weight +
      if combinator = .descendant then 23 else 5 * n + 82 := by
  have test := within.test
  cases combinator with
  | descendant =>
    have link : Link.descendant.text.length = 23 := rfl
    have joined := left.weight_join_le .descendant right
    rw [connect, if_pos rfl]
    omega
  | child =>
    have link : Link.child.text.length = 1 := rfl
    have joined := left.weight_join_le .child right
    rw [connect, if_neg (by decide)]
    omega
  | nextSibling =>
    have joined := left.weight_joinSibling_le right true
    rw [connect, if_neg (by decide)]
    omega
  | subsequentSibling =>
    have joined := left.weight_joinSibling_le right false
    rw [connect, if_neg (by decide)]
    omega

/-- A path keeps to its bounds behind the context node. -/
theorem Tree.Allows.attach {tree : Tree} (allowed : tree.Allows none path) {origin : Origin}
    (isLocal : IsLocal origin) : tree.Allows origin (origin.attach path) := by
  cases origin with
  | none => exact allowed
  | some pair =>
    obtain ⟨start, combinator⟩ := pair
    obtain rfl : start = .here := isLocal _ rfl
    have weight := allowed.weight
    have joined := weight_connect_le allowed.within .here combinator
    have here : LocationPath.here.weight = 3 := rfl
    refine ⟨nofun, within_connect allowed.within (Nat.succ_pos _) .here combinator, ?_⟩
    simp only [originLength, Option.isSome_none, Bool.false_eq_true, if_false, Option.isSome_some,
      if_true, Origin.attach] at *
    split at joined <;> omega

end Connect

/-- A type selector writes its name once, or twice where the name is no node test. -/
theorem Tree.allows_element (ns name : Option String) :
    (Tree.element ns name).Allows none (typePath .generic ns name) := by
  have short := length_typeName_le ns name
  have within := (within_ofTest (SelectorPath.typeName .generic ns name)).mono
    (short.trans (Nat.le_succ _))
  have room : 6 * (typeCss ns name).length + 27 ≤ allowance ((typeCss ns name).length + 1) := by
    unfold allowance
    nlinarith
  have flat (weight : (typePath .generic ns name).weight ≤ 6 * (typeCss ns name).length + 27) :
      (typePath .generic ns name).weight ≤
        4 ^ (Tree.element ns name).depth * allowance ((Tree.element ns name).css.length + 1) := by
    rw [depth, css, Nat.pow_zero, Nat.one_mul]
    exact weight.trans room
  rcases typePath_eq .generic ns name with same | same
  · have weight := weight_ofTest (SelectorPath.typeName .generic ns name)
    rw [← same] at weight
    exact .anywhere (fun _ => same ▸ rfl) (same ▸ within) (flat (by omega))
  · have weight := weight_addNameTest_ofTest_le (SelectorPath.typeName .generic ns name)
    have starred := (LocationPath.segments_addNameTest
      (LocationPath.ofTest (SelectorPath.typeName .generic ns name))).2
    rw [← same] at weight starred
    exact .anywhere (fun _ => starred) (same ▸ within.addNameTest (Nat.succ_pos _))
      (flat (by omega))

/-! ### Restrictions -/

/-- Something at no depth may stand at any. -/
theorem add_const_le_pow_mul {x depth a : ℕ} (le : x ≤ 4 ^ depth * a) (more : ℕ) :
    x + more ≤ 4 ^ depth * (a + more) :=
  have flat : more ≤ 4 ^ 0 * more := by rw [Nat.pow_zero, Nat.one_mul]
  add_le_pow_mul le flat (Nat.le_refl _) (Nat.zero_le _) (Nat.le_refl _)

/-- What stands around an argument has room in what the text of the argument and two more characters
allow for. -/
theorem allowance_argument_le {n m size : ℕ} (long : n + m + 2 ≤ size) :
    allowance n + (allowance m + (5 * m + 92)) ≤ allowance size := by
  have total := allowance_mono long
  rw [allowance_add, allowance_add n m] at total
  have two : allowance 2 = 124 := rfl
  omega

section Restricted

variable {base : Tree} {before : LocationPath}

/-- A simple selector behind a compound. -/
theorem Tree.Allows.restricted {simple : Simple} {path : LocationPath} (allowed : base.Allows none before)
    (shaped : base.IsShaped false) (formed : simple.IsFormed)
    (compiled : simple.restrict .generic before = .ok path) :
    (Tree.restricted base simple).Allows none path := by
  have css : (Tree.restricted base simple).css.length + 1 =
      base.css.length + 1 + simple.css.length := by
    rw [Tree.css, String.length_append]
    omega
  have starred := allowed.starred rfl shaped
  obtain ⟨within, stars, more, room, weight⟩ :=
    simple.restricts formed allowed.within (Nat.succ_pos _) compiled
  have positional : path.starred = (Tree.restricted base simple).isPositional := by
    rw [stars, starred, isPositional]
  refine .anywhere (fun _ => positional) (css ▸ within.mono (Nat.le_add_right _ _))
    (weight.trans ?_)
  -- a first position is one level more, which pays for the copies of what was there
  have first : (if (simple.isPositional && !before.starred) = true then 4 else 1) * before.weight ≤
      4 ^ (Tree.restricted base simple).depth * allowance (base.css.length + 1) := by
    have old := allowed.weight_le
    rw [starred, depth]
    split
    · rw [Nat.pow_succ, Nat.mul_comm _ 4, Nat.mul_assoc]
      exact Nat.mul_le_mul_left 4 old
    · rwa [Nat.one_mul, Nat.add_zero]
  have level : path.starred.toNat ≤ (Tree.restricted base simple).depth := by
    rw [positional]
    exact toNat_isPositional_le_depth _
  rw [css]
  exact add_le_pow_mul first (Nat.le_refl _) (Nat.le_refl _) level (by omega)

/-- A condition made of arguments behind a compound: what the arguments take at their own depth is
written as often as the last step. -/
theorem Tree.Allows.addCondition {tree : Tree} (allowed : base.Allows none before)
    (shaped : base.IsShaped false) {condition : Expr} {inner room : ℕ}
    (long : condition.text.length + 7 ≤ 4 ^ inner * room)
    (positional : tree.isPositional = base.isPositional)
    (deep : tree.depth = max base.depth (base.isPositional.toNat + inner))
    (enough : allowance (base.css.length + 1) + room ≤ allowance (tree.css.length + 1))
    (css : base.css.length ≤ tree.css.length) :
    tree.Allows none (before.addCondition condition) := by
  have starred := allowed.starred rfl shaped
  have copies : before.copies ≤ 4 ^ base.isPositional.toNat := starred ▸ before.copies_le
  refine .anywhere (fun _ => starred.trans positional.symm)
    ((allowed.within.mono (by omega)).addCondition condition) ?_
  rw [LocationPath.weight_addCondition]
  refine add_le_pow_mul allowed.weight_le (mul_le_pow_mul copies long) ?_ ?_ enough <;>
    rw [deep]
  · exact Nat.le_max_left _ _
  · exact Nat.le_max_right _ _

/-- The condition of an argument: behind a star it is a membership test. -/
theorem length_argumentCondition_le {path : LocationPath} {n : ℕ} (within : path.NamesWithin n) :
    ∀ condition ∈ argumentCondition? path, condition.text.length ≤ path.weight + 5 * n + 31 := by
  intro condition known
  have last := path.copies_mul_load_le_weight
  unfold argumentCondition? at known
  split at known
  · rename_i starred
    obtain rfl := Option.some.inj known
    have membership := path.length_membership_le
    have twice := Nat.mul_le_mul_right path.load (LocationPath.two_le_copies starred)
    omega
  · -- the last step stands there once, and its name becomes one more condition
    rename_i plain
    have test := within.test
    have joined := length_conjunction_le known
    have named := path.copies_mul_load_addNameTest_le
    have single : path.copies = 1 := by rw [LocationPath.copies, if_neg plain]
    have copies := path.addNameTest.one_le_copies
    have load := Nat.mul_le_mul_right path.addNameTest.load copies
    rw [single, Nat.one_mul] at named
    rw [single, Nat.one_mul] at last
    rw [Nat.one_mul, LocationPath.load] at load
    rw [LocationPath.load] at named
    omega

theorem length_negationCondition_le {path : LocationPath} {n : ℕ} (within : path.NamesWithin n) :
    (negationCondition path).text.length ≤ path.weight + (5 * n + 36) := by
  unfold negationCondition
  split
  · rename_i condition known
    have short := length_argumentCondition_le within condition known
    simp [← String.length_toList, Expr.text, Expr.listText, Function.text] at *
    omega
  · have zero : Condition.never.text.length = 1 := by decide
    omega

/-- The condition of an argument, with what joins it to others. -/
theorem Tree.Allows.length_condition_le {tree : Tree} {path : LocationPath}
    (allowed : tree.Allows none path) :
    ((argumentCondition? path).getD Condition.always).text.length + 7 ≤
      4 ^ tree.depth * allowance (tree.css.length + 2) := by
  have short : ((argumentCondition? path).getD Condition.always).text.length ≤
      path.weight + 5 * (tree.css.length + 1) + 31 := by
    cases known : argumentCondition? path with
    | none =>
      have one : Condition.always.text.length = 1 := by decide
      rw [Option.getD_none]
      omega
    | some condition => exact length_argumentCondition_le allowed.within condition known
  have room := add_const_le_pow_mul allowed.weight_le (5 * (tree.css.length + 1) + 38)
  refine le_trans (by omega) (room.trans (Nat.mul_le_mul_left _ ?_))
  have one : allowance 1 = 31 := rfl
  rw [allowance_add (tree.css.length + 1) 1]
  omega

end Restricted

/-! ### Arguments -/

section Arguments

variable {base argument : Tree} {before other : LocationPath}

theorem isLocal_none : IsLocal none := nofun

theorem isLocal_here (combinator : Combinator) : IsLocal (some (.here, combinator)) := by
  intro pair known
  rw [← Option.some.inj known]

theorem Tree.Allows.negation (allowed : base.Allows none before) (shaped : base.IsShaped false)
    (inner : argument.Allows none other) :
    (Tree.negation base argument).Allows none (before.addCondition (negationCondition other)) := by
  have css : (Tree.negation base argument).css.length =
      base.css.length + argument.css.length + 6 := by
    simp [← String.length_toList, Tree.css]
    omega
  have short := length_negationCondition_le inner.within
  have long := add_const_le_pow_mul inner.weight_le (5 * (argument.css.length + 1) + 92)
  exact allowed.addCondition shaped (le_trans (by omega) long) rfl (by rw [depth])
    (allowance_argument_le (by omega)) (by omega)

theorem Tree.Allows.relation {combinator : Combinator} (allowed : base.Allows none before)
    (shaped : base.IsShaped false) (inner : argument.Allows (some (.here, combinator)) other) :
    (Tree.relation base combinator argument).Allows none (before.addCondition other.toExpr) := by
  have css : base.css.length + argument.css.length + 6 ≤
      (Tree.relation base combinator argument).css.length := by
    simp [← String.length_toList, Tree.css]
    omega
  have short := other.length_text_le.trans inner.weight
  have long := add_const_le_pow_mul (Nat.le_refl
    (4 ^ argument.depth * allowance (argument.css.length + 1))) (5 * (argument.css.length + 1) + 92)
  rw [originLength, Option.isSome_some, if_pos rfl] at short
  refine allowed.addCondition shaped (le_trans ?_ long) rfl (by rw [depth])
    (allowance_argument_le (by omega)) (by omega)
  rw [LocationPath.text_toExpr]
  omega

/-- Alternatives that are one condition, or none at all. -/
theorem Tree.Allows.anyOf {kind : Alternation} {arguments : List Tree} {conditions : List Expr}
    (allowed : base.Allows none before) (shaped : base.IsShaped false)
    (inner : conditionsLength conditions ≤
      4 ^ Tree.depths arguments * allowance ((Tree.listCss arguments).length + 2)) :
    (Tree.anyOf kind base arguments).Allows none (before.addAlternatives conditions) := by
  have css : base.css.length + (Tree.listCss arguments).length + 5 ≤
      (Tree.anyOf kind base arguments).css.length := by
    cases kind <;>
    · simp [← String.length_toList, Tree.css, alternationCss]
      omega
  unfold LocationPath.addAlternatives
  split
  · -- without a condition the path stays as it is
    have deep : base.depth ≤ (Tree.anyOf kind base arguments).depth := by
      rw [depth]
      exact Nat.le_max_left _ _
    have more : allowance (base.css.length + 1) ≤
        allowance ((Tree.anyOf kind base arguments).css.length + 1) := allowance_mono (by omega)
    have flat := Nat.mul_le_mul (Nat.pow_le_pow_right (by decide : 4 > 0) deep) more
    exact .anywhere (fun _ => allowed.starred rfl shaped) (allowed.within.mono (by omega))
      (allowed.weight_le.trans flat)
  · rename_i condition joined
    have long := add_const_le_pow_mul ((length_disjunction_le joined).trans inner)
      (5 * ((Tree.listCss arguments).length + 2) + 92)
    exact allowed.addCondition shaped (le_trans (by omega) long) rfl (by rw [depth])
      (allowance_argument_le (by omega)) (by omega)

/-- The texts on both sides of a combinator allow for the combinator. -/
theorem Tree.Allows.combined {left right : Tree} {combinator : Combinator} {origin : Origin}
    {behind : LocationPath} (allowed : left.Allows origin before) (other : right.Allows none behind) :
    (Tree.combined left combinator right).Allows origin (connect before combinator behind) := by
  have css : (Tree.combined left combinator right).css.length + 1 =
      left.css.length + 1 + (right.css.length + 1) + if combinator = .descendant then 0 else 2 := by
    cases combinator <;>
    · simp [← String.length_toList, Tree.css, Combinator.between, Combinator.symbol]
      omega
  have room : allowance (left.css.length + 1) + (allowance (right.css.length + 1) +
      if combinator = .descendant then 23 else 5 * (right.css.length + 1) + 82) ≤
        allowance ((Tree.combined left combinator right).css.length + 1) := by
    rw [css]
    split
    · -- a blank is a single character, but the texts on both sides of it are not empty
      have both : 1 ≤ (left.css.length + 1) * (right.css.length + 1) :=
        Nat.mul_pos (Nat.succ_pos _) (Nat.succ_pos _)
      have total := allowance_add (left.css.length + 1) (right.css.length + 1)
      change _ ≤ allowance (left.css.length + 1 + (right.css.length + 1))
      omega
    · exact le_trans (by omega) (allowance_argument_le (Nat.le_refl _))
  have start : originLength origin (left.css.length + 1) ≤
      originLength origin ((Tree.combined left combinator right).css.length + 1) := by
    unfold originLength
    split <;> omega
  refine ⟨fun _ shaped => absurd shaped.1 Bool.false_ne_true,
    (within_connect other.within (Nat.succ_pos _) before combinator).mono (by omega),
    (weight_connect_le other.within before combinator).trans ?_⟩
  have behind := add_const_le_pow_mul other.weight_le
    (if combinator = .descendant then 23 else 5 * (right.css.length + 1) + 82)
  have both := add_le_pow_mul (Nat.le_refl (4 ^ left.depth * allowance (left.css.length + 1)))
    behind (Nat.le_max_left left.depth right.depth) (Nat.le_max_right _ _) room
  have front := allowed.weight
  rw [depth]
  omega

end Arguments

/-! ### Trees -/

mutual

/-- The path of a tree is within what the tree allows for at its depth. -/
theorem Tree.allows_pathFrom : (tree : Tree) → {site : Site} → tree.IsFormed site →
    {origin : Origin} → IsLocal origin → {path : LocationPath} →
      tree.pathFrom .generic origin = .ok path → tree.Allows origin path
  | .element ns name, _, _, _, isLocal, _, compiled => by
    obtain rfl := Except.ok.inj compiled
    exact (allows_element ns name).attach isLocal
  | .restricted base simple, _, formed, _, isLocal, _, compiled => by
    obtain ⟨before, restricted, compiledBase, compiledSimple, rfl⟩ :=
      pathFrom_restricted_eq_ok_iff.mp compiled
    have allowed := allows_pathFrom base formed.1 isLocal_none compiledBase
    exact (allowed.restricted formed.1.isShaped formed.2.1 compiledSimple).attach isLocal
  | .negation base argument, _, formed, _, isLocal, _, compiled => by
    obtain ⟨before, other, compiledBase, compiledArgument, rfl⟩ :=
      pathFrom_negation_eq_ok_iff.mp compiled
    have allowed := allows_pathFrom base formed.2.1 isLocal_none compiledBase
    have inner := allows_pathFrom argument formed.2.2 isLocal_none compiledArgument
    exact (allowed.negation formed.2.1.isShaped inner).attach isLocal
  | .anyOf kind base arguments, _, formed, _, isLocal, _, compiled => by
    obtain ⟨before, conditions, compiledBase, compiledArguments, rfl⟩ :=
      pathFrom_anyOf_eq_ok_iff.mp compiled
    have allowed := allows_pathFrom base formed.1 isLocal_none compiledBase
    have inner := length_conditions_le arguments formed.2.2 compiledArguments
    exact (allowed.anyOf formed.1.isShaped inner).attach isLocal
  | .relation base combinator argument, _, formed, _, isLocal, _, compiled => by
    obtain ⟨before, related, compiledBase, compiledArgument, rfl⟩ :=
      pathFrom_relation_eq_ok_iff.mp compiled
    have allowed := allows_pathFrom base formed.1 isLocal_none compiledBase
    have inner := allows_pathFrom argument formed.2 (isLocal_here combinator) compiledArgument
    exact (allowed.relation formed.1.isShaped inner).attach isLocal
  | .combined left combinator right, _, formed, _, isLocal, _, compiled => by
    obtain ⟨before, behind, compiledLeft, compiledRight, rfl⟩ :=
      pathFrom_combined_eq_ok_iff.mp compiled
    -- the origin stands in front of the left side, so only that is compiled behind it
    have allowed := allows_pathFrom left formed.2.1 isLocal compiledLeft
    exact allowed.combined (allows_pathFrom right formed.2.2 isLocal_none compiledRight)

/-- The conditions of arguments, each with what joins it to the others. -/
theorem Tree.length_conditions_le : (trees : List Tree) → Tree.AllFormed trees →
    {conditions : List Expr} → Tree.conditions .generic trees = .ok conditions →
      conditionsLength conditions ≤ 4 ^ Tree.depths trees * allowance ((Tree.listCss trees).length + 2)
  | [], _, conditions, compiled => by
    obtain rfl := Except.ok.inj compiled
    exact Nat.zero_le _
  | tree :: rest, formed, conditions, compiled => by
    obtain ⟨path, others, compiledFirst, compiledRest, rfl⟩ := conditions_cons_eq_ok_iff.mp compiled
    have first := (allows_pathFrom tree formed.1 isLocal_none compiledFirst).length_condition_le
    have behind := length_conditions_le rest formed.2 compiledRest
    rw [← List.singleton_append, conditionsLength_append, conditionsLength_singleton, Tree.depths]
    -- the comma and the blank between two arguments pay for what joins their conditions
    cases rest with
    | nil =>
      obtain rfl := Except.ok.inj compiledRest
      rw [conditionsLength_nil, Tree.depths, Nat.max_zero]
      exact first
    | cons next rest =>
      have css : (Tree.listCss (tree :: next :: rest)).length + 2 =
          tree.css.length + 2 + ((Tree.listCss (next :: rest)).length + 2) := by
        simp [← String.length_toList, Tree.listCss]
        omega
      refine add_le_pow_mul first behind (Nat.le_max_left _ _) (Nat.le_max_right _ _) ?_
      rw [css, allowance_add (tree.css.length + 2) ((Tree.listCss (next :: rest)).length + 2)]
      exact Nat.le_add_right _ _

end

/-! ### Nesting -/

/-- A compound that asks for any position. -/
def Tree.anyPosition : Tree :=
  .restricted .universal (.function ⟨"nth-child", [⟨.ident, "n", 0⟩]⟩)

/-- Compounds that ask for positions, each in an argument of the one before. -/
def Tree.nested : ℕ → Tree
  | 0 => .restricted .universal (.className "a")
  | k + 1 => .anyOf .matchesAny .anyPosition [Tree.nested k]

/-- The path of a compound that asks for positions and has one condition behind them. -/
def positionalPath (condition : Expr) : LocationPath :=
  ⟨[.star], "*", [condition], true, none⟩

theorem length_text_positionalPath (condition : Expr) :
    (positionalPath condition).text.length = condition.text.length + 5 := by
  have known : (positionalPath condition).condition? = some condition := rfl
  rw [LocationPath.text, known, positionalPath]
  simp [← String.length_toList, stepText, predicates, Expr.predicatesText]

/-- As an argument it writes the condition twice. -/
theorem length_membership_positionalPath (condition : Expr) :
    (positionalPath condition).membership.text.length = 2 * condition.text.length + 33 := by
  have known : (positionalPath condition).condition? = some condition := rfl
  rw [LocationPath.membership, LocationPath.siblings, known, positionalPath]
  simp [← String.length_toList, Expr.text, Expr.listText, Function.text, Operator.text,
    AxisSpecifier.text, predicates, Expr.predicatesText]
  omega

/-- What the arguments of `Tree.nested` become. -/
def nestedCondition : ℕ → Expr
  | 0 => Condition.ofClass .generic "a"
  | k + 1 => (positionalPath (nestedCondition k)).membership

theorem Tree.isFormed_nested (k : ℕ) (site : Site) : (nested k).IsFormed site := by
  induction k generalizing site with
  | zero => simp [nested, IsFormed, Simple.IsFormed, universal]
  | succ k ih =>
    have call : IsCall ⟨"nth-child", [⟨.ident, "n", 0⟩]⟩ :=
      ⟨⟨by simp [Text.IsSmall], by decide⟩, by decide, by simp [IsFunctionArgument]⟩
    have base : anyPosition.IsFormed site.compound := by
      simp [anyPosition, IsFormed, Simple.IsFormed, universal, call]
    rw [nested, IsFormed, AllFormed, AllFormed]
    exact ⟨base, List.cons_ne_nil _ _, ih _, trivial⟩

theorem Tree.length_css_nested (k : ℕ) : (nested k).css.length = 19 * k + 3 := by
  induction k with
  | zero => decide +kernel
  | succ k ih =>
    have base : anyPosition.css.length = 14 := by decide +kernel
    have opening : (alternationCss .matchesAny).length = 4 := by decide +kernel
    have closing : ")".length = 1 := by decide +kernel
    rw [nested, css, listCss, String.length_append, String.length_append, String.length_append]
    omega

theorem Tree.depth_nested (k : ℕ) : (nested k).depth = k := by
  induction k with
  | zero => decide +kernel
  | succ k ih =>
    have base : anyPosition.depth = 1 := by decide +kernel
    have positional : anyPosition.isPositional = true := by decide +kernel
    rw [nested, depth, depths, depths, base, positional, ih, Bool.toNat_true]
    omega

theorem Tree.path_nested_succ {k : ℕ} {path : LocationPath}
    (compiled : (nested k).path .generic = .ok path)
    (condition : argumentCondition? path = some (nestedCondition k)) :
    (nested (k + 1)).path .generic =
      .ok (positionalPath (nestedCondition k)) := by
  have base : anyPosition.pathFrom .generic none = .ok (LocationPath.mk [.star] "*" [] true none) := by
    cbv
  have inner : Tree.conditions .generic [nested k] = .ok [nestedCondition k] := by
    rw [Tree.conditions, show (nested k).pathFrom .generic none = .ok path from compiled]
    simp [condition, Tree.conditions, bind, Except.bind, pure, Except.pure]
  rw [Tree.path, nested, pathFrom, base, inner]
  rfl

theorem Tree.exists_path_nested (k : ℕ) : ∃ path, (nested k).path .generic = .ok path ∧
    argumentCondition? path = some (nestedCondition k) := by
  induction k with
  | zero => exact ⟨LocationPath.mk [] "*" [nestedCondition 0] false none, by rfl, by rfl⟩
  | succ k ih =>
    obtain ⟨path, compiled, condition⟩ := ih
    exact ⟨_, path_nested_succ compiled condition, rfl⟩

/-- Each level writes the condition twice. -/
theorem length_nestedCondition (k : ℕ) :
    (nestedCondition k).text.length + 33 = 102 * 2 ^ k := by
  induction k with
  | zero => decide +kernel
  | succ k ih =>
    rw [nestedCondition, length_membership_positionalPath, Nat.pow_succ]
    omega

/-- The text of the path doubles with each level. -/
theorem Tree.length_text_nested (k : ℕ) : ∃ path, (nested (k + 1)).path .generic = .ok path ∧
    path.text.length + 28 = 102 * 2 ^ k := by
  obtain ⟨path, compiled, condition⟩ := exists_path_nested k
  have doubled := length_nestedCondition k
  have text := length_text_positionalPath (nestedCondition k)
  exact ⟨_, path_nested_succ compiled condition, by omega⟩

/-! ### How long a path is -/

/-- The text of the path of a tree is at most quadratic in the text of the tree while positions are
nested three deep at most; each level beyond makes it four times as long at most. -/
theorem Tree.length_text_path_le {tree : Tree} {site : Site} (formed : tree.IsFormed site)
    {path : LocationPath} (compiled : tree.path .generic = .ok path) :
    path.text.length ≤ 4 ^ (tree.depth - 3) * (2000 * (tree.css.length + 1) ^ 2) := by
  have allowed := allows_pathFrom tree formed isLocal_none compiled
  -- three levels fit into the constant: `4 ^ 3 * 31 ≤ 2000`
  have levels : 4 ^ tree.depth ≤ 4 ^ (tree.depth - 3) * 64 := by
    rw [show 64 = 4 ^ 3 from rfl, ← Nat.pow_add]
    exact Nat.pow_le_pow_right (by decide) (by omega)
  calc
    path.text.length ≤ path.weight := path.length_text_le
    _ ≤ 4 ^ tree.depth * allowance (tree.css.length + 1) := allowed.weight_le
    _ ≤ 4 ^ (tree.depth - 3) * 64 * allowance (tree.css.length + 1) := Nat.mul_le_mul_right _ levels
    _ = 4 ^ (tree.depth - 3) * (1984 * (tree.css.length + 1) ^ 2) := by
      unfold allowance
      ring
    _ ≤ 4 ^ (tree.depth - 3) * (2000 * (tree.css.length + 1) ^ 2) :=
      Nat.mul_le_mul_left _ (Nat.mul_le_mul_right _ (by decide))

/-- Four levels. -/
theorem Tree.length_text_path_le_nested :
    (nested 4).IsFormed .whole ∧ (nested 4).depth = 4 ∧ (nested 4).css.length = 79 ∧
      ∃ path, (nested 4).path .generic = .ok path ∧ path.text.length ≤ 4 * (2000 * 80 ^ 2) := by
  obtain ⟨path, compiled, -⟩ := exists_path_nested 4
  have formed := isFormed_nested 4 .whole
  have bound := length_text_path_le formed compiled
  rw [depth_nested, length_css_nested] at bound
  exact ⟨formed, depth_nested 4, length_css_nested 4, path, compiled, bound⟩

/-- With twenty-three levels the text of a path is longer than a quadratic bound without a factor
for the levels allows for. -/
theorem Tree.lt_length_text_path_nested :
    (nested 23).IsFormed .whole ∧ ∃ path, (nested 23).path .generic = .ok path ∧
      2000 * ((nested 23).css.length + 1) ^ 2 < path.text.length := by
  obtain ⟨path, compiled, long⟩ := length_text_nested 22
  refine ⟨isFormed_nested 23 .whole, path, compiled, ?_⟩
  rw [length_css_nested]
  omega

end Selector

end SelectorPath
