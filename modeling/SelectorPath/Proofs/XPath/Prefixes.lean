import SelectorPath.Proofs.XPath.Colons
import SelectorPath.Proofs.XPath.Validity

/-!
# Expressions without prefixes

Names from a selector are quoted, or they are written where a node test stands. So the only prefixes
in an expression are those of its node tests: whatever its other parts are, a scan of its colons
passes over each of them on its own, and is outside of literals behind it. The operations on paths
keep node tests or put `*` in their place, and bring no prefixes in.

## Main definitions

* `Expr.IsUnprefixed`, `LocationPath.IsUnprefixed` — the colons in each part stand in pairs

## Main results

* `colonsPaired_quote` — no text can break out of its quotes
* `LocationPath.IsUnprefixed.join`, `LocationPath.IsUnprefixed.addPositionAmong`, … — the operations
  on paths
-/

namespace SelectorPath.XPath

open Text

/-! ### Parts of expressions -/

theorem ColonsPaired.append {first second : String} (paired : ColonsPaired first)
    (also : ColonsPaired second) : ColonsPaired (first ++ second) := by
  unfold ColonsPaired at *
  rw [String.toList_append, Place.after_append, paired, also]

theorem colonsPaired_of_isPlainName {name : String} (plain : isPlainName name = true) :
    ColonsPaired name :=
  Place.after_outside_of_unmarked fun _ member =>
    isUnmarked_of_isPlainPart (isPlainPart_of_mem plain member)

/-- A name that can be written is one without a prefix if it has no colon. -/
theorem isPlainName_of_not_mem {name : String} (plain : isPlainQName name = true)
    (noColon : ':' ∉ name.toList) : isPlainName name = true := by
  rcases isPlainQName_iff.mp plain with simple | ⟨ns, rest, -, -, rfl⟩
  · exact simple
  · simp at noColon

theorem colonsPaired_quoteRun {cs run : List Char} (member : run ∈ quoteRuns cs) :
    Place.outside.after (quoteRun run) = .outside := by
  obtain ⟨isQuote, uniform⟩ := quoteRuns_uniform member
  unfold quoteRun
  split
  · rename_i holds
    refine Place.after_quoted (.inr rfl) fun also => ?_
    have := (uniform _ also).trans (uniform _ holds).symm
    exact absurd this (by decide)
  · rename_i absent
    exact Place.after_quoted (.inl rfl) absent

/-- Whatever a quoted text holds, it ends with its quotes. -/
theorem colonsPaired_quote (value : String) : ColonsPaired (quote value) := by
  unfold ColonsPaired quote quoteChars
  rw [String.toList_ofList]
  split
  · exact Place.after_quoted (.inl rfl) ‹_›
  split
  · exact Place.after_quoted (.inr rfl) ‹_›
  · have runs (runs : List (List Char)) (all : ∀ run ∈ runs, run ∈ quoteRuns value.toList) :
        Place.outside.after (", ".toList.intercalate (runs.map quoteRun)) = .outside := by
      induction runs with
      | nil => rfl
      | cons run rest ih =>
        obtain ⟨here, others⟩ := List.forall_mem_cons.mp all
        cases rest with
        | nil => simpa [List.intercalate] using colonsPaired_quoteRun here
        | cons next rest =>
          have behind := ih others
          have comma : Place.outside.after ", ".toList = .outside := by decide
          simp only [List.intercalate, List.map_cons, List.intersperse, List.flatten_cons,
            Place.after_append, colonsPaired_quoteRun here, comma] at behind ⊢
          exact behind
    have opened : Place.outside.after "concat(".toList = .outside := by decide
    rw [Place.after_append, Place.after_append, opened, runs _ fun _ member => member]
    rfl

theorem colonsPaired_toString (value : Int) : ColonsPaired (toString value) := by
  have digits (n : Nat) : ColonsPaired n.repr :=
    Place.after_outside_of_unmarked fun _ member =>
      isUnmarked_of_isDigit (isDigit_of_mem_repr member)
  cases value with
  | ofNat n => exact digits n
  | negSucc n =>
    have sign : ColonsPaired "-" := by decide
    exact sign.append (digits (n + 1))

theorem Function.colonsPaired_text (function : Function) : ColonsPaired function.text :=
  colonsPaired_of_isPlainName function.isPlainName_text.1

theorem Operator.colonsPaired_text (operator : Operator) : ColonsPaired operator.text := by
  cases operator with
  | plus spacing | minus spacing => cases spacing <;> decide
  | _ => decide

theorem AxisSpecifier.colonsPaired_text (specifier : AxisSpecifier) :
    ColonsPaired specifier.text := by
  cases specifier with
  | named axis =>
    have colons : ColonsPaired "::" := by decide
    exact (colonsPaired_of_isPlainName axis.isPlainName_text).append colons
  | _ => decide

theorem Link.colonsPaired_text {link : Link} (plain : ∀ text, link ≠ .verbatim text) :
    ColonsPaired link.text := by
  cases link with
  | verbatim text => exact absurd rfl (plain text)
  | _ => decide

namespace Expr

/-- All colons in the text of the expression that are outside of literals stand in pairs. -/
def IsUnprefixed (expr : Expr) : Prop := ColonsPaired expr.text

instance : DecidablePred IsUnprefixed := fun expr =>
  inferInstanceAs (Decidable (ColonsPaired expr.text))

theorem isUnprefixed_integer (value : Int) : (integer value).IsUnprefixed :=
  colonsPaired_toString value

theorem isUnprefixed_literal (value : String) : (literal value).IsUnprefixed :=
  colonsPaired_quote value

theorem isUnprefixed_self : self.IsUnprefixed := by decide

theorem IsUnprefixed.group {inner : Expr} (unprefixed : inner.IsUnprefixed) :
    inner.group.IsUnprefixed := by
  have sign : ColonsPaired "(" ∧ ColonsPaired ")" := by decide
  exact (sign.1.append unprefixed).append sign.2

theorem IsUnprefixed.binary {left right : Expr} (unprefixed : left.IsUnprefixed)
    (operator : Operator) (also : right.IsUnprefixed) :
    (Expr.binary operator left right).IsUnprefixed :=
  (ColonsPaired.append unprefixed operator.colonsPaired_text).append also

theorem colonsPaired_listText {exprs : List Expr} (all : ∀ expr ∈ exprs, expr.IsUnprefixed) :
    ColonsPaired (listText exprs) := by
  induction exprs with
  | nil => decide
  | cons expr rest ih =>
    obtain ⟨here, others⟩ := List.forall_mem_cons.mp all
    cases rest with
    | nil => exact here
    | cons next rest =>
      have comma : ColonsPaired ", " := by decide
      exact (ColonsPaired.append here comma).append (ih others)

theorem colonsPaired_predicatesText {exprs : List Expr} (all : ∀ expr ∈ exprs, expr.IsUnprefixed) :
    ColonsPaired (predicatesText exprs) := by
  have sign : ColonsPaired "[" ∧ ColonsPaired "]" := by decide
  induction exprs with
  | nil => decide
  | cons expr rest ih =>
    obtain ⟨here, others⟩ := List.forall_mem_cons.mp all
    exact ((sign.1.append here).append sign.2).append (ih others)

theorem isUnprefixed_call (function : Function) {arguments : List Expr}
    (all : ∀ expr ∈ arguments, expr.IsUnprefixed) : (call function arguments).IsUnprefixed := by
  have sign : ColonsPaired "(" ∧ ColonsPaired ")" := by decide
  have opened := function.colonsPaired_text.append sign.1
  exact (opened.append (colonsPaired_listText all)).append sign.2

theorem IsUnprefixed.call {argument : Expr} (unprefixed : argument.IsUnprefixed)
    (function : Function) : (Expr.call function [argument]).IsUnprefixed :=
  isUnprefixed_call function (List.forall_mem_singleton.mpr unprefixed)

theorem isUnprefixed_step (axis : AxisSpecifier) {test : String} (paired : ColonsPaired test)
    {predicates : List Expr} (all : ∀ expr ∈ predicates, expr.IsUnprefixed) :
    (step axis test predicates).IsUnprefixed :=
  (axis.colonsPaired_text.append paired).append (colonsPaired_predicatesText all)

theorem IsUnprefixed.slash {base : Expr} (unprefixed : base.IsUnprefixed) (axis : AxisSpecifier)
    {test : String} (paired : ColonsPaired test) {predicates : List Expr}
    (all : ∀ expr ∈ predicates, expr.IsUnprefixed) :
    (Expr.slash base axis test predicates).IsUnprefixed := by
  have sign : ColonsPaired "/" := by decide
  exact (((ColonsPaired.append unprefixed sign).append axis.colonsPaired_text).append paired).append
    (colonsPaired_predicatesText all)

theorem isUnprefixed_nameIs (name : String) : (nameIs name).IsUnprefixed :=
  (isUnprefixed_call .name (by simp)).binary .equal (isUnprefixed_literal name)

theorem IsUnprefixed.foldl {first : Expr} (unprefixed : first.IsUnprefixed) (operator : Operator)
    {rest : List Expr} (all : ∀ expr ∈ rest, expr.IsUnprefixed) :
    (rest.foldl (.binary operator) first).IsUnprefixed := by
  induction rest generalizing first with
  | nil => exact unprefixed
  | cons next rest ih =>
    obtain ⟨here, others⟩ := List.forall_mem_cons.mp all
    exact ih (unprefixed.binary operator here) others

theorem isUnprefixed_join (operator : Operator) {exprs : List Expr}
    (all : ∀ expr ∈ exprs, expr.IsUnprefixed) :
    ∀ joined ∈ join? operator exprs, joined.IsUnprefixed := by
  cases exprs with
  | nil => simp [join?]
  | cons first rest =>
    obtain ⟨here, others⟩ := List.forall_mem_cons.mp all
    simpa [join?] using here.foldl operator others

theorem Joined.isUnprefixed {operator : Operator} {exprs : List Expr} {condition : Expr}
    (joined : Joined operator exprs condition) (all : ∀ expr ∈ exprs, expr.IsUnprefixed) :
    condition.IsUnprefixed := by
  cases joined with
  | single => exact all _ List.mem_cons_self
  | groups =>
    obtain ⟨here, others⟩ := List.forall_mem_cons.mp all
    exact here.group.foldl operator
      (List.forall_mem_map.mpr fun expr member => (others expr member).group)

theorem isUnprefixed_conjunction {exprs : List Expr} (all : ∀ expr ∈ exprs, expr.IsUnprefixed) :
    ∀ condition ∈ conjunction? exprs, condition.IsUnprefixed :=
  fun _ member => (joined_of_joinGroups? member).isUnprefixed all

theorem isUnprefixed_disjunction {exprs : List Expr} (all : ∀ expr ∈ exprs, expr.IsUnprefixed) :
    ∀ condition ∈ disjunction? exprs, condition.IsUnprefixed :=
  fun _ member => (joined_of_joinGroups? member).isUnprefixed all

end Expr

/-! ### Paths -/

namespace LocationPath

/-- All colons in the segments, the last node test and the conditions stand in pairs. -/
structure IsUnprefixed (path : LocationPath) : Prop where
  segments : ColonsPaired (segmentsText path.segments)
  test : ColonsPaired path.test
  conditions : ∀ condition ∈ path.conditions, condition.IsUnprefixed

section Build

variable {path other : LocationPath}

theorem colonsPaired_star : ColonsPaired "*" := by decide

theorem isUnprefixed_ofTest {test : String} (paired : ColonsPaired test) :
    (ofTest test).IsUnprefixed :=
  ⟨rfl, paired, by simp [ofTest]⟩

theorem IsUnprefixed.condition (unprefixed : path.IsUnprefixed) :
    ∀ condition ∈ path.condition?, condition.IsUnprefixed :=
  Expr.isUnprefixed_conjunction unprefixed.conditions

theorem IsUnprefixed.predicates (unprefixed : path.IsUnprefixed) :
    ∀ condition ∈ predicates path.condition?, condition.IsUnprefixed := by
  have all := unprefixed.condition
  cases known : path.condition? with
  | none => simp [XPath.predicates]
  | some condition => simpa [XPath.predicates, known] using all

theorem IsUnprefixed.colonsPaired_stepText (unprefixed : path.IsUnprefixed) :
    ColonsPaired (stepText path.test path.condition?) :=
  unprefixed.test.append (Expr.colonsPaired_predicatesText unprefixed.predicates)

theorem IsUnprefixed.colonsPaired_text (unprefixed : path.IsUnprefixed) : ColonsPaired path.text :=
  unprefixed.segments.append unprefixed.colonsPaired_stepText

theorem IsUnprefixed.toExpr (unprefixed : path.IsUnprefixed) : path.toExpr.IsUnprefixed := by
  unfold Expr.IsUnprefixed
  rw [text_toExpr]
  exact unprefixed.colonsPaired_text

theorem IsUnprefixed.addCondition (unprefixed : path.IsUnprefixed) {condition : Expr}
    (also : condition.IsUnprefixed) : (path.addCondition condition).IsUnprefixed :=
  ⟨unprefixed.segments, unprefixed.test, List.forall_mem_append.mpr
    ⟨unprefixed.conditions, List.forall_mem_singleton.mpr also⟩⟩

theorem IsUnprefixed.addAlternatives (unprefixed : path.IsUnprefixed) {alternatives : List Expr}
    (all : ∀ expr ∈ alternatives, expr.IsUnprefixed) :
    (path.addAlternatives alternatives).IsUnprefixed := by
  unfold LocationPath.addAlternatives
  split
  · exact unprefixed
  · rename_i condition some
    exact unprefixed.addCondition (Expr.isUnprefixed_disjunction all condition some)

theorem IsUnprefixed.membership (unprefixed : path.IsUnprefixed) :
    path.membership.IsUnprefixed := by
  have parent : Expr.parent.IsUnprefixed := by decide
  have siblings : path.siblings.IsUnprefixed :=
    parent.slash .child unprefixed.test unprefixed.predicates
  have union := Expr.isUnprefixed_self.binary .union siblings
  exact (union.call .count).binary .equal (siblings.call .count)

theorem IsUnprefixed.addNameTest (unprefixed : path.IsUnprefixed) :
    path.addNameTest.IsUnprefixed := by
  unfold LocationPath.addNameTest
  split
  · exact unprefixed
  split
  · exact ⟨unprefixed.segments, colonsPaired_star, by simpa using unprefixed.membership⟩
  · exact ⟨unprefixed.segments, colonsPaired_star,
      (unprefixed.addCondition (Expr.isUnprefixed_nameIs path.test)).conditions⟩

/-- Whatever the node test is, it can be asked for in a condition. -/
theorem isUnprefixed_addNameTest_ofTest (test : String) :
    (ofTest test).addNameTest.IsUnprefixed := by
  by_cases star : test = "*"
  · rw [star]
    exact (isUnprefixed_ofTest colonsPaired_star).addNameTest
  · refine ⟨?_, ?_, ?_⟩ <;>
      simp [LocationPath.addNameTest, ofTest, isWildcard, star, colonsPaired_star,
        Expr.isUnprefixed_nameIs, segmentsText]
    decide

theorem IsUnprefixed.addStar (unprefixed : path.IsUnprefixed) : path.addStar.IsUnprefixed := by
  unfold LocationPath.addStar
  split
  · exact unprefixed
  · refine ⟨?_, unprefixed.test, unprefixed.conditions⟩
    rw [segmentsText_append, segmentsText_star]
    exact unprefixed.segments.append (by decide)

theorem IsUnprefixed.addPosition (unprefixed : path.IsUnprefixed) {condition : Option Expr}
    (also : ∀ expr ∈ condition, expr.IsUnprefixed) : (path.addPosition condition).IsUnprefixed := by
  cases condition with
  | none => exact unprefixed.addStar
  | some condition => exact unprefixed.addStar.addCondition (also condition rfl)

/-- The type is written only where positions are restricted. -/
theorem IsUnprefixed.addPositionAmong (unprefixed : path.IsUnprefixed) {type : String}
    {condition : Option Expr} (paired : condition ≠ none → ColonsPaired type)
    (also : ∀ expr ∈ condition, expr.IsUnprefixed) :
    (path.addPositionAmong type condition).IsUnprefixed := by
  cases condition with
  | none => exact unprefixed.addStar
  | some condition =>
    have here := also condition rfl
    have counted := (isUnprefixed_ofTest (paired (by simp))).addCondition here
    unfold LocationPath.addPositionAmong
    simp only
    split
    · exact unprefixed.addStar.addCondition counted.membership
    · exact unprefixed.addStar.addCondition here

theorem IsUnprefixed.join (unprefixed : path.IsUnprefixed) {link : Link}
    (plain : ∀ text, link ≠ .verbatim text) (also : other.IsUnprefixed) :
    (path.join link other).IsUnprefixed := by
  have joined : ColonsPaired (segmentsText other.joinedSegments) := by
    unfold joinedSegments
    split
    · decide
    · exact also.segments
  refine ⟨?_, also.test, also.conditions⟩
  simp only [LocationPath.join, segmentsText_append, segmentsText, Segment.text]
  exact unprefixed.segments.append
    ((unprefixed.colonsPaired_stepText.append (Link.colonsPaired_text plain)).append joined)

theorem IsUnprefixed.joinSibling (unprefixed : path.IsUnprefixed) (also : other.IsUnprefixed)
    (adjacent : Bool) : (path.joinSibling other adjacent).IsUnprefixed := by
  have first : isFirst.IsUnprefixed := by decide
  have linked {next : LocationPath} (behind : next.IsUnprefixed) :
      (path.join .followingSibling next).IsUnprefixed := unprefixed.join (by simp) behind
  unfold LocationPath.joinSibling
  split
  · have joined := linked (isUnprefixed_ofTest colonsPaired_star)
    cases adjacent with
    | false => exact joined.addCondition also.membership
    | true => exact (joined.addCondition first).addCondition also.membership
  · have joined := linked also
    cases adjacent with
    | false => exact joined
    | true => exact joined.addNameTest.addCondition first

end Build

end LocationPath

end SelectorPath.XPath
