import SelectorPath.Proofs.Selector.Runs
import SelectorPath.Proofs.Text.Case
import SelectorPath.Proofs.Token.Unescaped

/-!
# The trees that texts denote

Not every tree is read from a text. In one that is, a compound restricts a type selector; only whole
selectors and the arguments of `:has()` are joined by combinators, always to the left; an argument
of `:not()` is a compound without a further `:not()` of its own; and names, values and arguments are
such as can stand in a text. The reader keeps this of every part it has read: of the selectors that
are finished, of what waits in its frames, and of the compound it is in.

## Main definitions

* `Selector.Place`, `Selector.Tree.Grammatical` — the trees that can stand in a place
* `Selector.Reader.State.Grammatical` — the same for all that a state holds

## Main results

* `Selector.Reader.grammatical_of_moves` — every move of the reader keeps it
* `Selector.grammatical_of_parse` — the selectors of a text without backslashes are grammatical
-/

namespace SelectorPath

namespace Text

/-- A name stays a name in lower case. -/
theorem IsName.lowerCase {name : String} (plain : IsName name.toList) :
    IsName (Text.lowerCase name).toList := by
  obtain ⟨hyphen, first, more, eq, optional, start, parts⟩ := plain
  refine ⟨hyphen, first.toLower, more.map Char.toLower, ?_, optional, isNameStart_toLower start, ?_⟩
  · rw [toList_lowerCase, eq]
    rcases optional with rfl | rfl <;> rfl
  · intro c member
    obtain ⟨d, inside, rfl⟩ := List.mem_map.mp member
    exact isNamePart_toLower (parts d inside)

end Text

open Text

/-! ### Parts of a selector -/

/-- The tokens can stand one after the other as arguments. -/
structure Token.AreArguments (tokens : List Token) : Prop where
  plain : ∀ token ∈ tokens, token.IsPlain ∧ Selector.Reader.isArgument token = true
  chained : tokens.Pairwise Chained

theorem Token.AreArguments.kind_ne_eof {tokens : List Token} (arguments : AreArguments tokens) :
    ∀ token ∈ tokens, token.kind ≠ .eof := by
  intro token member eof
  have argument := (arguments.plain token member).2
  simp [Selector.Reader.isArgument, Token.isDelim, eof] at argument

/-- A name in small letters that needs no escape. -/
structure Text.IsKeyword (name : String) : Prop where
  plain : IsName name.toList
  small : Text.lowerCase name = name

theorem Text.IsName.isKeyword {name : String} (plain : IsName name.toList) :
    IsKeyword (Text.lowerCase name) :=
  ⟨plain.lowerCase, lowerCase_lowerCase name⟩

/-- The name is a keyword, and the arguments are as they can stand in a text. -/
structure FunctionCall.Grammatical (call : FunctionCall) : Prop where
  name : IsKeyword call.name
  arguments : Token.AreArguments call.arguments

def PseudoElement.Grammatical : PseudoElement → Prop
  | .simple name => IsKeyword name
  | .functional call => call.Grammatical

/-- The token can stand as the value of an attribute. -/
def Token.IsAttributeValue (token : Token) : Prop :=
  token.kind = .ident ∧ IsWritable token.value.toList ∨
    token.kind = .string ∧ ∀ c ∈ token.value.toList, c ≠ '\n'

/-- Names can be written, and there is a value exactly if one is compared with. -/
structure AttributeSelector.Grammatical (selector : AttributeSelector) : Prop where
  qualifier : ∀ ns ∈ selector.ns, IsWritable ns.toList
  name : IsWritable selector.name.toList
  compared : selector.operator = .present ↔ selector.value = none
  value : ∀ token ∈ selector.value, token.IsAttributeValue

namespace Selector

def Simple.Grammatical : Simple → Prop
  | .className name => IsWritable name.toList
  | .id value => value.toList ≠ [] ∧ ∀ c ∈ value.toList, isLineBreak c = false
  | .attribute selector => selector.Grammatical
  | .pseudoClass name => IsKeyword name ∧ name ∉ Reader.singleColonPseudoElements
  | .function call =>
    call.Grammatical ∧ call.name ∉ Reader.singleColonPseudoElements ∧
      call.name ∉ selectorFunctions

/-- Where a tree stands: it is a compound, inside or outside of `:not()`, or several compounds may
be joined. -/
inductive Place
  | compound (negated : Bool)
  | complex

/-- The tree can stand in the place. -/
inductive Tree.Grammatical : Place → Tree → Prop
  | element {negated : Bool} {ns name : Option String}
      (qualifier : ∀ text ∈ ns, IsWritable text.toList)
      (named : ∀ text ∈ name, IsWritable text.toList) :
      Grammatical (.compound negated) (.element ns name)
  | restricted {negated : Bool} {base : Tree} {simple : Simple}
      (host : Grammatical (.compound negated) base) (condition : simple.Grammatical) :
      Grammatical (.compound negated) (.restricted base simple)
  | negation {base argument : Tree} (host : Grammatical (.compound false) base)
      (inner : Grammatical (.compound true) argument) :
      Grammatical (.compound false) (.negation base argument)
  | anyOf {negated : Bool} {kind : Alternation} {base : Tree} {arguments : List Tree}
      (host : Grammatical (.compound negated) base) (nonempty : arguments ≠ [])
      (each : ∀ argument ∈ arguments, Grammatical (.compound false) argument) :
      Grammatical (.compound negated) (.anyOf kind base arguments)
  | relation {negated : Bool} {base argument : Tree} {combinator : Combinator}
      (host : Grammatical (.compound negated) base) (inner : Grammatical .complex argument) :
      Grammatical (.compound negated) (.relation base combinator argument)
  | single {tree : Tree} (compound : Grammatical (.compound false) tree) :
      Grammatical .complex tree
  | combined {left right : Tree} {combinator : Combinator} (before : Grammatical .complex left)
      (behind : Grammatical (.compound false) right) :
      Grammatical .complex (.combined left combinator right)

theorem Tree.grammatical_universal {negated : Bool} :
    Tree.universal.Grammatical (.compound negated) :=
  .element (by simp) (by simp)

/-- The tree and the pseudo-element can stand in a text. -/
structure Grammatical (selector : Selector) : Prop where
  tree : selector.tree.Grammatical .complex
  pseudoElement : ∀ pseudo ∈ selector.pseudoElement, pseudo.Grammatical

namespace Reader

/-! ### States -/

structure Host.Grammatical (negated : Bool) (host : Host) : Prop where
  tree : host.tree.Grammatical (.compound negated)
  left : ∀ pair ∈ host.left, pair.1.Grammatical .complex

/-- What waits in the frames can stand there. -/
def FramesGrammatical : List Frame → Prop
  | [] => True
  | .negation host :: outer =>
    host.Grammatical false ∧ negates outer = false ∧ FramesGrammatical outer
  | .alternatives _ host read :: outer =>
    host.Grammatical (negates outer) ∧ (∀ tree ∈ read, tree.Grammatical (.compound false)) ∧
      FramesGrammatical outer
  | .relation host _ :: outer => host.Grammatical (negates outer) ∧ FramesGrammatical outer

def AttributeStage.Grammatical : AttributeStage → Prop
  | .opened | .starred | .nameless => True
  | .named first => IsWritable first.toList
  | .barred first => ∀ text ∈ first, IsWritable text.toList
  | .operator ns name => (∀ text ∈ ns, IsWritable text.toList) ∧ IsWritable name.toList
  | .value ns name comparison =>
    (∀ text ∈ ns, IsWritable text.toList) ∧ IsWritable name.toList ∧ comparison ≠ .present
  | .closing selector => selector.Grammatical

/-- What the mode holds can stand inside or outside of `:not()`, in front of the tokens `later`. -/
def Mode.Grammatical (negated : Bool) (later : List Token) : Mode → Prop
  | .start | .bareName | .done => True
  | .typeName first => ∀ text ∈ first, IsWritable text.toList
  | .qualifiedName ns => ∀ text ∈ ns, IsWritable text.toList
  | .compound tree pseudo =>
    tree.Grammatical (.compound negated) ∧ ∀ element ∈ pseudo, element.Grammatical
  | .between tree pseudo =>
    tree.Grammatical (.compound false) ∧ ∀ element ∈ pseudo, element.Grammatical
  | .className tree | .colon tree _ | .doubleColon tree | .closing tree =>
    tree.Grammatical (.compound negated)
  | .attribute tree stage => tree.Grammatical (.compound negated) ∧ stage.Grammatical
  | .pseudoElementName tree name =>
    tree.Grammatical (.compound negated) ∧ IsName name.toList
  | .pseudoElementArguments tree name read =>
    tree.Grammatical (.compound negated) ∧ IsName name.toList ∧
      (∀ token ∈ read, token.IsPlain ∧ isArgument token = true) ∧
      (read.reverse ++ later).Pairwise Token.Chained
  | .pseudoClassName tree _ name =>
    tree.Grammatical (.compound negated) ∧ IsKeyword name ∧ name ∉ singleColonPseudoElements
  | .arguments tree name read =>
    tree.Grammatical (.compound negated) ∧ IsKeyword name ∧
      (name ∉ singleColonPseudoElements ∧ name ∉ selectorFunctions) ∧
      (∀ token ∈ read, token.IsPlain ∧ isArgument token = true) ∧
      (read.reverse ++ later).Pairwise Token.Chained
  | .relative host => host.Grammatical negated

/-- All that the state holds but its mode can stand in a text, and `later` can follow. -/
structure State.Holds (state : State) (later : List Token) : Prop where
  finished : ∀ selector ∈ state.finished, selector.Grammatical
  frames : FramesGrammatical state.frames
  left : ∀ pair ∈ state.left, pair.1.Grammatical .complex
  plain : ∀ token ∈ later, token.IsPlain
  chained : later.Pairwise Token.Chained

/-- All that the state holds can stand in a text in front of the tokens `later`. -/
structure State.Grammatical (later : List Token) (state : State) : Prop where
  holds : state.Holds later
  mode : state.mode.Grammatical (negates state.frames) later

/-! ### Moves -/

section Moves

variable {state middle next : State} {mode inner after : Mode} {later : List Token} {token : Token}
  {tree : Tree} {pseudo : Option PseudoElement} {negated : Bool}

theorem State.Holds.tail (holds : state.Holds (token :: later)) : state.Holds later :=
  ⟨holds.finished, holds.frames, holds.left,
    fun other member => holds.plain other (List.mem_cons_of_mem token member),
    (List.pairwise_cons.mp holds.chained).2⟩

theorem State.Holds.setMode (holds : state.Holds later) {mode : Mode}
    (fits : mode.Grammatical (negates state.frames) later) :
    (state.setMode mode).Grammatical later :=
  ⟨⟨holds.finished, holds.frames, holds.left, holds.plain, holds.chained⟩, fits⟩

theorem State.Holds.openFrame (holds : state.Holds later) {frame : Frame}
    (fits : FramesGrammatical (frame :: state.frames)) :
    (state.openFrame frame).Grammatical later :=
  ⟨⟨holds.finished, fits, by simp [State.openFrame], holds.plain, holds.chained⟩, trivial⟩

theorem State.Holds.inside (holds : state.Holds later) {frames : List Frame}
    (inside : state.frames = frames) : FramesGrammatical frames := by
  rw [← inside]
  exact holds.frames

theorem State.Holds.closeFrame (holds : state.Holds later) {outer : List Frame} {host : Host}
    (frames : FramesGrammatical outer) (fits : host.Grammatical (negates outer))
    (compound : tree.Grammatical (.compound (negates outer))) :
    (state.closeFrame outer host tree).Grammatical later :=
  ⟨⟨holds.finished, frames, fits.left, holds.plain, holds.chained⟩, compound, by simp⟩

/-- What ends with a compound is a whole selector. -/
theorem State.Holds.complete (holds : state.Holds later)
    (compound : tree.Grammatical (.compound false)) :
    (state.complete tree).Grammatical .complex := by
  unfold State.complete
  split
  · exact .single compound
  · rename_i left combinator here
    exact .combined (holds.left (left, combinator) here) compound

theorem State.Holds.combine (holds : state.Holds later)
    (compound : tree.Grammatical (.compound false)) (combinator : Combinator) :
    (state.combine tree combinator).Grammatical later := by
  refine ⟨⟨holds.finished, holds.frames, ?_, holds.plain, holds.chained⟩, trivial⟩
  intro pair member
  obtain rfl : (state.complete tree, combinator) = pair := Option.some.inj member
  exact holds.complete compound

theorem State.Holds.finish (holds : state.Holds later)
    (compound : tree.Grammatical (.compound false))
    (pseudoElement : ∀ element ∈ pseudo, element.Grammatical)
    (fits : mode.Grammatical (negates state.frames) later) :
    (state.finish tree pseudo mode).Grammatical later := by
  refine ⟨⟨?_, holds.frames, by simp [State.finish], holds.plain, holds.chained⟩, fits⟩
  intro selector member
  rcases List.mem_cons.mp member with rfl | member
  · exact ⟨holds.complete compound, pseudoElement⟩
  · exact holds.finished selector member

theorem State.Holds.host (holds : state.Holds later)
    (compound : tree.Grammatical (.compound (negates state.frames))) :
    (state.host tree).Grammatical (negates state.frames) :=
  ⟨compound, holds.left⟩

/-! #### Tokens -/

theorem isName_of_kind (plain : token.IsPlain) (ident : token.kind = .ident) :
    IsName token.value.toList := by
  simpa [Token.IsPlain, ident] using plain

theorem isWritable_of_kind (plain : token.IsPlain) (ident : token.kind = .ident) :
    ∀ text ∈ some token.value, IsWritable text.toList := by
  intro text member
  obtain rfl := Option.some.inj member
  exact (isName_of_kind plain ident).isWritable

theorem isAttributeValue_of_isLiteral (plain : token.IsPlain) (literal : token.isLiteral = true) :
    token.IsAttributeValue := by
  have kinds : token.kind = .string ∨ token.kind = .ident := by
    simpa [Token.isLiteral] using literal
  rcases kinds with string | ident
  · have inside : ∀ c ∈ token.value.toList, c ≠ '\n' ∧ c ≠ '\\' := by
      simpa [Token.IsPlain, string] using plain
    exact .inr ⟨string, fun c member => (inside c member).1⟩
  · exact .inl ⟨ident, (isName_of_kind plain ident).isWritable⟩

theorem pairwise_skip {read : List Token}
    (chained : (read.reverse ++ token :: later).Pairwise Token.Chained) :
    (read.reverse ++ later).Pairwise Token.Chained :=
  chained.sublist ((List.Sublist.refl _).append (List.sublist_cons_self _ _))

theorem plain_cons {read : List Token} (plain : token.IsPlain) (argument : isArgument token = true)
    (plainRead : ∀ token ∈ read, token.IsPlain ∧ isArgument token = true) :
    ∀ other ∈ token :: read, other.IsPlain ∧ isArgument other = true := by
  intro other member
  rcases List.mem_cons.mp member with rfl | member
  · exact ⟨plain, argument⟩
  · exact plainRead other member

theorem areArguments_reverse {read : List Token}
    (plain : ∀ token ∈ read, token.IsPlain ∧ isArgument token = true)
    (chained : (read.reverse ++ later).Pairwise Token.Chained) :
    Token.AreArguments read.reverse :=
  ⟨fun token member => plain token (List.mem_reverse.mp member),
    (List.pairwise_append.mp chained).1⟩

/-! #### One move -/

theorem StartsSimple.grammatical {fresh : Bool} (starts : StartsSimple tree fresh token mode)
    (plain : token.IsPlain) (compound : tree.Grammatical (.compound negated)) :
    mode.Grammatical negated later := by
  cases starts with
  | id hash =>
    have value : token.value.toList ≠ [] ∧ ∀ c ∈ token.value.toList, isNamePart c = true := by
      simpa [Token.IsPlain, hash] using plain
    have inLine : ∀ c ∈ token.value.toList, isLineBreak c = false :=
      fun c member => isLineBreak_of_isNamePart (value.2 c member)
    exact ⟨.restricted compound ⟨value.1, inLine⟩, by simp⟩
  | className | colon => exact compound
  | bareName => trivial
  | openAttribute => exact ⟨compound, trivial⟩

theorem StageMoves.grammatical {stage after : AttributeStage} (moves : StageMoves token stage after)
    (plain : token.IsPlain) (fits : stage.Grammatical) : after.Grammatical := by
  induction moves with
  | openedBlank | starred | nameless => trivial
  | named ident => exact (isName_of_kind plain ident).isWritable
  | namedBar =>
    intro text member
    obtain rfl := Option.some.inj member
    exact fits
  | unqualified _ _ ih => exact ih ⟨by simp, fits⟩
  | starredBar =>
    intro text member
    simp at member
  | dashMatch => exact ⟨by simp, fits _ rfl, by simp⟩
  | qualified ident => exact ⟨fits, (isName_of_kind plain ident).isWritable⟩
  | operator _ sign => exact ⟨fits.1, fits.2, ofSymbol?_ne_present sign⟩
  | value literal =>
    obtain ⟨qualifier, named, compared⟩ := fits
    refine ⟨qualifier, named, by simp [compared], fun value member => ?_⟩
    obtain rfl := Option.some.inj member
    exact isAttributeValue_of_isLiteral plain literal
  | operatorBlank | valueBlank | closingBlank => exact fits

theorem StageCloses.grammatical {stage : AttributeStage} {selector : AttributeSelector}
    (closes : StageCloses stage selector) (fits : stage.Grammatical) : selector.Grammatical := by
  cases closes with
  | named => exact ⟨by simp, fits, by simp, by simp⟩
  | present => exact ⟨fits.1, fits.2, by simp, by simp⟩
  | compared => exact fits

/-- A blank that is skipped makes no difference to what the mode holds. -/
theorem Mode.SkipsBlank.grammatical (skips : mode.SkipsBlank)
    (fits : mode.Grammatical negated (token :: later)) : mode.Grammatical negated later := by
  cases skips with
  | start | relative | between | closing => exact fits
  | pseudoElementArguments =>
    obtain ⟨compound, named, plainRead, chained⟩ := fits
    exact ⟨compound, named, plainRead, pairwise_skip chained⟩
  | arguments =>
    obtain ⟨compound, keyword, others, plainRead, chained⟩ := fits
    exact ⟨compound, keyword, others, plainRead, pairwise_skip chained⟩

theorem TypeMoves.grammatical (moves : TypeMoves token mode after) (plain : token.IsPlain)
    (fits : mode.Grammatical negated (token :: later)) : after.Grammatical negated later := by
  cases moves with
  | firstName ident => exact isWritable_of_kind plain ident
  | firstStar => exact fun text member => nomatch member
  | qualifier => exact fits
  | qualifiedName ident => exact ⟨.element fits (isWritable_of_kind plain ident), by simp⟩
  | qualifiedStar => exact ⟨.element fits (by simp), by simp⟩
  | bareName ident => exact ⟨.element (by simp) (isWritable_of_kind plain ident), by simp⟩

theorem SimpleMoves.grammatical (moves : SimpleMoves token mode after) (plain : token.IsPlain)
    (fits : mode.Grammatical negated (token :: later)) : after.Grammatical negated later := by
  cases moves with
  | first starts => exact starts.grammatical plain Tree.grammatical_universal
  | further starts => exact starts.grammatical plain fits.1
  | className ident => exact ⟨.restricted fits (isName_of_kind plain ident).isWritable, by simp⟩
  | inAttribute moves => exact ⟨fits.1, moves.grammatical plain fits.2⟩
  | closeAttribute _ closes => exact ⟨.restricted fits.1 (closes.grammatical fits.2), by simp⟩

theorem PseudoElementMoves.grammatical (moves : PseudoElementMoves token mode after)
    (plain : token.IsPlain) (chained : later.Pairwise Token.Chained)
    (fits : mode.Grammatical negated (token :: later)) : after.Grammatical negated later := by
  cases moves with
  | doubleColon => exact fits
  | singleColon ident =>
    refine ⟨fits, fun element member => ?_⟩
    obtain rfl := Option.some.inj member
    exact (isName_of_kind plain ident).isKeyword
  | name ident => exact ⟨fits, isName_of_kind plain ident⟩
  | opens => exact ⟨fits.1, fits.2, by simp, chained⟩
  | argument argument =>
    obtain ⟨compound, named, plainRead, chained⟩ := fits
    exact ⟨compound, named, plain_cons plain argument plainRead, by simpa using chained⟩
  | closes =>
    obtain ⟨compound, named, plainRead, chained⟩ := fits
    refine ⟨compound, fun element member => ?_⟩
    obtain rfl := Option.some.inj member
    exact ⟨named.isKeyword, areArguments_reverse plainRead chained⟩

theorem PseudoClassMoves.grammatical (moves : PseudoClassMoves token mode after)
    (plain : token.IsPlain) (chained : later.Pairwise Token.Chained)
    (fits : mode.Grammatical negated (token :: later)) : after.Grammatical negated later := by
  cases moves with
  | name ident other => exact ⟨fits, (isName_of_kind plain ident).isKeyword, other⟩
  | opens _ other => exact ⟨fits.1, fits.2.1, ⟨fits.2.2, other⟩, by simp, chained⟩
  | argument argument =>
    obtain ⟨compound, keyword, others, plainRead, chained⟩ := fits
    exact ⟨compound, keyword, others, plain_cons plain argument plainRead, by simpa using chained⟩
  | @closes _ name read _ =>
    obtain ⟨compound, keyword, others, plainRead, chained⟩ := fits
    have call : (FunctionCall.make name read.reverse).Grammatical :=
      ⟨keyword.plain.isKeyword, areArguments_reverse plainRead chained⟩
    have condition : Simple.Grammatical (.function (.make name read.reverse)) := by
      refine ⟨call, ?_⟩
      rwa [FunctionCall.make_name, keyword.small]
    exact ⟨.restricted compound condition, by simp⟩

theorem ModeMoves.grammatical (moves : ModeMoves token mode after) (plain : token.IsPlain)
    (chained : later.Pairwise Token.Chained)
    (fits : mode.Grammatical negated (token :: later)) : after.Grammatical negated later := by
  cases moves with
  | skip _ skips => exact skips.grammatical fits
  | type moves => exact moves.grammatical plain fits
  | simple moves => exact moves.grammatical plain fits
  | pseudoElement moves => exact moves.grammatical plain chained fits
  | pseudoClass moves => exact moves.grammatical plain chained fits

theorem OpensFrame.grammatical {frame : Frame} (opens : OpensFrame state token mode frame)
    (holds : state.Holds later) (fits : mode.Grammatical (negates state.frames) (token :: later)) :
    (state.openFrame frame).Grammatical later := by
  cases opens with
  | negation _ outermost =>
    rw [State.isNegated_eq] at outermost
    have host := holds.host fits.1
    rw [outermost] at host
    exact holds.openFrame ⟨host, outermost, holds.frames⟩
  | matchesAny | adjustment => exact holds.openFrame ⟨holds.host fits.1, by simp, holds.frames⟩
  | relation => exact holds.openFrame ⟨fits, holds.frames⟩

theorem ClosesFrame.grammatical {outer : List Frame} {host : Host}
    (closes : ClosesFrame state mode outer host tree) (holds : state.Holds later)
    (fits : mode.Grammatical (negates state.frames) (token :: later)) :
    (state.closeFrame outer host tree).Grammatical later := by
  cases closes with
  | relation inside =>
    obtain ⟨fitsHost, outside⟩ := holds.inside inside
    exact holds.closeFrame outside fitsHost (.relation fitsHost.tree (holds.complete fits.1))
  | alternatives inside =>
    obtain ⟨fitsHost, complete, outside⟩ := holds.inside inside
    rw [inside] at fits
    refine holds.closeFrame outside fitsHost
      (.anyOf fitsHost.tree (by simp) fun argument member => ?_)
    rcases List.mem_append.mp member with member | member
    · exact complete argument (List.mem_reverse.mp member)
    · obtain rfl := List.mem_singleton.mp member
      exact fits
  | negation inside =>
    obtain ⟨fitsHost, outermost, outside⟩ := holds.inside inside
    rw [inside] at fits
    have negation := Tree.Grammatical.negation fitsHost.tree fits
    rw [← outermost] at fitsHost negation
    exact holds.closeFrame outside fitsHost negation

theorem Defers.grammatical (defers : Defers state token mode middle inner)
    (holds : state.Holds later) (fits : mode.Grammatical (negates state.frames) (token :: later)) :
    middle.Holds later ∧ inner.Grammatical (negates middle.frames) (token :: later) := by
  cases defers with
  | unqualified => exact ⟨holds, .element (by simp) fits, by simp⟩
  | pseudoElement =>
    refine ⟨holds, fits.1, fun element member => ?_⟩
    obtain rfl := Option.some.inj member
    exact fits.2.isKeyword
  | pseudoClass => exact ⟨holds, .restricted fits.1 ⟨fits.2.1, fits.2.2⟩, by simp⟩
  | ends _ joins =>
    -- combinators join compounds outside of `:not()` only
    rw [joins.negates] at fits
    exact ⟨holds, fits⟩
  | endsArgument => exact ⟨holds, fits.1⟩
  | @relative host =>
    have frames : FramesGrammatical (.relation host .descendant :: state.frames) :=
      ⟨fits, holds.frames⟩
    exact ⟨(holds.openFrame frames).holds, trivial⟩
  | descendant => exact ⟨(holds.combine fits.1 _).holds, trivial⟩

/-- One token keeps that all the reader holds can stand in a text. -/
theorem grammatical_of_moves (moves : Moves state mode token next) (holds : state.Holds later)
    (plain : token.IsPlain) (fits : mode.Grammatical (negates state.frames) (token :: later)) :
    next.Grammatical later := by
  induction moves with
  | turn moves => exact holds.setMode (moves.grammatical plain holds.chained fits)
  | openRelation => exact holds.setMode (holds.host fits.1)
  | opens opens => exact opens.grammatical holds fits
  | closes _ closes => exact closes.grammatical holds fits
  | @nextAlternative _ _ argument _ _ _ _ _ inside =>
    obtain ⟨host, complete, outside⟩ := holds.inside inside
    rw [inside] at fits
    have compound : argument.Grammatical (.compound false) := fits
    have read := List.forall_mem_cons.mpr ⟨compound, complete⟩
    exact ⟨⟨holds.finished, ⟨host, read, outside⟩, holds.left, holds.plain, holds.chained⟩, trivial⟩
  | combine => exact holds.combine fits.1 _
  | finish =>
    -- whether the text goes on or not, nothing is left in the mode
    refine holds.finish fits.1 fits.2 ?_
    split <;> trivial
  | done => exact holds.setMode trivial
  | defers defers _ ih =>
    obtain ⟨behind, inner⟩ := defers.grammatical holds fits
    exact ih behind plain inner

/-- What one token keeps, several keep. -/
theorem grammatical_of_runs {tokens : List Token} (runs : Runs state tokens next)
    (here : state.Grammatical tokens) : next.Grammatical [] := by
  induction runs with
  | nil => exact here
  | cons move _ ih =>
    exact ih (grammatical_of_moves move here.holds.tail
      (here.holds.plain _ List.mem_cons_self) here.mode)

end Moves

end Reader

/-- The selectors of a text without backslashes are grammatical. -/
theorem grammatical_of_parse {text : String} {selectors : List Selector}
    (plain : '\\' ∉ text.toList) (accepted : parse text = .ok selectors) :
    ∀ selector ∈ selectors, selector.Grammatical := by
  unfold parse at accepted
  split at accepted
  · rename_i tokens lexed
    unfold ofTokens at accepted
    split at accepted
    · rename_i state ran
      obtain rfl := Except.ok.inj accepted
      have start : Reader.State.initial.Grammatical tokens :=
        ⟨⟨by simp [Reader.State.initial], trivial, by simp [Reader.State.initial],
          Lexer.plain_tokensFrom plain lexed, Lexer.chained_tokensFrom plain lexed⟩, trivial⟩
      have kept := Reader.grammatical_of_runs (Reader.run_eq_ok_iff.mp ran) start
      exact fun selector member => kept.holds.finished selector (List.mem_reverse.mp member)
    · simp at accepted
  · simp at accepted

end Selector

end SelectorPath
