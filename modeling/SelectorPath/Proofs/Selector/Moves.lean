import SelectorPath.Selector.Parser

/-!
# The moves of the reader

What one token can lead to is said once, by relations with a rule for every transition. Most tokens
change the mode alone, as part of a type selector, a simple selector, a pseudo-element or a
pseudo-class. Others open or close a frame, join compounds or finish a selector. And a token may be
none of those that would go on with what has been read: the first name of a compound stands alone
without a `|`, the name of a pseudo-class without a parenthesis, and a compound is over at a token
that ends it. Such a token leads to what it leads to behind that. An invariant of the reader is then
a lemma for each of these relations, and an induction over the moves that puts them together.

## Main definitions

* `selectorFunctions`, `Reader.negates`, `Reader.Joins` — what an argument of a functional
  pseudo-class can be
* `Reader.StartsSimple` — what stands behind the first token of a simple selector
* `Reader.StageMoves`, `Reader.StageCloses` — the moves inside an attribute selector
* `Reader.ModeMoves` — the moves that change the mode alone; its parts are `TypeMoves`,
  `SimpleMoves`, `PseudoElementMoves` and `PseudoClassMoves`
* `Reader.OpensFrame`, `Reader.ClosesFrame` — the frames that a token opens and closes
* `Reader.Defers` — where a token is looked at again
* `Reader.Moves` — the moves of the reader

## Main results

* `Reader.ModeMoves.inCompound` — a token that changes the mode leads into a compound
* `Reader.ModeMoves.isPart`, `Reader.OpensFrame.isPart` — neither `eof` nor a backslash that escapes
  nothing goes on with anything
-/

namespace SelectorPath.Selector

/-- The functional pseudo-classes whose argument is not a list of tokens. -/
def selectorFunctions : List String := ["not", "has", "is", "matches", "where"]

namespace Reader

open Text

/-- The innermost frame is a negation. -/
def negates : List Frame → Bool
  | .negation _ :: _ => true
  | _ => false

theorem State.isNegated_eq (state : State) : state.isNegated = negates state.frames := by
  obtain ⟨finished, frames, left, mode⟩ := state
  cases frames with
  | nil => rfl
  | cons frame outer => cases frame <;> rfl

/-- Combinators join compounds here: outside of all frames and in `:has()`. -/
def Joins : List Frame → Prop
  | [] | .relation _ _ :: _ => True
  | _ => False

theorem Joins.negates {frames : List Frame} (joins : Joins frames) : negates frames = false := by
  match frames with
  | [] | .relation _ _ :: _ => rfl

/-- The token starts a simple selector behind `tree`, and the mode follows it. -/
inductive StartsSimple (tree : Tree) (fresh : Bool) (token : Token) : Mode → Prop
  | id (hash : token.kind = .hash) :
      StartsSimple tree fresh token (.compound (.restricted tree (.id token.value)) none)
  | className (point : token.isDelim "." = true) : StartsSimple tree fresh token (.className tree)
  | bareName (bar : token.isDelim "|" = true) : StartsSimple tree fresh token .bareName
  | openAttribute (bracket : token.isDelim "[" = true) :
      StartsSimple tree fresh token (.attribute tree .opened)
  | colon (colon : token.isDelim ":" = true) : StartsSimple tree fresh token (.colon tree fresh)

/-- Inside an attribute selector the token leads from one stage to another. -/
inductive StageMoves (token : Token) : AttributeStage → AttributeStage → Prop
  | openedBlank (space : token.kind = .space) : StageMoves token .opened .opened
  | named (ident : token.kind = .ident) : StageMoves token .opened (.named token.value)
  | starred (star : token.isDelim "*" = true) : StageMoves token .opened .starred
  | namedBar {first : String} (bar : token.isDelim "|" = true) :
      StageMoves token (.named first) (.barred (some first))
  | unqualified {first : String} {stage : AttributeStage} (noBar : token.isDelim "|" = false)
      (goesOn : StageMoves token (.operator none first) stage) :
      StageMoves token (.named first) stage
  | starredBar (bar : token.isDelim "|" = true) : StageMoves token .starred (.barred none)
  | dashMatch {first : String} (equals : token.isDelim "=" = true) :
      StageMoves token (.barred (some first)) (.value none first .dashMatch)
  | nameless (equals : token.isDelim "=" = true) : StageMoves token (.barred none) .nameless
  | qualified {first : Option String} (ident : token.kind = .ident) :
      StageMoves token (.barred first) (.operator first token.value)
  | operatorBlank {ns : Option String} {name : String} (space : token.kind = .space) :
      StageMoves token (.operator ns name) (.operator ns name)
  | operator {ns : Option String} {name : String} {operator : AttributeOperator}
      (delim : token.kind = .delim)
      (sign : AttributeOperator.ofSymbol? token.value = some operator) :
      StageMoves token (.operator ns name) (.value ns name operator)
  | valueBlank {ns : Option String} {name : String} {operator : AttributeOperator}
      (space : token.kind = .space) :
      StageMoves token (.value ns name operator) (.value ns name operator)
  | value {ns : Option String} {name : String} {operator : AttributeOperator}
      (literal : token.isLiteral = true) :
      StageMoves token (.value ns name operator) (.closing ⟨ns, name, operator, some token⟩)
  | closingBlank {selector : AttributeSelector} (space : token.kind = .space) :
      StageMoves token (.closing selector) (.closing selector)

/-- The token is the bracket that completes an attribute selector. -/
inductive StageCloses : AttributeStage → AttributeSelector → Prop
  | named {first : String} : StageCloses (.named first) ⟨none, first, .present, none⟩
  | present {ns : Option String} {name : String} :
      StageCloses (.operator ns name) ⟨ns, name, .present, none⟩
  | compared {selector : AttributeSelector} : StageCloses (.closing selector) selector

/-! ### Modes

Most tokens change the mode alone, and what the state holds otherwise plays no part. -/

/-- Blanks are skipped in the mode. -/
inductive Mode.SkipsBlank : Mode → Prop
  | start : SkipsBlank .start
  | pseudoElementArguments {tree : Tree} {name : String} {read : List Token} :
      SkipsBlank (.pseudoElementArguments tree name read)
  | arguments {tree : Tree} {name : String} {read : List Token} :
      SkipsBlank (.arguments tree name read)
  | relative {host : Host} : SkipsBlank (.relative host)
  | between {tree : Tree} {pseudo : Option PseudoElement} : SkipsBlank (.between tree pseudo)
  | closing {argument : Tree} : SkipsBlank (.closing argument)

/-- The token goes on with a type selector. -/
inductive TypeMoves (token : Token) : Mode → Mode → Prop
  | firstName (ident : token.kind = .ident) :
      TypeMoves token .start (.typeName (some token.value))
  | firstStar (star : token.isDelim "*" = true) : TypeMoves token .start (.typeName none)
  | qualifier {first : Option String} (bar : token.isDelim "|" = true) :
      TypeMoves token (.typeName first) (.qualifiedName first)
  | qualifiedName {ns : Option String} (ident : token.kind = .ident) :
      TypeMoves token (.qualifiedName ns) (.compound (.element ns (some token.value)) none)
  | qualifiedStar {ns : Option String} (star : token.isDelim "*" = true) :
      TypeMoves token (.qualifiedName ns) (.compound (.element ns none) none)
  | bareName (ident : token.kind = .ident) :
      TypeMoves token .bareName (.compound (.element none (some token.value)) none)

/-- The token starts a simple selector, or goes on with a class or an attribute selector. -/
inductive SimpleMoves (token : Token) : Mode → Mode → Prop
  | first {mode : Mode} (starts : StartsSimple .universal true token mode) :
      SimpleMoves token .start mode
  | further {tree : Tree} {mode : Mode} (starts : StartsSimple tree false token mode) :
      SimpleMoves token (.compound tree none) mode
  | className {tree : Tree} (ident : token.kind = .ident) :
      SimpleMoves token (.className tree)
        (.compound (.restricted tree (.className token.value)) none)
  | inAttribute {tree : Tree} {stage after : AttributeStage}
      (moves : StageMoves token stage after) :
      SimpleMoves token (.attribute tree stage) (.attribute tree after)
  | closeAttribute {tree : Tree} {stage : AttributeStage} {selector : AttributeSelector}
      (bracket : token.isDelim "]" = true) (closes : StageCloses stage selector) :
      SimpleMoves token (.attribute tree stage)
        (.compound (.restricted tree (.attribute selector)) none)

/-- The token goes on with a pseudo-element. -/
inductive PseudoElementMoves (token : Token) : Mode → Mode → Prop
  | doubleColon {tree : Tree} {fresh : Bool} (colon : token.isDelim ":" = true) :
      PseudoElementMoves token (.colon tree fresh) (.doubleColon tree)
  | singleColon {tree : Tree} {fresh : Bool} (ident : token.kind = .ident)
      (known : lowerCase token.value ∈ singleColonPseudoElements) :
      PseudoElementMoves token (.colon tree fresh)
        (.compound tree (some (.simple (lowerCase token.value))))
  | name {tree : Tree} (ident : token.kind = .ident) :
      PseudoElementMoves token (.doubleColon tree) (.pseudoElementName tree token.value)
  | opens {tree : Tree} {name : String} (parenthesis : token.isDelim "(" = true) :
      PseudoElementMoves token (.pseudoElementName tree name)
        (.pseudoElementArguments tree name [])
  | argument {tree : Tree} {name : String} {read : List Token}
      (argument : isArgument token = true) :
      PseudoElementMoves token (.pseudoElementArguments tree name read)
        (.pseudoElementArguments tree name (token :: read))
  | closes {tree : Tree} {name : String} {read : List Token}
      (parenthesis : token.isDelim ")" = true) :
      PseudoElementMoves token (.pseudoElementArguments tree name read)
        (.compound tree (some (.functional (.make name read.reverse))))

/-- The token goes on with a pseudo-class that has no selector as its argument. -/
inductive PseudoClassMoves (token : Token) : Mode → Mode → Prop
  | name {tree : Tree} {fresh : Bool} (ident : token.kind = .ident)
      (other : lowerCase token.value ∉ singleColonPseudoElements) :
      PseudoClassMoves token (.colon tree fresh)
        (.pseudoClassName tree fresh (lowerCase token.value))
  | opens {tree : Tree} {fresh : Bool} {name : String} (parenthesis : token.isDelim "(" = true)
      (other : name ∉ selectorFunctions) :
      PseudoClassMoves token (.pseudoClassName tree fresh name) (.arguments tree name [])
  | argument {tree : Tree} {name : String} {read : List Token}
      (argument : isArgument token = true) :
      PseudoClassMoves token (.arguments tree name read) (.arguments tree name (token :: read))
  | closes {tree : Tree} {name : String} {read : List Token}
      (parenthesis : token.isDelim ")" = true) :
      PseudoClassMoves token (.arguments tree name read)
        (.compound (.restricted tree (.function (.make name read.reverse))) none)

/-- The token is skipped, or leads from one mode to another. -/
inductive ModeMoves (token : Token) : Mode → Mode → Prop
  | skip {mode : Mode} (space : token.kind = .space) (skips : mode.SkipsBlank) :
      ModeMoves token mode mode
  | type {mode after : Mode} (moves : TypeMoves token mode after) : ModeMoves token mode after
  | simple {mode after : Mode} (moves : SimpleMoves token mode after) : ModeMoves token mode after
  | pseudoElement {mode after : Mode} (moves : PseudoElementMoves token mode after) :
      ModeMoves token mode after
  | pseudoClass {mode after : Mode} (moves : PseudoClassMoves token mode after) :
      ModeMoves token mode after

/-! ### Frames -/

/-- The token opens the frame, and an argument starts behind it. -/
inductive OpensFrame (state : State) (token : Token) : Mode → Frame → Prop
  | negation {tree : Tree} {fresh : Bool} (parenthesis : token.isDelim "(" = true)
      (outermost : state.isNegated = false) :
      OpensFrame state token (.pseudoClassName tree fresh "not") (.negation (state.host tree))
  | matchesAny {tree : Tree} {fresh : Bool} {name : String}
      (parenthesis : token.isDelim "(" = true) (known : name = "is" ∨ name = "matches") :
      OpensFrame state token (.pseudoClassName tree fresh name)
        (.alternatives .matchesAny (state.host tree) [])
  | adjustment {tree : Tree} {fresh : Bool} (parenthesis : token.isDelim "(" = true) :
      OpensFrame state token (.pseudoClassName tree fresh "where")
        (.alternatives .specificityAdjustment (state.host tree) [])
  | relation {host : Host} {combinator : Combinator}
      (sign : Combinator.ofToken? token = some combinator) :
      OpensFrame state token (.relative host) (.relation host combinator)

/-- A closing parenthesis closes the innermost frame, and its host becomes the tree. -/
inductive ClosesFrame (state : State) : Mode → List Frame → Host → Tree → Prop
  | relation {tree : Tree} {host : Host} {combinator : Combinator} {outer : List Frame}
      (inside : state.frames = .relation host combinator :: outer) :
      ClosesFrame state (.between tree none) outer host
        (.relation host.tree combinator (state.complete tree))
  | alternatives {argument : Tree} {kind : Alternation} {host : Host} {read : List Tree}
      {outer : List Frame} (inside : state.frames = .alternatives kind host read :: outer) :
      ClosesFrame state (.closing argument) outer host
        (.anyOf kind host.tree (read.reverse ++ [argument]))
  | negation {argument : Tree} {host : Host} {outer : List Frame}
      (inside : state.frames = .negation host :: outer) :
      ClosesFrame state (.closing argument) outer host (.negation host.tree argument)

/-! ### Moves -/

/-- The token is none of those that would go on with what has been read. What it leads to is what it
leads to in another state and mode. -/
inductive Defers (state : State) (token : Token) : Mode → State → Mode → Prop
  | unqualified {first : Option String} (noBar : token.isDelim "|" = false) :
      Defers state token (.typeName first) state (.compound (.element none first) none)
  | pseudoElement {tree : Tree} {name : String} (noCall : token.isDelim "(" = false) :
      Defers state token (.pseudoElementName tree name) state
        (.compound tree (some (.simple (lowerCase name))))
  -- `:scope` starts the first compound of a whole selector, or it is not accepted
  | pseudoClass {tree : Tree} {fresh : Bool} {name : String}
      (noCall : token.isDelim "(" = false)
      (placed : name = "scope" → fresh = true ∧ state.left = none ∧ state.frames = []) :
      Defers state token (.pseudoClassName tree fresh name) state
        (.compound (.restricted tree (.pseudoClass name)) none)
  -- a compound is over: others may follow where combinators join compounds, and elsewhere it is a
  -- whole argument
  | ends {tree : Tree} {pseudo : Option PseudoElement}
      (ends : endsCompound state.isNested token = true) (joins : Joins state.frames) :
      Defers state token (.compound tree pseudo) state (.between tree pseudo)
  | endsArgument {tree : Tree} (ends : endsCompound state.isNested token = true)
      (single : ¬Joins state.frames) :
      Defers state token (.compound tree none) state (.closing tree)
  -- where no combinator is written, and there was at most a blank, the next compound starts
  | relative {host : Host} (noBlank : token.kind ≠ .space)
      (noSign : Combinator.ofToken? token = none) :
      Defers state token (.relative host) (state.openFrame (.relation host .descendant)) .start
  | descendant {tree : Tree} (noBlank : token.kind ≠ .space)
      (goesOn : endsSelector state.isNested token = false)
      (noSign : Combinator.ofToken? token = none) :
      Defers state token (.between tree none) (state.combine tree .descendant) .start

/-- In the mode, and otherwise as `state` says, the token leads to the next state. -/
inductive Moves : State → Mode → Token → State → Prop
  | turn {state : State} {mode after : Mode} {token : Token} (moves : ModeMoves token mode after) :
      Moves state mode token (state.setMode after)
  | openRelation {state : State} {token : Token} {tree : Tree} {fresh : Bool}
      (parenthesis : token.isDelim "(" = true) :
      Moves state (.pseudoClassName tree fresh "has") token
        (state.setMode (.relative (state.host tree)))
  | opens {state : State} {mode : Mode} {token : Token} {frame : Frame}
      (opens : OpensFrame state token mode frame) : Moves state mode token (state.openFrame frame)
  | closes {state : State} {mode : Mode} {token : Token} {outer : List Frame} {host : Host}
      {tree : Tree} (parenthesis : token.isDelim ")" = true)
      (closes : ClosesFrame state mode outer host tree) :
      Moves state mode token (state.closeFrame outer host tree)
  | nextAlternative {state : State} {token : Token} {argument : Tree} {kind : Alternation}
      {host : Host} {read : List Tree} {outer : List Frame} (comma : token.isDelim "," = true)
      (inside : state.frames = .alternatives kind host read :: outer) :
      Moves state (.closing argument) token
        { state with
          frames := .alternatives kind host (argument :: read) :: outer, mode := .start }
  | combine {state : State} {token : Token} {tree : Tree} {combinator : Combinator}
      (sign : Combinator.ofToken? token = some combinator) :
      Moves state (.between tree none) token (state.combine tree combinator)
  -- behind a comma the next selector starts
  | finish {state : State} {token : Token} {tree : Tree} {pseudo : Option PseudoElement}
      (ends : endsSelector state.isNested token = true)
      (outside : ∀ host combinator outer, state.frames ≠ .relation host combinator :: outer) :
      Moves state (.between tree pseudo) token
        (state.finish tree pseudo (if token.kind = .eof then .done else .start))
  | done {state : State} {token : Token} : Moves state .done token (state.setMode .done)
  | defers {state middle next : State} {mode inner : Mode} {token : Token}
      (defers : Defers state token mode middle inner) (goesOn : Moves middle inner token next) :
      Moves state mode token next

/-! ### States in another mode -/

namespace State

variable (state : State) (mode : Mode)

@[simp] theorem setMode_mode : (state.setMode mode).mode = mode := rfl

@[simp] theorem setMode_finished : (state.setMode mode).finished = state.finished := rfl

@[simp] theorem setMode_frames : (state.setMode mode).frames = state.frames := rfl

@[simp] theorem setMode_left : (state.setMode mode).left = state.left := rfl

@[simp] theorem setMode_isNested : (state.setMode mode).isNested = state.isNested := rfl

@[simp] theorem setMode_isNegated : (state.setMode mode).isNegated = state.isNegated := rfl

@[simp] theorem setMode_setMode (other : Mode) :
    (state.setMode mode).setMode other = state.setMode other := rfl

@[simp] theorem setMode_complete (tree : Tree) :
    (state.setMode mode).complete tree = state.complete tree := rfl

@[simp] theorem setMode_host (tree : Tree) : (state.setMode mode).host tree = state.host tree := rfl

@[simp] theorem setMode_openFrame (frame : Frame) :
    (state.setMode mode).openFrame frame = state.openFrame frame := rfl

@[simp] theorem setMode_closeFrame (outer : List Frame) (host : Host) (tree : Tree) :
    (state.setMode mode).closeFrame outer host tree = state.closeFrame outer host tree := rfl

@[simp] theorem setMode_combine (tree : Tree) (combinator : Combinator) :
    (state.setMode mode).combine tree combinator = state.combine tree combinator := rfl

end State

section Tokens

variable {state : State} {mode after : Mode} {token : Token}

/-! ### Tokens -/

theorem kind_of_isDelim {symbol : String} (sign : token.isDelim symbol = true) :
    token.kind = .delim ∧ token.value = symbol := by
  simpa [Token.isDelim] using sign

theorem isDelim_of_sign {combinator : Combinator}
    (sign : Combinator.ofToken? token = some combinator) :
    token.isDelim combinator.symbol = true := by
  unfold Combinator.ofToken? at sign
  repeat' split at sign
  all_goals cases sign
  all_goals assumption

theorem ofSymbol?_ne_present {symbol : String} {operator : AttributeOperator}
    (known : AttributeOperator.ofSymbol? symbol = some operator) : operator ≠ .present := by
  rintro rfl
  exact absurd (List.mem_of_find?_eq_some known) (by decide)

/-! ### Where modes lead -/

/-- In the mode a compound has begun and is not over. -/
def Mode.InCompound : Mode → Prop
  | .start | .relative _ | .between _ _ | .closing _ | .done => False
  | _ => True

theorem inCompound_compound (tree : Tree) (pseudo : Option PseudoElement) :
    Mode.InCompound (.compound tree pseudo) := trivial

theorem StartsSimple.inCompound {tree : Tree} {fresh : Bool}
    (starts : StartsSimple tree fresh token mode) : mode.InCompound := by
  cases starts <;> trivial

/-- A token that changes the mode leads into a compound. -/
theorem ModeMoves.inCompound (moves : ModeMoves token mode after) :
    after = mode ∧ mode.SkipsBlank ∨ after.InCompound := by
  -- only a blank that is skipped leaves the mode as it is
  cases moves with
  | skip _ skips => exact .inl ⟨rfl, skips⟩
  | type moves => exact .inr (by cases moves <;> trivial)
  | simple moves =>
    cases moves with
    | first starts | further starts => exact .inr starts.inCompound
    | className | inAttribute | closeAttribute => exact .inr trivial
  | pseudoElement moves => exact .inr (by cases moves <;> trivial)
  | pseudoClass moves => exact .inr (by cases moves <;> trivial)

/-! ### What a move consumes -/

theorem isArgument_of_ident (ident : token.kind = .ident) : isArgument token = true := by
  simp [isArgument, ident]

/-- The token is an argument of a function, as every name is, or one of the signs. -/
def IsArgumentOr (signs : List String) (token : Token) : Prop :=
  isArgument token = true ∨ ∃ symbol ∈ signs, token.isDelim symbol = true

theorem TypeMoves.consumes (moves : TypeMoves token mode after) :
    IsArgumentOr ["*", "|"] token := by
  cases moves with
  | firstName ident | qualifiedName ident | bareName ident => exact .inl (isArgument_of_ident ident)
  | firstStar sign | qualifiedStar sign | qualifier sign => exact .inr ⟨_, by decide, sign⟩

theorem PseudoElementMoves.consumes (moves : PseudoElementMoves token mode after) :
    IsArgumentOr [":", "(", ")"] token := by
  cases moves with
  | singleColon ident | name ident => exact .inl (isArgument_of_ident ident)
  | argument argument => exact .inl argument
  | doubleColon sign | opens sign | closes sign => exact .inr ⟨_, by decide, sign⟩

theorem PseudoClassMoves.consumes (moves : PseudoClassMoves token mode after) :
    IsArgumentOr ["(", ")"] token := by
  cases moves with
  | name ident => exact .inl (isArgument_of_ident ident)
  | argument argument => exact .inl argument
  | opens sign | closes sign => exact .inr ⟨_, by decide, sign⟩

theorem OpensFrame.consumes {frame : Frame} (opens : OpensFrame state token mode frame) :
    token.isDelim "(" = true ∨ ∃ combinator, Combinator.ofToken? token = some combinator := by
  cases opens with
  | negation parenthesis | matchesAny parenthesis | adjustment parenthesis =>
    exact .inl parenthesis
  | relation sign => exact .inr ⟨_, sign⟩

/-- The token is neither the end of the input nor a backslash that escapes nothing. -/
structure IsPart (token : Token) : Prop where
  kind_ne_eof : token.kind ≠ .eof
  isDelim_backslash : token.isDelim "\\" = false

theorem isPart_of_isDelim {symbol : String} (sign : token.isDelim symbol = true)
    (other : symbol ≠ "\\") : IsPart token := by
  obtain ⟨delim, value⟩ := kind_of_isDelim sign
  exact ⟨by simp [delim], by simp [Token.isDelim, value, other]⟩

theorem IsArgumentOr.isPart {signs : List String} (consumed : IsArgumentOr signs token)
    (other : "\\" ∉ signs) : IsPart token := by
  obtain argument | ⟨symbol, known, sign⟩ := consumed
  · refine ⟨fun eof => ?_, Bool.eq_false_iff.mpr fun lone => ?_⟩
    · simp [isArgument, Token.isDelim, eof] at argument
    · obtain ⟨delim, value⟩ := kind_of_isDelim lone
      simp [isArgument, Token.isDelim, delim, value] at argument
  · exact isPart_of_isDelim sign (ne_of_mem_of_not_mem known other)

theorem isPart_of_sign {combinator : Combinator}
    (sign : Combinator.ofToken? token = some combinator) : IsPart token :=
  isPart_of_isDelim (isDelim_of_sign sign) (by cases combinator <;> decide)

theorem StartsSimple.isPart {tree : Tree} {fresh : Bool}
    (starts : StartsSimple tree fresh token mode) : IsPart token := by
  cases starts with
  | id hash => exact ⟨by simp [hash], by simp [Token.isDelim, hash]⟩
  | className sign | bareName sign | openAttribute sign | colon sign =>
    exact isPart_of_isDelim sign (by decide)

theorem StageMoves.isPart {stage after : AttributeStage} (moves : StageMoves token stage after) :
    IsPart token := by
  induction moves with
  | unqualified _ _ ih => exact ih
  | openedBlank kind | named kind | qualified kind | operatorBlank kind | valueBlank kind
    | closingBlank kind =>
    exact ⟨by simp [kind], by simp [Token.isDelim, kind]⟩
  | starred sign | namedBar sign | starredBar sign | dashMatch sign | nameless sign =>
    exact isPart_of_isDelim sign (by decide)
  | operator delim known =>
    refine ⟨by simp [delim], Bool.eq_false_iff.mpr fun lone => ?_⟩
    rw [(kind_of_isDelim lone).2] at known
    exact absurd known (by decide +revert)
  | value literal =>
    have kinds : token.kind = .string ∨ token.kind = .ident := by
      simpa [Token.isLiteral] using literal
    obtain kind | kind := kinds <;> exact ⟨by simp [kind], by simp [Token.isDelim, kind]⟩

theorem SimpleMoves.isPart (moves : SimpleMoves token mode after) : IsPart token := by
  cases moves with
  | first starts | further starts => exact starts.isPart
  | className ident => exact ⟨by simp [ident], by simp [Token.isDelim, ident]⟩
  | inAttribute moves => exact moves.isPart
  | closeAttribute bracket => exact isPart_of_isDelim bracket (by decide)

theorem ModeMoves.isPart (moves : ModeMoves token mode after) : IsPart token := by
  cases moves with
  | skip space => exact ⟨by simp [space], by simp [Token.isDelim, space]⟩
  | type moves => exact moves.consumes.isPart (by decide)
  | simple moves => exact moves.isPart
  | pseudoElement moves => exact moves.consumes.isPart (by decide)
  | pseudoClass moves => exact moves.consumes.isPart (by decide)

theorem OpensFrame.isPart {frame : Frame} (opens : OpensFrame state token mode frame) :
    IsPart token := by
  obtain parenthesis | ⟨combinator, sign⟩ := opens.consumes
  · exact isPart_of_isDelim parenthesis (by decide)
  · exact isPart_of_sign sign

end Tokens

end Reader

end SelectorPath.Selector
