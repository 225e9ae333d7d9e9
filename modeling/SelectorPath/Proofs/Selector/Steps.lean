import SelectorPath.Proofs.Selector.Moves

/-!
# Moves and steps

The moves are the steps that do not fail. Each function of the reader leads through the moves of its
mode, and each of the relations that the moves consist of is taken by a step.

## Main results

* `Reader.moves_of_step` — every step that does not fail is a move
* `Reader.step_of_moves` — every move is a step
* `Reader.step_eq_ok_iff` — the moves are the steps that do not fail
-/

namespace SelectorPath.Selector

namespace Reader

open Text

section Steps

variable {state next : State} {token : Token} {tree : Tree} {pseudo : Option PseudoElement}

/-! ### Every step is a move -/

theorem setMode_of_mode {mode : Mode} (here : state.mode = mode) : state.setMode mode = state := by
  rw [← here]
  rfl

theorem moves_of_readSimple {fresh : Bool} (read : readSimple state tree fresh token = .ok next) :
    ∃ mode, StartsSimple tree fresh token mode ∧ next = state.setMode mode := by
  unfold readSimple fail at read
  split at read
  · exact ⟨_, .id ‹_›, (Except.ok.inj read).symm⟩
  split at read
  · exact ⟨_, .className ‹_›, (Except.ok.inj read).symm⟩
  split at read
  · exact ⟨_, .bareName ‹_›, (Except.ok.inj read).symm⟩
  split at read
  · exact ⟨_, .openAttribute ‹_›, (Except.ok.inj read).symm⟩
  split at read
  · exact ⟨_, .colon ‹_›, (Except.ok.inj read).symm⟩
  · simp at read

theorem moves_of_enter (read : enter state token = .ok next) : Moves state .start token next := by
  unfold enter at read
  split at read
  · obtain rfl := Except.ok.inj read
    exact .turn (.skip ‹_› .start)
  split at read
  · obtain rfl := Except.ok.inj read
    exact .turn (.type (.firstName ‹_›))
  split at read
  · obtain rfl := Except.ok.inj read
    exact .turn (.type (.firstStar ‹_›))
  · obtain ⟨mode, starts, rfl⟩ := moves_of_readSimple read
    exact .turn (.simple (.first starts))

theorem moves_of_closeArgument (read : closeArgument state tree token = .ok next) :
    Moves state (.closing tree) token next := by
  unfold closeArgument fail at read
  split at read
  · obtain rfl := Except.ok.inj read
    exact .turn (.skip ‹_› .closing)
  split at read
  · split at read
    · obtain rfl := Except.ok.inj read
      exact .closes ‹_› (.alternatives ‹_›)
    split at read
    · obtain rfl := Except.ok.inj read
      exact .nextAlternative ‹_› ‹_›
    · simp at read
  · split at read
    · obtain rfl := Except.ok.inj read
      exact .closes ‹_› (.negation ‹_›)
    · simp at read
  · simp at read

theorem moves_of_closeSelector (ends : endsSelector state.isNested token = true)
    (read : closeSelector state tree pseudo token = .ok next) :
    Moves state (.between tree pseudo) token next := by
  unfold closeSelector fail at read
  split at read
  · split at read
    · simp at read
    split at read
    · obtain rfl := Except.ok.inj read
      exact .closes ‹_› (.relation ‹_›)
    · simp at read
  · rename_i outside
    obtain rfl := Except.ok.inj read
    exact .finish ends outside

theorem moves_of_continueSelector (read : continueSelector state tree pseudo token = .ok next) :
    Moves state (.between tree pseudo) token next := by
  unfold continueSelector at read
  split at read
  · obtain rfl := Except.ok.inj read
    exact .turn (.skip ‹_› .between)
  rename_i noBlank
  split at read
  · exact moves_of_closeSelector ‹_› read
  rename_i goesOn
  split at read
  · simp at read
  split at read
  · obtain rfl := Except.ok.inj read
    exact .combine ‹_›
  · exact .defers (.descendant noBlank (by simpa using goesOn) ‹_›) (moves_of_enter read)

theorem moves_of_readCompound (read : readCompound state tree pseudo token = .ok next) :
    Moves state (.compound tree pseudo) token next := by
  unfold readCompound at read
  split at read
  · rename_i ends
    unfold leave at read
    split at read
    · rename_i frames
      split at read
      · simp at read
      · exact .defers (.endsArgument ends (by simp [frames, Joins])) (moves_of_closeArgument read)
    · rename_i frames
      split at read
      · simp at read
      · exact .defers (.endsArgument ends (by simp [frames, Joins])) (moves_of_closeArgument read)
    · -- The two frames of single compounds are excluded, so combinators join here.
      rename_i noNegation noAlternatives
      have joins : Joins state.frames := by
        unfold Joins
        split
        · trivial
        · trivial
        · rename_i frames noRelation
          cases eq : state.frames with
          | nil => exact frames eq
          | cons frame outer =>
            cases frame with
            | negation host => exact noNegation host outer eq
            | alternatives kind host read => exact noAlternatives kind host read outer eq
            | relation host combinator => exact noRelation host combinator outer eq
      exact .defers (.ends ends joins) (moves_of_continueSelector read)
  · split at read
    · simp at read
    · obtain ⟨mode, starts, rfl⟩ := moves_of_readSimple read
      exact .turn (.simple (.further starts))

/-- Where the operator of an attribute selector may stand, the token goes on with the attribute or
completes it. -/
theorem moves_of_readOperator {ns : Option String} {name : String}
    (read : readOperator state tree ns name token = .ok next) :
    (∃ after, StageMoves token (.operator ns name) after ∧
      next = state.setMode (.attribute tree after)) ∨
    (token.isDelim "]" = true ∧ next = state.setMode
      (.compound (.restricted tree (.attribute ⟨ns, name, .present, none⟩)) none)) := by
  unfold readOperator fail at read
  split at read
  · exact .inl ⟨_, .operatorBlank ‹_›, (Except.ok.inj read).symm⟩
  split at read
  · exact .inr ⟨‹_›, (Except.ok.inj read).symm⟩
  split at read
  · split at read
    · exact .inl ⟨_, .operator ‹_› ‹_›, (Except.ok.inj read).symm⟩
    · simp at read
  · simp at read

theorem moves_of_readAttribute {stage : AttributeStage}
    (here : state.mode = .attribute tree stage)
    (read : readAttribute state tree stage token = .ok next) :
    ∃ after, SimpleMoves token (.attribute tree stage) after ∧ next = state.setMode after := by
  have same := setMode_of_mode here
  cases stage with
  | opened =>
    simp only [readAttribute, fail] at read
    repeat' split at read
    all_goals cases read
    · exact ⟨_, .inAttribute (.openedBlank ‹_›), rfl⟩
    · exact ⟨_, .inAttribute (.named ‹_›), rfl⟩
    · exact ⟨_, .inAttribute (.starred ‹_›), rfl⟩
  | named first =>
    simp only [readAttribute] at read
    split at read
    · exact ⟨_, .inAttribute (.namedBar ‹_›), (Except.ok.inj read).symm⟩
    · -- Without a `|` the name is the whole name, and an operator may stand here.
      rename_i noBar
      obtain ⟨after, moves, rfl⟩ | ⟨bracket, rfl⟩ := moves_of_readOperator read
      · exact ⟨_, .inAttribute (.unqualified (by simpa using noBar) moves), rfl⟩
      · exact ⟨_, .closeAttribute bracket .named, rfl⟩
  | starred =>
    simp only [readAttribute, fail] at read
    repeat' split at read
    all_goals cases read
    exact ⟨_, .inAttribute (.starredBar ‹_›), rfl⟩
  | barred first =>
    simp only [readAttribute, fail] at read
    repeat' split at read
    all_goals cases read
    · exact ⟨_, .inAttribute (.dashMatch ‹_›), rfl⟩
    · exact ⟨_, .inAttribute (.nameless ‹_›), rfl⟩
    · exact ⟨_, .inAttribute (.qualified ‹_›), rfl⟩
  | nameless => simp [readAttribute, fail] at read
  | operator ns name =>
    obtain ⟨after, moves, rfl⟩ | ⟨bracket, rfl⟩ := moves_of_readOperator read
    · exact ⟨_, .inAttribute moves, rfl⟩
    · exact ⟨_, .closeAttribute bracket .present, rfl⟩
  | value ns name operator =>
    simp only [readAttribute, fail] at read
    repeat' split at read
    all_goals cases read
    · exact ⟨_, .inAttribute (.valueBlank ‹_›), same.symm⟩
    · exact ⟨_, .inAttribute (.value ‹_›), rfl⟩
  | closing selector =>
    simp only [readAttribute, fail] at read
    repeat' split at read
    all_goals cases read
    · exact ⟨_, .inAttribute (.closingBlank ‹_›), same.symm⟩
    · exact ⟨_, .closeAttribute ‹_› .compared, rfl⟩

theorem moves_of_readPseudoName {fresh : Bool}
    (read : readPseudoName state tree fresh token = .ok next) :
    Moves state (.colon tree fresh) token next := by
  unfold readPseudoName fail at read
  split at read
  · simp only at read
    split at read
    · obtain rfl := Except.ok.inj read
      exact .turn (.pseudoElement (.singleColon ‹_› ‹_›))
    · obtain rfl := Except.ok.inj read
      exact .turn (.pseudoClass (.name ‹_› ‹_›))
  · simp at read

theorem moves_of_openFunction {fresh : Bool} {name : String}
    (parenthesis : token.isDelim "(" = true) (read : openFunction state tree name = .ok next) :
    Moves state (.pseudoClassName tree fresh name) token next := by
  unfold openFunction at read
  split at read
  · rename_i negation
    obtain rfl := negation
    split at read
    · simp at read
    · rename_i outermost
      obtain rfl := Except.ok.inj read
      exact .opens (.negation parenthesis (by simpa using outermost))
  split at read
  · rename_i relation
    obtain rfl := relation
    obtain rfl := Except.ok.inj read
    exact .openRelation parenthesis
  split at read
  · obtain rfl := Except.ok.inj read
    exact .opens (.matchesAny parenthesis ‹_›)
  split at read
  · rename_i adjustment
    obtain rfl := adjustment
    obtain rfl := Except.ok.inj read
    exact .opens (.adjustment parenthesis)
  · obtain rfl := Except.ok.inj read
    refine .turn (.pseudoClass (.opens parenthesis ?_))
    simp_all [selectorFunctions]

theorem moves_of_readPseudoClass {fresh : Bool} {name : String}
    (read : readPseudoClass state tree fresh name token = .ok next) :
    Moves state (.pseudoClassName tree fresh name) token next := by
  unfold readPseudoClass at read
  split at read
  · exact moves_of_openFunction ‹_› read
  rename_i noCall
  split at read
  · simp at read
  · rename_i placed
    refine .defers (.pseudoClass (by simpa using noCall) fun scope => ?_)
      (moves_of_readCompound read)
    simpa [scope] using placed

theorem moves_of_readRelative {host : Host} (here : state.mode = .relative host)
    (read : readRelative state host token = .ok next) :
    Moves state (.relative host) token next := by
  unfold readRelative at read
  split at read
  · obtain rfl := Except.ok.inj read
    have same : Moves state (.relative host) token (state.setMode (.relative host)) :=
      .turn (.skip ‹_› .relative)
    rwa [setMode_of_mode here] at same
  rename_i noBlank
  split at read
  · obtain rfl := Except.ok.inj read
    exact .opens (.relation ‹_›)
  · exact .defers (.relative noBlank ‹_›) (moves_of_enter read)

theorem readArgument_eq_ok {more close : Mode}
    (read : readArgument state more close token = .ok next) :
    (token.kind = .space ∧ next = state) ∨
      (isArgument token = true ∧ next = state.setMode more) ∨
        (token.isDelim ")" = true ∧ next = state.setMode close) := by
  unfold readArgument fail at read
  repeat' split at read
  all_goals cases read
  · exact .inl ⟨‹_›, rfl⟩
  · exact .inr (.inl ⟨‹_›, rfl⟩)
  · exact .inr (.inr ⟨‹_›, rfl⟩)

/-- Every step that does not fail is a move. -/
theorem moves_of_step (read : step state token = .ok next) :
    Moves state state.mode token next := by
  -- A step that skips a blank answers with the very state, and its move with the mode set again.
  have same : state.setMode state.mode = state := setMode_of_mode rfl
  cases here : state.mode <;> rw [here] at same <;> simp only [step, here] at read
  case start => exact moves_of_enter read
  case typeName first =>
    split at read
    · obtain rfl := Except.ok.inj read
      exact .turn (.type (.qualifier ‹_›))
    · rename_i noBar
      exact .defers (.unqualified (by simpa using noBar)) (moves_of_readCompound read)
  case qualifiedName ns =>
    unfold fail at read
    repeat' split at read
    all_goals cases read
    · exact .turn (.type (.qualifiedName ‹_›))
    · exact .turn (.type (.qualifiedStar ‹_›))
  case compound tree pseudo => exact moves_of_readCompound read
  case className tree =>
    unfold fail at read
    split at read <;> cases read
    exact .turn (.simple (.className ‹_›))
  case bareName =>
    unfold fail at read
    split at read <;> cases read
    exact .turn (.type (.bareName ‹_›))
  case «attribute» tree stage =>
    obtain ⟨after, moves, rfl⟩ := moves_of_readAttribute here read
    exact .turn (.simple moves)
  case colon tree fresh =>
    split at read
    · obtain rfl := Except.ok.inj read
      exact .turn (.pseudoElement (.doubleColon ‹_›))
    · exact moves_of_readPseudoName read
  case doubleColon tree =>
    unfold fail at read
    split at read <;> cases read
    exact .turn (.pseudoElement (.name ‹_›))
  case pseudoElementName tree name =>
    split at read
    · obtain rfl := Except.ok.inj read
      exact .turn (.pseudoElement (.opens ‹_›))
    · rename_i noCall
      exact .defers (.pseudoElement (by simpa using noCall)) (moves_of_readCompound read)
  case pseudoElementArguments tree name arguments =>
    obtain ⟨space, rfl⟩ | ⟨argument, rfl⟩ | ⟨parenthesis, rfl⟩ := readArgument_eq_ok read
    · rw [← same]
      exact .turn (.skip space .pseudoElementArguments)
    · exact .turn (.pseudoElement (.argument argument))
    · exact .turn (.pseudoElement (.closes parenthesis))
  case pseudoClassName tree fresh name => exact moves_of_readPseudoClass read
  case arguments tree name arguments =>
    obtain ⟨space, rfl⟩ | ⟨argument, rfl⟩ | ⟨parenthesis, rfl⟩ := readArgument_eq_ok read
    · rw [← same]
      exact .turn (.skip space .arguments)
    · exact .turn (.pseudoClass (.argument argument))
    · exact .turn (.pseudoClass (.closes parenthesis))
  case relative host => exact moves_of_readRelative here read
  case between tree pseudo => exact moves_of_continueSelector read
  case closing argument => exact moves_of_closeArgument read
  case done =>
    obtain rfl := Except.ok.inj read
    rw [← same]
    exact .done

/-! ### The steps are the moves -/

variable {mode : Mode}

theorem StartsSimple.endsCompound {tree : Tree} {fresh nested : Bool}
    (starts : StartsSimple tree fresh token mode) : endsCompound nested token = false := by
  unfold Reader.endsCompound
  cases starts with
  | id hash => simp [Token.isDelim, hash]
  | className sign | bareName sign | openAttribute sign | colon sign =>
    obtain ⟨delim, value⟩ := kind_of_isDelim sign
    simp [Token.isDelim, delim, value]

theorem StartsSimple.readSimple {tree : Tree} {fresh : Bool}
    (starts : StartsSimple tree fresh token mode) :
    readSimple state tree fresh token = .ok (state.setMode mode) := by
  unfold Reader.readSimple
  cases starts with
  | id hash => simp [hash]
  | className sign | bareName sign | openAttribute sign | colon sign =>
    obtain ⟨delim, value⟩ := kind_of_isDelim sign
    simp [Token.isDelim, delim, value]

theorem StartsSimple.enter (starts : StartsSimple .universal true token mode) :
    enter state token = .ok (state.setMode mode) := by
  have read : Reader.readSimple state .universal true token = .ok (state.setMode mode) :=
    starts.readSimple
  unfold Reader.enter
  cases starts with
  | id hash => simp [Token.isDelim, hash, read]
  | className sign | bareName sign | openAttribute sign | colon sign =>
    obtain ⟨delim, value⟩ := kind_of_isDelim sign
    simp [Token.isDelim, delim, value, read]

/-- A sign of a combinator is no blank and ends no selector. -/
theorem endsSelector_of_sign {combinator : Combinator}
    (sign : Combinator.ofToken? token = some combinator) (nested : Bool) :
    token.kind ≠ .space ∧ endsSelector nested token = false := by
  obtain ⟨delim, value⟩ := kind_of_isDelim (isDelim_of_sign sign)
  cases combinator <;> simp [endsSelector, Token.isDelim, delim, value, Combinator.symbol]

theorem kind_ne_space_of_endsSelector {nested : Bool} (ends : endsSelector nested token = true) :
    token.kind ≠ .space := by
  intro space
  simp [endsSelector, Token.isDelim, space] at ends

/-- Outside of `:has()` what ends a selector finishes it. -/
theorem closeSelector_of_outside {tree : Tree} {pseudo : Option PseudoElement}
    (outside : ∀ host combinator outer, state.frames ≠ .relation host combinator :: outer) :
    closeSelector state tree pseudo token =
      .ok (state.finish tree pseudo (if token.kind = .eof then .done else .start)) := by
  unfold closeSelector
  split
  · rename_i frames
    exact absurd frames (outside _ _ _)
  · rfl

theorem readOperator_of_moves {tree : Tree} {ns : Option String} {name : String}
    {after : AttributeStage} (moves : StageMoves token (.operator ns name) after) :
    readOperator state tree ns name token = .ok (state.setMode (.attribute tree after)) := by
  unfold readOperator
  cases moves with
  | operatorBlank space => simp [space]
  | operator delim sign =>
    -- The bracket is looked for first, but it is the sign of no operator.
    have noBracket : token.value ≠ "]" := by
      intro bracket
      rw [bracket, show AttributeOperator.ofSymbol? "]" = none by decide] at sign
      simp at sign
    simp [delim, noBracket, Token.isDelim, sign]

theorem StageMoves.readAttribute {tree : Tree} {stage after : AttributeStage}
    (here : state.mode = .attribute tree stage) (moves : StageMoves token stage after) :
    readAttribute state tree stage token = .ok (state.setMode (.attribute tree after)) := by
  have same := setMode_of_mode here
  cases moves with
  | unqualified noBar goesOn =>
    simp only [Reader.readAttribute, noBar]
    exact readOperator_of_moves goesOn
  | operatorBlank space => exact readOperator_of_moves (.operatorBlank space)
  | operator delim sign => exact readOperator_of_moves (.operator delim sign)
  | valueBlank space => simp [Reader.readAttribute, space, same]
  | closingBlank space => simp [Reader.readAttribute, space, same]
  | value literal =>
    have noBlank : token.kind ≠ .space := by
      intro space
      simp [Token.isLiteral, space] at literal
    simp [Reader.readAttribute, noBlank, literal]
  | openedBlank space => simp [Reader.readAttribute, space]
  | named ident => simp [Reader.readAttribute, ident]
  | qualified ident => simp [Reader.readAttribute, ident, Token.isDelim]
  | starred sign | namedBar sign | starredBar sign | dashMatch sign | nameless sign =>
    obtain ⟨delim, value⟩ := kind_of_isDelim sign
    simp [Reader.readAttribute, Token.isDelim, delim, value]

theorem StageCloses.readAttribute {tree : Tree} {stage : AttributeStage}
    {selector : AttributeSelector} (bracket : token.isDelim "]" = true)
    (closes : StageCloses stage selector) :
    readAttribute state tree stage token =
      .ok (state.setMode (.compound (.restricted tree (.attribute selector)) none)) := by
  obtain ⟨delim, value⟩ := kind_of_isDelim bracket
  cases closes <;> simp [Reader.readAttribute, readOperator, Token.isDelim, delim, value]

theorem readCompound_of_ends {tree : Tree} {pseudo : Option PseudoElement}
    (ends : endsCompound state.isNested token = true) :
    readCompound state tree pseudo token = leave state tree pseudo token := by
  unfold readCompound
  rw [if_pos ends]

theorem leave_of_joins {tree : Tree} {pseudo : Option PseudoElement} (joins : Joins state.frames) :
    leave state tree pseudo token = continueSelector state tree pseudo token := by
  unfold leave
  match frames : state.frames with
  | [] | .relation _ _ :: _ => rfl
  | .negation _ :: _ | .alternatives _ _ _ :: _ => simp [frames, Joins] at joins

theorem leave_of_single {tree : Tree} (single : ¬Joins state.frames) :
    leave state tree none token = closeArgument state tree token := by
  unfold leave
  match frames : state.frames with
  | .negation _ :: _ | .alternatives _ _ _ :: _ => rfl
  | [] | .relation _ _ :: _ => simp [frames, Joins] at single

theorem readArgument_of_argument {more close : Mode} (argument : isArgument token = true) :
    readArgument state more close token = .ok (state.setMode more) := by
  have noBlank : token.kind ≠ .space := by
    intro space
    simp [isArgument, Token.isDelim, space] at argument
  simp [readArgument, noBlank, argument]

theorem readArgument_of_parenthesis {more close : Mode} (parenthesis : token.isDelim ")" = true) :
    readArgument state more close token = .ok (state.setMode close) := by
  obtain ⟨delim, value⟩ := kind_of_isDelim parenthesis
  simp [readArgument, isArgument, Token.isDelim, delim, value]

theorem openFunction_of_other {tree : Tree} {name : String} (other : name ∉ selectorFunctions) :
    openFunction state tree name = .ok (state.setMode (.arguments tree name [])) := by
  simp only [selectorFunctions, List.mem_cons, List.not_mem_nil, or_false, not_or] at other
  obtain ⟨noNot, noHas, noIs, noMatches, noWhere⟩ := other
  simp [openFunction, noNot, noHas, noIs, noMatches, noWhere]

variable {after inner : Mode} {middle : State}

theorem Mode.SkipsBlank.step (skips : mode.SkipsBlank) (space : token.kind = .space) :
    step (state.setMode mode) token = .ok (state.setMode mode) := by
  cases skips with
  | start => simp [Reader.step, enter, space]
  | pseudoElementArguments | arguments => simp [Reader.step, readArgument, space]
  | relative => simp [Reader.step, readRelative, space]
  | between => simp [Reader.step, continueSelector, space]
  | closing => simp [Reader.step, closeArgument, space]

theorem TypeMoves.step (moves : TypeMoves token mode after) :
    step (state.setMode mode) token = .ok (state.setMode after) := by
  cases moves with
  | firstName ident => simp [Reader.step, enter, ident]
  | qualifiedName ident | bareName ident => simp [Reader.step, ident]
  | firstStar sign | qualifier sign | qualifiedStar sign =>
    obtain ⟨delim, value⟩ := kind_of_isDelim sign
    simp [Reader.step, enter, Token.isDelim, delim, value]

theorem SimpleMoves.step (moves : SimpleMoves token mode after) :
    step (state.setMode mode) token = .ok (state.setMode after) := by
  cases moves with
  | first starts => exact starts.enter
  | further starts =>
    simp only [Reader.step, State.setMode_mode, readCompound, State.setMode_isNested,
      starts.endsCompound]
    exact starts.readSimple
  | className ident => simp [Reader.step, ident]
  | inAttribute moves => exact moves.readAttribute rfl
  | closeAttribute bracket closes => exact closes.readAttribute bracket

theorem PseudoElementMoves.step (moves : PseudoElementMoves token mode after) :
    step (state.setMode mode) token = .ok (state.setMode after) := by
  cases moves with
  | singleColon ident known => simp [Reader.step, readPseudoName, ident, known, Token.isDelim]
  | name ident => simp [Reader.step, ident]
  | argument argument => exact readArgument_of_argument argument
  | closes parenthesis => exact readArgument_of_parenthesis parenthesis
  | doubleColon sign | opens sign => simp [Reader.step, sign]

theorem PseudoClassMoves.step (moves : PseudoClassMoves token mode after) :
    step (state.setMode mode) token = .ok (state.setMode after) := by
  cases moves with
  | name ident other => simp [Reader.step, readPseudoName, ident, other, Token.isDelim]
  | opens parenthesis other =>
    simp [Reader.step, readPseudoClass, parenthesis, openFunction_of_other other]
  | argument argument => exact readArgument_of_argument argument
  | closes parenthesis => exact readArgument_of_parenthesis parenthesis

theorem ModeMoves.step (moves : ModeMoves token mode after) :
    step (state.setMode mode) token = .ok (state.setMode after) := by
  cases moves with
  | skip space skips => exact skips.step space
  | type moves => exact moves.step
  | simple moves => exact moves.step
  | pseudoElement moves => exact moves.step
  | pseudoClass moves => exact moves.step

theorem OpensFrame.step {frame : Frame} (opens : OpensFrame state token mode frame) :
    step (state.setMode mode) token = .ok (state.openFrame frame) := by
  cases opens with
  | negation parenthesis outermost =>
    simp [Reader.step, readPseudoClass, parenthesis, openFunction, outermost]
  | matchesAny parenthesis known =>
    rcases known with rfl | rfl <;> simp [Reader.step, readPseudoClass, parenthesis, openFunction]
  | adjustment parenthesis => simp [Reader.step, readPseudoClass, parenthesis, openFunction]
  | relation sign => simp [Reader.step, readRelative, sign, (endsSelector_of_sign sign true).1]

theorem ClosesFrame.step {outer : List Frame} {host : Host}
    (closes : ClosesFrame state mode outer host tree) (parenthesis : token.isDelim ")" = true) :
    step (state.setMode mode) token = .ok (state.closeFrame outer host tree) := by
  obtain ⟨delim, value⟩ := kind_of_isDelim parenthesis
  cases closes with
  | relation inside =>
    simp [Reader.step, continueSelector, closeSelector, endsSelector, State.isNested, inside,
      parenthesis, delim]
  | alternatives inside | negation inside =>
    simp [Reader.step, closeArgument, inside, Token.isDelim, delim, value]

/-- A step that does not consume the token is the step behind it. -/
theorem Defers.step (defers : Defers state token mode middle inner) :
    step (state.setMode mode) token = step (middle.setMode inner) token := by
  cases defers with
  | unqualified noBar =>
    simp only [Reader.step, State.setMode_mode, noBar]
    rfl
  | pseudoElement noCall =>
    simp only [Reader.step, State.setMode_mode, noCall]
    rfl
  | pseudoClass noCall placed =>
    simp only [Reader.step, State.setMode_mode, readPseudoClass, noCall]
    rw [if_neg (by simp), if_neg (by simpa using placed)]
    rfl
  | ends ends joins => exact (readCompound_of_ends ends).trans (leave_of_joins joins)
  | endsArgument ends single => exact (readCompound_of_ends ends).trans (leave_of_single single)
  | relative noBlank noSign =>
    simp only [Reader.step, State.setMode_mode, readRelative, noBlank, noSign]
    rfl
  | descendant noBlank goesOn noSign =>
    simp only [Reader.step, State.setMode_mode, continueSelector, noBlank, noSign,
      State.setMode_isNested, goesOn]
    rfl

theorem step_of_moves (moves : Moves state mode token next) :
    step (state.setMode mode) token = .ok next := by
  induction moves with
  | turn moves => exact moves.step
  | openRelation parenthesis => simp [step, readPseudoClass, parenthesis, openFunction]
  | opens opens => exact opens.step
  | closes parenthesis closes => exact closes.step parenthesis
  | nextAlternative comma inside =>
    obtain ⟨delim, value⟩ := kind_of_isDelim comma
    simp [step, closeArgument, inside, Token.isDelim, delim, value]
  | combine sign =>
    have noBlank := (endsSelector_of_sign sign true).1
    have goesOn := fun nested => (endsSelector_of_sign sign nested).2
    simp [step, continueSelector, noBlank, goesOn, sign]
  | finish ends outside =>
    have noBlank := kind_ne_space_of_endsSelector ends
    simp only [step, State.setMode_mode, continueSelector, noBlank, State.setMode_isNested,
      ends]
    exact closeSelector_of_outside outside
  | done => rfl
  -- the step is the one that the token leads to where it is looked at again
  | defers defers _ ih => exact defers.step.trans ih

/-- The moves are the steps that do not fail. -/
theorem step_eq_ok_iff : step state token = .ok next ↔ Moves state state.mode token next :=
  ⟨moves_of_step, step_of_moves⟩

end Steps

end Reader

end SelectorPath.Selector
