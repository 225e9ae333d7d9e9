import SelectorPath.Selector.SyntaxError

/-!
# Reading selectors

A selector group is read one token at a time. The reader keeps the selectors that are finished, a
stack of the functional pseudo-classes it is inside of, what stands to the left of the last
combinator, and what it is in the middle of (`Mode`). One step either goes on to the next state or
stops with an error about the token at hand, so an error never depends on what follows that token.

A compound ends at a blank, at the end of the input, at `,`, `+`, `>` or `~`, and inside a
functional pseudo-class also at `)`. What may follow then depends on the innermost frame: outside of
all frames and in `:has()` combinators join compounds, in the other functional pseudo-classes an
argument is a single compound.

## Main definitions

* `Reader.State`, `Reader.Frame`, `Reader.Mode` — where the reader stands
* `Reader.step` — one token read
* `Selector.ofTokens` — the selectors of a list of tokens that ends in `eof`
* `Selector.parse` — the selectors of a text
-/

namespace SelectorPath.Selector

namespace Reader

open Text

/-- The part of a selector that a functional pseudo-class restricts: the compound read so far, and
what stands to the left of it. -/
structure Host where
  left : Option (Tree × Combinator)
  tree : Tree

/-- A functional pseudo-class whose argument is being read. -/
inductive Frame
  | negation (host : Host)
  | /-- The arguments in `read` are complete, the last one first. -/
    alternatives (kind : Alternation) (host : Host) (read : List Tree)
  | relation (host : Host) (combinator : Combinator)

/-- How far an attribute selector has been read. -/
inductive AttributeStage
  | /-- Behind `[`. -/
    opened
  | /-- Behind a name, which may still turn out to be a namespace. -/
    named (first : String)
  | /-- Behind `*`, which must be a namespace. -/
    starred
  | /-- Behind a namespace and `|`. -/
    barred (first : Option String)
  | /-- Behind `*`, `|` and `=`, where no name has been given. -/
    nameless
  | /-- Behind the name. -/
    operator (ns : Option String) (name : String)
  | /-- Behind the operator. -/
    value (ns : Option String) (name : String) (operator : AttributeOperator)
  | /-- Behind the value. -/
    closing (selector : AttributeSelector)

/-- What the reader is in the middle of. -/
inductive Mode
  | /-- Before a compound. -/
    start
  | /-- Behind the first name of a compound, or `*`. -/
    typeName (first : Option String)
  | /-- Behind the `|` of a type selector. -/
    qualifiedName (ns : Option String)
  | /-- In a compound, or behind its pseudo-element. -/
    compound (tree : Tree) (pseudo : Option PseudoElement)
  | /-- Behind `.`. -/
    className (tree : Tree)
  | /-- Behind a `|` that stands where a simple selector could. The name that follows is a type
    selector without namespace, and takes the place of what has been read of the compound. -/
    bareName
  | attribute (tree : Tree) (stage : AttributeStage)
  | /-- Behind `:`. The colon is `fresh` if the compound starts with it. -/
    colon (tree : Tree) (fresh : Bool)
  | /-- Behind `::`. -/
    doubleColon (tree : Tree)
  | /-- Behind the name of a pseudo-element. -/
    pseudoElementName (tree : Tree) (name : String)
  | pseudoElementArguments (tree : Tree) (name : String) (read : List Token)
  | /-- Behind the name of a pseudo-class. -/
    pseudoClassName (tree : Tree) (fresh : Bool) (name : String)
  | /-- In the arguments of a functional pseudo-class; `read` has the last one first. -/
    arguments (tree : Tree) (name : String) (read : List Token)
  | /-- Behind the parenthesis of `:has()`. -/
    relative (host : Host)
  | /-- Behind a compound and a blank, where a combinator may follow. -/
    between (tree : Tree) (pseudo : Option PseudoElement)
  | /-- Behind a compound that is a whole argument. -/
    closing (argument : Tree)
  | /-- Behind the end of the input. -/
    done

/-- The state of the reader. -/
structure State where
  /-- The selectors before the current one, the last one first. -/
  finished : List Selector
  /-- The functional pseudo-classes around the current place, the innermost first. -/
  frames : List Frame
  /-- What stands to the left of the last combinator. -/
  left : Option (Tree × Combinator)
  mode : Mode

/-- Before the first token. -/
def State.initial : State := ⟨[], [], none, .start⟩

namespace State

/-- The place is inside a functional pseudo-class. -/
def isNested (state : State) : Bool := !state.frames.isEmpty

/-- The innermost functional pseudo-class is `:not()`. -/
def isNegated (state : State) : Bool :=
  match state.frames with
  | .negation _ :: _ => true
  | _ => false

/-- The state with another mode. -/
def setMode (state : State) (mode : Mode) : State := { state with mode }

/-- The selector that ends with the compound `tree`. -/
def complete (state : State) (tree : Tree) : Tree :=
  match state.left with
  | none => tree
  | some (left, combinator) => .combined left combinator tree

/-- The compound `tree` with what stands to the left of it. -/
def host (state : State) (tree : Tree) : Host := ⟨state.left, tree⟩

/-- The start of an argument inside `frame`. -/
def openFrame (state : State) (frame : Frame) : State :=
  { state with frames := frame :: state.frames, left := none, mode := .start }

/-- The compound goes on behind a closed frame, restricted by it. -/
def closeFrame (state : State) (outer : List Frame) (host : Host) (tree : Tree) : State :=
  { state with frames := outer, left := host.left, mode := .compound tree none }

/-- The next compound starts behind a combinator. -/
def combine (state : State) (tree : Tree) (combinator : Combinator) : State :=
  { state with left := some (state.complete tree, combinator), mode := .start }

/-- The selector that ends with `tree` is finished, and `mode` follows. -/
def finish (state : State) (tree : Tree) (pseudo : Option PseudoElement) (mode : Mode) : State :=
  { state with
    finished := ⟨state.complete tree, pseudo⟩ :: state.finished, left := none, mode }

end State

/-- What one token leads to. -/
abbrev Outcome := Except SyntaxError State

/-- The token at hand is not what could stand here. -/
def fail (expected : Expectation) (token : Token) : Outcome := .error (.unexpected expected token)

/-- The token cannot belong to a compound that has begun. -/
def endsCompound (nested : Bool) (token : Token) : Bool :=
  token.kind == .space || token.kind == .eof || token.isDelim "," || token.isDelim "+"
    || token.isDelim ">" || token.isDelim "~" || (nested && token.isDelim ")")

/-- The token ends a selector of several compounds. -/
def endsSelector (nested : Bool) (token : Token) : Bool :=
  token.kind == .eof || token.isDelim "," || (nested && token.isDelim ")")

/-- The token may be an argument of a function. -/
def isArgument (token : Token) : Bool :=
  token.kind == .ident || token.kind == .string || token.kind == .number
    || token.isDelim "+" || token.isDelim "-"

/-- The pseudo-elements that may be written with one colon. -/
def singleColonPseudoElements : List String := ["first-line", "first-letter", "before", "after"]

/-! ### Compounds -/

/-- The first token of a simple selector behind `tree`. -/
def readSimple (state : State) (tree : Tree) (fresh : Bool) (token : Token) : Outcome :=
  if token.kind = .hash then
    .ok (state.setMode (.compound (.restricted tree (.id token.value)) none))
  else if token.isDelim "." then .ok (state.setMode (.className tree))
  else if token.isDelim "|" then .ok (state.setMode .bareName)
  else if token.isDelim "[" then .ok (state.setMode (.attribute tree .opened))
  else if token.isDelim ":" then .ok (state.setMode (.colon tree fresh))
  else fail .selector token

/-- The first token of a compound. Without a type selector it restricts the universal one. -/
def enter (state : State) (token : Token) : Outcome :=
  if token.kind = .space then .ok (state.setMode .start)
  else if token.kind = .ident then .ok (state.setMode (.typeName (some token.value)))
  else if token.isDelim "*" then .ok (state.setMode (.typeName none))
  else readSimple state .universal true token

/-- A token behind a compound that is a whole argument of `:not()`, `:is()` or `:where()`. -/
def closeArgument (state : State) (argument : Tree) (token : Token) : Outcome :=
  if token.kind = .space then .ok (state.setMode (.closing argument))
  else
    match state.frames with
    | .alternatives kind host read :: outer =>
      if token.isDelim ")" then
        .ok (state.closeFrame outer host
          (.anyOf kind host.tree (read.reverse ++ [argument])))
      else if token.isDelim "," then
        .ok { state with
          frames := .alternatives kind host (argument :: read) :: outer, mode := .start }
      else fail .commaOrParenthesis token
    | .negation host :: outer =>
      if token.isDelim ")" then
        .ok (state.closeFrame outer host (.negation host.tree argument))
      else fail .closingParenthesis token
    | _ => fail .closingParenthesis token

/-- A token that ends a selector of several compounds. -/
def closeSelector (state : State) (tree : Tree) (pseudo : Option PseudoElement) (token : Token) :
    Outcome :=
  match state.frames with
  | .relation host combinator :: outer =>
    match pseudo with
    | some pseudo => .error (.pseudoElementInArgument pseudo)
    | none =>
      if token.isDelim ")" then
        .ok (state.closeFrame outer host
          (.relation host.tree combinator (state.complete tree)))
      else fail .closingParenthesis token
  | _ => .ok (state.finish tree pseudo (if token.kind = .eof then .done else .start))

/-- A token behind a compound where combinators join compounds. -/
def continueSelector (state : State) (tree : Tree) (pseudo : Option PseudoElement)
    (token : Token) : Outcome :=
  if token.kind = .space then .ok (state.setMode (.between tree pseudo))
  else if endsSelector state.isNested token then closeSelector state tree pseudo token
  else
    match pseudo with
    | some pseudo => .error (.pseudoElementNotAtEnd pseudo)
    | none =>
      match Combinator.ofToken? token with
      | some combinator => .ok (state.combine tree combinator)
      -- only blanks stood between the compounds, and the token starts the next one
      | none => enter (state.combine tree .descendant) token

/-- The token that ends a compound. -/
def leave (state : State) (tree : Tree) (pseudo : Option PseudoElement) (token : Token) :
    Outcome :=
  match state.frames with
  | .negation _ :: _ | .alternatives _ _ _ :: _ =>
    match pseudo with
    | some pseudo => .error (.pseudoElementInArgument pseudo)
    | none => closeArgument state tree token
  | _ => continueSelector state tree pseudo token

/-- A token in a compound, or behind its pseudo-element. -/
def readCompound (state : State) (tree : Tree) (pseudo : Option PseudoElement) (token : Token) :
    Outcome :=
  if endsCompound state.isNested token then leave state tree pseudo token
  else
    match pseudo with
    -- nothing but the end of the compound may follow a pseudo-element
    | some pseudo => .error (.pseudoElementNotAtEnd pseudo)
    | none => readSimple state tree false token

/-! ### Attribute selectors -/

/-- A token where the operator of an attribute selector may stand. -/
def readOperator (state : State) (tree : Tree) (ns : Option String) (name : String)
    (token : Token) : Outcome :=
  if token.kind = .space then .ok (state.setMode (.attribute tree (.operator ns name)))
  else if token.isDelim "]" then
    .ok (state.setMode
      (.compound (.restricted tree (.attribute ⟨ns, name, .present, none⟩)) none))
  else if token.kind = .delim then
    match AttributeOperator.ofSymbol? token.value with
    | some operator => .ok (state.setMode (.attribute tree (.value ns name operator)))
    | none => fail .operator token
  else fail .operator token

/-- A token in an attribute selector. -/
def readAttribute (state : State) (tree : Tree) (stage : AttributeStage) (token : Token) :
    Outcome :=
  match stage with
  | .opened =>
    if token.kind = .space then .ok (state.setMode (.attribute tree .opened))
    else if token.kind = .ident then .ok (state.setMode (.attribute tree (.named token.value)))
    else if token.isDelim "*" then .ok (state.setMode (.attribute tree .starred))
    else fail .identifierOrStar token
  | .named first =>
    if token.isDelim "|" then .ok (state.setMode (.attribute tree (.barred (some first))))
    else readOperator state tree none first token
  | .starred =>
    if token.isDelim "|" then .ok (state.setMode (.attribute tree (.barred none)))
    else fail .bar token
  | .barred first =>
    if token.isDelim "=" then
      -- `|` and `=` with a comment between them are two tokens and still one operator
      match first with
      | some name => .ok (state.setMode (.attribute tree (.value none name .dashMatch)))
      | none => .ok (state.setMode (.attribute tree .nameless))
    else if token.kind = .ident then
      .ok (state.setMode (.attribute tree (.operator first token.value)))
    else fail .identifier token
  | .nameless => fail .attributeName token
  | .operator ns name => readOperator state tree ns name token
  | .value ns name operator =>
    if token.kind = .space then .ok state
    else if token.isLiteral then
      .ok (state.setMode (.attribute tree (.closing ⟨ns, name, operator, some token⟩)))
    else fail .stringOrIdentifier token
  | .closing selector =>
    if token.kind = .space then .ok state
    else if token.isDelim "]" then
      .ok (state.setMode (.compound (.restricted tree (.attribute selector)) none))
    else fail .closingBracket token

/-! ### Pseudo-classes and pseudo-elements -/

/-- The name behind a colon. Four pseudo-elements may be written with a single colon. -/
def readPseudoName (state : State) (tree : Tree) (fresh : Bool) (token : Token) : Outcome :=
  if token.kind = .ident then
    let name := lowerCase token.value
    if name ∈ singleColonPseudoElements then
      .ok (state.setMode (.compound tree (some (.simple name))))
    else .ok (state.setMode (.pseudoClassName tree fresh name))
  else fail .identifier token

/-- The parenthesis behind the name of a functional pseudo-class. -/
def openFunction (state : State) (tree : Tree) (name : String) : Outcome :=
  if name = "not" then
    if state.isNegated then .error .nestedNegation
    else .ok (state.openFrame (.negation (state.host tree)))
  else if name = "has" then .ok (state.setMode (.relative (state.host tree)))
  else if name = "is" ∨ name = "matches" then
    .ok (state.openFrame (.alternatives .matchesAny (state.host tree) []))
  else if name = "where" then
    .ok (state.openFrame (.alternatives .specificityAdjustment (state.host tree) []))
  else .ok (state.setMode (.arguments tree name []))

/-- The token behind the name of a pseudo-class. The scope may only start the first compound of a
selector that is not an argument. -/
def readPseudoClass (state : State) (tree : Tree) (fresh : Bool) (name : String) (token : Token) :
    Outcome :=
  if token.isDelim "(" then openFunction state tree name
  else if name = "scope" ∧ ¬(fresh ∧ state.left.isNone ∧ state.frames.isEmpty) then
    .error .misplacedScope
  else readCompound state (.restricted tree (.pseudoClass name)) none token

/-- A token in the arguments of a function; `next` holds one argument more, and `close` follows the
closing parenthesis. -/
def readArgument (state : State) (next : Mode) (close : Mode) (token : Token) : Outcome :=
  if token.kind = .space then .ok state
  else if isArgument token then .ok (state.setMode next)
  else if token.isDelim ")" then .ok (state.setMode close)
  else fail .argument token

/-- The first token in `:has()` that is no blank; a combinator may come first. -/
def readRelative (state : State) (host : Host) (token : Token) : Outcome :=
  if token.kind = .space then .ok state
  else
    match Combinator.ofToken? token with
    | some combinator => .ok (state.openFrame (.relation host combinator))
    | none => enter (state.openFrame (.relation host .descendant)) token

/-! ### One token -/

/-- The state behind one more token. -/
def step (state : State) (token : Token) : Outcome :=
  match state.mode with
  | .start => enter state token
  | .typeName first =>
    if token.isDelim "|" then .ok (state.setMode (.qualifiedName first))
    else readCompound state (.element none first) none token
  | .qualifiedName ns =>
    if token.kind = .ident then
      .ok (state.setMode (.compound (.element ns (some token.value)) none))
    else if token.isDelim "*" then .ok (state.setMode (.compound (.element ns none) none))
    else fail .identifierOrStar token
  | .compound tree pseudo => readCompound state tree pseudo token
  | .className tree =>
    if token.kind = .ident then
      .ok (state.setMode (.compound (.restricted tree (.className token.value)) none))
    else fail .identifier token
  | .bareName =>
    if token.kind = .ident then
      .ok (state.setMode (.compound (.element none (some token.value)) none))
    else fail .identifier token
  | .attribute tree stage => readAttribute state tree stage token
  | .colon tree fresh =>
    if token.isDelim ":" then .ok (state.setMode (.doubleColon tree))
    else readPseudoName state tree fresh token
  | .doubleColon tree =>
    if token.kind = .ident then .ok (state.setMode (.pseudoElementName tree token.value))
    else fail .identifier token
  | .pseudoElementName tree name =>
    if token.isDelim "(" then .ok (state.setMode (.pseudoElementArguments tree name []))
    else readCompound state tree (some (.simple (lowerCase name))) token
  | .pseudoElementArguments tree name read =>
    readArgument state (.pseudoElementArguments tree name (token :: read))
      (.compound tree (some (.functional (.make name read.reverse)))) token
  | .pseudoClassName tree fresh name => readPseudoClass state tree fresh name token
  | .arguments tree name read =>
    readArgument state (.arguments tree name (token :: read))
      (.compound (.restricted tree (.function (.make name read.reverse))) none) token
  | .relative host => readRelative state host token
  | .between tree pseudo => continueSelector state tree pseudo token
  | .closing argument => closeArgument state argument token
  | .done => .ok state

/-- The state behind several tokens. -/
def run (state : State) : List Token → Outcome
  | [] => .ok state
  | token :: rest =>
    match step state token with
    | .ok next => run next rest
    | .error e => .error e

/-- Reading goes on where it stopped. -/
theorem run_append (state : State) (before after : List Token) :
    run state (before ++ after) =
      match run state before with
      | .ok next => run next after
      | .error e => .error e := by
  induction before generalizing state with
  | nil => rfl
  | cons token rest ih =>
    simp only [List.cons_append, run]
    cases step state token with
    | ok next => exact ih next
    | error e => rfl

end Reader

/-- The selectors that a list of tokens denotes; the list ends in `eof`. -/
def ofTokens (tokens : List Token) : Except SyntaxError (List Selector) :=
  match Reader.run .initial tokens with
  | .ok state => .ok state.finished.reverse
  | .error e => .error e

/-- The selectors of a group, separated by commas in the text. -/
def parse (text : String) : Except SyntaxError (List Selector) :=
  match tokenize text with
  | .ok tokens => ofTokens tokens
  | .error e => .error (.lexical e)

end SelectorPath.Selector
