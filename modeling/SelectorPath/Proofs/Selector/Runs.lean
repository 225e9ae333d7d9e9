import SelectorPath.Proofs.Selector.Reader

/-!
# Runs as moves

A list of tokens is accepted if it leads from the initial state on, move by move. The input can end
only outside of all frames, and what its end finishes a comma would have finished as well.

## Main definitions

* `Reader.Runs` — the tokens lead from one state to another
* `Reader.Sound` — the input is not over, and blanks have been left out where they may be
* `Reader.Placed`, `Reader.Operands` — the left operands of combinators stand where they can
* `Reader.Finishes` — a token finishes a selector outside of all frames

## Main results

* `Reader.run_eq_ok_iff` — the runs that do not fail
* `Reader.Runs.keeps` — what every move in front of `eof` keeps
* `Reader.sound_of_runs`, `Reader.operands_of_runs` — every state in front of `eof` is sound, and
  its left operands stand where they can
* `Reader.finish_of_eof` — how the input ends
* `Selector.exists_runs_of_parse` — the run of an accepted text
-/

namespace SelectorPath.Selector

namespace Reader

/-- The tokens lead from one state to another, move by move. -/
inductive Runs : State → List Token → State → Prop
  | nil (state : State) : Runs state [] state
  | cons {state middle next : State} {token : Token} {rest : List Token}
      (first : Moves state state.mode token middle) (others : Runs middle rest next) :
      Runs state (token :: rest) next

section Runs

variable {state middle next : State} {before after tokens : List Token}

/-- The runs are those that do not fail. -/
theorem run_eq_ok_iff : run state tokens = .ok next ↔ Runs state tokens next := by
  constructor
  · intro ran
    induction tokens generalizing state with
    | nil =>
      obtain rfl := Except.ok.inj ran
      exact .nil state
    | cons token rest ih =>
      unfold run at ran
      split at ran
      · exact .cons (moves_of_step ‹_›) (ih ran)
      · simp at ran
  · intro runs
    induction runs with
    | nil => rfl
    | cons first others ih =>
      unfold run
      rw [step_eq_ok_iff.mpr first]
      exact ih

theorem Runs.append (first : Runs state before middle) (second : Runs middle after next) :
    Runs state (before ++ after) next := by
  induction first with
  | nil => exact second
  | cons move _ ih => exact .cons move (ih second)

/-- A run over two lists comes through a state between them. -/
theorem runs_append_iff :
    Runs state (before ++ after) next ↔
      ∃ middle, Runs state before middle ∧ Runs middle after next := by
  constructor
  · intro runs
    induction before generalizing state with
    | nil => exact ⟨state, .nil state, runs⟩
    | cons token rest ih =>
      cases runs with
      | cons move others =>
        obtain ⟨middle, first, second⟩ := ih others
        exact ⟨middle, .cons move first, second⟩
  · rintro ⟨middle, first, second⟩
    exact first.append second

theorem runs_singleton_iff {token : Token} :
    Runs state [token] next ↔ Moves state state.mode token next := by
  constructor
  · intro runs
    cases runs with
    | cons move others =>
      cases others with
      | nil => exact move
  · exact fun move => .cons move (.nil next)

/-- What every move in front of `eof` keeps holds at the end of a run. -/
theorem Runs.keeps (runs : Runs state tokens next) (p : State → Prop)
    (keeps : ∀ {state next : State} {token : Token}, token.kind ≠ .eof →
      Moves state state.mode token next → p state → p next)
    (inside : ∀ token ∈ tokens, token.kind ≠ .eof) (start : p state) : p next := by
  induction runs with
  | nil => exact start
  | cons move _ ih =>
    obtain ⟨here, inside⟩ := List.forall_mem_cons.mp inside
    exact ih inside (keeps here move start)

end Runs

/-! ### Sound states -/

/-- The input is not over, and blanks behind a compound are left out only where compounds are
joined. -/
structure Sound (frames : List Frame) (mode : Mode) : Prop where
  reading : mode ≠ .done
  joins : ∀ tree pseudo, mode = .between tree pseudo → Joins frames

section Sound

variable {state middle next : State} {token : Token} {mode inner after : Mode}

theorem sound_start (frames : List Frame) : Sound frames .start := ⟨by simp, by simp⟩

theorem Mode.InCompound.sound (inside : mode.InCompound) (frames : List Frame) :
    Sound frames mode := by
  constructor
  · rintro rfl
    exact inside
  · rintro tree pseudo rfl
    exact inside.elim

theorem ModeMoves.sound (moves : ModeMoves token mode after) {frames : List Frame}
    (sound : Sound frames mode) : Sound frames after := by
  obtain ⟨rfl, -⟩ | inside := moves.inCompound
  · exact sound
  · exact inside.sound frames

theorem Defers.sound (defers : Defers state token mode middle inner) :
    Sound middle.frames inner := by
  cases defers with
  | unqualified | pseudoElement | pseudoClass => exact (inCompound_compound _ _).sound _
  | ends _ joins => exact ⟨by simp, fun _ _ _ => joins⟩
  | endsArgument => exact ⟨by simp, by simp⟩
  | relative | descendant => exact sound_start _

/-- Only `eof` ends the input. -/
theorem sound_of_moves (moves : Moves state mode token next) (sound : Sound state.frames mode)
    (inside : token.kind ≠ .eof) : Sound next.frames next.mode := by
  induction moves with
  | turn moves => exact moves.sound sound
  | openRelation => exact ⟨by simp, by simp⟩
  | opens | nextAlternative | combine => exact sound_start _
  | closes => exact (inCompound_compound _ _).sound _
  | finish =>
    rw [if_neg inside]
    exact sound_start _
  | done => exact absurd rfl sound.reading
  -- whatever the mode was, the one in which the token is looked at again is sound
  | defers defers _ ih => exact ih defers.sound inside

/-- Every state in front of `eof` is sound. -/
theorem sound_of_runs {tokens : List Token} (runs : Runs state tokens next)
    (sound : Sound state.frames state.mode) (inside : ∀ token ∈ tokens, token.kind ≠ .eof) :
    Sound next.frames next.mode :=
  runs.keeps (fun state => Sound state.frames state.mode)
    (fun here move sound => sound_of_moves move sound here) inside sound

/-! ### Left operands -/

/-- What stands to the left of a combinator can do so in the frames: an argument of `:not()`,
`:is()` and `:where()` is a single compound. -/
def Placed (left : Option (Tree × Combinator)) : List Frame → Prop
  | [] => True
  | .negation host :: outer | .alternatives _ host _ :: outer =>
    left = none ∧ Placed host.left outer
  | .relation host _ :: outer => Placed host.left outer

/-- The left operands stand where they can, and the host of `:has()` holds the one at hand. -/
structure Operands (state : State) (mode : Mode) : Prop where
  placed : Placed state.left state.frames
  relative : ∀ host, mode = .relative host → host.left = state.left

theorem placed_none (frames : List Frame) (placed : ∃ left, Placed left frames) :
    Placed none frames := by
  obtain ⟨left, placed⟩ := placed
  match frames with
  | [] => trivial
  | .negation _ :: _ | .alternatives _ _ _ :: _ => exact ⟨rfl, placed.2⟩
  | .relation _ _ :: _ => exact placed

theorem Joins.placed {frames : List Frame} (joins : Joins frames)
    {left other : Option (Tree × Combinator)} (placed : Placed left frames) :
    Placed other frames := by
  match frames with
  | [] => trivial
  | .relation _ _ :: _ => exact placed

theorem Mode.InCompound.operands (inside : mode.InCompound)
    (placed : Placed state.left state.frames) : Operands state mode := by
  refine ⟨placed, ?_⟩
  rintro host rfl
  exact inside.elim

theorem operands_start (placed : Placed state.left state.frames) : Operands state .start :=
  ⟨placed, by simp⟩

theorem ModeMoves.operands (moves : ModeMoves token mode after) (operands : Operands state mode) :
    Operands (state.setMode after) after := by
  obtain ⟨rfl, -⟩ | inside := moves.inCompound
  · exact ⟨operands.placed, operands.relative⟩
  · exact inside.operands operands.placed

/-- An argument starts with nothing to its left, and its frame holds what stands to the left of the
host. -/
theorem OpensFrame.operands {frame : Frame} (opens : OpensFrame state token mode frame)
    (operands : Operands state mode) : Operands (state.openFrame frame) .start := by
  have placed := operands.placed
  cases opens with
  | negation | matchesAny | adjustment => exact operands_start ⟨rfl, placed⟩
  | relation =>
    rw [← operands.relative _ rfl] at placed
    exact operands_start placed

/-- Behind a closed frame the left operand of its host is the one at hand. -/
theorem ClosesFrame.placed {outer : List Frame} {host : Host} {tree : Tree}
    (closes : ClosesFrame state mode outer host tree) (placed : Placed state.left state.frames) :
    Placed host.left outer := by
  cases closes with
  | relation inside =>
    rw [inside] at placed
    exact placed
  | alternatives inside | negation inside =>
    rw [inside] at placed
    exact placed.2

/-- Only where compounds are joined does a combinator have a left operand. -/
theorem operands_combine {tree : Tree} (sound : Sound state.frames (.between tree none))
    (placed : Placed state.left state.frames) (combinator : Combinator) :
    Operands (state.combine tree combinator) .start :=
  operands_start ((sound.joins _ _ rfl).placed placed)

theorem Defers.operands (defers : Defers state token mode middle inner)
    (operands : Operands state mode) (sound : Sound state.frames mode) : Operands middle inner := by
  have placed := operands.placed
  cases defers with
  | unqualified | pseudoElement | pseudoClass => exact (inCompound_compound _ _).operands placed
  | ends | endsArgument => exact ⟨placed, by simp⟩
  | relative =>
    rw [← operands.relative _ rfl] at placed
    exact operands_start placed
  | descendant => exact operands_combine sound placed _

/-- Every move keeps the left operands where they can stand. -/
theorem operands_of_moves (moves : Moves state mode token next) (operands : Operands state mode)
    (sound : Sound state.frames mode) : Operands next next.mode := by
  have placed := operands.placed
  induction moves with
  | turn moves => exact moves.operands operands
  | openRelation =>
    -- the host has been made of the left operand at hand
    refine ⟨placed, fun host same => ?_⟩
    obtain rfl := Mode.relative.inj same
    rfl
  | opens opens => exact opens.operands operands
  | closes _ closes => exact (inCompound_compound _ _).operands (closes.placed placed)
  | nextAlternative _ inside =>
    rw [inside] at placed
    exact operands_start placed
  | combine => exact operands_combine sound placed _
  | finish =>
    refine ⟨placed_none _ ⟨_, placed⟩, fun host => ?_⟩
    simp only [State.finish]
    split <;> simp
  | done => exact ⟨placed, by simp⟩
  | defers defers _ ih =>
    have behind := defers.operands operands sound
    exact ih behind defers.sound behind.placed

theorem operands_initial : Operands .initial .start := ⟨trivial, by simp⟩

theorem operands_of_runs {tokens : List Token} (runs : Runs state tokens next)
    (operands : Operands state state.mode) (sound : Sound state.frames state.mode)
    (inside : ∀ token ∈ tokens, token.kind ≠ .eof) : Operands next next.mode := by
  have kept := runs.keeps
    (fun state => Operands state state.mode ∧ Sound state.frames state.mode)
    (fun here move ⟨operands, sound⟩ =>
      ⟨operands_of_moves move operands sound, sound_of_moves move sound here⟩)
    inside ⟨operands, sound⟩
  exact kept.1

/-! ### The end of the input -/

/-- The token finishes a selector outside of all frames, as a comma would. -/
structure Finishes (state : State) (mode : Mode) (last : Token) (tree : Tree)
    (pseudo : Option PseudoElement) : Prop where
  frames : state.frames = []
  eof : Moves state mode last (state.finish tree pseudo .done)
  comma : ∀ comma : Token, comma.isDelim "," = true →
    Moves state mode comma (state.finish tree pseudo .start)

/-- Where compounds are joined, but not in `:has()`, there is no frame. -/
theorem Joins.eq_nil {frames : List Frame} (joins : Joins frames)
    (outside : ∀ host combinator outer, frames ≠ .relation host combinator :: outer) :
    frames = [] := by
  cases frames with
  | nil => rfl
  | cons frame outer =>
    cases frame with
    | relation host combinator => exact absurd rfl (outside host combinator outer)
    | negation | alternatives => exact joins.elim

/-- Outside of all frames a comma goes on as `eof` does, and in the same state. -/
theorem Defers.comma (defers : Defers state token mode middle inner) (eof : token.kind = .eof)
    (outside : middle.frames = []) : middle = state ∧
      ∀ comma : Token, comma.isDelim "," = true → Defers state comma mode state inner := by
  have other {comma : Token} (sign : comma.isDelim "," = true) {symbol : String}
      (differs : symbol ≠ ",") : comma.isDelim symbol = false := by
    obtain ⟨delim, value⟩ := kind_of_isDelim sign
    simp [Token.isDelim, delim, value, Ne.symm differs]
  cases defers with
  | unqualified => exact ⟨rfl, fun comma sign => .unqualified (other sign (by decide))⟩
  | pseudoElement => exact ⟨rfl, fun comma sign => .pseudoElement (other sign (by decide))⟩
  | pseudoClass _ placed =>
    exact ⟨rfl, fun comma sign => .pseudoClass (other sign (by decide)) placed⟩
  | ends _ joins => exact ⟨rfl, fun comma sign => .ends (by simp [endsCompound, sign]) joins⟩
  -- inside of a frame the input cannot end
  | endsArgument _ single => simp [outside, Joins] at single
  | relative => simp [State.openFrame] at outside
  | descendant _ goesOn => simp [endsSelector, eof] at goesOn

/-- What ends a selector outside of `:has()` finishes it, as a comma does. -/
theorem finishes_between {tree : Tree} {pseudo : Option PseudoElement}
    (ends : endsSelector state.isNested token = true)
    (outside : ∀ host combinator outer, state.frames ≠ .relation host combinator :: outer)
    (frames : state.frames = []) (eof : token.kind = .eof) :
    Finishes state (.between tree pseudo) token tree pseudo := by
  have finish (last : Token) (ends : endsSelector state.isNested last = true) :
      Moves state (.between tree pseudo) last
        (state.finish tree pseudo (if last.kind = .eof then .done else .start)) :=
    .finish ends outside
  have last := finish _ ends
  rw [if_pos eof] at last
  refine ⟨frames, last, fun comma sign => ?_⟩
  have moves := finish comma (by simp [endsSelector, sign])
  rwa [if_neg (by simp [(kind_of_isDelim sign).1])] at moves

/-- The input ends by finishing a selector. -/
theorem finish_of_eof (moves : Moves state mode token next) (sound : Sound state.frames mode)
    (eof : token.kind = .eof) :
    ∃ tree pseudo, next = state.finish tree pseudo .done ∧
      Finishes state mode token tree pseudo := by
  induction moves with
  | turn moves => exact absurd eof moves.isPart.kind_ne_eof
  | opens opens => exact absurd eof opens.isPart.kind_ne_eof
  | openRelation sign | closes sign | nextAlternative sign =>
    exact absurd eof (isPart_of_isDelim sign (by decide)).kind_ne_eof
  | combine sign => exact absurd eof (isPart_of_sign sign).kind_ne_eof
  | finish ends outside =>
    rw [if_pos eof]
    exact ⟨_, _, rfl, finishes_between ends outside ((sound.joins _ _ rfl).eq_nil outside) eof⟩
  | done => exact absurd rfl sound.reading
  | defers defers _ ih =>
    -- what the end of the input is put off to finishes outside of all frames, so a comma is put off
    -- to the same
    obtain ⟨tree, pseudo, rfl, finishes⟩ := ih defers.sound eof
    obtain ⟨rfl, comma⟩ := defers.comma eof finishes.frames
    exact ⟨tree, pseudo, rfl, finishes.frames, .defers defers finishes.eof,
      fun other sign => .defers (comma other sign) (finishes.comma other sign)⟩

end Sound

end Reader

open Reader in
/-- An accepted text is read up to its end, and that finishes the last selector. -/
theorem exists_runs_of_parse {text : String} {selectors : List Selector}
    (accepted : parse text = .ok selectors) :
    ∃ before last state tree pseudo, tokenize text = .ok (before ++ [last]) ∧
      (last.kind = .eof ∧ ∀ token ∈ before, token.kind ≠ .eof) ∧
      Runs .initial before state ∧ Finishes state state.mode last tree pseudo ∧
      selectors = (state.finish tree pseudo .done).finished.reverse := by
  unfold parse at accepted
  split at accepted
  · rename_i tokens lexed
    obtain ⟨before, last, rfl, eof, inside⟩ := Lexer.ending_tokensFrom lexed
    unfold ofTokens at accepted
    split at accepted
    · rename_i final ran
      obtain rfl := Except.ok.inj accepted
      obtain ⟨state, first, second⟩ := runs_append_iff.mp (run_eq_ok_iff.mp ran)
      have sound := sound_of_runs first (sound_start _) inside
      obtain ⟨tree, pseudo, rfl, finishes⟩ :=
        finish_of_eof (runs_singleton_iff.mp second) sound eof
      exact ⟨before, last, state, tree, pseudo, lexed, ⟨eof, inside⟩, first, finishes, rfl⟩
    · simp at accepted
  · simp at accepted

/-- What the tokens of a text denote, the text denotes. -/
theorem parse_of_tokenize {text : String} {tokens : List Token}
    (lexed : (tokenize text).toOption = some tokens) : parse text = ofTokens tokens := by
  unfold parse
  rw [tokenize_eq_ok lexed]

end SelectorPath.Selector
