import SelectorPath.Proofs.Selector.Offsets
import SelectorPath.Proofs.Selector.Unplaced
import SelectorPath.Proofs.Token.Blanks

/-!
# Blanks beside signs

A blank ends a compound and may itself be a combinator, so where the reader skips one matters. In
front of a comma, of `>`, of `~` or of a closing bracket, and behind a comma, `>`, `~` or an opening
bracket, it skips any number of them, in every context in which such a sign is accepted. So blanks
put in there change nothing but offsets.

## Main results

* `Selector.Reader.Moves.blanks` — several blanks lead where one does
* `Selector.Reader.Moves.exists_blank_before`, `Selector.Reader.Moves.blank_behind` — blanks in
  front of a sign and behind one
* `Selector.Reader.Runs.respaced` — runs with other blanks beside a sign
* `Selector.parse_insert_blanks` — the selectors of a text with blanks put in beside a sign
-/

namespace SelectorPath.Selector

namespace Reader

section Blanks

variable {state middle next : State} {mode inner after : Mode} {token blank sign : Token}

/-! ### Blanks for blanks -/

theorem StageMoves.blanks {stage after : AttributeStage} (moves : StageMoves token stage after)
    (space : token.kind = .space) (other : blank.kind = .space) :
    StageMoves blank stage after ∧ StageMoves blank after after := by
  induction moves with
  | unqualified _ _ ih => exact ⟨.unqualified (by simp [Token.isDelim, other]) ih.1, ih.2⟩
  | openedBlank => exact ⟨.openedBlank other, .openedBlank other⟩
  | operatorBlank => exact ⟨.operatorBlank other, .operatorBlank other⟩
  | valueBlank => exact ⟨.valueBlank other, .valueBlank other⟩
  | closingBlank => exact ⟨.closingBlank other, .closingBlank other⟩
  | value literal => simp [Token.isLiteral, space] at literal
  | _ => simp_all [Token.isDelim]

theorem kind_ne_space_of_isDelim {symbol : String} (sign : token.isDelim symbol = true) :
    token.kind ≠ .space := by
  simp [(kind_of_isDelim sign).1]

theorem IsArgumentOr.kind_ne_space {signs : List String} (consumed : IsArgumentOr signs token) :
    token.kind ≠ .space := by
  obtain argument | ⟨_, -, sign⟩ := consumed
  · intro space
    simp [isArgument, Token.isDelim, space] at argument
  · exact kind_ne_space_of_isDelim sign

theorem StartsSimple.kind_ne_space {tree : Tree} {fresh : Bool}
    (starts : StartsSimple tree fresh token mode) : token.kind ≠ .space := by
  cases starts with
  | id hash => simp [hash]
  | className sign | bareName sign | openAttribute sign | colon sign =>
    exact kind_ne_space_of_isDelim sign

theorem OpensFrame.kind_ne_space {frame : Frame} (opens : OpensFrame state token mode frame) :
    token.kind ≠ .space := by
  obtain parenthesis | ⟨combinator, sign⟩ := opens.consumes
  · exact kind_ne_space_of_isDelim parenthesis
  · exact kind_ne_space_of_isDelim (isDelim_of_sign sign)

theorem SimpleMoves.blanks (moves : SimpleMoves token mode after) (space : token.kind = .space)
    (other : blank.kind = .space) :
    SimpleMoves blank mode after ∧ SimpleMoves blank after after := by
  cases moves with
  | first starts | further starts => exact absurd space starts.kind_ne_space
  | className ident => simp [space] at ident
  | inAttribute moves =>
    obtain ⟨again, stays⟩ := moves.blanks space other
    exact ⟨.inAttribute again, .inAttribute stays⟩
  | closeAttribute bracket => exact absurd space (kind_ne_space_of_isDelim bracket)

theorem ModeMoves.blanks (moves : ModeMoves token mode after) (space : token.kind = .space)
    (other : blank.kind = .space) : ModeMoves blank mode after ∧ ModeMoves blank after after := by
  cases moves with
  | skip _ skips => exact ⟨.skip other skips, .skip other skips⟩
  | type moves => exact absurd space moves.consumes.kind_ne_space
  | simple moves =>
    obtain ⟨again, stays⟩ := moves.blanks space other
    exact ⟨.simple again, .simple stays⟩
  | pseudoElement moves => exact absurd space moves.consumes.kind_ne_space
  | pseudoClass moves => exact absurd space moves.consumes.kind_ne_space

/-- A blank goes on behind what a token has ended, but does not start a compound. -/
theorem Defers.of_blank (defers : Defers state token mode middle inner) (begun : inner ≠ .start)
    (space : blank.kind = .space) : Defers state blank mode middle inner := by
  have noSign (symbol : String) : blank.isDelim symbol = false := by simp [Token.isDelim, space]
  have ends (nested : Bool) : endsCompound nested blank = true := by simp [endsCompound, space]
  cases defers with
  | unqualified => exact .unqualified (noSign _)
  | pseudoElement => exact .pseudoElement (noSign _)
  | pseudoClass _ placed => exact .pseudoClass (noSign _) placed
  | ends _ joins => exact .ends (ends _) joins
  | endsArgument _ single => exact .endsArgument (ends _) single
  | relative | descendant => exact absurd rfl begun

theorem Defers.ne_start (defers : Defers state token mode middle inner)
    (space : token.kind = .space) : inner ≠ .start := by
  cases defers with
  | relative noBlank | descendant noBlank => exact absurd space noBlank
  | unqualified | pseudoElement | pseudoClass | ends | endsArgument => simp

/-- Any blank leads where one does, and from there nowhere else. -/
theorem Moves.blanks (moves : Moves state mode token next) (space : token.kind = .space)
    (other : blank.kind = .space) :
    Moves state mode blank next ∧ Moves next next.mode blank next := by
  induction moves with
  | turn moves =>
    obtain ⟨again, stays⟩ := moves.blanks space other
    exact ⟨.turn again, .turn stays⟩
  | openRelation sign | closes sign | nextAlternative sign =>
    exact absurd space (kind_ne_space_of_isDelim sign)
  | opens opens => exact absurd space opens.kind_ne_space
  | combine sign => exact absurd space (kind_ne_space_of_isDelim (isDelim_of_sign sign))
  | finish ends => exact absurd space (kind_ne_space_of_endsSelector ends)
  | done => exact ⟨.done, .done⟩
  | defers defers _ ih =>
    obtain ⟨again, stays⟩ := ih space
    exact ⟨.defers (defers.of_blank (defers.ne_start space) other) again, stays⟩

/-! ### Signs -/

theorem not_mem_of_isDelim {signs : List String} {symbol : String}
    (here : sign.isDelim symbol = true) (other : symbol ∉ signs) : sign.value ∉ signs := by
  rw [(kind_of_isDelim here).2]
  exact other

/-- A sign of a list is none that is not in the list. -/
theorem isDelim_of_mem {signs : List String} (known : sign.value ∈ signs) {symbol : String}
    (other : symbol ∉ signs) : sign.isDelim symbol = false :=
  Bool.eq_false_iff.mpr fun here => not_mem_of_isDelim here other known

/-- Inside an attribute selector stands none of the signs. -/
theorem StageMoves.not_sign {stage after : AttributeStage} (moves : StageMoves sign stage after)
    (delim : sign.kind = .delim) : sign.value ∉ Token.closingSigns ++ Token.openingSigns := by
  intro known
  have noSign {symbol : String} := @isDelim_of_mem sign _ known symbol
  induction moves with
  | operator _ found =>
    have none : ∀ symbol ∈ Token.closingSigns ++ Token.openingSigns,
        AttributeOperator.ofSymbol? symbol = none := by
      decide
    simp [none _ known] at found
  | value literal => simp [Token.isLiteral, delim] at literal
  | unqualified _ _ ih => exact ih
  | _ => simp_all [Token.closingSigns, Token.openingSigns]

theorem not_sign_of_isArgument (argument : isArgument sign = true) (delim : sign.kind = .delim) :
    sign.value ∉ Token.closingSigns ++ Token.openingSigns := by
  intro known
  have noSign {symbol : String} := @isDelim_of_mem sign _ known symbol
  simp_all [isArgument, Token.closingSigns, Token.openingSigns]

/-- A type selector has none of the signs. -/
theorem TypeMoves.not_sign (moves : TypeMoves sign mode after) (delim : sign.kind = .delim) :
    sign.value ∉ Token.closingSigns ++ Token.openingSigns := by
  have none : ∀ symbol ∈ ["*", "|"], symbol ∉ Token.closingSigns ++ Token.openingSigns := by decide
  obtain argument | ⟨symbol, known, here⟩ := moves.consumes
  · exact not_sign_of_isArgument argument delim
  · exact not_mem_of_isDelim here (none symbol known)

/-! ### Blanks in front of a sign -/

theorem StartsSimple.not_closing {tree : Tree} {fresh : Bool}
    (starts : StartsSimple tree fresh sign mode) (delim : sign.kind = .delim) :
    sign.value ∉ Token.closingSigns := by
  cases starts with
  | id hash => simp [hash] at delim
  | className here | bareName here | openAttribute here | colon here =>
    exact not_mem_of_isDelim here (by decide)

/-- No compound starts with a closing sign. -/
theorem Moves.not_closing (moves : Moves state .start sign next) (delim : sign.kind = .delim) :
    sign.value ∉ Token.closingSigns := by
  cases moves with
  | turn moves =>
    cases moves with
    | skip space => simp [space] at delim
    | type moves => exact fun closing => moves.not_sign delim (List.mem_append_left _ closing)
    | simple moves =>
      cases moves with
      | first starts => exact starts.not_closing delim
    | pseudoElement moves => cases moves
    | pseudoClass moves => cases moves
  | opens opens => cases opens
  | closes _ closes => cases closes
  | defers defers => cases defers

theorem SimpleMoves.exists_blank_before (moves : SimpleMoves sign mode after)
    (delim : sign.kind = .delim) (closing : sign.value ∈ Token.closingSigns)
    (space : blank.kind = .space) :
    ∃ between, SimpleMoves blank mode between ∧ SimpleMoves sign between after := by
  cases moves with
  | first starts | further starts => exact absurd closing (starts.not_closing delim)
  | className ident => simp [ident] at delim
  | inAttribute moves => exact absurd (List.mem_append_left _ closing) (moves.not_sign delim)
  | closeAttribute bracket closes =>
    -- behind a name without a `|` the blank leads to where an operator may stand
    have noBar : blank.isDelim "|" = false := by simp [Token.isDelim, space]
    cases closes with
    | named =>
      exact ⟨_, .inAttribute (.unqualified noBar (.operatorBlank space)),
        .closeAttribute bracket .present⟩
    | present => exact ⟨_, .inAttribute (.operatorBlank space), .closeAttribute bracket .present⟩
    | compared => exact ⟨_, .inAttribute (.closingBlank space), .closeAttribute bracket .compared⟩

theorem PseudoElementMoves.skipsBlank (moves : PseudoElementMoves sign mode after)
    (delim : sign.kind = .delim) (closing : sign.value ∈ Token.closingSigns) :
    mode.SkipsBlank := by
  cases moves with
  | singleColon ident | name ident => simp [ident] at delim
  | doubleColon here | opens here => exact absurd closing (not_mem_of_isDelim here (by decide))
  | argument | closes => exact .pseudoElementArguments

theorem PseudoClassMoves.skipsBlank (moves : PseudoClassMoves sign mode after)
    (delim : sign.kind = .delim) (closing : sign.value ∈ Token.closingSigns) :
    mode.SkipsBlank := by
  cases moves with
  | name ident => simp [ident] at delim
  | opens here => exact absurd closing (not_mem_of_isDelim here (by decide))
  | argument | closes => exact .arguments

/-- Inside a compound a closing sign closes what blanks may stand in. -/
theorem ModeMoves.exists_blank_before (moves : ModeMoves sign mode after)
    (delim : sign.kind = .delim) (closing : sign.value ∈ Token.closingSigns)
    (space : blank.kind = .space) :
    ∃ between, ModeMoves blank mode between ∧ ModeMoves sign between after := by
  cases moves with
  | skip blank => simp [blank] at delim
  | type moves => exact absurd (List.mem_append_left _ closing) (moves.not_sign delim)
  | simple moves =>
    obtain ⟨between, first, second⟩ := moves.exists_blank_before delim closing space
    exact ⟨between, .simple first, .simple second⟩
  | pseudoElement moves =>
    exact ⟨_, .skip space (moves.skipsBlank delim closing), .pseudoElement moves⟩
  | pseudoClass moves =>
    exact ⟨_, .skip space (moves.skipsBlank delim closing), .pseudoClass moves⟩

theorem OpensFrame.skipsBlank {frame : Frame} (opens : OpensFrame state sign mode frame)
    (closing : sign.value ∈ Token.closingSigns) : mode.SkipsBlank := by
  cases opens with
  | negation here | matchesAny here | adjustment here =>
    exact absurd closing (not_mem_of_isDelim here (by decide))
  | relation => exact .relative

theorem ClosesFrame.skipsBlank {outer : List Frame} {host : Host} {tree : Tree}
    (closes : ClosesFrame state mode outer host tree) : mode.SkipsBlank := by
  cases closes with
  | relation => exact .between
  | alternatives | negation => exact .closing

/-- Where blanks are skipped, a token leads behind one to what it leads to in front of it. -/
theorem Moves.blank_before (moves : Moves state mode sign next) (skips : mode.SkipsBlank)
    (space : blank.kind = .space) :
    ∃ between, Moves state mode blank between ∧ Moves between between.mode sign next :=
  ⟨_, .turn (.skip space skips), moves_of_step (step_of_moves moves)⟩

/-- A blank in front of a closing sign is skipped. -/
theorem Moves.exists_blank_before (moves : Moves state mode sign next) (delim : sign.kind = .delim)
    (closing : sign.value ∈ Token.closingSigns) (space : blank.kind = .space) :
    ∃ between, Moves state mode blank between ∧ Moves between between.mode sign next := by
  induction moves with
  | turn moves =>
    obtain ⟨between, first, second⟩ := moves.exists_blank_before delim closing space
    exact ⟨_, .turn first, .turn second⟩
  | openRelation here => exact absurd closing (not_mem_of_isDelim here (by decide))
  | opens opens => exact (Moves.opens opens).blank_before (opens.skipsBlank closing) space
  | closes here closes => exact (Moves.closes here closes).blank_before closes.skipsBlank space
  | nextAlternative comma inside =>
    exact (Moves.nextAlternative comma inside).blank_before .closing space
  | combine here => exact (Moves.combine here).blank_before .between space
  | finish ends outside => exact (Moves.finish ends outside).blank_before .between space
  | done => exact ⟨_, .done, .done⟩
  | defers defers goesOn ih =>
    obtain ⟨between, first, second⟩ := ih delim closing
    -- the sign was not put off to the start of a compound, so the blank is put off as well
    refine ⟨between, .defers (defers.of_blank (fun start => ?_) space) first, second⟩
    subst start
    exact goesOn.not_closing delim closing

/-! ### Blanks behind a sign -/

theorem StartsSimple.blank_behind {tree : Tree} {fresh : Bool}
    (starts : StartsSimple tree fresh sign mode) (delim : sign.kind = .delim)
    (opening : sign.value ∈ Token.openingSigns) (space : blank.kind = .space) :
    SimpleMoves blank mode mode := by
  cases starts with
  | id hash => simp [hash] at delim
  | className here | bareName here | colon here =>
    exact absurd opening (not_mem_of_isDelim here (by decide))
  | openAttribute => exact .inAttribute (.openedBlank space)

theorem SimpleMoves.blank_behind (moves : SimpleMoves sign mode after) (delim : sign.kind = .delim)
    (opening : sign.value ∈ Token.openingSigns) (space : blank.kind = .space) :
    SimpleMoves blank after after := by
  cases moves with
  | first starts | further starts => exact starts.blank_behind delim opening space
  | className ident => simp [ident] at delim
  | inAttribute moves => exact absurd (List.mem_append_right _ opening) (moves.not_sign delim)
  | closeAttribute here => exact absurd opening (not_mem_of_isDelim here (by decide))

theorem PseudoElementMoves.skipsBlank_behind (moves : PseudoElementMoves sign mode after)
    (delim : sign.kind = .delim) (opening : sign.value ∈ Token.openingSigns) :
    after.SkipsBlank := by
  cases moves with
  | singleColon ident | name ident => simp [ident] at delim
  | doubleColon here | closes here => exact absurd opening (not_mem_of_isDelim here (by decide))
  | opens | argument => exact .pseudoElementArguments

theorem PseudoClassMoves.skipsBlank_behind (moves : PseudoClassMoves sign mode after)
    (delim : sign.kind = .delim) (opening : sign.value ∈ Token.openingSigns) :
    after.SkipsBlank := by
  cases moves with
  | name ident => simp [ident] at delim
  | closes here => exact absurd opening (not_mem_of_isDelim here (by decide))
  | opens | argument => exact .arguments

theorem ModeMoves.blank_behind (moves : ModeMoves sign mode after) (delim : sign.kind = .delim)
    (opening : sign.value ∈ Token.openingSigns) (space : blank.kind = .space) :
    ModeMoves blank after after := by
  cases moves with
  | skip _ skips => exact .skip space skips
  | type moves => exact absurd (List.mem_append_right _ opening) (moves.not_sign delim)
  | simple moves => exact .simple (moves.blank_behind delim opening space)
  | pseudoElement moves => exact .skip space (moves.skipsBlank_behind delim opening)
  | pseudoClass moves => exact .skip space (moves.skipsBlank_behind delim opening)

/-- A blank behind an opening sign is skipped. -/
theorem Moves.blank_behind (moves : Moves state mode sign next) (delim : sign.kind = .delim)
    (opening : sign.value ∈ Token.openingSigns) (space : blank.kind = .space) :
    Moves next next.mode blank next := by
  induction moves with
  | turn moves => exact .turn (moves.blank_behind delim opening space)
  | openRelation => exact .turn (.skip space .relative)
  | opens | nextAlternative | combine => exact .turn (.skip space .start)
  | closes here => exact absurd opening (not_mem_of_isDelim here (by decide))
  | finish =>
    rw [if_neg (by simp [delim])]
    exact .turn (.skip space .start)
  | done => exact .done
  | defers _ _ ih => exact ih delim opening

end Blanks

/-! ### Runs -/

/-- In the state any blank is skipped. -/
def SkipsBlanks (state : State) : Prop :=
  ∀ blank : Token, blank.kind = .space → Moves state state.mode blank state

section Runs

variable {state middle next : State} {mode : Mode} {sign token : Token}
  {gap wider tokens others : List Token}

theorem Moves.unique (moves : Moves state state.mode token middle)
    (other : Moves state state.mode token next) : middle = next :=
  Except.ok.inj ((step_eq_ok_iff.mpr moves).symm.trans (step_eq_ok_iff.mpr other))

theorem Moves.skipsBlanks (moves : Moves state mode token next) (space : token.kind = .space) :
    SkipsBlanks next :=
  fun _ other => (moves.blanks space other).2

theorem SkipsBlanks.runs (skips : SkipsBlanks state) (blank : Token.AreBlanks gap) :
    Runs state gap state := by
  induction gap with
  | nil => exact .nil state
  | cons token rest ih =>
    obtain ⟨space, blank⟩ := List.forall_mem_cons.mp blank
    exact .cons (skips token space) (ih blank)

theorem SkipsBlanks.eq_of_runs (skips : SkipsBlanks state) (blank : Token.AreBlanks gap)
    (runs : Runs state gap next) : next = state := by
  induction runs with
  | nil => rfl
  | cons move _ ih =>
    obtain ⟨space, blank⟩ := List.forall_mem_cons.mp blank
    obtain rfl := move.unique (skips _ space)
    exact ih skips blank

/-- Where some blanks lead, any blanks do. -/
theorem Runs.blanks (runs : Runs state gap next) (blank : Token.AreBlanks gap) (some : gap ≠ [])
    (other : Token.AreBlanks wider) (nonempty : wider ≠ []) : Runs state wider next := by
  cases runs with
  | nil => exact absurd rfl some
  | cons move others =>
    obtain ⟨space, blank⟩ := List.forall_mem_cons.mp blank
    have skips := move.skipsBlanks space
    obtain rfl := skips.eq_of_runs blank others
    obtain ⟨first, more, rfl⟩ := List.exists_cons_of_ne_nil nonempty
    obtain ⟨here, other⟩ := List.forall_mem_cons.mp other
    exact .cons (move.blanks space here).1 (skips.runs other)

/-- In front of a closing sign blanks are put in, or more of them. -/
theorem Runs.exists_wider (runs : Runs state gap middle)
    (moves : Moves middle middle.mode sign next) (delim : sign.kind = .delim)
    (closing : sign.value ∈ Token.closingSigns) (blankGap : Token.AreBlanks gap)
    (blankWider : Token.AreBlanks wider) (some : gap ≠ [] → wider ≠ []) :
    ∃ before, Runs state wider before ∧ Moves before before.mode sign next := by
  by_cases empty : gap = []
  · subst empty
    cases runs with
    | nil =>
      cases wider with
      | nil => exact ⟨state, .nil state, moves⟩
      | cons blank more =>
        obtain ⟨space, others⟩ := List.forall_mem_cons.mp blankWider
        obtain ⟨before, first, second⟩ := moves.exists_blank_before delim closing space
        exact ⟨before, .cons first ((first.skipsBlanks space).runs others), second⟩
  · exact ⟨middle, runs.blanks blankGap empty blankWider (some empty), moves⟩

/-- Other blanks beside a sign make no difference to a run. -/
theorem Runs.respaced (runs : Runs state tokens next) (respaced : Token.Respaced tokens others) :
    Runs state others next := by
  cases respaced with
  | before delim closing isPadded =>
    obtain ⟨upTo, before, behind⟩ := runs_append_iff.mp runs
    cases behind with
    | cons move after =>
      obtain ⟨blankGap, blankWider, some⟩ := isPadded
      obtain ⟨start, kept, gap⟩ := runs_append_iff.mp before
      obtain ⟨there, wider, again⟩ := gap.exists_wider move delim closing blankGap blankWider some
      exact (kept.append wider).append (.cons again after)
  | behind delim opening blankGap blankWider =>
    obtain ⟨upTo, before, behind⟩ := runs_append_iff.mp runs
    cases behind with
    | cons move after =>
      have skips : SkipsBlanks _ := fun _ space => move.blank_behind delim opening space
      obtain ⟨there, gap, rest⟩ := runs_append_iff.mp after
      obtain rfl := skips.eq_of_runs blankGap gap
      exact before.append (.cons move ((skips.runs blankWider).append rest))

end Runs

end Reader

open Reader in
/-- Tokens that differ in blanks beside a sign denote the same selectors. -/
theorem ofTokens_respaced {tokens others : List Token} {selectors : List Selector}
    (accepted : ofTokens tokens = .ok selectors) (respaced : Token.Respaced tokens others) :
    ofTokens others = .ok selectors := by
  unfold ofTokens at accepted ⊢
  split at accepted
  · rename_i state ran
    rw [run_eq_ok_iff.mpr ((run_eq_ok_iff.mp ran).respaced respaced)]
    exact accepted
  · cases accepted

open Reader in
/-- No token of an accepted text is a backslash that escapes nothing. -/
theorem isDelim_backslash_of_parse {text : String} {selectors : List Selector} {tokens : List Token}
    (accepted : parse text = .ok selectors) (lexed : tokenize text = .ok tokens) :
    ∀ token ∈ tokens, token.isDelim "\\" = false := by
  obtain ⟨before, last, state, tree, pseudo, read, ⟨eof, inside⟩, runs, -⟩ :=
    exists_runs_of_parse accepted
  obtain rfl := Except.ok.inj (lexed.symm.trans read)
  refine List.forall_mem_append.mpr ⟨runs.isDelim_backslash (sound_start _) inside, ?_⟩
  simp [Token.isDelim, eof]

/-- Blanks put into an accepted text directly in front of a comma, `>`, `~` or a closing bracket, or
directly behind a comma, `>`, `~` or an opening bracket, change nothing in its selectors but
offsets. -/
theorem parse_insert_blanks {text blanks : String} {selectors : List Selector}
    {tokens : List Token} {sign : Token} {offset : Nat} (accepted : parse text = .ok selectors)
    (lexed : tokenize text = .ok tokens) (member : sign ∈ tokens) (room : sign.HasRoom offset)
    (blank : ∀ c ∈ blanks.toList, Text.isCssBlank c = true) :
    ∃ front back again, text = front ++ back ∧ front.utf8ByteSize = offset ∧
      parse (front ++ blanks ++ back) = .ok again ∧
      again.map Selector.unplaced = selectors.map Selector.unplaced := by
  have noBackslash := isDelim_backslash_of_parse accepted lexed
  obtain ⟨before, after, rfl⟩ := List.append_of_mem member
  obtain ⟨front, back, others, cut, size, lexedOthers, respaced⟩ :=
    tokenize_insert_blanks lexed room
      (fun last inside => noBackslash last
        (List.mem_append_left _ (List.mem_of_mem_getLast? inside)))
      blank
  have read : ofTokens (before ++ sign :: after) = .ok selectors := by
    rw [← accepted, parse, lexed]
  -- the two lists differ in blanks and offsets, and without offsets in blanks alone
  have unplaced (tokens : List Token) :
      (tokens.map Token.unplaced).map Token.unplaced = tokens.map Token.unplaced := by
    rw [List.map_map]
    rfl
  obtain ⟨bare, readBare, same⟩ := ofTokens_unplaced (unplaced (before ++ sign :: after)) read
  obtain ⟨again, readAgain, sameAgain⟩ :=
    ofTokens_unplaced (unplaced others).symm (ofTokens_respaced readBare respaced)
  refine ⟨front, back, again, cut, size, ?_, sameAgain.trans same⟩
  rw [parse, lexedOthers]
  exact readAgain

/-- A carriage return and a line feed behind an escape, which takes them, and a tab. -/
theorem parse_insert_blanks_escape :
    ∃ selectors tokens sign, parse "\\61~:nth-child(2)" = .ok selectors ∧
      tokenize "\\61~:nth-child(2)" = .ok tokens ∧ sign ∈ tokens ∧ sign.HasRoom 3 ∧
      (∀ c ∈ "\r\n\t".toList, Text.isCssBlank c = true) ∧
      ∃ front back again, "\\61~:nth-child(2)" = front ++ back ∧ front.utf8ByteSize = 3 ∧
        parse (front ++ "\r\n\t" ++ back) = .ok again ∧
        again.map Selector.unplaced = selectors.map Selector.unplaced := by
  have lexed : (tokenize "\\61~:nth-child(2)").toOption = some
      [⟨.ident, "a", 0⟩, ⟨.delim, "~", 3⟩, ⟨.delim, ":", 4⟩, ⟨.ident, "nth-child", 5⟩,
        ⟨.delim, "(", 14⟩, ⟨.number, "2", 15⟩, ⟨.delim, ")", 16⟩, ⟨.eof, "", 17⟩] := by
    decide +kernel
  have accepted : parse "\\61~:nth-child(2)" = .ok
      [⟨.combined (.element none (some "a")) .subsequentSibling
        (.restricted .universal (.function ⟨"nth-child", [⟨.number, "2", 15⟩]⟩)), none⟩] := by
    rw [parse_of_tokenize lexed]
    cbv
  have room : Token.HasRoom ⟨.delim, "~", 3⟩ 3 := .before rfl (by decide)
  have blank : ∀ c ∈ "\r\n\t".toList, Text.isCssBlank c = true :=
    List.all_iff_forall_prop.mp (by decide)
  exact ⟨_, _, _, accepted, tokenize_eq_ok lexed, by simp, room, blank,
    parse_insert_blanks accepted (tokenize_eq_ok lexed) (by simp) room blank⟩

end SelectorPath.Selector
