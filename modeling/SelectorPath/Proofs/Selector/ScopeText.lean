import SelectorPath.Proofs.Selector.Compounds
import SelectorPath.Proofs.Selector.RoundTrip
import SelectorPath.Proofs.Token.Seam

/-!
# Selectors with `:scope` in print

A compound without a type selector restricts `*`, and the `*` is printed. The reader takes `:scope`
only where a compound starts with its colon, so not behind a `*`. Hence no selector with `:scope` is
read again from its text: whatever stands behind `*:scope`, it is refused, if not for the place of
`:scope` then for a string behind it that has no end. Without the `*` the text denotes the selector.

## Main definitions

* `Selector.Tree.StartsWithScope` — the first compound starts with `:scope`

## Main results

* `Selector.Tree.IsFormed.noScope` — `:scope` stands nowhere else
* `Selector.Reader.parse_scope` — what is read where a text starts with `*:scope`
* `Selector.Reader.readsFirst_scope` — behind its `*` a tree with `:scope` is read from its text
* `Selector.parse_css_scope` — the text of a selector with `:scope` is refused, for the `*` alone
-/

namespace SelectorPath.Selector

/-! ### Where `:scope` stands -/

/-- The tree starts with `:scope`, and more may follow it in the compound and behind. -/
inductive Tree.StartsWithScope : Tree → Prop
  | scope : StartsWithScope (.restricted .universal (.pseudoClass "scope"))
  | restricted {base : Tree} (first : StartsWithScope base) (simple : Simple) :
      StartsWithScope (.restricted base simple)
  | negation {base : Tree} (first : StartsWithScope base) (argument : Tree) :
      StartsWithScope (.negation base argument)
  | anyOf (kind : Alternation) {base : Tree} (first : StartsWithScope base)
      (arguments : List Tree) : StartsWithScope (.anyOf kind base arguments)
  | relation {base : Tree} (first : StartsWithScope base) (combinator : Combinator)
      (argument : Tree) : StartsWithScope (.relation base combinator argument)
  | combined {left : Tree} (first : StartsWithScope left) (combinator : Combinator)
      (right : Tree) : StartsWithScope (.combined left combinator right)

mutual

/-- Where a tree is not the start of a selector, there is no `:scope` in it. -/
theorem Tree.IsFormed.noScope : {tree : Tree} → {site : Site} → tree.IsFormed site →
    site.leading = false → .pseudoClass "scope" ∉ tree.simples
  | .element _ _, _, _, _ => List.not_mem_nil
  | .restricted base simple, site, formed, behind => by
    rw [simples, List.mem_append, List.mem_singleton, not_or]
    refine ⟨formed.1.noScope behind, fun scope => ?_⟩
    have leading := (formed.2.2 scope.symm).1
    simp [behind] at leading
  | .negation base argument, site, formed, behind => by
    rw [simples, List.mem_append, not_or]
    exact ⟨formed.2.1.noScope behind, formed.2.2.noScope rfl⟩
  | .anyOf kind base arguments, site, formed, behind => by
    rw [simples, List.mem_append, not_or]
    exact ⟨formed.1.noScope behind, formed.2.2.noScope⟩
  | .relation base combinator argument, site, formed, behind => by
    rw [simples, List.mem_append, not_or]
    exact ⟨formed.1.noScope behind, formed.2.noScope rfl⟩
  | .combined left combinator right, site, formed, behind => by
    rw [simples, List.mem_append, not_or]
    exact ⟨formed.2.1.noScope behind, formed.2.2.noScope rfl⟩

theorem Tree.AllFormed.noScope : {trees : List Tree} → Tree.AllFormed trees →
    .pseudoClass "scope" ∉ Tree.allSimples trees
  | [], _ => List.not_mem_nil
  | tree :: rest, formed => by
    rw [Tree.allSimples, List.mem_append, not_or]
    exact ⟨formed.1.noScope rfl, formed.2.noScope⟩

end

/-- A tree with `:scope` in it starts with it. -/
theorem Tree.IsFormed.startsWithScope : {tree : Tree} → {site : Site} → tree.IsFormed site →
    .pseudoClass "scope" ∈ tree.simples → tree.StartsWithScope
  | .element _ _, _, _, scope => by cases scope
  | .restricted base simple, site, formed, scope => by
    rcases List.mem_append.mp scope with inside | last
    · exact .restricted (formed.1.startsWithScope inside) simple
    · obtain rfl := List.mem_singleton.mp last
      obtain ⟨-, rfl⟩ := formed.2.2 rfl
      exact .scope
  | .negation base argument, site, formed, scope => by
    rcases List.mem_append.mp scope with inside | inside
    · exact .negation (formed.2.1.startsWithScope inside) argument
    · exact absurd inside (formed.2.2.noScope rfl)
  | .anyOf kind base arguments, site, formed, scope => by
    rcases List.mem_append.mp scope with inside | inside
    · exact .anyOf kind (formed.1.startsWithScope inside) arguments
    · exact absurd inside formed.2.2.noScope
  | .relation base combinator argument, site, formed, scope => by
    rcases List.mem_append.mp scope with inside | inside
    · exact .relation (formed.1.startsWithScope inside) combinator argument
    · exact absurd inside (formed.2.noScope rfl)
  | .combined left combinator right, site, formed, scope => by
    rcases List.mem_append.mp scope with inside | inside
    · exact .combined (formed.2.1.startsWithScope inside) combinator right
    · exact absurd inside (formed.2.2.noScope rfl)

namespace Reader

open Text Lexer

variable {pos : Nat} {rest : List Char}

/-! ### The text of a selector with `:scope` -/

/-- The text starts with `*:scope`, and there more of a compound or its end follows. -/
def PrintsScope (text : List Char) : Prop :=
  ∃ more, text = '*' :: (":scope".toList ++ more) ∧ ∀ rest, Follows rest → Follows (more ++ rest)

theorem PrintsScope.append {text added : List Char} (prints : PrintsScope text)
    (follows : ∀ rest, Follows (added ++ rest)) : PrintsScope (text ++ added) := by
  obtain ⟨more, rfl, behind⟩ := prints
  refine ⟨more ++ added, by simp, fun rest _ => ?_⟩
  rw [List.append_assoc]
  exact behind _ (follows rest)

theorem printsScope {tree : Tree} (starts : tree.StartsWithScope) :
    PrintsScope tree.css.toList := by
  induction starts with
  | scope =>
    have text : Tree.css (.restricted .universal (.pseudoClass "scope")) = "*:scope" := by
      decide
    rw [text]
    exact ⟨[], rfl, fun _ follows => follows⟩
  | @restricted base first simple ih =>
    rw [toList_css_restricted]
    exact ih.append (follows_simple simple)
  | @negation base first argument ih =>
    rw [toList_css_negation]
    exact ih.append (follows_functionCss "not" _)
  | @anyOf kind base first arguments ih =>
    rw [toList_css_anyOf]
    exact ih.append (follows_functionCss _ _)
  | @relation base first combinator argument ih =>
    rw [toList_css_relation]
    exact ih.append (follows_functionCss "has" _)
  | @combined left first combinator right ih =>
    rw [toList_css_combined]
    refine ih.append fun rest => ?_
    rw [List.append_assoc]
    exact follows_between combinator _

/-- A pseudo-element can follow a compound. -/
theorem follows_pseudoElementCss (selector : Selector) :
    Follows selector.pseudoElementCss.toList := by
  unfold pseudoElementCss
  split
  · simp [Follows]
  · simp only [String.toList_append]
    exact follows_cons (by decide) _

/-! ### Behind a star -/

theorem isKeyword_scope : IsKeyword "scope" ∧ "scope" ∉ singleColonPseudoElements :=
  isKeyword_word (by simp)

/-- From a star and `:scope` the reader comes to the name of a pseudo-class that does not start its
compound. -/
theorem passes_starScope (follows : Follows rest) :
    Passes .initial 0 ('*' :: ":scope".toList) rest
      (State.initial.setMode (.pseudoClassName .universal false "scope")) := by
  have star : Passes .initial 0 ['*'] ([':'] ++ "scope".toList ++ rest)
      (State.initial.setMode (.typeName none)) :=
    .sign (lexes_star (by decide) (by simp)) rfl
  have compound : Passes .initial 0 ['*'] ([':'] ++ "scope".toList ++ rest)
      (State.initial.setMode (.compound .universal none)) :=
    star.typeName (follows_cons (by decide) _)
  obtain ⟨keyword, other⟩ := isKeyword_scope
  exact compound.trans (passes_pseudoClassName keyword other follows.endsName .universal)

/-- What a text that starts with `*:scope` is refused for: its tokens, if those behind cannot be
read, and else the place of `:scope`. -/
theorem parse_scope {text : String} {more : List Char}
    (split : text.toList = '*' :: (":scope".toList ++ more)) (follows : Follows more) :
    parse text =
      match tokensFrom 7 more with
      | .ok _ => .error .misplacedScope
      | .error e => .error (.lexical e) := by
  have ran : read .initial 0 text.toList =
      read (State.initial.setMode (.pseudoClassName .universal false "scope")) 7 more := by
    rw [split]
    exact passes_starScope follows
  rw [parse_eq_read, ran]
  unfold read
  cases lexed : tokensFrom 7 more with
  | error e => rfl
  | ok tokens =>
    -- The token behind the name decides, and it opens no arguments.
    obtain ⟨token, others, rfl, -, noParenthesis⟩ := head_of_follows follows lexed
    have stepped : step (State.initial.setMode (.pseudoClassName .universal false "scope")) token =
        .error .misplacedScope := by
      simp [step, State.setMode, readPseudoClass, noParenthesis]
    simp [run, stepped]

/-! ### Without the star -/

/-- From `:scope` alone the reader comes to the name of a pseudo-class that starts its compound. -/
theorem passes_scope (follows : Follows rest) :
    Passes .initial 0 ":scope".toList rest
      (State.initial.setMode (.pseudoClassName .universal true "scope")) := by
  obtain ⟨keyword, other⟩ := isKeyword_scope
  have colon : Passes .initial 0 [':'] ("scope".toList ++ rest)
      (State.initial.setMode (.colon .universal true)) :=
    .sign (lexes_bracket (by decide)) rfl
  refine colon.trans (.name keyword.plain follows.endsName ?_)
  simp [step, State.setMode, Token.isDelim, readPseudoName, keyword.small, other]

/-- At the start of a selector `:scope` is a compound. -/
theorem readsFrom_scope :
    ReadsFrom .initial .initial 0 ":scope".toList
      (.restricted .universal (.pseudoClass "scope")) := by
  intro rest follows
  refine ⟨_, ⟨rfl, .refl _⟩, (passes_scope follows).alike follows fun token _ noParenthesis => ?_⟩
  have behind : step (State.initial.setMode (.pseudoClassName .universal true "scope")) token =
      readCompound (State.initial.setMode (.pseudoClassName .universal true "scope"))
        (.restricted .universal (.pseudoClass "scope")) none token := by
    simp [step, State.setMode, State.initial, readPseudoClass, noParenthesis]
  rw [behind]
  rfl

/-- The tree is read from the text at the start of a selector, if it can stand in the place. -/
def ReadsFirst : Place → Tree → List Char → Prop
  | .compound _, tree, text => ReadsFrom .initial .initial 0 text tree
  | .complex, tree, text => JoinsFrom .initial .initial 0 text tree

/-- Behind its star a tree that starts with `:scope` is read from its text. What follows `:scope`
is read wherever it stands, since there is no other. -/
theorem readsFirst_scope {place : Place} {tree : Tree} {site : Site}
    (grammatical : tree.Grammatical place) (formed : tree.IsFormed site)
    (starts : tree.StartsWithScope) :
    ∃ text, tree.css.toList = '*' :: text ∧ ReadsFirst place tree text := by
  induction grammatical generalizing site with
  | element => cases starts
  | @restricted negated base simple _ condition ih =>
    rw [toList_css_restricted]
    cases starts with
    | scope => exact ⟨":scope".toList, rfl, readsFrom_scope⟩
    | restricted first =>
      obtain ⟨text, eq, reads⟩ := ih formed.1 first
      -- A second `:scope` would have to restrict `*`, and the first one is in between.
      have noScope : simple ≠ .pseudoClass "scope" := by
        rintro rfl
        obtain ⟨-, rfl⟩ := formed.2.2 rfl
        cases first
      rw [eq]
      exact ⟨_, rfl, ReadsFrom.restricted reads condition noScope⟩
  | @negation base argument _ inner ih _ =>
    cases starts with
    | negation first =>
      obtain ⟨text, eq, reads⟩ := ih formed.2.1 first
      have argument : ReadsCompound true argument := reads_tree inner (formed.2.2.noScope rfl)
      rw [toList_css_negation, eq]
      exact ⟨_, rfl, ReadsFrom.negation reads argument rfl⟩
  | @anyOf negated kind base arguments _ nonempty each ih _ =>
    cases starts with
    | anyOf _ first =>
      obtain ⟨text, eq, reads⟩ := ih formed.1 first
      have arguments (argument : Tree) (member : argument ∈ arguments) :
          ReadsCompound false argument := by
        have noScope := (Tree.allFormed_iff.mp formed.2.2 argument member).noScope rfl
        exact reads_tree (each argument member) noScope
      rw [toList_css_anyOf, eq]
      exact ⟨_, rfl, ReadsFrom.anyOf reads nonempty arguments each⟩
  | @relation negated base argument combinator _ inner ih _ =>
    cases starts with
    | relation first =>
      obtain ⟨text, eq, reads⟩ := ih formed.1 first
      have argument : ReadsComplex argument := reads_tree inner (formed.2.noScope rfl)
      rw [toList_css_relation, eq]
      exact ⟨_, rfl, ReadsFrom.relation reads argument inner⟩
  | single _ ih =>
    obtain ⟨text, eq, reads⟩ := ih formed starts
    exact ⟨text, eq, ReadsFrom.joinsFrom reads rfl⟩
  | @combined left right combinator _ behind ih _ =>
    cases starts with
    | combined first =>
      obtain ⟨text, eq, reads⟩ := ih formed.2.1 first
      have second : ReadsCompound false right := reads_tree behind (formed.2.2.noScope rfl)
      rw [toList_css_combined, eq]
      exact ⟨_, rfl, JoinsFrom.combined reads trivial second behind⟩

/-- What has tokens has tokens one byte later. -/
theorem exists_tokensFrom_succ {cs : List Char} {tokens : List Token}
    (read : tokensFrom pos cs = .ok tokens) : ∃ later, tokensFrom (pos + 1) cs = .ok later := by
  obtain ⟨spans, last, covers, -⟩ := tokensFrom_eq_ok_iff.mp read
  exact ⟨_, tokensFrom_of_covers (covers.shift 1)⟩

/-- If a text is accepted from `:scope` on, there are tokens behind `:scope`. -/
theorem exists_tokens_behind {text : String} {more : List Char} {selectors : List Selector}
    (split : text.toList = ":scope".toList ++ more) (follows : Follows more)
    (accepted : parse text = .ok selectors) : ∃ tokens, tokensFrom 6 more = .ok tokens := by
  have ran : read .initial 0 text.toList =
      read (State.initial.setMode (.pseudoClassName .universal true "scope")) 6 more := by
    rw [split]
    exact passes_scope follows
  rw [parse_eq_read, ran] at accepted
  unfold read at accepted
  cases lexed : tokensFrom 6 more with
  | ok tokens => exact ⟨tokens, rfl⟩
  | error e => simp [lexed] at accepted

end Reader

/-! ### Selectors -/

variable {text : String} {selectors : List Selector} {selector : Selector}

/-- In an accepted text a selector that has `:scope` anywhere starts with it. -/
theorem startsWithScope_of_parse (accepted : parse text = .ok selectors)
    (member : selector ∈ selectors) (scope : .pseudoClass "scope" ∈ selector.tree.simples) :
    selector.tree.StartsWithScope :=
  (isFormed_of_parse accepted member).startsWithScope scope

open Reader in
/-- The text of a selector that starts with `:scope` starts with a star. -/
theorem exists_bare (starts : selector.tree.StartsWithScope) :
    ∃ (bare : String) (more : List Char), selector.css = "*" ++ bare ∧
      bare.toList = ":scope".toList ++ more ∧ Follows more := by
  obtain ⟨more, front, behind⟩ := printsScope starts
  refine ⟨String.ofList (":scope".toList ++ (more ++ selector.pseudoElementCss.toList)), _, ?_,
    String.toList_ofList, behind _ (follows_pseudoElementCss selector)⟩
  rw [← String.toList_inj, css_eq, String.toList_append, front]
  simp

open Reader in
/-- A grammatical selector that starts with `:scope` is what its text denotes behind the star. -/
theorem Grammatical.exists_again_bare {bare : String} (grammatical : selector.Grammatical)
    (formed : selector.tree.IsFormed .whole) (starts : selector.tree.StartsWithScope)
    (split : selector.css = "*" ++ bare) :
    ∃ again, selector.Again again ∧ parse bare = .ok [again] := by
  obtain ⟨first, front, reads⟩ := readsFirst_scope grammatical.tree formed starts
  have reads : JoinsFrom .initial .initial 0 (String.ofList first).toList selector.tree := by
    rw [String.toList_ofList]
    exact reads
  apply exists_again_of_joinsFrom reads grammatical.pseudoElement
  rw [css_eq, ← String.toList_inj, String.toList_append, front] at split
  rw [← String.toList_inj]
  simpa using split.symm

open Reader Lexer in
/-- The text of a selector that starts with `:scope` is not accepted: it is refused for the place of
`:scope`, or it cannot be split into tokens. If the selector comes from a text without backslashes,
it can; and the selector is what its text denotes when the `*` at the start is left out. -/
theorem parse_css_scope (accepted : parse text = .ok selectors) (member : selector ∈ selectors)
    (starts : selector.tree.StartsWithScope) :
    (parse selector.css = .error .misplacedScope ∨
        ∃ e, parse selector.css = .error (.lexical e)) ∧
      ('\\' ∉ text.toList → parse selector.css = .error .misplacedScope ∧
        ∃ bare again, selector.css = "*" ++ bare ∧ parse bare = .ok [again] ∧
          again.unplaced = selector.unplaced) := by
  obtain ⟨bare, more, split, front, follows⟩ := exists_bare starts
  have whole : selector.css.toList = '*' :: (":scope".toList ++ more) := by
    rw [split, String.toList_append, front]
    rfl
  have refused := parse_scope whole follows
  refine ⟨?_, fun plain => ?_⟩
  · cases lexed : tokensFrom 7 more with
    | ok tokens => exact .inl (by rw [refused, lexed])
    | error e => exact .inr ⟨e, by rw [refused, lexed]⟩
  · have grammatical := grammatical_of_parse plain accepted selector member
    have formed := isFormed_of_parse accepted member
    obtain ⟨again, read, parsed⟩ := grammatical.exists_again_bare formed starts split
    -- The tokens behind `:scope` are the same in both texts, one byte later in the refused one.
    obtain ⟨tokens, lexed⟩ := exists_tokens_behind front follows parsed
    obtain ⟨later, lexed⟩ := exists_tokensFrom_succ lexed
    exact ⟨by rw [refused, lexed], bare, again, split, parsed, read.same⟩

/-- A child of the scope. -/
theorem parse_css_scope_child :
    let selector : Selector :=
      ⟨.combined (.restricted .universal (.pseudoClass "scope")) .child (.element none (some "a")),
        none⟩
    parse ":scope>a" = .ok [selector] ∧ selector.tree.StartsWithScope ∧
      selector.css = "*:scope > a" ∧ parse selector.css = .error .misplacedScope ∧
      ∃ bare again, selector.css = "*" ++ bare ∧ parse bare = .ok [again] ∧
        again.unplaced = selector.unplaced := by
  intro selector
  have lexed : (tokenize ":scope>a").toOption = some
      [⟨.delim, ":", 0⟩, ⟨.ident, "scope", 1⟩, ⟨.delim, ">", 6⟩, ⟨.ident, "a", 7⟩,
        ⟨.eof, "", 8⟩] := by
    decide +kernel
  have accepted : parse ":scope>a" = .ok [selector] := by
    rw [parse_of_tokenize lexed]
    cbv
  have starts : selector.tree.StartsWithScope := .combined .scope _ _
  have found := (parse_css_scope accepted List.mem_cons_self starts).2 (by decide)
  exact ⟨accepted, starts, by cbv, found⟩

/-- The scope alone is accepted, and its text is not. -/
theorem css_scope_refused :
    ∃ selector : Selector, parse ":scope" = .ok [selector] ∧ selector.tree.StartsWithScope ∧
      selector.css = "*:scope" ∧ ¬∃ selectors, parse selector.css = .ok selectors := by
  have lexed : (tokenize ":scope").toOption = some
      [⟨.delim, ":", 0⟩, ⟨.ident, "scope", 1⟩, ⟨.eof, "", 6⟩] := by
    decide +kernel
  have lexedAgain : (tokenize "*:scope").toOption = some
      [⟨.delim, "*", 0⟩, ⟨.delim, ":", 1⟩, ⟨.ident, "scope", 2⟩, ⟨.eof, "", 7⟩] := by
    decide +kernel
  have refused : parse "*:scope" = .error .misplacedScope := by
    rw [parse_of_tokenize lexedAgain]
    cbv
  have css : Selector.css ⟨.restricted .universal (.pseudoClass "scope"), none⟩ = "*:scope" := by
    cbv
  refine ⟨⟨.restricted .universal (.pseudoClass "scope"), none⟩, ?_, .scope, css, ?_⟩
  · rw [parse_of_tokenize lexed]
    cbv
  · rw [css, refused]
    simp

end SelectorPath.Selector
