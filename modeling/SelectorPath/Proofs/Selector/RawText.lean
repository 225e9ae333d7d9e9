import SelectorPath.Proofs.Selector.Runs
import SelectorPath.Proofs.Selector.Shape
import SelectorPath.Proofs.Token.ReadsBack

/-!
# Text that is written without escapes

The names of classes, ids, elements and attributes are escaped where the grammar needs it, and so is
an identifier that an attribute is compared with. The names of pseudo-classes, functions and
pseudo-elements, the arguments of functions and the strings that attributes are compared with are
written raw. An escape can bring any character into one of these, and so its text can fail to be the
token it was written for. In a text without backslashes there are no escapes, and nothing fails.

## Main definitions

* `Selector.raw` — what is written raw in a selector, as tokens
* `Token.IsSafe` — the value may be written raw

## Main results

* `Selector.css_infix_of_mem_raw` — all of it stands in the text of the selector
* `Selector.readsBack_raw` — it reads back exactly if it is safe, and it is safe without backslashes
-/

namespace SelectorPath

open Text

/-! ### Tokens -/

/-- The value of an identifier needs no escape, and that of a string holds no line feed. -/
def Token.IsSafe (token : Token) : Prop :=
  match token.kind with
  | .ident => IsName token.value.toList
  | .string => '\n' ∉ token.value.toList
  | _ => True

theorem Token.readsBack_iff_isSafe {token : Token} (literal : token.isLiteral = true) :
    token.ReadsBack ↔ token.IsSafe := by
  obtain ⟨kind, value, pos⟩ := token
  cases kind with
  | ident => exact readsBack_ident_iff
  | string => exact readsBack_string_iff
  | _ => cases literal

theorem Token.IsPlain.isSafe {token : Token} (plain : token.IsPlain) : token.IsSafe := by
  obtain ⟨kind, value, pos⟩ := token
  cases kind with
  | ident => exact plain
  | string => exact fun lineFeed => (plain _ lineFeed).1 rfl
  | _ => trivial

/-- No name starts with a digit. -/
theorem Text.not_isName_of_isDigit {c : Char} {cs : List Char} (digit : isDigit c = true) :
    ¬IsName (c :: cs) := by
  rintro ⟨hyphen, first, more, eq, rfl | rfl, start, -⟩
  · obtain ⟨rfl, -⟩ := List.cons.inj eq
    simp [isNameStart_of_isDigit digit] at start
  · obtain ⟨rfl, -⟩ := List.cons.inj eq
    cases digit

/-! ### What is written raw -/

/-- The name and the literal arguments. -/
def FunctionCall.raw (call : FunctionCall) : List Token :=
  ⟨.ident, call.name, 0⟩ :: call.arguments.filter Token.isLiteral

def PseudoElement.raw : PseudoElement → List Token
  | .simple name => [⟨.ident, name, 0⟩]
  | .functional call => call.raw

/-- The value, if it is a string. -/
def AttributeSelector.raw (selector : AttributeSelector) : List Token :=
  selector.value.toList.filter (·.kind = .string)

def Selector.Simple.raw : Simple → List Token
  | .className _ | .id _ => []
  | .attribute selector => selector.raw
  | .pseudoClass name => [⟨.ident, name, 0⟩]
  | .function call => call.raw

/-- What is written raw in the text of a selector: the names of its pseudo-classes, functions and
pseudo-elements, its arguments that are strings or identifiers, and the strings that attributes are
compared with. -/
def Selector.raw (selector : Selector) : List Token :=
  selector.tree.simples.flatMap Simple.raw ++ selector.pseudoElement.toList.flatMap PseudoElement.raw

/-! ### All of it is written -/

section Written

open List (infix_append_left infix_append_right infix_append_of_infix_left
  infix_append_of_infix_right)

variable {token : Token}

theorem Token.css_infix_joinAfter {tokens : List Token} (member : token ∈ tokens) (previous : ℕ) :
    token.css.toList <:+: (joinAfter css previous tokens).toList := by
  induction tokens generalizing previous with
  | nil => cases member
  | cons first rest ih =>
    simp only [joinAfter, String.toList_append]
    rcases List.mem_cons.mp member with rfl | member
    · exact infix_append_of_infix_left infix_append_right
    · exact infix_append_of_infix_right (ih member _)

theorem Token.css_infix_join {tokens : List Token} (member : token ∈ tokens) :
    token.css.toList <:+: (join css tokens).toList := by
  cases tokens with
  | nil => cases member
  | cons first rest =>
    rw [join, String.toList_append]
    rcases List.mem_cons.mp member with rfl | member
    · exact infix_append_left
    · exact infix_append_of_infix_right (css_infix_joinAfter member _)

theorem FunctionCall.css_infix {call : FunctionCall} (member : token ∈ call.raw) :
    token.css.toList <:+: call.css.toList := by
  simp only [css, argumentsCss, String.toList_append]
  apply infix_append_of_infix_left
  rcases List.mem_cons.mp member with rfl | member
  · exact infix_append_of_infix_left infix_append_left
  · exact infix_append_of_infix_right (Token.css_infix_join (List.mem_of_mem_filter member))

theorem PseudoElement.css_infix {pseudo : PseudoElement} (member : token ∈ pseudo.raw) :
    token.css.toList <:+: pseudo.css.toList := by
  cases pseudo with
  | simple name =>
    obtain rfl := List.mem_singleton.mp member
    exact List.infix_rfl
  | functional call => exact call.css_infix member

theorem AttributeSelector.css_infix {selector : AttributeSelector}
    (member : token ∈ selector.raw) :
    token.css.toList <:+: selector.css.toList := by
  obtain ⟨inside, string⟩ := List.mem_filter.mp member
  have value : selector.value = some token := Option.mem_toList.mp inside
  have written : token.attributeValueCss = token.css := by
    unfold Token.attributeValueCss
    rw [if_neg (by simp_all)]
  simp only [css, value, written, String.toList_append]
  exact infix_append_of_infix_left (infix_append_of_infix_right infix_append_right)

namespace Selector

theorem Simple.css_infix : {simple : Simple} → token ∈ simple.raw →
    token.css.toList <:+: simple.css.toList
  | .className _, member | .id _, member => by cases member
  | .attribute selector, member => selector.css_infix member
  | .pseudoClass name, member => by
    obtain rfl := List.mem_singleton.mp member
    simp only [css, String.toList_append]
    exact infix_append_right
  | .function call, member => by
    simp only [css, String.toList_append]
    exact infix_append_of_infix_right (call.css_infix member)

theorem Tree.css_infix_listCss {tree : Tree} : {trees : List Tree} → tree ∈ trees →
    tree.css.toList <:+: (Tree.listCss trees).toList
  | [], member => by cases member
  | [only], member => by
    obtain rfl := List.mem_singleton.mp member
    exact List.infix_rfl
  | first :: next :: rest, member => by
    simp only [listCss, String.toList_append]
    rcases List.mem_cons.mp member with rfl | member
    · exact infix_append_of_infix_left infix_append_left
    · exact infix_append_of_infix_right (Tree.css_infix_listCss member)

/-- Every simple selector of a tree is written in its text. -/
theorem Tree.simple_css_infix {simple : Simple} : (tree : Tree) → simple ∈ tree.simples →
    simple.css.toList <:+: tree.css.toList
  | .element _ _, member => by cases member
  | .restricted base other, member => by
    simp only [css, String.toList_append]
    rcases List.mem_append.mp member with inside | last
    · exact infix_append_of_infix_left (base.simple_css_infix inside)
    · obtain rfl := List.mem_singleton.mp last
      exact infix_append_right
  | .negation base argument, member => by
    simp only [css, String.toList_append]
    apply infix_append_of_infix_left
    rcases List.mem_append.mp member with inside | inside
    · exact infix_append_of_infix_left (infix_append_of_infix_left (base.simple_css_infix inside))
    · exact infix_append_of_infix_right (argument.simple_css_infix inside)
  | .anyOf kind base arguments, member => by
    simp only [css, String.toList_append]
    apply infix_append_of_infix_left
    rcases List.mem_append.mp member with inside | inside
    · exact infix_append_of_infix_left (infix_append_of_infix_left (base.simple_css_infix inside))
    · obtain ⟨argument, chosen, inside⟩ := Tree.mem_allSimples_iff.mp inside
      apply infix_append_of_infix_right
      exact (argument.simple_css_infix inside).trans (Tree.css_infix_listCss chosen)
  | .relation base _ argument, member => by
    simp only [css, String.toList_append]
    apply infix_append_of_infix_left
    rcases List.mem_append.mp member with inside | inside
    · exact infix_append_of_infix_left (infix_append_of_infix_left
        (infix_append_of_infix_left (base.simple_css_infix inside)))
    · exact infix_append_of_infix_right (argument.simple_css_infix inside)
  | .combined left _ right, member => by
    simp only [css, String.toList_append]
    rcases List.mem_append.mp member with inside | inside
    · exact infix_append_of_infix_left (infix_append_of_infix_left (left.simple_css_infix inside))
    · exact infix_append_of_infix_right (right.simple_css_infix inside)

/-- What is written raw stands in the text of the selector. -/
theorem css_infix_of_mem_raw {selector : Selector} (member : token ∈ selector.raw) :
    token.css.toList <:+: selector.css.toList := by
  obtain ⟨tree, pseudo⟩ := selector
  rcases List.mem_append.mp member with inside | inside
  · obtain ⟨simple, within, raw⟩ := List.mem_flatMap.mp inside
    have written := (Simple.css_infix raw).trans (tree.simple_css_infix within)
    cases pseudo with
    | none => exact written
    | some pseudo =>
      simp only [css, String.toList_append]
      exact infix_append_of_infix_left (infix_append_of_infix_left written)
  · obtain ⟨element, within, raw⟩ := List.mem_flatMap.mp inside
    obtain rfl : pseudo = some element := Option.mem_toList.mp within
    simp only [css, String.toList_append]
    exact infix_append_of_infix_right (PseudoElement.css_infix raw)

end Selector

end Written

/-! ### None of it needs an escape if the text has none -/

section Safe

variable {token : Token}

theorem FunctionCall.isLiteral_of_mem_raw {call : FunctionCall} (member : token ∈ call.raw) :
    token.isLiteral = true := by
  rcases List.mem_cons.mp member with rfl | member
  · rfl
  · exact (List.mem_filter.mp member).2

theorem FunctionCall.Grammatical.isSafe {call : FunctionCall} (grammatical : call.Grammatical)
    (member : token ∈ call.raw) : token.IsSafe := by
  rcases List.mem_cons.mp member with rfl | member
  · exact grammatical.name.plain
  · exact (grammatical.arguments.plain token (List.mem_of_mem_filter member)).1.isSafe

namespace Selector

theorem Simple.isLiteral_of_mem_raw : {simple : Simple} → token ∈ simple.raw →
    token.isLiteral = true
  | .className _, member | .id _, member => by cases member
  | .attribute selector, member => by
    have string := (List.mem_filter.mp member).2
    simp_all [Token.isLiteral]
  | .pseudoClass name, member => by
    obtain rfl := List.mem_singleton.mp member
    rfl
  | .function call, member => call.isLiteral_of_mem_raw member

theorem Simple.Grammatical.isSafe : {simple : Simple} → simple.Grammatical → token ∈ simple.raw →
    token.IsSafe
  | .className _, _, member | .id _, _, member => by cases member
  | .attribute selector, grammatical, member => by
    obtain ⟨inside, string⟩ := List.mem_filter.mp member
    rcases grammatical.value token (Option.mem_toList.mp inside) with ⟨ident, -⟩ | ⟨-, inLine⟩
    · -- an identifier that is compared with is escaped, and so it is not raw
      simp [ident] at string
    · simp only [decide_eq_true_eq] at string
      rw [Token.IsSafe, string]
      exact fun lineFeed => inLine _ lineFeed rfl
  | .pseudoClass name, grammatical, member => by
    obtain rfl := List.mem_singleton.mp member
    exact grammatical.1.plain
  | .function call, grammatical, member => grammatical.1.isSafe member

/-- What holds of a tree holds of the simple selectors in it, those in arguments too. -/
theorem Tree.Grammatical.simples {place : Place} {tree : Tree}
    (grammatical : tree.Grammatical place) : ∀ simple ∈ tree.simples, simple.Grammatical := by
  induction grammatical with
  | element => simp [Tree.simples]
  | restricted host condition ih =>
    rw [Tree.simples]
    simp only [List.forall_mem_append, List.forall_mem_singleton]
    exact ⟨ih, condition⟩
  | negation host inner ihHost ihInner =>
    rw [Tree.simples, List.forall_mem_append]
    exact ⟨ihHost, ihInner⟩
  | anyOf host nonempty each ihHost ihEach =>
    rw [Tree.simples, List.forall_mem_append]
    refine ⟨ihHost, fun simple member => ?_⟩
    obtain ⟨argument, chosen, inside⟩ := Tree.mem_allSimples_iff.mp member
    exact ihEach argument chosen simple inside
  | relation host inner ihHost ihInner =>
    rw [Tree.simples, List.forall_mem_append]
    exact ⟨ihHost, ihInner⟩
  | single compound ih => exact ih
  | combined before behind ihBefore ihBehind =>
    rw [Tree.simples, List.forall_mem_append]
    exact ⟨ihBefore, ihBehind⟩

theorem isLiteral_of_mem_raw {selector : Selector} (member : token ∈ selector.raw) :
    token.isLiteral = true := by
  rcases List.mem_append.mp member with inside | inside
  · obtain ⟨simple, -, raw⟩ := List.mem_flatMap.mp inside
    exact Simple.isLiteral_of_mem_raw raw
  · obtain ⟨element, -, raw⟩ := List.mem_flatMap.mp inside
    cases element with
    | simple name =>
      obtain rfl := List.mem_singleton.mp raw
      rfl
    | functional call => exact call.isLiteral_of_mem_raw raw

theorem Grammatical.isSafe {selector : Selector} (grammatical : selector.Grammatical)
    (member : token ∈ selector.raw) : token.IsSafe := by
  rcases List.mem_append.mp member with inside | inside
  · obtain ⟨simple, within, raw⟩ := List.mem_flatMap.mp inside
    exact (grammatical.tree.simples simple within).isSafe raw
  · obtain ⟨element, within, raw⟩ := List.mem_flatMap.mp inside
    have shaped := grammatical.pseudoElement element (Option.mem_toList.mp within)
    cases element with
    | simple name =>
      obtain rfl := List.mem_singleton.mp raw
      exact shaped.plain
    | functional call => exact shaped.isSafe raw

end Selector

end Safe

namespace Selector

/-- What is written raw for an accepted text is read back exactly if its value needs no escape, and
in a text without backslashes no value does. -/
theorem readsBack_raw {text : String} {selectors : List Selector} {selector : Selector}
    {token : Token} (accepted : parse text = .ok selectors) (member : selector ∈ selectors)
    (raw : token ∈ selector.raw) :
    token.css.toList <:+: selector.css.toList ∧ (token.ReadsBack ↔ token.IsSafe) ∧
      ('\\' ∉ text.toList → token.ReadsBack) := by
  have exactly := Token.readsBack_iff_isSafe (isLiteral_of_mem_raw raw)
  refine ⟨css_infix_of_mem_raw raw, exactly, fun plain => exactly.mpr ?_⟩
  exact (grammatical_of_parse plain accepted selector member).isSafe raw

/-- A quote is the only character that needs a backslash here, and it gets one. -/
theorem readsBack_raw_quote :
    let tree : Tree := .restricted
      (.restricted .universal (.attribute ⟨none, "a", .equal, some ⟨.string, "\"", 3⟩⟩))
      (.function ⟨"b", [⟨.ident, "c", 10⟩]⟩)
    let token : Token := ⟨.string, "\"", 3⟩
    parse "[a='\"']:b(c)" = .ok [⟨tree, none⟩] ∧
      (⟨tree, none⟩ : Selector).raw = [token, ⟨.ident, "b", 0⟩, ⟨.ident, "c", 10⟩] ∧
      token.css.toList <:+: (⟨tree, none⟩ : Selector).css.toList ∧
      (token.ReadsBack ↔ token.IsSafe) ∧ token.ReadsBack := by
  intro tree token
  have lexed : (tokenize "[a='\"']:b(c)").toOption = some
      [⟨.delim, "[", 0⟩, ⟨.ident, "a", 1⟩, ⟨.delim, "=", 2⟩, ⟨.string, "\"", 3⟩,
        ⟨.delim, "]", 6⟩, ⟨.delim, ":", 7⟩, ⟨.ident, "b", 8⟩, ⟨.delim, "(", 9⟩,
        ⟨.ident, "c", 10⟩, ⟨.delim, ")", 11⟩, ⟨.eof, "", 12⟩] := by
    decide +kernel
  have accepted : parse "[a='\"']:b(c)" = .ok [⟨tree, none⟩] := by
    rw [parse_of_tokenize lexed]
    cbv
  have listed : (⟨tree, none⟩ : Selector).raw =
      [token, ⟨.ident, "b", 0⟩, ⟨.ident, "c", 10⟩] := rfl
  obtain ⟨written, exactly, plain⟩ :=
    readsBack_raw accepted List.mem_cons_self (listed ▸ List.mem_cons_self)
  exact ⟨accepted, listed, written, exactly, plain (by decide)⟩

/-- Three places where an escape brings in what cannot be written raw: a name that starts with a
digit, a line feed in a string, and a digit as an argument. -/
theorem not_readsBack_raw :
    let tree : Tree := .restricted
      (.restricted (.restricted .universal (.pseudoClass "1x"))
        (.attribute ⟨none, "a", .equal, some ⟨.string, "\n", 9⟩⟩))
      (.function ⟨"b", [⟨.ident, "1", 18⟩]⟩)
    parse ":\\31 x[a=\"\\a \"]:b(\\31 )" = .ok [⟨tree, none⟩] ∧
      (⟨tree, none⟩ : Selector).raw =
        [⟨.ident, "1x", 0⟩, ⟨.string, "\n", 9⟩, ⟨.ident, "b", 0⟩, ⟨.ident, "1", 18⟩] ∧
      ¬(⟨.ident, "1x", 0⟩ : Token).ReadsBack ∧ ¬(⟨.string, "\n", 9⟩ : Token).ReadsBack ∧
      ¬(⟨.ident, "1", 18⟩ : Token).ReadsBack := by
  intro tree
  have lexed : (tokenize ":\\31 x[a=\"\\a \"]:b(\\31 )").toOption = some
      [⟨.delim, ":", 0⟩, ⟨.ident, "1x", 1⟩, ⟨.delim, "[", 6⟩, ⟨.ident, "a", 7⟩,
        ⟨.delim, "=", 8⟩, ⟨.string, "\n", 9⟩, ⟨.delim, "]", 14⟩, ⟨.delim, ":", 15⟩,
        ⟨.ident, "b", 16⟩, ⟨.delim, "(", 17⟩, ⟨.ident, "1", 18⟩, ⟨.delim, ")", 22⟩,
        ⟨.eof, "", 23⟩] := by
    decide +kernel
  have accepted : parse ":\\31 x[a=\"\\a \"]:b(\\31 )" = .ok [⟨tree, none⟩] := by
    rw [parse_of_tokenize lexed]
    cbv
  refine ⟨accepted, rfl, ?_, ?_, ?_⟩
  · rw [Token.readsBack_ident_iff]
    exact not_isName_of_isDigit (by decide)
  · rw [Token.readsBack_string_iff]
    decide
  · rw [Token.readsBack_ident_iff]
    exact not_isName_of_isDigit (by decide)

end Selector

end SelectorPath
