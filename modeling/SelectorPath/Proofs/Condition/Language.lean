import SelectorPath.Proofs.Condition.Siblings
import SelectorPath.Proofs.Condition.Validity
import SelectorPath.Proofs.XPath.Predicates

/-!
# The language of an element in HTML

HTML says the language of an element in an attribute of the element or of one around it, and the
nearest one counts. The condition goes upwards through the elements that have the attribute, takes
the first of them, and looks at its value in small letters. A hyphen behind the value and behind the
language that is asked for makes one comparison of two: a text with a hyphen starts with another one
exactly if the texts are the same or the first starts with all of the second.

## Main definitions

* `Document.IsNearest` — the value of an attribute that is nearest to an element, upwards

## Main results

* `Document.isNearest_iff` — the nearest value is the first one upwards
* `Condition.translate_capitals` — capitals are translated to small letters
* `Condition.append_hyphen_prefix_iff` — one comparison of texts with hyphens is two
* `FunctionalClass.exists_restrict_lang` — the condition asks for the nearest language
-/

namespace SelectorPath

open Text XPath Grammar

variable {document : Document}

/-! ### The nearest attribute -/

namespace Document

/-- The nearest value of an attribute for an element is that of the element itself, or of an element
around it such that no element further in has the attribute. -/
def IsNearest (document : Document) (name : String) (x : Address) (value : String) : Prop :=
  ∃ owner, owner <:+ x ∧ document.value? owner name = some value ∧
    ∀ between, owner <:+ between → between <:+ x → between ≠ owner →
      document.value? between name = none

/-- The first address upwards that has a property, and no address further in has it. -/
theorem find?_tails_eq_some_iff {p : Address → Bool} {x owner : Address} :
    x.tails.find? p = some owner ↔ owner <:+ x ∧ p owner = true ∧
      ∀ between, owner <:+ between → between <:+ x → between ≠ owner → p between = false := by
  induction x with
  | nil =>
    rw [List.tails, List.find?_singleton]
    constructor
    · intro found
      split at found
      · rename_i holds
        obtain rfl := Option.some.inj found
        exact ⟨List.suffix_rfl, holds, fun between _ inside other =>
          absurd (List.suffix_nil.mp inside) other⟩
      · exact nomatch found
    · rintro ⟨suffix, holds, -⟩
      obtain rfl := List.suffix_nil.mp suffix
      rw [if_pos holds]
  | cons index parent ih =>
    rw [List.tails]
    -- the address itself is looked at before its parent
    by_cases holds : p (index :: parent) = true
    · rw [List.find?_cons_of_pos holds, Option.some.injEq]
      constructor
      · rintro rfl
        exact ⟨List.suffix_rfl, holds, fun between above inside other =>
          absurd (inside.eq_of_length (Nat.le_antisymm inside.length_le above.length_le)) other⟩
      · rintro ⟨suffix, -, first⟩
        by_contra other
        exact absurd holds (Bool.eq_false_iff.mp (first _ suffix List.suffix_rfl other))
    · rw [List.find?_cons_of_neg holds, ih, List.suffix_cons_iff]
      constructor
      · rintro ⟨suffix, found, first⟩
        refine ⟨.inr suffix, found, fun between above inside other => ?_⟩
        rcases List.suffix_cons_iff.mp inside with rfl | inside
        · exact Bool.eq_false_iff.mpr holds
        · exact first between above inside other
      · rintro ⟨rfl | suffix, found, first⟩
        · exact absurd found holds
        · exact ⟨suffix, found, fun between above inside other =>
            first between above (inside.trans (List.suffix_cons _ _)) other⟩

/-- The nearest value is that of the first address upwards that has one. -/
theorem isNearest_iff {name value : String} {x : Address} :
    document.IsNearest name x value ↔ ∃ owner,
      x.tails.find? (fun address => (document.value? address name).isSome) = some owner ∧
        document.value? owner name = some value := by
  refine exists_congr fun owner => ?_
  rw [find?_tails_eq_some_iff]
  simp only [Option.isSome_eq_false_iff, Option.isNone_iff_eq_none]
  constructor
  · rintro ⟨suffix, present, first⟩
    exact ⟨⟨suffix, Option.isSome_of_mem present, first⟩, present⟩
  · rintro ⟨⟨suffix, -, first⟩, present⟩
    exact ⟨suffix, present, first⟩

end Document

/-! ### Predicates one after the other -/

namespace XPath

/-- A predicate that makes a claim about each of some elements keeps those of which it is true. -/
theorem passing_of_asserts {expr : Expr} {addresses : List Address} (claim : Address → Bool)
    (asserts : ∀ x ∈ addresses, ∀ position size, 0 < position →
      expr.Asserts document ⟨.tree x, position, size⟩ (claim x = true)) :
    passing (Term.eval document expr.term) (addresses.map .tree) =
      some ((addresses.filter claim).map .tree) := by
  have kept (size start : Nat) (positive : 0 < start) :
      keep (fun node position => (Term.eval document expr.term ⟨node, position, size⟩).map
        (·.holdsAt position)) start (addresses.map .tree) =
          some ((addresses.filter claim).map .tree) := by
    induction addresses generalizing start with
    | nil => rfl
    | cons first rest ih =>
      obtain ⟨⟨value, eval, asPredicate⟩, holds⟩ :=
        asserts first List.mem_cons_self start size positive
      have behind := ih (fun x member => asserts x (List.mem_cons_of_mem _ member))
        (start + 1) (Nat.succ_pos start)
      have here : value.holdsAt start = claim first := by
        rw [asPredicate, Bool.eq_iff_iff, ← holds, Expr.holds_iff eval]
      unfold Expr.eval at eval
      rw [List.map_cons, keep, behind, eval, Option.map_some, here, List.filter_cons]
      cases claim first <;> rfl
  exact kept _ 1 Nat.one_pos

/-- The number one as a predicate keeps the first node. -/
theorem passing_one (nodes : List Node) :
    passing (Term.eval document (Expr.integer 1).term) nodes = some (nodes.take 1) := by
  have first : Term.restrict document [(Expr.integer 1).term] nodes = some (nodes.take 1) :=
    restrict_always nodes
  rw [Term.restrict] at first
  cases passed : passing (Term.eval document (Expr.integer 1).term) nodes with
  | none => simp [passed] at first
  | some kept => simpa [passed, Term.restrict] using first

/-- An element and those around it, from the inside out. -/
theorem select_ancestorOrSelf (x : Address) :
    document.select .ancestorOrSelf (nodeTest "*") (.tree x) =
      some ((x.tails.filter (document.hasType none)).map .tree) :=
  @select_of_along document none "*" .star .ancestorOrSelf (by simp) _ _ rfl

/-- The first address with one property has another. -/
theorem filter_take_one_ne_nil_iff {addresses : List Address} {p q : Address → Bool} :
    ((addresses.filter p).take 1).filter q ≠ [] ↔
      ∃ first, addresses.find? p = some first ∧ q first = true := by
  rw [← List.head?_filter]
  cases addresses.filter p with
  | nil => simp
  | cons first rest => simp

/-- Two predicates about elements with the number one between them ask the nearest element with one
property, from the inside out, for another. -/
theorem asserts_nearest {first second : Expr} {p q : Address → Bool}
    (assertsFirst : ∀ address position size, 0 < position →
      first.Asserts document ⟨.tree address, position, size⟩ (p address = true))
    (assertsSecond : ∀ address position size, 0 < position →
      second.Asserts document ⟨.tree address, position, size⟩ (q address = true))
    (elements : ∀ address, p address = true → document.IsElement address)
    (x : Address) (position size : Nat) :
    (Expr.step (.named .ancestorOrSelf) "*" [first, .integer 1, second]).Asserts document
      ⟨.tree x, position, size⟩ (∃ owner, x.tails.find? p = some owner ∧ q owner = true) := by
  have passFirst : passing (Term.eval document first.term)
      ((x.tails.filter (document.hasType none)).map .tree) = some ((x.tails.filter p).map .tree) := by
    rw [passing_of_asserts p fun address _ => assertsFirst address, List.filter_filter]
    -- only elements pass, so the node test leaves out nothing that would
    refine congrArg (fun kept => some (kept.map Node.tree)) (List.filter_congr fun address _ => ?_)
    cases holds : p address with
    | false => rfl
    | true => rw [Document.hasType_none.mpr (elements address holds), Bool.and_self]
  have passOne : passing (Term.eval document (Expr.integer 1).term)
      ((x.tails.filter p).map .tree) = some (((x.tails.filter p).take 1).map .tree) := by
    rw [passing_one, List.map_take]
  have passSecond : passing (Term.eval document second.term)
      (((x.tails.filter p).take 1).map .tree) =
        some ((((x.tails.filter p).take 1).filter q).map .tree) :=
    passing_of_asserts q fun address _ => assertsSecond address
  have eval : (Expr.step (.named .ancestorOrSelf) "*" [first, .integer 1, second]).eval document
      ⟨.tree x, position, size⟩ =
        some (.nodes ((((x.tails.filter p).take 1).filter q).map .tree)) := by
    have select : document.select Axis.ancestorOrSelf.standard (nodeTest "*") (.tree x) =
        some ((x.tails.filter (document.hasType none)).map .tree) := select_ancestorOrSelf x
    rw [Expr.term] at passOne
    simp only [Expr.eval, Expr.term, Expr.terms, Term.eval_step, Term.restrict, AxisSpecifier.axis,
      Option.bind_eq_bind, Option.bind_some, select, passFirst, passOne, passSecond]
    rfl
  refine Expr.asserts_of_nodes eval (Iff.trans ?_ filter_take_one_ne_nil_iff)
  rw [ne_eq, List.map_eq_nil_iff]

end XPath

namespace Condition

/-! ### Texts in small letters -/

/-- Where capitals are translated, they turn to small letters, and nothing else does. -/
theorem translate_capitals (cs : List Char) :
    Grammar.translate cs capitals.toList smallLetters.toList = cs.map Char.toLower := by
  have listed : capitals.toList = (List.range 26).map fun index => Char.ofNat (65 + index) := by
    decide +kernel
  have all : capitals.toList.all (fun c =>
      smallLetters.toList[capitals.toList.idxOf c]? == some c.toLower) = true := by decide +kernel
  have each (c : Char) (capital : c ∈ capitals.toList) :
      smallLetters.toList[capitals.toList.idxOf c]? = some c.toLower :=
    beq_iff_eq.mp (List.all_eq_true.mp all c capital)
  have letter (c : Char) : (if c ∈ capitals.toList then
      smallLetters.toList[capitals.toList.idxOf c]? else some c) = some c.toLower := by
    split
    · rename_i member
      exact each c member
    · rename_i other
      have code : ¬ (65 ≤ c.toNat ∧ c.toNat ≤ 90) := by
        intro capital
        refine other (listed ▸ List.mem_map.mpr ⟨c.toNat - 65, List.mem_range.mpr (by omega), ?_⟩)
        rw [show 65 + (c.toNat - 65) = c.toNat by omega, Char.ofNat_toNat]
      have same := toNat_toLower c
      rw [if_neg code, ← eq_iff_toNat] at same
      rw [same]
  rw [Grammar.translate, List.filterMap_congr fun c _ => letter c, List.filterMap_eq_map']

/-- A text with a hyphen behind it starts with another one and a hyphen exactly if the two are the
same, or the first starts with the second and a hyphen. -/
theorem append_hyphen_prefix_iff (language asked : List Char) :
    asked ++ ['-'] <+: language ++ ['-'] ↔ language = asked ∨ asked ++ ['-'] <+: language := by
  rw [List.prefix_concat_iff, List.append_cancel_right_eq, eq_comm]

theorem isVariety_iff {language asked : String} :
    isVariety language asked = true ↔ lowerCase language = lowerCase asked ∨
      (lowerCase asked ++ "-").toList <+: (lowerCase language).toList := by
  rw [isVariety, Bool.or_eq_true, beq_iff_eq, List.isPrefixOf_iff_prefix]

section Folded

variable {attr : Expr} {context : Context} {value : Option String} {list : List Node}
  (isAttribute : attr.IsAttribute document context value list)

include isAttribute

/-- The value of the attribute in small letters, with a hyphen. -/
theorem eval_foldedWithHyphen :
    (foldedWithHyphen attr).eval document context =
      some (.string (lowerCase (value.getD "") ++ "-")) := by
  have folded : (Expr.call .translate
      [attr, .literal capitals, .literal smallLetters]).eval document context =
        some (.string (lowerCase (value.getD ""))) := by
    rw [Expr.eval_call (Expr.evalAll_cons isAttribute.eval (Expr.evalAll_cons
      (Expr.eval_literal _) (Expr.evalAll_cons (Expr.eval_literal _) Expr.evalAll_nil)))]
    show some (Value.string (String.ofList (Grammar.translate (Value.text document (.nodes list)).toList
      capitals.toList smallLetters.toList))) = _
    rw [isAttribute.text, translate_capitals, ← toList_lowerCase, String.ofList_toList]
  rw [foldedWithHyphen, Expr.eval_call (Expr.evalAll_cons folded
    (Expr.evalAll_cons (Expr.eval_literal _) Expr.evalAll_nil))]
  simp [callFunction, Function.text, Value.text]

/-- The comparison with hyphens says that the language is the given one or a variety of it. -/
theorem asserts_startsWithFolded (asked : String) :
    (Expr.call .startsWith
        [foldedWithHyphen attr, .literal (lowerCase asked ++ "-")]).Asserts document context
      (isVariety (value.getD "") asked = true) := by
  refine Expr.asserts_of_boolean (Expr.eval_call (Expr.evalAll_cons
    (eval_foldedWithHyphen isAttribute) (Expr.evalAll_cons (Expr.eval_literal _)
      Expr.evalAll_nil))) (List.isPrefixOf_iff_prefix.trans ?_)
  simp only [isVariety_iff, Value.text, String.toList_append]
  exact (append_hyphen_prefix_iff _ _).trans (or_congr_left String.toList_inj)

end Folded

/-! ### The condition -/

/-- The condition asks for the language that the nearest attribute says. -/
theorem asserts_ofLanguage {options : Options} (html : options.dialect.isHtml = true)
    (asked : String) (x : Address) (position size : Nat) :
    (ofLanguage options asked).Asserts document ⟨.tree x, position, size⟩
      (∃ language, document.IsNearest options.langAttribute x language ∧
        (lowerCase language = lowerCase asked ∨
          (lowerCase asked ++ "-").toList <+: (lowerCase language).toList)) := by
  have isAttribute (address : Address) (position size : Nat) :=
    @isAttribute_attributeNamed document address position size options.langAttribute
  unfold ofLanguage
  rw [if_pos html]
  refine (asserts_nearest
    (p := fun address => (document.value? address options.langAttribute).isSome)
    (q := fun address => isVariety ((document.value? address options.langAttribute).getD "") asked)
    (fun address position size _ => ?carries) (fun address position size _ => ?varies)
    (fun address => Document.isElement_of_value?) x position size).congr ?nearest
  case carries =>
    obtain ⟨list, isAttribute⟩ := isAttribute address position size
    exact asserts_attribute isAttribute
  case varies =>
    obtain ⟨list, isAttribute⟩ := isAttribute address position size
    exact asserts_startsWithFolded isAttribute asked
  case nearest =>
    simp only [Document.isNearest_iff, ← isVariety_iff]
    constructor
    · rintro ⟨owner, found, varies⟩
      have carries := (Document.find?_tails_eq_some_iff.mp found).2.1
      obtain ⟨language, present⟩ := Option.isSome_iff_exists.mp carries
      rw [present, Option.getD_some] at varies
      exact ⟨language, ⟨owner, found, present⟩, varies⟩
    · rintro ⟨language, ⟨owner, found, present⟩, varies⟩
      refine ⟨owner, found, ?_⟩
      rw [present, Option.getD_some]
      exact varies

end Condition

/-- In HTML, the condition that `:lang()` adds for an argument is true of an element exactly if the
element or one around it has the attribute for languages, and the nearest value of the attribute is
the argument, or starts with the argument and a hyphen, without regard to ASCII case. -/
theorem FunctionalClass.exists_restrict_lang {options : Options}
    (html : options.dialect.isHtml = true) {call : FunctionCall} {asked : String}
    (accepted : literalArgument call = .ok asked) (path : LocationPath) :
    ∃ condition : Expr,
      FunctionalClass.lang.restrict options path call = .ok (path.addCondition condition) ∧
      ∀ document, IsConditionFor document condition.text fun x =>
        ∃ language, Document.IsNearest document options.langAttribute x language ∧
          (lowerCase language = lowerCase asked ∨
            (lowerCase asked ++ "-").toList <+: (lowerCase language).toList) := by
  refine ⟨Condition.ofLanguage options asked, ?_, fun document => ?_⟩
  · rw [restrict, restrictLiteral, accepted]
  · exact Expr.isConditionFor (Condition.valid_ofLanguage options asked)
      fun x _ position size _ => Condition.asserts_ofLanguage html asked x position size

/-- The name of the attribute cannot be written as it stands, and the argument has a capital. -/
theorem FunctionalClass.exists_restrict_lang_compared :
    let options : Options := { Options.html with langAttribute := "xml:lang" }
    let call : FunctionCall := ⟨"lang", [⟨.string, "EN-us", 7⟩]⟩
    let path := LocationPath.ofTest "p"
    options.dialect.isHtml = true ∧ literalArgument call = .ok "EN-us" ∧
      ∃ condition : Expr,
        FunctionalClass.lang.restrict options path call = .ok (path.addCondition condition) ∧
        ∀ document, IsConditionFor document condition.text fun x =>
          ∃ language, Document.IsNearest document "xml:lang" x language ∧
            (lowerCase language = lowerCase "EN-us" ∨
              (lowerCase "EN-us" ++ "-").toList <+: (lowerCase language).toList) :=
  ⟨rfl, rfl, exists_restrict_lang rfl rfl _⟩

end SelectorPath
