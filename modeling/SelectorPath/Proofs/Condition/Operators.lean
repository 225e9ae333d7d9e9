import SelectorPath.Proofs.Condition.Attributes
import SelectorPath.Proofs.Condition.Validity

/-!
# Attribute selectors mean what the selector grammar says

The text of an attribute selector is true of an element exactly if its operator accepts the value of
the attribute: every operator but `~=` does so for all values and all operands. A word is another
matter. Words are separated by the blanks of the selector grammar, but an operand is only looked for
if it holds no blank at all, in the wider sense of Unicode. A class that holds a no-break space, and
no blank of the grammar, is a word that an attribute may have, and its selector matches nothing.

A form feed is the one blank of the grammar that XPath does not separate words at. XPath takes its
characters from XML, where a form feed is none, so documents that hold one are set apart.

## Main definitions

* `Text.IsCssWord` — the text may be a word of an attribute
* `Text.HoldsForeignBlank` — the text is such a word and holds a blank of Unicode
* `Document.NoFormFeed` — no attribute of a document holds a form feed
* `Condition.AsksForWord` — a text is true of the elements that have a word in an attribute

## Main results

* `AttributeOperator.admits_iff` — an operator admits what it accepts, but for foreign blanks
* `Condition.isConditionFor_ofAttribute` — what every operator but `~=` asks for
* `Condition.asksForWord_iff` — which words are asked for
-/

namespace SelectorPath

open Text XPath Grammar

/-! ### Words -/

namespace Text

/-- A text that may be a word of an attribute: it is not empty and holds no blank of the grammar. -/
def IsCssWord (text : String) : Prop := text ≠ "" ∧ ∀ c ∈ text.toList, isCssBlank c = false

/-- A text that holds a blank of Unicode, but none of the grammar. -/
def HoldsForeignBlank (text : String) : Prop :=
  (∃ c ∈ text.toList, isBlank c = true) ∧ ∀ c ∈ text.toList, isCssBlank c = false

theorem HoldsForeignBlank.isCssWord {text : String} (foreign : HoldsForeignBlank text) :
    IsCssWord text := by
  obtain ⟨⟨c, member, -⟩, visible⟩ := foreign
  refine ⟨?_, visible⟩
  rintro rfl
  simp at member

/-- What may be a word is the one word of its text. -/
theorem IsCssWord.mem_words {word : String} (isWord : IsCssWord word) :
    word.toList ∈ words isCssBlank word.toList := by
  rw [words_eq_singleton (by simpa using isWord.1) isWord.2]
  exact List.mem_singleton_self _

theorem holdsForeignBlank_nbsp : HoldsForeignBlank "a\u00a0b" :=
  ⟨⟨'\u00a0', by decide, by decide⟩, by simp [isCssBlank]⟩

theorem isCssBlank_of_isSpace {c : Char} (space : isSpace c = true) : isCssBlank c = true := by
  rw [isCssBlank, Bool.or_eq_true]
  exact .inl space

/-- A blank of XPath is one of the grammar, so a spaced text holds no foreign one. -/
theorem IsSpaced.not_holdsForeignBlank {text : String} (spaced : IsSpaced text) :
    ¬ HoldsForeignBlank text := by
  rintro ⟨⟨c, member, blank⟩, visible⟩
  have cssBlank := isCssBlank_of_isSpace (spaced c member blank)
  rw [visible c member] at cssBlank
  exact absurd cssBlank (by decide)

/-- Words are separated alike where there is no form feed. -/
theorem words_isSpace {cs : List Char} (noFeed : '\x0c' ∉ cs) :
    words isSpace cs = words isCssBlank cs := by
  refine words_congr fun c member => ?_
  have other : (c == '\x0c') = false := beq_false_of_ne fun same => noFeed (same ▸ member)
  rw [isCssBlank, other, Bool.or_false]
  rfl

end Text

/-- No value of an attribute holds a form feed. -/
def Document.NoFormFeed (document : Document) : Prop :=
  ∀ address name, ∀ value ∈ document.value? address name, '\x0c' ∉ value.toList

theorem Document.IsSpaced.noFormFeed {document : Document} (spaced : document.IsSpaced) :
    document.NoFormFeed := by
  intro address name value present feed
  exact absurd (spaced address name value present '\x0c' feed (by decide)) (by decide)

namespace Condition

theorem isWord_eq_true_iff {text : String} :
    isWord text = true ↔ text ≠ "" ∧ ∀ c ∈ text.toList, isBlank c = false := by
  simp [isWord]

/-- A text is one word unless it is empty or holds a blank. -/
theorem isWord_eq_false_iff {text : String} :
    isWord text = false ↔ text = "" ∨ ∃ c ∈ text.toList, isBlank c = true := by
  rw [← Bool.not_eq_true, isWord_eq_true_iff]
  simp only [ne_eq, not_and_or, not_not, not_forall, Bool.not_eq_false, exists_prop]

/-- What may be a word is taken for one unless it holds a foreign blank. -/
theorem isWord_iff {text : String} :
    isWord text = true ↔ IsCssWord text ∧ ¬ HoldsForeignBlank text := by
  rw [isWord_eq_true_iff]
  constructor
  · rintro ⟨nonempty, noBlank⟩
    have visible (c : Char) (member : c ∈ text.toList) : isCssBlank c = false := by
      refine Bool.eq_false_iff.mpr fun cssBlank => ?_
      exact Bool.eq_false_iff.mp (noBlank c member) (isBlank_of_isCssBlank cssBlank)
    refine ⟨⟨nonempty, visible⟩, ?_⟩
    rintro ⟨⟨c, member, blank⟩, -⟩
    exact Bool.eq_false_iff.mp (noBlank c member) blank
  · rintro ⟨⟨nonempty, visible⟩, known⟩
    refine ⟨nonempty, fun c member => Bool.eq_false_iff.mpr fun blank => ?_⟩
    exact known ⟨⟨c, member, blank⟩, visible⟩

end Condition

/-! ### The two readings of an operator -/

namespace AttributeOperator

open Condition

/-- What is among the words of the grammar may be a word. -/
theorem accepts_word_iff {word : String} {value : Option String} :
    includes.Accepts word value ↔
      IsCssWord word ∧ ∃ text ∈ value, word.toList ∈ words isCssBlank text.toList := by
  refine (and_iff_right_of_imp ?_).symm
  rintro ⟨text, -, member⟩
  obtain ⟨nonempty, visible⟩ := of_mem_words member
  exact ⟨by simpa using nonempty, visible⟩

/-- XPath finds a word among the words of the grammar unless it holds a foreign blank. -/
theorem admits_word_iff {word : String} {value : Option String}
    (noFeed : ∀ text ∈ value, '\x0c' ∉ text.toList) :
    includes.Admits word value ↔
      (IsCssWord word ∧ ∃ text ∈ value, word.toList ∈ words isCssBlank text.toList) ∧
        ¬ HoldsForeignBlank word := by
  have sameWords : (∃ text ∈ value, word.toList ∈ words isSpace text.toList) ↔
      ∃ text ∈ value, word.toList ∈ words isCssBlank text.toList := by
    refine exists_congr fun text => and_congr_right fun present => ?_
    rw [words_isSpace (noFeed text present)]
  rw [and_right_comm, ← isWord_iff, ← sameWords]
  rfl

/-- Without form feeds an operator admits what it accepts, but for words with a foreign blank. -/
theorem admits_iff {operator : AttributeOperator} {operand : String} {value : Option String}
    (noFeed : ∀ text ∈ value, '\x0c' ∉ text.toList) :
    operator.Admits operand value ↔
      operator.Accepts operand value ∧ ¬ (operator = includes ∧ HoldsForeignBlank operand) := by
  cases operator with
  | includes => rw [admits_word_iff noFeed, ← accepts_word_iff, and_iff_right rfl]
  | _ => simp [Admits]

end AttributeOperator

namespace Condition

/-! ### Attributes by name -/

/-- The expression stands for the attribute with the given name, wherever it is used. -/
structure NamesAttribute (attr : Expr) (name : String) : Prop where
  valid : attr.Valid
  level : attr.level = pathLevel
  isAttribute : ∀ document address position size, ∃ list,
    attr.IsAttribute document ⟨.tree address, position, size⟩ (document.value? address name) list

theorem namesAttribute_attributeNamed (name : String) :
    NamesAttribute (attributeNamed name) name :=
  ⟨(valid_attributeNamed name).1, (valid_attributeNamed name).2,
    fun _ _ _ _ => isAttribute_attributeNamed name⟩

theorem namesAttribute_attributeInNamespace (ns name : String) :
    NamesAttribute (attributeInNamespace ns name) (ns ++ ":" ++ name) :=
  ⟨(valid_attributeInNamespace ns name).1, (valid_attributeInNamespace ns name).2,
    fun _ _ _ _ => isAttribute_attributeInNamespace ns name⟩

/-- An attribute selector compares the attribute with its name and the text of its operand. -/
theorem exists_ofAttribute (options : Options) (selector : AttributeSelector) :
    ∃ attr, NamesAttribute attr (selector.attribute options) ∧
      ofAttribute options selector = compare attr selector.operator (selector.operand options) := by
  obtain ⟨ns, name, operator, value⟩ := selector
  cases ns with
  | none => exact ⟨_, namesAttribute_attributeNamed _, rfl⟩
  | some ns => exact ⟨_, namesAttribute_attributeInNamespace ns _, rfl⟩

/-! ### Operators -/

/-- Values are compared as they are written unless the options fold them. -/
theorem operand_of_exact {options : Options} (exact : options.lowerCaseAttributeValues = false)
    (selector : AttributeSelector) :
    selector.operand options = selector.value.elim "" Token.value := by
  unfold AttributeSelector.operand
  cases selector.value with
  | none => rfl
  | some token => simp [exact, Options.foldCase]

/-- The text of an attribute selector is true of an element exactly if its operator accepts the
value of the attribute, which may not be there. -/
theorem isConditionFor_ofAttribute (document : Document) {options : Options}
    (exact : options.lowerCaseAttributeValues = false) {selector : AttributeSelector}
    (noWord : selector.operator ≠ .includes) :
    IsConditionFor document (ofAttribute options selector).text fun x =>
      selector.operator.Accepts (selector.value.elim "" Token.value)
        (document.value? x (selector.attribute options)) := by
  refine Expr.isConditionFor (valid_ofAttribute options selector)
    fun x _ position size positive => ?_
  have asserts : (ofAttribute options selector).Asserts document ⟨.tree x, position, size⟩
      (selector.operator.Admits (selector.operand options)
        (document.value? x (selector.attribute options))) :=
    asserts_ofAttribute positive options selector
  rw [operand_of_exact exact] at asserts
  -- the two readings of an operator part at words only
  have same (operand : String) (value : Option String) :
      selector.operator.Admits operand value ↔ selector.operator.Accepts operand value := by
    cases operator : selector.operator with
    | includes => exact absurd operator noWord
    | _ => exact Iff.rfl
  exact asserts.congr (same _ _)

/-- The value is shorter than the operand by one character and by two bytes. -/
theorem isConditionFor_ofAttribute_longer :
    let document : Document := ⟨"a", ⟨[("title", "é")], by decide⟩, []⟩
    let selector : AttributeSelector := ⟨none, "title", .suffixMatch, some ⟨.string, "né", 8⟩⟩
    Options.generic.lowerCaseAttributeValues = false ∧ selector.operator ≠ .includes ∧
      (ofAttribute .generic selector).text =
        "@title and substring(@title, string-length(@title)-1) = 'né'" ∧
      IsConditionFor document (ofAttribute .generic selector).text fun x =>
        AttributeOperator.suffixMatch.Accepts "né" (document.value? x "title") :=
  ⟨rfl, by decide, by decide +kernel, isConditionFor_ofAttribute _ rfl (by decide)⟩

/-! ### Words of an attribute -/

/-- The text is true of an element exactly if the word may be a word of an attribute and is one of
the words of the attribute with the given name. A form feed is no blank in XPath, so nothing is said
of an element with one in the value of the attribute. -/
def AsksForWord (text name word : String) : Prop :=
  ∀ document, ∃ Claim, IsConditionFor document text Claim ∧
    ∀ x, (∀ value ∈ document.value? x name, '\x0c' ∉ value.toList) →
      (Claim x ↔ IsCssWord word ∧
        ∃ value ∈ document.value? x name, word.toList ∈ words isCssBlank value.toList)

/-- What is no word is asked for by a condition that never holds. -/
theorem text_hasWord_eq_zero_iff (attr : Expr) (word : String) :
    (hasWord attr word).text = "0" ↔ isWord word = false := by
  constructor
  · intro zero
    refine Bool.eq_false_iff.mpr fun isWord => ?_
    -- the test for a word is longer than one digit
    rw [hasWord, if_pos isWord] at zero
    have length := congrArg (fun text => text.toList.length) zero
    simp [Expr.text, Operator.text] at length
    omega
  · intro noWord
    rw [hasWord, noWord]
    rfl

/-- A word of the grammar is given up exactly if it holds a foreign blank. -/
theorem text_hasWord_foreign_iff (attr : Expr) (word : String) :
    IsCssWord word ∧ (hasWord attr word).text = "0" ↔ HoldsForeignBlank word := by
  rw [text_hasWord_eq_zero_iff, isWord_eq_false_iff]
  constructor
  · rintro ⟨⟨nonempty, visible⟩, empty | blank⟩
    · exact absurd empty nonempty
    · exact ⟨blank, visible⟩
  · exact fun foreign => ⟨foreign.isCssWord, .inr foreign.1⟩

/-- A document of one element with one attribute. -/
def documentOf (name value : String) : Document :=
  ⟨"a", ⟨[(name, value)], List.nodup_singleton _⟩, []⟩

theorem value?_documentOf (name value : String) :
    (documentOf name value).value? [0] name = some value := by
  simp [Document.value?, Document.attributesAt, documentOf, Document.content?, Document.contents,
    Document.root]

section HasWord

variable {attr : Expr} {name : String} (names : NamesAttribute attr name) (word : String)

include names

theorem isConditionFor_hasWord (document : Document) :
    IsConditionFor document (hasWord attr word).text fun x =>
      AttributeOperator.includes.Admits word (document.value? x name) := by
  refine Expr.isConditionFor (valid_hasWord names.valid names.level word)
    fun x _ position size positive => ?_
  obtain ⟨list, isAttribute⟩ := names.isAttribute document x position size
  exact asserts_hasWord isAttribute positive word

/-- A word is asked for unless it holds a foreign blank. -/
theorem asksForWord_hasWord_iff :
    AsksForWord (hasWord attr word).text name word ↔ ¬ HoldsForeignBlank word := by
  constructor
  · intro asks foreign
    obtain ⟨Claim, isCondition, claims⟩ := asks (documentOf name word)
    -- the root element has the word, and the condition is the number zero
    have noFeed (value : String) (present : value ∈ (documentOf name word).value? [0] name) :
        '\x0c' ∉ value.toList := by
      rw [value?_documentOf] at present
      obtain rfl := Option.some.inj present
      exact fun feed => absurd (foreign.2 _ feed) (by decide)
    have claimed := (claims [0] noFeed).mpr
      ⟨foreign.isCssWord, word, value?_documentOf name word, foreign.isCssWord.mem_words⟩
    have root : (documentOf name word).IsElement [0] := rfl
    have admits := (isCondition.unique (isConditionFor_hasWord names word _) root).mp claimed
    obtain ⟨c, inside, blank⟩ := foreign.1
    exact Bool.eq_false_iff.mp ((isWord_eq_true_iff.mp admits.1).2 c inside) blank
  · intro known document
    refine ⟨_, isConditionFor_hasWord names word document, fun x noFeed => ?_⟩
    exact (AttributeOperator.admits_word_iff noFeed).trans (and_iff_left known)

end HasWord

/-- A class, and a word that an attribute selector compares with, is asked for as a word of the
grammar unless it holds a blank of Unicode that is none of the grammar. Exactly these words are
given up, and their condition is the number zero. -/
theorem asksForWord_iff (options : Options) :
    (∀ word,
      (AsksForWord (ofClass options word).text options.classAttribute word ↔
        ¬ HoldsForeignBlank word) ∧
      (IsCssWord word ∧ (ofClass options word).text = "0" ↔ HoldsForeignBlank word)) ∧
    ∀ ns name value, let selector : AttributeSelector := ⟨ns, name, .includes, value⟩
      (AsksForWord (ofAttribute options selector).text (selector.attribute options)
          (selector.operand options) ↔ ¬ HoldsForeignBlank (selector.operand options)) ∧
      (IsCssWord (selector.operand options) ∧ (ofAttribute options selector).text = "0" ↔
        HoldsForeignBlank (selector.operand options)) := by
  constructor
  · intro word
    exact ⟨asksForWord_hasWord_iff (namesAttribute_attributeNamed _) word,
      text_hasWord_foreign_iff _ word⟩
  · intro ns name value selector
    obtain ⟨attr, names, eq⟩ := exists_ofAttribute options selector
    rw [eq]
    exact ⟨asksForWord_hasWord_iff names _, text_hasWord_foreign_iff attr _⟩

/-- A class with a no-break space is a word of the grammar, and its selector matches nothing. -/
theorem not_asksForWord_nbsp :
    IsCssWord "a\u00a0b" ∧ (ofClass .generic "a\u00a0b").text = "0" ∧
      ¬ AsksForWord (ofClass .generic "a\u00a0b").text "class" "a\u00a0b" := by
  have foreign := holdsForeignBlank_nbsp
  obtain ⟨isWord, zero⟩ := (text_hasWord_foreign_iff (attributeNamed "class") _).mpr foreign
  exact ⟨isWord, zero, fun asks =>
    (asksForWord_hasWord_iff (namesAttribute_attributeNamed "class") _).mp asks foreign⟩

end Condition

end SelectorPath
