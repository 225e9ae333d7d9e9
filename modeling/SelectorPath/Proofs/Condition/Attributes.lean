import SelectorPath.Condition.Attribute
import SelectorPath.Proofs.XPath.Selection

/-!
# Conditions on attributes say what the operators ask

An attribute is found whether its name can be written as it stands or has to be compared, and each
operator is then translated to a question about its value. Words are the one place where the two
languages differ: they are separated by blanks, and the two sets of blanks are not the same. The
condition asks for the words of XPath.

## Main definitions

* `AttributeOperator.Accepts` — what an operator asks of the value of an attribute
* `AttributeOperator.Admits` — the same with the words of XPath
* `Expr.IsAttribute` — an expression stands for an attribute with a value, or without one
* `Text.IsSpaced` — all blanks of a text are spaces, tabs and line breaks of XPath

## Main results

* `Condition.isAttribute_attributeNamed` — an attribute is found by its name
* `Condition.asserts_compare` — a comparison holds exactly if the operator admits the value
-/

namespace SelectorPath

open Text XPath Grammar

/-- All blanks of a text are blanks of XPath: spaces, tabs, carriage returns and line feeds. -/
def Text.IsSpaced (text : String) : Prop := ∀ c ∈ text.toList, isBlank c = true → isSpace c = true

/-- What an operator asks of the value of an attribute, which may not be there. -/
def AttributeOperator.Accepts (operator : AttributeOperator) (operand : String)
    (value : Option String) : Prop :=
  match operator with
  | .present => value.isSome
  | .equal => value = some operand
  | .includes => ∃ text ∈ value, operand.toList ∈ words isCssBlank text.toList
  | .dashMatch => ∃ text ∈ value, text = operand ∨ (operand ++ "-").toList <+: text.toList
  | .prefixMatch => operand ≠ "" ∧ ∃ text ∈ value, operand.toList <+: text.toList
  | .suffixMatch => operand ≠ "" ∧ ∃ text ∈ value, operand.toList <:+ text.toList
  | .substringMatch => operand ≠ "" ∧ ∃ text ∈ value, operand.toList <:+: text.toList
  | .notEqual => value ≠ some operand

/-- What an operator asks of a value whose words are those of XPath. A text that is empty or holds a
blank is no word. -/
def AttributeOperator.Admits (operator : AttributeOperator) (operand : String)
    (value : Option String) : Prop :=
  match operator with
  | .includes =>
    Condition.isWord operand = true ∧ ∃ text ∈ value, operand.toList ∈ words isSpace text.toList
  | other => other.Accepts operand value

/-- All blanks in the attributes of a document are blanks of XPath. -/
def Document.IsSpaced (document : Document) : Prop :=
  ∀ address name, ∀ text ∈ document.value? address name, Text.IsSpaced text

instance (text : String) : Decidable (Text.IsSpaced text) :=
  decidable_of_iff (text.toList.all (fun c => !isBlank c || isSpace c) = true) <| by
    simp only [Text.IsSpaced, List.all_eq_true, Bool.or_eq_true, Bool.not_eq_true',
      ← Bool.not_eq_true, ← imp_iff_not_or]

/-- The attributes that are listed at the addresses of a document are all it has. -/
theorem Document.forall_value_of_addresses {document : Document} {p : String → Prop}
    (all : ∀ address ∈ document.addresses, ∀ entry ∈ document.attributesAt address, p entry.2) :
    ∀ address name, ∀ text ∈ document.value? address name, p text := by
  intro address name text known
  obtain ⟨before, after, split, -⟩ := List.lookup_eq_some_iff.mp known
  have present : (document.value? address name).isSome := Option.isSome_of_mem known
  have listed := mem_addresses.mpr (.inr (isElement_of_value? present).isSome)
  exact all address listed (name, text) (by simp [split])

/-- The text that an attribute selector compares with; none is the empty one. -/
def AttributeSelector.operand (options : Options) (selector : AttributeSelector) : String :=
  match selector.value with
  | none => ""
  | some token => Options.foldCase options.lowerCaseAttributeValues token.value

/-- The name of the attribute that a selector asks for, behind its namespace if it has one. -/
def AttributeSelector.attribute (options : Options) (selector : AttributeSelector) : String :=
  let name := Options.foldCase options.lowerCaseAttributeNames selector.name
  match selector.ns with
  | none => name
  | some ns => ns ++ ":" ++ name

variable {document : Document} {context : Context}

/-! ### Finding an attribute -/

namespace Document

theorem mem_attributeNodes {address : Address} {node : Node} :
    node ∈ document.attributeNodes address ↔
      ∃ name, node = .attribute address name ∧ (document.value? address name).isSome := by
  simp only [attributeNodes, List.mem_map, isSome_value?]
  constructor
  · rintro ⟨entry, member, rfl⟩
    exact ⟨entry.1, rfl, entry, member, rfl⟩
  · rintro ⟨name, rfl, entry, member, rfl⟩
    exact ⟨entry, member, rfl⟩

theorem attribute_mem_nodes {address : Address} {name : String}
    (present : (document.value? address name).isSome) :
    Node.attribute address name ∈ document.nodes := by
  refine List.mem_flatMap.mpr ⟨address, ?_, ?_⟩
  · exact mem_addresses.mpr (.inr (isElement_of_value? present).isSome)
  · exact List.mem_cons_of_mem _ (mem_attributeNodes.mpr ⟨name, rfl, present⟩)

/-- Of several nodes that are all the same, it is the first. -/
theorem first?_eq_some {list : List Node} {node : Node} (listed : node ∈ document.nodes)
    (member : node ∈ list) (same : ∀ other ∈ list, other = node) :
    document.first? list = some node := by
  cases found : document.first? list with
  | none =>
    have none := List.find?_eq_none.mp found node listed
    exact absurd (decide_eq_true member) none
  | some other =>
    have inside : decide (other ∈ list) = true :=
      @List.find?_some _ (fun node => decide (node ∈ list)) _ _ found
    rw [same other (of_decide_eq_true inside)]

end Document

/-- The expression stands for an attribute: it has the node of the attribute with the value, or no
node if there is no value. -/
structure XPath.Expr.IsAttribute (document : Document) (context : Context) (expr : Expr)
    (value : Option String) (list : List Node) : Prop where
  eval : expr.eval document context = some (.nodes list)
  absent : list = [] ↔ value = none
  each : ∀ node ∈ list, value = some (document.stringValue node)
  text : Value.text document (.nodes list) = value.getD ""

/-- Nodes that are all the same attribute are read as its value. -/
theorem isAttribute_of_mem {expr : Expr} {address : Address} {name : String} {list : List Node}
    (eval : expr.eval document context = some (.nodes list))
    (mem : ∀ node, node ∈ list ↔
      node = .attribute address name ∧ (document.value? address name).isSome) :
    expr.IsAttribute document context (document.value? address name) list := by
  cases known : document.value? address name with
  | none =>
    have empty : list = [] := List.eq_nil_iff_forall_not_mem.mpr fun node member => by
      simpa [known] using (mem node).mp member
    refine ⟨eval, by simp [empty], by simp [empty], ?_⟩
    have nothing : document.first? list = none := by simp [Document.first?, empty]
    rw [Value.text, nothing]
    rfl
  | some text =>
    have member : Node.attribute address name ∈ list := (mem _).mpr ⟨rfl, by simp [known]⟩
    have same (node : Node) (inside : node ∈ list) : node = .attribute address name :=
      ((mem node).mp inside).1
    have string : document.stringValue (.attribute address name) = text := by
      simp [Document.stringValue, known]
    refine ⟨eval, ?_, ?_, ?_⟩
    · exact iff_of_false (List.ne_nil_of_mem member) (by simp)
    · intro node inside
      rw [same node inside, string]
    · have present : (document.value? address name).isSome := by rw [known]; rfl
      rw [Value.text,
        Document.first?_eq_some (Document.attribute_mem_nodes present) member same]
      exact string

namespace Condition

theorem eval_nameIs (name : String) :
    (Expr.nameIs name).eval document context =
      some (.boolean (document.nodeName context.node == name)) := by
  rw [Expr.nameIs, Expr.eval_binary (by simp) (Expr.eval_call Expr.evalAll_nil)
    (Expr.eval_literal name)]
  simp [operate, Operator.standard, Value.compare]

section Named

variable {name : String} {address : Address} {position size : Nat}

/-- An attribute whose name can be written is found by a name test. -/
theorem isAttribute_step (plain : isPlainQName name = true) :
    ∃ list, (Expr.step .attribute name []).IsAttribute document ⟨.tree address, position, size⟩
      (document.value? address name) list := by
  have select : document.select .attribute (nodeTest name) (.tree address) =
      some ((document.attributeNodes address).filter
        (document.passes .attribute (.name name))) := by
    rw [nodeTest_qualified plain]
    rfl
  have decided : Decided document .attribute name [] (.tree address) :=
    decided_of_select select (by simp)
  obtain ⟨list, eval, mem⟩ := exists_eval_step ⟨.tree address, position, size⟩ .attribute decided
  refine ⟨list, isAttribute_of_mem eval fun node => (mem node).trans ?_⟩
  rw [selects_iff select (fun _ => True) (by simp), List.mem_filter, Document.mem_attributeNodes]
  constructor
  · rintro ⟨⟨⟨other, rfl, present⟩, passes⟩, -⟩
    obtain rfl : other = name := by
      simpa [Document.passes, Document.isPrincipal, Document.nodeName] using passes
    exact ⟨rfl, present⟩
  · rintro ⟨rfl, present⟩
    refine ⟨⟨⟨name, rfl, present⟩, ?_⟩, trivial⟩
    simp [Document.passes, Document.isPrincipal, Document.nodeName]

theorem select_attributes :
    document.select .attribute (nodeTest "*") (.tree address) =
      some (document.attributeNodes address) := by
  rw [nodeTest_star, Document.select]
  refine congrArg some (List.filter_eq_self.mpr fun node member => ?_)
  obtain ⟨other, rfl, -⟩ := Document.mem_attributeNodes.mp member
  rfl

theorem asserts_nameIs (name : String) :
    (Expr.nameIs name).Asserts document context (document.nodeName context.node = name) :=
  Expr.asserts_of_boolean (eval_nameIs name) beq_iff_eq

/-- Any attribute is found by a comparison of its name. -/
theorem isAttribute_compared :
    ∃ list, (Expr.step (.named .attribute) "*" [.nameIs name]).IsAttribute document
      ⟨.tree address, position, size⟩ (document.value? address name) list := by
  have decides : ∀ node ∈ document.attributeNodes address, ∀ position size, 0 < position →
      ∀ expr ∈ [Expr.nameIs name], expr.Decides document ⟨node, position, size⟩ := by
    intro node _ position size _ expr member
    rw [List.mem_singleton.mp member]
    exact (asserts_nameIs name).decides
  obtain ⟨list, eval, mem⟩ := exists_eval_step ⟨.tree address, position, size⟩
    (.named .attribute) (decided_of_select select_attributes decides)
  refine ⟨list, isAttribute_of_mem eval fun node => (mem node).trans ?_⟩
  rw [selects_iff select_attributes (fun node => document.nodeName node = name)
    (fun node _ position size _ => by simp [(asserts_nameIs name).holds]),
    Document.mem_attributeNodes]
  constructor
  · rintro ⟨⟨other, rfl, present⟩, same⟩
    obtain rfl : other = name := same
    exact ⟨rfl, present⟩
  · rintro ⟨rfl, present⟩
    exact ⟨⟨name, rfl, present⟩, rfl⟩

/-- An attribute is found by its name, whether the name can be written or not. -/
theorem isAttribute_attributeNamed (name : String) :
    ∃ list, (attributeNamed name).IsAttribute document ⟨.tree address, position, size⟩
      (document.value? address name) list := by
  unfold attributeNamed
  by_cases plain : isPlainName name = true
  · rw [if_pos plain]
    exact isAttribute_step (isPlainQNameChars_of_isPlainNameChars plain)
  · rw [if_neg plain]
    exact isAttribute_compared

theorem isAttribute_attributeInNamespace (ns name : String) :
    ∃ list, (attributeInNamespace ns name).IsAttribute document ⟨.tree address, position, size⟩
      (document.value? address (ns ++ ":" ++ name)) list := by
  unfold attributeInNamespace
  split
  · rename_i plain
    rw [Bool.and_eq_true] at plain
    exact isAttribute_step (isPlainQName_iff.mpr (.inr ⟨ns, name, plain.1, plain.2, rfl⟩))
  · exact isAttribute_attributeNamed _

end Named

/-! ### Comparisons -/

section Compare

variable {attr : Expr} {value : Option String} {list : List Node}
  (isAttribute : attr.IsAttribute document context value list) (operand : String)

include isAttribute

theorem asserts_attribute : attr.Asserts document context value.isSome := by
  refine Expr.asserts_of_nodes isAttribute.eval ?_
  rw [ne_eq, isAttribute.absent, Option.isSome_iff_ne_none]

/-- An attribute compared with a text is equal to it, or is not, if there is a value. -/
theorem any_stringValue (same : Bool) :
    list.any (fun node => (document.stringValue node == operand) == same) = true ↔
      ∃ text ∈ value, (text == operand) = same := by
  rw [List.any_eq_true]
  constructor
  · rintro ⟨node, member, equal⟩
    exact ⟨_, isAttribute.each node member, by simpa using equal⟩
  · rintro ⟨text, rfl, equal⟩
    obtain ⟨node, member⟩ := List.exists_mem_of_ne_nil list
      (mt isAttribute.absent.mp (Option.some_ne_none text))
    have string := Option.some.inj (isAttribute.each node member)
    exact ⟨node, member, by simpa [string] using equal⟩

theorem asserts_equal :
    (Expr.binary .equal attr (.literal operand)).Asserts document context
      (value = some operand) := by
  refine Expr.asserts_of_boolean
    (Expr.eval_binary (by simp) isAttribute.eval (Expr.eval_literal operand)) ?_
  refine (any_stringValue isAttribute operand true).trans ?_
  simp [Option.mem_def]

theorem asserts_notEqual :
    (Expr.binary .notEqual attr (.literal operand)).Asserts document context
      (∃ text ∈ value, text ≠ operand) := by
  refine Expr.asserts_of_boolean
    (Expr.eval_binary (by simp) isAttribute.eval (Expr.eval_literal operand)) ?_
  refine (any_stringValue isAttribute operand false).trans ?_
  simp

/-- The values of an attribute and of a text that a function is called with. -/
theorem evalAll_attribute :
    Expr.evalAll document context [attr, .literal operand] =
      some [.nodes list, .string operand] :=
  Expr.evalAll_cons isAttribute.eval (Expr.evalAll_cons (Expr.eval_literal operand) rfl)

theorem asserts_startsWith :
    (Expr.call .startsWith [attr, .literal operand]).Asserts document context
      (operand.toList <+: (value.getD "").toList) := by
  refine Expr.asserts_of_boolean (Expr.eval_call (evalAll_attribute isAttribute operand)) ?_
  rw [isAttribute.text]
  exact List.isPrefixOf_iff_prefix

theorem asserts_contains :
    (Expr.call .contains [attr, .literal operand]).Asserts document context
      (operand.toList <:+: (value.getD "").toList) := by
  refine Expr.asserts_of_boolean (Expr.eval_call (evalAll_attribute isAttribute operand)) ?_
  rw [isAttribute.text]
  exact decide_eq_true_iff

/-- What is left from the place where the operand would start is the operand if the text ends in
it. -/
theorem asserts_hasSuffix :
    (hasSuffix attr operand).Asserts document context
      (operand.toList <:+ (value.getD "").toList) := by
  have length : (Expr.call .stringLength [attr]).eval document context =
      some (.number (value.getD "").length) := by
    rw [← isAttribute.text]
    exact Expr.eval_call (Expr.evalAll_cons isAttribute.eval Expr.evalAll_nil)
  have start : (Expr.binary (.minus .neither) (.call .stringLength [attr])
      (.integer (operand.length - 1))).eval document context =
        some (.number ((value.getD "").length - (operand.length - 1))) :=
    Expr.eval_binary (by simp) length (Expr.eval_integer _)
  have rest : (Expr.call .substring [attr, .binary (.minus .neither) (.call .stringLength [attr])
      (.integer (operand.length - 1))]).eval document context =
        some (.string (String.ofList ((value.getD "").toList.drop
          ((value.getD "").length - operand.length)))) := by
    rw [Expr.eval_call (Expr.evalAll_cons isAttribute.eval
      (Expr.evalAll_cons start Expr.evalAll_nil))]
    have index : ((((value.getD "").length : Int) - (operand.length - 1)) - 1).toNat =
        (value.getD "").length - operand.length := by omega
    rw [← index, ← isAttribute.text]
    rfl
  refine Expr.asserts_of_boolean
    (Expr.eval_binary (by simp) rest (Expr.eval_literal operand)) ?_
  have sameText (cs : List Char) : ((String.ofList cs == operand) == true) = true ↔
      operand.toList = cs := by
    rw [beq_true, beq_iff_eq, ← String.toList_inj, String.toList_ofList, eq_comm]
  exact (sameText _).trans List.suffix_iff_eq_drop.symm

omit isAttribute in
/-- A word stands between two spaces in the normalized text exactly if it is one of its words. -/
theorem isInfix_normalizeSpace {word : String} (isWord : Condition.isWord word = true)
    (text : String) :
    (" " ++ word ++ " ").toList <:+: (" " ++ normalizeSpace text ++ " ").toList ↔
      word.toList ∈ words isSpace text.toList := by
  simp only [Condition.isWord, Bool.and_eq_true, Bool.not_eq_true', List.isEmpty_eq_false_iff,
    List.any_eq_false] at isWord
  obtain ⟨nonempty, noBlank⟩ := isWord
  have left : (" " ++ word ++ " ").toList = ' ' :: (word.toList ++ [' ']) := by simp
  have right : (" " ++ normalizeSpace text ++ " ").toList =
      ' ' :: (separated ' ' (words isSpace text.toList) ++ [' ']) := by simp [normalizeSpace]
  rw [left, right]
  refine isInfix_separated (fun other member blank => ?_) nonempty
  rcases List.mem_cons.mp member with rfl | member
  · exact noBlank ' ' blank (by decide)
  · have visible := (of_mem_words member).2 ' ' blank
    exact absurd visible (by decide)

theorem asserts_hasWord (positive : 0 < context.position) (word : String) :
    (hasWord attr word).Asserts document context (AttributeOperator.includes.Admits word value) := by
  unfold hasWord
  split
  · rename_i isWord
    have normalized : (Expr.call .normalizeSpace [attr]).eval document context =
        some (.string (normalizeSpace (value.getD ""))) := by
      rw [← isAttribute.text]
      exact Expr.eval_call (Expr.evalAll_cons isAttribute.eval Expr.evalAll_nil)
    have between : (Expr.call .concat
        [.literal " ", .call .normalizeSpace [attr], .literal " "]).eval document context =
          some (.string (" " ++ normalizeSpace (value.getD "") ++ " ")) := by
      rw [Expr.eval_call (Expr.evalAll_cons (Expr.eval_literal _)
        (Expr.evalAll_cons normalized (Expr.evalAll_cons (Expr.eval_literal _) Expr.evalAll_nil)))]
      simp [callFunction, Function.text, Value.text, String.append_assoc]
    have contains : (Expr.call .contains [.call .concat
        [.literal " ", .call .normalizeSpace [attr], .literal " "],
          .literal (" " ++ word ++ " ")]).Asserts document context
        ((" " ++ word ++ " ").toList <:+: (" " ++ normalizeSpace (value.getD "") ++ " ").toList) :=
      Expr.asserts_of_boolean (Expr.eval_call (Expr.evalAll_cons between
        (Expr.evalAll_cons (Expr.eval_literal _) Expr.evalAll_nil))) decide_eq_true_iff
    refine ((asserts_attribute isAttribute).and contains).congr ?_
    cases value with
    | none => simp [AttributeOperator.Admits]
    | some text =>
      rw [Option.getD_some, isInfix_normalizeSpace isWord]
      simp [AttributeOperator.Admits, isWord]
  · rename_i noWord
    exact (Expr.asserts_zero positive).congr (iff_of_false id fun admits => noWord admits.1)

/-- A test that is made only of a value, and not with an empty operand. -/
theorem asserts_unlessEmpty (positive : 0 < context.position) {test : Expr} {p : String → Prop}
    (asserts : test.Asserts document context (p (value.getD ""))) :
    (unlessEmpty operand (ifPresent attr test)).Asserts document context
      (operand ≠ "" ∧ ∃ text ∈ value, p text) := by
  unfold unlessEmpty
  by_cases empty : operand = ""
  · rw [empty]
    exact (Expr.asserts_zero positive).congr (by simp)
  · rw [if_neg (by simpa using empty)]
    refine ((asserts_attribute isAttribute).and asserts).congr ?_
    cases value <;> simp [empty]

/-- What an operator is translated to holds exactly if the operator admits the value. -/
theorem asserts_compare (positive : 0 < context.position) (operator : AttributeOperator) :
    (compare attr operator operand).Asserts document context (operator.Admits operand value) := by
  have present := asserts_attribute isAttribute
  have startsWith (start : String) := asserts_startsWith isAttribute start
  cases operator with
  | present => exact present
  | equal => exact asserts_equal isAttribute operand
  | includes => exact asserts_hasWord isAttribute positive operand
  | dashMatch =>
    refine (present.and ((asserts_equal isAttribute operand).or (startsWith _)).group).congr ?_
    cases value <;> simp [AttributeOperator.Admits, AttributeOperator.Accepts]
  | prefixMatch => exact asserts_unlessEmpty isAttribute operand positive (startsWith operand)
  | suffixMatch =>
    exact asserts_unlessEmpty isAttribute operand positive (asserts_hasSuffix isAttribute operand)
  | substringMatch =>
    exact asserts_unlessEmpty isAttribute operand positive (asserts_contains isAttribute operand)
  | notEqual =>
    refine (present.not.or (asserts_notEqual isAttribute operand)).congr ?_
    cases value <;> simp [AttributeOperator.Admits, AttributeOperator.Accepts]

end Compare

/-! ### Simple selectors about attributes -/

section Simple

variable {address : Address} {position size : Nat}

theorem asserts_ofClass (positive : 0 < position) (options : Options) (name : String) :
    (ofClass options name).Asserts document ⟨.tree address, position, size⟩
      (AttributeOperator.includes.Admits name
        (document.value? address options.classAttribute)) := by
  obtain ⟨list, isAttribute⟩ := isAttribute_attributeNamed options.classAttribute
  exact asserts_hasWord isAttribute positive name

theorem asserts_ofId (options : Options) (value : String) :
    (ofId options value).Asserts document ⟨.tree address, position, size⟩
      (document.value? address options.idAttribute = some value) := by
  obtain ⟨list, isAttribute⟩ := isAttribute_attributeNamed options.idAttribute
  exact asserts_equal isAttribute value

/-- An attribute selector asks for the attribute with its name, and compares with the text of its
operand. -/
theorem asserts_ofAttribute (positive : 0 < position) (options : Options)
    (selector : AttributeSelector) :
    (ofAttribute options selector).Asserts document ⟨.tree address, position, size⟩
      (selector.operator.Admits (selector.operand options)
        (document.value? address (selector.attribute options))) := by
  obtain ⟨ns, name, operator, value⟩ := selector
  cases ns with
  | none =>
    obtain ⟨list, isAttribute⟩ :=
      isAttribute_attributeNamed (Options.foldCase options.lowerCaseAttributeNames name)
    exact asserts_compare isAttribute _ positive operator
  | some ns =>
    obtain ⟨list, isAttribute⟩ :=
      isAttribute_attributeInNamespace ns (Options.foldCase options.lowerCaseAttributeNames name)
    exact asserts_compare isAttribute _ positive operator

end Simple

end Condition

end SelectorPath
