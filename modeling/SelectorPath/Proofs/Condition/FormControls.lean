import SelectorPath.Proofs.Condition.Attributes
import SelectorPath.Proofs.Condition.Validity
import SelectorPath.Proofs.XPath.Elements

/-!
# Enabled and disabled form controls

In HTML a form control is either enabled or disabled. The two conditions are written apart from each
other, each of them with the names it is about, the attribute `disabled`, and the field sets and
groups of options around the element. No form control is both. There are two kinds of control that
are neither: an input without a type, because XPath compares an attribute that is not there with
nothing, and an option that only its group disables, because the condition for disabled elements
does not look at groups.

## Main definitions

* `Document.IsFormControl` — a button, an input that is not hidden, and the like
* `Document.InDisabled` — a disabled element of some name is around an element
* `Document.IsEnabled`, `Document.IsDisabled` — what the two conditions ask for
* `Document.IsUntypedInput`, `Document.IsGroupedOption` — the controls about which both are silent

## Main results

* `Condition.asserts_enabled`, `Condition.asserts_disabled` — the conditions ask for that
* `Document.not_isEnabled_and_isDisabled` — no form control is both
* `Document.isEnabled_or_isDisabled_iff` — which form controls are one of them
-/

namespace SelectorPath

open XPath Grammar

namespace Document

variable {document : Document} {x : Address}

/-- The element has one of the given names. -/
def IsOneOf (document : Document) (names : List String) (x : Address) : Prop :=
  ∃ name ∈ names, document.name? x = some name

/-- An element of the given name that is disabled stands around `x`. -/
def InDisabled (document : Document) (name : String) (x : Address) : Prop :=
  ∃ owner, owner <:+ x ∧ owner ≠ x ∧ document.name? owner = some name ∧
    (document.value? owner "disabled").isSome

/-- The elements of a form that can be enabled or disabled. Hidden inputs are none. -/
def IsFormControl (document : Document) (x : Address) : Prop :=
  document.IsOneOf ["button", "select", "textarea", "option", "optgroup", "fieldset"] x ∨
    document.name? x = some "input" ∧ document.value? x "type" ≠ some "hidden"

/-- A control that takes a text or is pressed. An input has to have a type, and not that of hidden
ones. -/
def IsTextControl (document : Document) (x : Address) : Prop :=
  (document.name? x = some "input" ∧ ∃ type ∈ document.value? x "type", type ≠ "hidden") ∨
    document.IsOneOf ["button", "select", "textarea"] x

/-- What the condition for disabled elements asks for. -/
def IsDisabled (document : Document) (x : Address) : Prop :=
  ((document.value? x "disabled").isSome ∧
      (document.IsTextControl x ∨
        document.IsOneOf ["command", "fieldset", "optgroup", "option"] x)) ∨
    (document.IsTextControl x ∧ document.InDisabled "fieldset" x)

/-- What the condition for enabled elements asks for. -/
def IsEnabled (document : Document) (x : Address) : Prop :=
  ((document.value? x "href").isSome ∧ document.IsOneOf ["a", "link", "area"] x) ∨
    (document.IsOneOf ["command", "fieldset", "optgroup"] x ∧
      ¬ (document.value? x "disabled").isSome) ∨
    ((document.IsTextControl x ∨ document.name? x = some "keygen") ∧
      ¬ ((document.value? x "disabled").isSome ∨ document.InDisabled "fieldset" x)) ∨
    (document.name? x = some "option" ∧
      ¬ ((document.value? x "disabled").isSome ∨ document.InDisabled "optgroup" x))

/-- An input whose type is not given. -/
def IsUntypedInput (document : Document) (x : Address) : Prop :=
  document.name? x = some "input" ∧ document.value? x "type" = none

/-- An option that is not disabled itself, in a group of options that is. -/
def IsGroupedOption (document : Document) (x : Address) : Prop :=
  document.name? x = some "option" ∧ document.value? x "disabled" = none ∧
    document.InDisabled "optgroup" x

/-! ### Enabled or disabled -/

theorem isOneOf_iff {name : String} {names : List String} (known : document.name? x = some name) :
    document.IsOneOf names x ↔ name ∈ names := by
  simp [IsOneOf, known]

theorem IsTextControl.isOneOf (control : document.IsTextControl x) :
    document.IsOneOf ["input", "button", "select", "textarea"] x := by
  rcases control with ⟨known, -⟩ | ⟨name, member, known⟩
  · exact ⟨_, List.mem_cons_self, known⟩
  · exact ⟨name, List.mem_cons_of_mem _ member, known⟩

/-- There are three kinds of form controls besides the inputs without a type. -/
theorem IsFormControl.cases (control : document.IsFormControl x) :
    document.IsTextControl x ∨ document.IsOneOf ["fieldset", "optgroup"] x ∨
      document.name? x = some "option" ∨ document.IsUntypedInput x := by
  rcases control with ⟨name, member, known⟩ | ⟨known, visible⟩
  · simp only [List.mem_cons, List.not_mem_nil, or_false] at member
    rcases member with rfl | rfl | rfl | rfl | rfl | rfl <;>
      simp [IsTextControl, isOneOf_iff known, known]
  · cases type : document.value? x "type" with
    | none => exact .inr (.inr (.inr ⟨known, type⟩))
    | some text =>
      refine .inl (.inl ⟨known, text, type, fun hidden => visible ?_⟩)
      rw [type, hidden]

section Kinds

variable {name : String}

/-- A text control is enabled unless it is disabled itself or by a field set. -/
theorem IsTextControl.isEnabled_iff (control : document.IsTextControl x) :
    document.IsEnabled x ↔
      ¬ ((document.value? x "disabled").isSome ∨ document.InDisabled "fieldset" x) := by
  obtain ⟨name, member, known⟩ := control.isOneOf
  simp only [List.mem_cons, List.not_mem_nil, or_false] at member
  rcases member with rfl | rfl | rfl | rfl <;>
    simp [IsEnabled, isOneOf_iff known, known, control]

theorem IsTextControl.isDisabled_iff (control : document.IsTextControl x) :
    document.IsDisabled x ↔
      (document.value? x "disabled").isSome ∨ document.InDisabled "fieldset" x := by
  simp [IsDisabled, control]

theorem not_isTextControl (known : document.name? x = some name)
    (other : name ∉ ["input", "button", "select", "textarea"]) : ¬ document.IsTextControl x :=
  fun control => other ((isOneOf_iff known).mp control.isOneOf)

/-- A field set or a group of options is enabled or disabled by itself. -/
theorem isEnabled_group_iff (group : document.IsOneOf ["fieldset", "optgroup"] x) :
    document.IsEnabled x ↔ ¬ (document.value? x "disabled").isSome := by
  obtain ⟨name, member, known⟩ := group
  simp only [List.mem_cons, List.not_mem_nil, or_false] at member
  rcases member with rfl | rfl <;>
    simp [IsEnabled, isOneOf_iff known, known, not_isTextControl known]

theorem isDisabled_group_iff (group : document.IsOneOf ["fieldset", "optgroup"] x) :
    document.IsDisabled x ↔ (document.value? x "disabled").isSome := by
  obtain ⟨name, member, known⟩ := group
  simp only [List.mem_cons, List.not_mem_nil, or_false] at member
  rcases member with rfl | rfl <;>
    simp [IsDisabled, isOneOf_iff known, not_isTextControl known]

/-- For an enabled option its group counts. -/
theorem isEnabled_option_iff (known : document.name? x = some "option") :
    document.IsEnabled x ↔
      ¬ ((document.value? x "disabled").isSome ∨ document.InDisabled "optgroup" x) := by
  simp [IsEnabled, isOneOf_iff known, known, not_isTextControl known]

/-- For a disabled option its group does not count. -/
theorem isDisabled_option_iff (known : document.name? x = some "option") :
    document.IsDisabled x ↔ (document.value? x "disabled").isSome := by
  simp [IsDisabled, isOneOf_iff known, not_isTextControl known]

theorem IsUntypedInput.not_isTextControl (untyped : document.IsUntypedInput x) :
    ¬ document.IsTextControl x := by
  obtain ⟨known, noType⟩ := untyped
  simp [IsTextControl, isOneOf_iff known, noType]

theorem IsUntypedInput.not_isEnabled (untyped : document.IsUntypedInput x) :
    ¬ document.IsEnabled x := by
  have noControl := untyped.not_isTextControl
  simp [IsEnabled, isOneOf_iff untyped.1, untyped.1, noControl]

theorem IsUntypedInput.not_isDisabled (untyped : document.IsUntypedInput x) :
    ¬ document.IsDisabled x := by
  have noControl := untyped.not_isTextControl
  simp [IsDisabled, isOneOf_iff untyped.1, noControl]

end Kinds

theorem IsGroupedOption.not_isEnabled (grouped : document.IsGroupedOption x) :
    ¬ document.IsEnabled x :=
  fun enabled => (isEnabled_option_iff grouped.1).mp enabled (.inr grouped.2.2)

theorem IsGroupedOption.not_isDisabled (grouped : document.IsGroupedOption x) :
    ¬ document.IsDisabled x := by
  rw [isDisabled_option_iff grouped.1, grouped.2.1]
  exact Bool.false_ne_true

/-- No form control is enabled and disabled. -/
theorem IsFormControl.not_isEnabled_and_isDisabled (control : document.IsFormControl x) :
    ¬ (document.IsEnabled x ∧ document.IsDisabled x) := by
  rintro ⟨enabled, disabled⟩
  rcases control.cases with control | group | option | untyped
  · exact control.isEnabled_iff.mp enabled (control.isDisabled_iff.mp disabled)
  · exact (isEnabled_group_iff group).mp enabled ((isDisabled_group_iff group).mp disabled)
  · exact (isEnabled_option_iff option).mp enabled (.inl ((isDisabled_option_iff option).mp disabled))
  · exact untyped.not_isEnabled enabled

/-- A form control is enabled or disabled, except for inputs without a type and options that only
their group disables. -/
theorem IsFormControl.isEnabled_or_isDisabled_iff (control : document.IsFormControl x) :
    document.IsEnabled x ∨ document.IsDisabled x ↔
      ¬ document.IsUntypedInput x ∧ ¬ document.IsGroupedOption x := by
  rcases control.cases with control | group | option | untyped
  · rw [control.isEnabled_iff, control.isDisabled_iff]
    have typed : ¬ document.IsUntypedInput x := fun untyped => untyped.not_isTextControl control
    have noOption : ¬ document.IsGroupedOption x := fun option =>
      not_isTextControl option.1 (by decide) control
    exact iff_of_true (Classical.em _).symm ⟨typed, noOption⟩
  · rw [isEnabled_group_iff group, isDisabled_group_iff group]
    have typed : ¬ document.IsUntypedInput x := fun untyped =>
      absurd ((isOneOf_iff untyped.1).mp group) (by decide)
    have noOption : ¬ document.IsGroupedOption x := fun option =>
      absurd ((isOneOf_iff option.1).mp group) (by decide)
    exact iff_of_true (Classical.em _).symm ⟨typed, noOption⟩
  · rw [isEnabled_option_iff option, isDisabled_option_iff option]
    have typed : ¬ document.IsUntypedInput x := fun untyped => by
      simpa [option] using untyped.1
    simp only [typed, not_false_eq_true, true_and, IsGroupedOption, option]
    cases document.value? x "disabled" <;> simp
  · exact iff_of_false (not_or.mpr ⟨untyped.not_isEnabled, untyped.not_isDisabled⟩)
      fun typed => typed.1 untyped

end Document

namespace Condition

variable {document : Document} {context : Context} {x : Address} {position size : Nat}

/-! ### Names and attributes -/

/-- The name of an element, asked of the node itself. -/
theorem asserts_isNamed (inside : document.IsElement x) (name : String) :
    (isNamed name).Asserts document ⟨.tree x, position, size⟩ (document.name? x = some name) := by
  have listed : Node.tree x ∈ document.nodes := by
    refine List.mem_flatMap.mpr ⟨x, ?_, List.mem_cons_self⟩
    exact Document.mem_addresses.mpr (.inr inside.isSome)
  have first : document.first? [.tree x] = some (.tree x) :=
    Document.first?_eq_some listed List.mem_cons_self fun _ => List.mem_singleton.mp
  have eval : (Expr.call .name [.self]).eval document ⟨.tree x, position, size⟩ =
      some (.string ((document.name? x).getD "")) := by
    rw [Expr.eval_call (Expr.evalAll_cons Expr.eval_self Expr.evalAll_nil)]
    show some (Value.string ((document.first? [.tree x]).elim "" document.nodeName)) = _
    rw [first]
    rfl
  refine Expr.asserts_of_boolean
    (Expr.eval_binary (by simp) eval (Expr.eval_literal name)) ?_
  obtain ⟨known, same⟩ := Option.isSome_iff_exists.mp inside
  simp [same]

/-- One of several expressions holds. -/
theorem asserts_anyOf {first : Expr} {rest : List Expr}
    (decides : ∀ expr ∈ first :: rest, expr.Decides document context) :
    (anyOf first rest).Asserts document context
      (∃ expr ∈ first :: rest, expr.Holds document context) := by
  induction rest generalizing first with
  | nil => exact ⟨decides first List.mem_cons_self, by simp [anyOf]⟩
  | cons next rest ih =>
    simp only [List.forall_mem_cons] at decides
    obtain ⟨decidesFirst, decidesNext, behind⟩ := decides
    have either : (Expr.binary .or first next).Asserts document context
        (first.Holds document context ∨ next.Holds document context) :=
      Expr.Asserts.or ⟨decidesFirst, Iff.rfl⟩ ⟨decidesNext, Iff.rfl⟩
    refine (ih (List.forall_mem_cons.mpr ⟨either.decides, behind⟩)).congr ?_
    simp [either.holds, or_assoc]

theorem asserts_isOneOf (inside : document.IsElement x) (first : String) (rest : List String) :
    (isOneOf first rest).Asserts document ⟨.tree x, position, size⟩
      (document.IsOneOf (first :: rest) x) := by
  have named (name : String) := @asserts_isNamed document x position size inside name
  refine (asserts_anyOf fun expr member => ?_).group.congr ?_
  · obtain ⟨name, -, rfl⟩ := List.mem_map.mp (List.map_cons ▸ member)
    exact (named name).decides
  · rw [← List.map_cons]
    simp [Document.IsOneOf, (named _).holds]

theorem asserts_own {name : String} (plain : isPlainQName name = true) :
    (own name).Asserts document ⟨.tree x, position, size⟩ (document.value? x name).isSome := by
  obtain ⟨list, isAttribute⟩ := @isAttribute_step document name x position size plain
  exact asserts_attribute isAttribute

/-! ### Controls -/

/-- The elements around an element are those further out on its address. -/
theorem mem_tail_tails {owner : Address} : owner ∈ x.tails.tail ↔ owner <:+ x ∧ owner ≠ x := by
  cases x with
  | nil =>
    simp
  | cons index parent =>
    rw [List.tails, List.tail_cons, List.mem_tails, List.suffix_cons_iff]
    constructor
    · intro above
      refine ⟨.inr above, ?_⟩
      rintro rfl
      exact absurd above.length_le (by simp)
    · rintro ⟨rfl | above, other⟩
      · exact absurd rfl other
      · exact above

/-- A disabled element of the given name is around the element. -/
theorem asserts_inDisabled {name : String} (plain : isPlainQName name = true) :
    (inDisabled name).Asserts document ⟨.tree x, position, size⟩ (document.InDisabled name x) := by
  have isTest : IsTest (some name) name := ⟨rfl, fun other same => Option.some.inj same ▸ plain⟩
  have attr (owner : Address) (position size : Nat) :
      (own "disabled").Asserts document ⟨.tree owner, position, size⟩
        (document.value? owner "disabled").isSome := asserts_own (by decide +kernel)
  have along : document.along Axis.ancestor.standard (.tree x) =
      some (x.tails.tail.map .tree) := rfl
  have decided : Decided document .ancestor name [own "disabled"] (.tree x) := by
    refine decided_of_select (select_of_along isTest (by simp) along)
      fun node member position size _ => ?_
    obtain ⟨owner, -, rfl⟩ := List.mem_map.mp member
    simpa using (attr owner position size).decides
  obtain ⟨list, eval, mem⟩ :=
    exists_eval_step ⟨.tree x, position, size⟩ (.named .ancestor) decided
  have selects (node : Node) : node ∈ list ↔ ∃ owner, node = .tree owner ∧ owner ∈ x.tails.tail ∧
      document.hasType (some name) owner = true ∧ (document.value? owner "disabled").isSome :=
    (mem node).trans <| selects_of_along isTest (by simp) along fun owner _ _ position size _ => by
      simpa using (attr owner position size).holds
  refine Expr.asserts_of_nodes eval ?_
  constructor
  · intro found
    obtain ⟨node, member⟩ := List.exists_mem_of_ne_nil list found
    obtain ⟨owner, -, above, typed, disabled⟩ := (selects node).mp member
    obtain ⟨suffix, other⟩ := mem_tail_tails.mp above
    exact ⟨owner, suffix, other, Document.hasType_some.mp typed, disabled⟩
  · rintro ⟨owner, suffix, other, named, disabled⟩
    refine List.ne_nil_of_mem ((selects (.tree owner)).mpr ⟨owner, rfl, ?_, ?_, disabled⟩)
    · exact mem_tail_tails.mpr ⟨suffix, other⟩
    · exact Document.hasType_some.mpr named

/-- The input that has a type and is not hidden. -/
theorem asserts_typedInput (inside : document.IsElement x) :
    (Expr.group (.binary .and (isNamed "input")
      (.binary .notEqual (own "type") (.literal "hidden")))).Asserts document
        ⟨.tree x, position, size⟩
        (document.name? x = some "input" ∧ ∃ type ∈ document.value? x "type", type ≠ "hidden") := by
  obtain ⟨list, isAttribute⟩ :=
    @isAttribute_step document "type" x position size (by decide +kernel)
  exact ((asserts_isNamed inside "input").and (asserts_notEqual isAttribute "hidden")).group

/-- A text control, or one of the other conditions holds. -/
theorem asserts_textControlOr (inside : document.IsElement x) {others : List Expr}
    (decides : ∀ expr ∈ others, expr.Decides document ⟨.tree x, position, size⟩) :
    (textControlOr others).Asserts document ⟨.tree x, position, size⟩
      (document.IsTextControl x ∨
        ∃ expr ∈ others, expr.Holds document ⟨.tree x, position, size⟩) := by
  have input := @asserts_typedInput document x position size inside
  have named (name : String) := @asserts_isNamed document x position size inside name
  -- the inputs come first, and the others behind the controls that are known by their names
  have all : ∀ expr ∈ textControls ++ others, expr.Decides document ⟨.tree x, position, size⟩ := by
    simpa [textControls, input.decides, (named _).decides] using decides
  refine (asserts_anyOf all).congr ?_
  simp [input.holds, (named _).holds, Document.IsTextControl, Document.IsOneOf, or_assoc]

theorem asserts_link (inside : document.IsElement x) :
    link.Asserts document ⟨.tree x, position, size⟩
      ((document.value? x "href").isSome ∧ document.IsOneOf ["a", "link", "area"] x) :=
  (asserts_own (by decide +kernel)).and (asserts_isOneOf inside "a" ["link", "area"])

/-- The condition for disabled elements. -/
theorem asserts_disabled (inside : document.IsElement x) :
    disabled.Asserts document ⟨.tree x, position, size⟩ (document.IsDisabled x) := by
  have itself : (own "disabled").Asserts document ⟨.tree x, position, size⟩
      (document.value? x "disabled").isSome := asserts_own (by decide +kernel)
  have listed := @asserts_isOneOf document x position size inside "command"
    ["fieldset", "optgroup", "option"]
  have fieldset : (inDisabled "fieldset").Asserts document ⟨.tree x, position, size⟩
      (document.InDisabled "fieldset" x) := asserts_inDisabled (by decide +kernel)
  have control := @asserts_textControlOr document x position size inside [] (by simp)
  have any := @asserts_textControlOr document x position size inside
    [isOneOf "command" ["fieldset", "optgroup", "option"]] (by simpa using listed.decides)
  refine ((itself.and any.group).group.or (control.group.and fieldset).group).congr ?_
  simp [Document.IsDisabled, listed.holds]

/-- The condition for enabled elements. -/
theorem asserts_enabled (inside : document.IsElement x) :
    enabled.Asserts document ⟨.tree x, position, size⟩ (document.IsEnabled x) := by
  have itself : (own "disabled").Asserts document ⟨.tree x, position, size⟩
      (document.value? x "disabled").isSome := asserts_own (by decide +kernel)
  have fieldset : (inDisabled "fieldset").Asserts document ⟨.tree x, position, size⟩
      (document.InDisabled "fieldset" x) := asserts_inDisabled (by decide +kernel)
  have optgroup : (inDisabled "optgroup").Asserts document ⟨.tree x, position, size⟩
      (document.InDisabled "optgroup" x) := asserts_inDisabled (by decide +kernel)
  have keygen := @asserts_isNamed document x position size inside "keygen"
  have link := @asserts_link document x position size inside
  have group := (asserts_isOneOf inside "command" ["fieldset", "optgroup"]).and itself.not
  have control := (@asserts_textControlOr document x position size inside [isNamed "keygen"]
    (by simpa using keygen.decides)).group.and (itself.or fieldset).not
  have option := (asserts_isNamed inside "option").and (itself.or optgroup).not
  refine (((link.group.or group.group).or control.group).or option.group).congr ?_
  simp only [Document.IsEnabled, List.mem_singleton, exists_eq_left, keygen.holds, or_assoc]

/-! ### The pseudo-classes -/

theorem isConditionFor_enabled (document : Document) :
    IsConditionFor document enabled.text document.IsEnabled :=
  have known : inHtml? "enabled" = some enabled := rfl
  Expr.isConditionFor (valid_inHtml known) fun _ inside _ _ _ => asserts_enabled inside

theorem isConditionFor_disabled (document : Document) :
    IsConditionFor document disabled.text document.IsDisabled :=
  have known : inHtml? "disabled" = some disabled := rfl
  Expr.isConditionFor (valid_inHtml known) fun _ inside _ _ _ => asserts_disabled inside

/-- In HTML, the pseudo-classes with a meaning of their own have it on every path. -/
theorem ofPseudoClass_inHtml {options : Options} (html : options.dialect.isHtml = true)
    (path : LocationPath) {name : String} {condition : Expr}
    (known : inHtml? name = some condition) :
    ofPseudoClass options path name = .ok condition := by
  rw [ofPseudoClass, if_pos html, known]

/-- In HTML, whatever path the pseudo-classes `:enabled` and `:disabled` stand on, they become two
conditions of which no form control fulfils both. It fulfils one of them unless it is an input whose
type is not given, or an option that is not disabled itself and stands in a group of options that
is. -/
theorem exists_ofPseudoClass_enabled_disabled {options : Options}
    (html : options.dialect.isHtml = true) (path : LocationPath) :
    ∃ enabled disabled : Expr, ofPseudoClass options path "enabled" = .ok enabled ∧
      ofPseudoClass options path "disabled" = .ok disabled ∧
      ∀ document : Document, ∃ Enabled Disabled : Address → Prop,
        IsConditionFor document enabled.text Enabled ∧
        IsConditionFor document disabled.text Disabled ∧
        ∀ x, document.IsFormControl x → ¬ (Enabled x ∧ Disabled x) ∧
          (Enabled x ∨ Disabled x ↔
            ¬ document.IsUntypedInput x ∧ ¬ document.IsGroupedOption x) := by
  refine ⟨enabled, disabled, ofPseudoClass_inHtml html path rfl,
    ofPseudoClass_inHtml html path rfl, fun document => ?_⟩
  refine ⟨document.IsEnabled, document.IsDisabled, isConditionFor_enabled document,
    isConditionFor_disabled document, fun x control => ?_⟩
  exact ⟨control.not_isEnabled_and_isDisabled, control.isEnabled_or_isDisabled_iff⟩

/-- The dialect is that of XHTML, and the path ends in a step to buttons. -/
theorem exists_ofPseudoClass_enabled_disabled_xhtml :
    Options.xhtml.dialect.isHtml = true ∧
      ∃ enabled disabled : Expr,
        ofPseudoClass .xhtml (.ofTest "button") "enabled" = .ok enabled ∧
        ofPseudoClass .xhtml (.ofTest "button") "disabled" = .ok disabled ∧
        ∀ document : Document, ∃ Enabled Disabled : Address → Prop,
          IsConditionFor document enabled.text Enabled ∧
          IsConditionFor document disabled.text Disabled ∧
          ∀ x, document.IsFormControl x → ¬ (Enabled x ∧ Disabled x) ∧
            (Enabled x ∨ Disabled x ↔
              ¬ document.IsUntypedInput x ∧ ¬ document.IsGroupedOption x) :=
  ⟨rfl, exists_ofPseudoClass_enabled_disabled rfl _⟩

/-- A form with an input without a type, and with a choice whose only option stands in a disabled
group, has two controls that are neither enabled nor disabled. -/
theorem not_enabled_or_disabled_form :
    let group : Content :=
      .element "optgroup" ⟨[("disabled", "")], by decide⟩ [.element "option" .none []]
    let form : Document :=
      ⟨"form", .none, [.element "input" .none [], .element "select" .none [group]]⟩
    ∃ enabled disabled : Expr, ofPseudoClass .html (.ofTest "*") "enabled" = .ok enabled ∧
      ofPseudoClass .html (.ofTest "*") "disabled" = .ok disabled ∧
      ∃ Enabled Disabled : Address → Prop,
        IsConditionFor form enabled.text Enabled ∧ IsConditionFor form disabled.text Disabled ∧
        ∀ x ∈ [[0, 0], [0, 0, 1, 0]],
          form.IsFormControl x ∧ ¬ Enabled x ∧ ¬ Disabled x := by
  intro group form
  have input : form.IsUntypedInput [0, 0] := ⟨rfl, rfl⟩
  have option : form.IsGroupedOption [0, 0, 1, 0] :=
    ⟨rfl, rfl, [0, 1, 0], ⟨[0], rfl⟩, by decide, rfl, rfl⟩
  refine ⟨enabled, disabled, ofPseudoClass_inHtml rfl _ rfl, ofPseudoClass_inHtml rfl _ rfl,
    form.IsEnabled, form.IsDisabled, isConditionFor_enabled form, isConditionFor_disabled form, ?_⟩
  intro x member
  simp only [List.mem_cons, List.not_mem_nil, or_false] at member
  rcases member with rfl | rfl
  · exact ⟨.inr ⟨rfl, nofun⟩, input.not_isEnabled, input.not_isDisabled⟩
  · exact ⟨.inl ⟨"option", by decide, rfl⟩, option.not_isEnabled, option.not_isDisabled⟩

end Condition

end SelectorPath
