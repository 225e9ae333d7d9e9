import SelectorPath.CompileError
import SelectorPath.Condition.Attribute

/-!
# Conditions of pseudo-classes

The pseudo-classes without arguments. Some ask for the place among the siblings; some ask for a
state that a document at rest never has, and hold nowhere. In HTML, links and form controls have
states that can be read off the document.

## Main definitions

* `Condition.neverMatching` — the states that no document has
* `Condition.inHtml?` — the states of links and form controls in HTML
* `Condition.structural` — the places among siblings
* `Condition.ofPseudoClass` — the condition of a pseudo-class on the last step of a path
* `Condition.Structural` — what pseudo-classes ask for in every document

## Main results

* `Condition.ofPseudoClass_cases` — where the condition of a pseudo-class comes from
-/

namespace SelectorPath.Condition

open XPath

/-- The pseudo-classes about interaction, navigation and time, which no document at rest matches. -/
def neverMatching : List String :=
  ["link", "visited", "hover", "active", "focus", "focus-within", "focus-visible", "target",
    "target-within", "current", "past", "future", "checked", "disabled", "enabled"]

/-! ### States in HTML -/

/-- The context node has the given name. -/
def isNamed (name : String) : Expr := .binary .equal (.call .name [.self]) (.literal name)

/-- The attribute `name` of the context node. -/
def own (name : String) : Expr := .step .attribute name []

/-- Any of `first` and `rest`. -/
def anyOf (first : Expr) (rest : List Expr) : Expr := rest.foldl (.binary .or) first

/-- The context node has one of the given names. -/
def isOneOf (first : String) (rest : List String) : Expr :=
  .group (anyOf (isNamed first) (rest.map isNamed))

/-- Inside an ancestor of the given name that is disabled. -/
def inDisabled (name : String) : Expr := .step (.named .ancestor) name [own "disabled"]

/-- The controls that take a text or are pressed, but no hidden inputs. -/
def textControls : List Expr :=
  [.group (.binary .and (isNamed "input") (.binary .notEqual (own "type") (.literal "hidden"))),
    isNamed "button", isNamed "select", isNamed "textarea"]

/-- A text control, or one of the other conditions. -/
def textControlOr (others : List Expr) : Expr :=
  match textControls ++ others with
  | [] => never
  | first :: rest => anyOf first rest

/-- An option that is selected, or a box or radio button that is checked. -/
def checked : Expr :=
  .binary .or (.group (.binary .and (own "selected") (isNamed "option")))
    (.group
      (.binary .and (.binary .and (own "checked") (isOneOf "input" ["command"]))
        (.group
          (.binary .or (.binary .equal (own "type") (.literal "checkbox"))
            (.binary .equal (own "type") (.literal "radio"))))))

/-- An element that links somewhere. -/
def link : Expr := .binary .and (own "href") (isOneOf "a" ["link", "area"])

/-- A control that is disabled, or a text control inside a field set that is. -/
def disabled : Expr :=
  .binary .or
    (.group
      (.binary .and (own "disabled")
        (.group (textControlOr [isOneOf "command" ["fieldset", "optgroup", "option"]]))))
    (.group (.binary .and (.group (textControlOr [])) (inDisabled "fieldset")))

/-- A link, or a control that is not disabled and not inside a field set or group of options
that is. -/
def enabled : Expr :=
  anyOf (.group link)
    [.group
      (.binary .and (isOneOf "command" ["fieldset", "optgroup"]) (.call .not [own "disabled"])),
    .group
      (.binary .and (.group (textControlOr [isNamed "keygen"]))
        (.call .not [.binary .or (own "disabled") (inDisabled "fieldset")])),
    .group
      (.binary .and (isNamed "option")
        (.call .not [.binary .or (own "disabled") (inDisabled "optgroup")]))]

/-- The pseudo-classes that have a meaning of their own in HTML. -/
def inHtml? (name : String) : Option Expr :=
  match name with
  | "checked" => some checked
  | "link" => some link
  | "disabled" => some disabled
  | "enabled" => some enabled
  | _ => none

/-! ### Places among the siblings -/

/-- The number of nodes that an expression selects is `number`. -/
def countIs (nodes : Expr) (number : Int) : Expr :=
  .binary .equal (.call .count [nodes]) (.integer number)

/-- The siblings along `axis` with the given node test. -/
def siblingsAlong (axis : Axis) (test : String) : Expr := .step (.named axis) test []

/-- The children of the parent with the given node test. -/
def childrenOfParent (test : String) : Expr :=
  .slash (.step (.named .parent) "*" []) (.named .child) test []

/-- The condition of a pseudo-class about elements of one type, which has to be named. -/
def ofType (path : LocationPath) (name : String) (condition : String → Expr) :
    Except CompileError Expr :=
  match path.namedType? with
  | some type => .ok (condition type)
  | none => .error (.untyped name)

/-- The condition of a pseudo-class that has the same meaning in every document. -/
def structural (path : LocationPath) (name : String) : Except CompileError Expr :=
  match name with
  | "root" => .ok (.call .not [.step (.named .parent) "*" []])
  | "scope" => .ok always
  | "first-child" => .ok (countIs (siblingsAlong .precedingSibling "*") 0)
  | "last-child" => .ok (countIs (siblingsAlong .followingSibling "*") 0)
  | "only-child" => .ok (countIs (childrenOfParent "*") 1)
  | "first-of-type" =>
    ofType path name fun type => countIs (siblingsAlong .precedingSibling type) 0
  | "last-of-type" =>
    ofType path name fun type => countIs (siblingsAlong .followingSibling type) 0
  | "only-of-type" => ofType path name fun type => countIs (childrenOfParent type) 1
  | "empty" =>
    .ok (.binary .and (.call .not [.step .child "*" []])
      (.call .not [.call .stringLength []]))
  | _ => if name ∈ neverMatching then .ok never else .error (.unknownPseudoClass name)

/-- The condition of a pseudo-class on the last step of `path`. -/
def ofPseudoClass (options : Options) (path : LocationPath) (name : String) :
    Except CompileError Expr :=
  match if options.dialect.isHtml then inHtml? name else none with
  | some condition => .ok condition
  | none => structural path name

/-! ### What pseudo-classes ask for -/

/-- In every document, the condition says of the last step of the path what the pseudo-class asks
for. -/
inductive Structural (path : LocationPath) : String → Expr → Prop
  | root : Structural path "root" (.call .not [.step (.named .parent) "*" []])
  | scope : Structural path "scope" always
  | firstChild :
      Structural path "first-child" (countIs (siblingsAlong .precedingSibling "*") 0)
  | lastChild :
      Structural path "last-child" (countIs (siblingsAlong .followingSibling "*") 0)
  | onlyChild : Structural path "only-child" (countIs (childrenOfParent "*") 1)
  | firstOfType {type : String} (named : path.namedType? = some type) :
      Structural path "first-of-type" (countIs (siblingsAlong .precedingSibling type) 0)
  | lastOfType {type : String} (named : path.namedType? = some type) :
      Structural path "last-of-type" (countIs (siblingsAlong .followingSibling type) 0)
  | onlyOfType {type : String} (named : path.namedType? = some type) :
      Structural path "only-of-type" (countIs (childrenOfParent type) 1)
  | empty :
      Structural path "empty" (.binary .and (.call .not [.step .child "*" []])
        (.call .not [.call .stringLength []]))
  | never {name : String} (listed : name ∈ neverMatching) : Structural path name never

section Compiled

variable {options : Options} {path : LocationPath} {name : String} {condition : Expr}

theorem inHtml?_cases (known : inHtml? name = some condition) :
    name = "checked" ∧ condition = checked ∨ name = "link" ∧ condition = link ∨
      name = "disabled" ∧ condition = disabled ∨ name = "enabled" ∧ condition = enabled := by
  unfold inHtml? at known
  split at known
  case h_5 => exact nomatch known
  all_goals simpa [eq_comm] using known

theorem ofType_eq_ok_iff {build : String → Expr} :
    ofType path name build = .ok condition ↔
      ∃ type, path.namedType? = some type ∧ condition = build type := by
  rw [ofType]
  cases path.namedType? <;> simp [eq_comm]

theorem structural_cases (compiled : structural path name = .ok condition) :
    Structural path name condition := by
  unfold structural at compiled
  split at compiled
  case h_6 | h_7 | h_8 =>
    obtain ⟨type, named, rfl⟩ := ofType_eq_ok_iff.mp compiled
    constructor
    exact named
  case h_10 =>
    split at compiled
    · rename_i listed
      obtain rfl := Except.ok.inj compiled
      exact .never listed
    · exact nomatch compiled
  all_goals
    obtain rfl := Except.ok.inj compiled
    constructor

/-- A pseudo-class has its meaning in HTML or the one that it has in every document. -/
theorem ofPseudoClass_cases (compiled : ofPseudoClass options path name = .ok condition) :
    inHtml? name = some condition ∨ Structural path name condition := by
  unfold ofPseudoClass at compiled
  split at compiled
  · rename_i known
    obtain rfl := Except.ok.inj compiled
    split at known
    · exact .inl known
    · exact nomatch known
  · exact .inr (structural_cases compiled)

end Compiled

end SelectorPath.Condition
