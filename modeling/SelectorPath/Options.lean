import SelectorPath.Text.Ascii

/-!
# Options of the compilation

A dialect says what the pseudo-classes of forms, links and languages mean; the other options say
which case is folded and which attributes stand behind `#id`, `.class` and `:lang()`.

## Main definitions

* `Dialect`, `Options`
* `Options.generic`, `Options.html`, `Options.xhtml` — the presets
-/

namespace SelectorPath

/-- The kind of document that expressions are evaluated on. -/
inductive Dialect
  | /-- XML without further meaning. -/
    xml
  | /-- HTML, whose element and attribute names are in small letters. -/
    html
  | /-- HTML as XML, with names in any case. -/
    xhtml
  deriving DecidableEq, Repr

/-- Links, form controls and languages have the meaning that HTML gives them. -/
def Dialect.isHtml : Dialect → Bool
  | .xml => false
  | .html | .xhtml => true

/-- The options of the compilation. -/
structure Options where
  dialect : Dialect := .xml
  /-- The text in front of every compiled selector. -/
  leading : String := "descendant-or-self::"
  /-- Type selectors are compared in small letters. -/
  lowerCaseElementNames : Bool := false
  /-- Attribute names are compared in small letters. -/
  lowerCaseAttributeNames : Bool := false
  /-- The values in attribute selectors are compared in small letters. -/
  lowerCaseAttributeValues : Bool := false
  /-- The attribute that `#id` asks for. -/
  idAttribute : String := "id"
  /-- The attribute that `.class` asks for. -/
  classAttribute : String := "class"
  /-- The attribute that `:lang()` asks for in HTML. -/
  langAttribute : String := "lang"
  deriving DecidableEq, Repr

namespace Options

/-- XML with the usual attribute names. -/
def generic : Options := {}

/-- HTML; names are compared in small letters. -/
def html : Options :=
  { dialect := .html, lowerCaseElementNames := true, lowerCaseAttributeNames := true }

/-- HTML as XML; names are compared as they are. -/
def xhtml : Options := { dialect := .xhtml }

/-- The text in small letters if the option asks for it. -/
def foldCase (fold : Bool) (text : String) : String := if fold then Text.lowerCase text else text

end Options

end SelectorPath
