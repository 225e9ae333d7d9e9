import SelectorPath.Proofs.Condition.Siblings
import SelectorPath.Proofs.Selector.Evaluable
import SelectorPath.Proofs.Selector.Preservation
import SelectorPath.Proofs.Selector.RoundTrip

/-!
# Two ways to ask for a place among the children

`:nth-child(1)` and `:first-child` ask for the same place, and are compiled in different ways. The
first counts the children below `*`, which is an element, so it finds no root element. The second
counts the siblings in front, and the root element has none. Apart from the root element both find
the same. It is the same for the last child, for the first and the last child of one type, and for
`:only-child`, which counts below the parent, and `:first-child:last-child`, which does not.

## Main definitions

* `ChildPlace` — the places that there are two ways to ask for

## Main results

* `ChildPlace.exists_selects_both` — both ways agree on all elements but the root
-/

namespace SelectorPath

open Text XPath Grammar LocationPath Selector

variable {document : Document} {options : Options}

/-! ### What a compound selects -/

/-- A text that denotes one compound selects what the path of the compound describes. -/
theorem Options.selects_of_describes (anywhere : options.leading = "descendant-or-self::")
    {css : String} {tree : Tree} {path : LocationPath} {type : Option String}
    {Matched : Address → Prop} (accepted : parse css = .ok [⟨tree, none⟩])
    (compiled : tree.path options = .ok path) (describes : path.Describes document type Matched) :
    options.Selects document css Matched := by
  obtain ⟨list, eval, mem⟩ := describes.finds.eval
  exact Options.selects_of_eval anywhere accepted compiled eval mem

/-! ### The places -/

/-- A place among the children of an element that two selectors ask for. -/
inductive ChildPlace
  | first
  | last
  | only
  | /-- The first of the children with the name. -/
    firstOfType (name : String)
  | /-- The last of the children with the name. -/
    lastOfType (name : String)

namespace ChildPlace

/-- The name of the children that are counted, if they must have one. -/
def named : ChildPlace → Option String
  | .first | .last | .only => none
  | .firstOfType name | .lastOfType name => some name

/-- The name can be written as a node test. -/
def IsPlain (place : ChildPlace) : Prop := ∀ name ∈ place.named, isPlainName name = true

/-- The selector that counts the children of an element. -/
def counted : ChildPlace → String
  | .first => ":nth-child(1)"
  | .last => ":nth-last-child(1)"
  | .only => ":only-child"
  | .firstOfType name => identifier name ++ ":nth-of-type(1)"
  | .lastOfType name => identifier name ++ ":nth-last-of-type(1)"

/-- The selector that counts the siblings on a side. -/
def sided : ChildPlace → String
  | .first => ":first-child"
  | .last => ":last-child"
  | .only => ":first-child:last-child"
  | .firstOfType name => identifier name ++ ":first-of-type"
  | .lastOfType name => identifier name ++ ":last-of-type"

/-- The element is at the place as far as its siblings go. -/
def Holds (document : Document) (type : Option String) (place : ChildPlace) (x : Address) : Prop :=
  document.hasType type x = true ∧
    match place with
    | .first | .firstOfType _ => document.EndsSiblings type .fromStart x
    | .last | .lastOfType _ => document.EndsSiblings type .fromEnd x
    | .only => document.EndsSiblings type .fromStart x ∧ document.EndsSiblings type .fromEnd x

/-! ### Their trees -/

/-- A call of a functional pseudo-class with the argument `1`. -/
def callOne (function : FunctionalClass) (pos : Nat) : Simple :=
  .function ⟨function.name, [⟨.number, "1", pos⟩]⟩

/-- The tree of the selector that counts children, with the offset of the number. -/
def countedTree (pos : Nat) : ChildPlace → Tree
  | .first => .restricted .universal (callOne .nthChild pos)
  | .last => .restricted .universal (callOne .nthLastChild pos)
  | .only => .restricted .universal (.pseudoClass "only-child")
  | .firstOfType name => .restricted (.element none (some name)) (callOne .nthOfType pos)
  | .lastOfType name => .restricted (.element none (some name)) (callOne .nthLastOfType pos)

/-- The tree of the selector that counts siblings. -/
def sidedTree : ChildPlace → Tree
  | .first => .restricted .universal (.pseudoClass "first-child")
  | .last => .restricted .universal (.pseudoClass "last-child")
  | .only =>
    .restricted (.restricted .universal (.pseudoClass "first-child")) (.pseudoClass "last-child")
  | .firstOfType name => .restricted (.element none (some name)) (.pseudoClass "first-of-type")
  | .lastOfType name => .restricted (.element none (some name)) (.pseudoClass "last-of-type")

/-- Only its points and hyphens have to be escaped in a plain name. -/
theorem isWritable_of_isPlainName {name : String} (plain : isPlainName name = true) :
    IsWritable name.toList := by
  rw [isPlainName] at plain
  cases split : name.toList with
  | nil => simp [split, isPlainNameChars] at plain
  | cons first rest =>
    rw [split, isPlainNameChars, Bool.and_eq_true, List.all_eq_true] at plain
    have inLine {c : Char} (part : isPlainPart c = true) : isLineBreak c = false := by
      refine Bool.eq_false_iff.mpr fun line => ?_
      simp only [isLineBreak, Bool.or_eq_true, beq_iff_eq] at line
      rcases line with (rfl | rfl) | rfl <;> revert part <;> decide
    refine ⟨by simp, fun c member => ?_, fun more same => ?_⟩
    · rcases List.mem_cons.mp member with rfl | member
      · exact inLine (by simp [isPlainPart, plain.1])
      · exact inLine (plain.2 c member)
    · obtain ⟨rfl, -⟩ := List.cons.inj same
      exact absurd plain.1 (by decide)

/-- A type selector with one simple selector behind it is what its text denotes. -/
theorem exists_parse_type {name : String} (plain : isPlainName name = true) {simple : Simple}
    (grammatical : simple.Grammatical) (other : simple ≠ .pseudoClass "scope") :
    ∃ again : Simple, again.unplaced = simple.unplaced ∧
      parse (identifier name ++ simple.css) =
        .ok [⟨.restricted (.element none (some name)) again, none⟩] := by
  have whole : Grammatical ⟨.restricted (.element none (some name)) simple, none⟩ := by
    refine ⟨.single (.restricted (.element (by simp) ?_) grammatical), by simp⟩
    intro text member
    obtain rfl := Option.mem_some_iff.mp member
    exact isWritable_of_isPlainName plain
  obtain ⟨⟨tree, pseudo⟩, read, accepted⟩ :=
    whole.exists_again (by simpa [Tree.simples] using Ne.symm other)
  -- what is read from the printed text differs in offsets at most
  have same := read.same
  have text : Selector.css ⟨.restricted (.element none (some name)) simple, none⟩ =
      identifier name ++ simple.css := by
    simp [Selector.css, Tree.css, typeCss, qualifierCss]
  rw [text] at accepted
  cases tree with
  | restricted base again =>
    cases base with
    | element ns type =>
      simp only [unplaced, Tree.unplaced] at same
      simp at same
      obtain ⟨⟨⟨rfl, rfl⟩, same⟩, rfl⟩ := same
      exact ⟨again, same, accepted⟩
    | _ => simp [unplaced, Tree.unplaced] at same
  | _ => simp [unplaced, Tree.unplaced] at same

/-- A name that starts with a letter and has no capitals is a keyword. -/
theorem isKeyword_of_chars {name : String} {first : Char} {more : List Char}
    (split : name.toList = first :: more)
    (plain : (isNameStart first && more.all isNamePart) = true) (small : lowerCase name = name) :
    IsKeyword name := by
  rw [Bool.and_eq_true, List.all_eq_true] at plain
  exact ⟨⟨[], first, more, split, .inl rfl, plain.1, plain.2⟩, small⟩

theorem grammatical_callOne {function : FunctionalClass}
    (counts : function ∈ [.nthOfType, .nthLastOfType]) : (callOne function 0).Grammatical := by
  have number : Token.IsPlain ⟨.number, "1", 0⟩ :=
    ⟨[], ['1'], [], by simp, .inl rfl, by simpa using (by decide : isDigit '1' = true),
      .inl ⟨rfl, by simp⟩⟩
  have arguments : Token.AreArguments [⟨.number, "1", 0⟩] := by
    refine ⟨fun token member => ?_, List.pairwise_singleton _ _⟩
    rw [List.mem_singleton.mp member]
    exact ⟨number, by decide⟩
  simp only [List.mem_cons, List.not_mem_nil, or_false] at counts
  rcases counts with rfl | rfl
  all_goals
    refine ⟨⟨isKeyword_of_chars rfl (by decide) (by decide +kernel), arguments⟩, ?_, ?_⟩ <;>
    decide

/-- The offset of a number is all that its text does not say. -/
theorem exists_eq_callOne {function : FunctionalClass} {simple : Simple}
    (same : simple.unplaced = (callOne function 0).unplaced) :
    ∃ pos, simple = callOne function pos := by
  cases simple with
  | function call =>
    obtain ⟨name, arguments⟩ := call
    simp only [Simple.unplaced, callOne, FunctionCall.unplaced, Simple.function.injEq,
      FunctionCall.mk.injEq, List.map_cons, List.map_nil, List.map_eq_singleton_iff] at same
    obtain ⟨rfl, ⟨kind, value, pos⟩, rfl, token⟩ := same
    obtain ⟨rfl, rfl⟩ : kind = .number ∧ value = "1" := by simpa [Token.unplaced] using token
    exact ⟨pos, rfl⟩
  | _ => simp [Simple.unplaced, callOne] at same

theorem exists_parse_countedTree (place : ChildPlace)
    (plain : place.IsPlain) :
    ∃ pos, parse place.counted = .ok [⟨place.countedTree pos, none⟩] := by
  -- a name is any name, so its text is read from what is written; the other texts are fixed and run
  have ofType {name : String} (plain : isPlainName name = true) {function : FunctionalClass}
      (counts : function ∈ [.nthOfType, .nthLastOfType]) : ∃ pos,
      parse (identifier name ++ (callOne function 0).css) =
        .ok [⟨.restricted (.element none (some name)) (callOne function pos), none⟩] := by
    obtain ⟨again, same, accepted⟩ :=
      exists_parse_type plain (grammatical_callOne counts) (by simp [callOne])
    obtain ⟨pos, rfl⟩ := exists_eq_callOne same
    exact ⟨pos, accepted⟩
  cases place with
  | first =>
    refine ⟨11, ?_⟩
    have lexed : (tokenize ":nth-child(1)").toOption = some
        [⟨.delim, ":", 0⟩, ⟨.ident, "nth-child", 1⟩, ⟨.delim, "(", 10⟩, ⟨.number, "1", 11⟩,
          ⟨.delim, ")", 12⟩, ⟨.eof, "", 13⟩] := by decide +kernel
    rw [counted, parse_of_tokenize lexed]
    cbv
  | last =>
    refine ⟨16, ?_⟩
    have lexed : (tokenize ":nth-last-child(1)").toOption = some
        [⟨.delim, ":", 0⟩, ⟨.ident, "nth-last-child", 1⟩, ⟨.delim, "(", 15⟩, ⟨.number, "1", 16⟩,
          ⟨.delim, ")", 17⟩, ⟨.eof, "", 18⟩] := by decide +kernel
    rw [counted, parse_of_tokenize lexed]
    cbv
  | only =>
    refine ⟨0, ?_⟩
    have lexed : (tokenize ":only-child").toOption = some
        [⟨.delim, ":", 0⟩, ⟨.ident, "only-child", 1⟩, ⟨.eof, "", 11⟩] := by decide +kernel
    rw [counted, parse_of_tokenize lexed]
    cbv
  | firstOfType name =>
    have text : (callOne .nthOfType 0).css = ":nth-of-type(1)" := by decide +kernel
    rw [counted, ← text]
    exact ofType (plain name rfl) (by simp)
  | lastOfType name =>
    have text : (callOne .nthLastOfType 0).css = ":nth-last-of-type(1)" := by decide +kernel
    rw [counted, ← text]
    exact ofType (plain name rfl) (by simp)

theorem parse_sidedTree (place : ChildPlace)
    (plain : place.IsPlain) :
    parse place.sided = .ok [⟨place.sidedTree, none⟩] := by
  -- as for the counted selectors: with a name from what is written, without one by running
  have ofType {name pseudo : String} (plain : isPlainName name = true)
      (known : pseudo ∈ ["first-of-type", "last-of-type"]) :
      parse (identifier name ++ (Simple.pseudoClass pseudo).css) =
        .ok [⟨.restricted (.element none (some name)) (.pseudoClass pseudo), none⟩] := by
    have grammatical : (Simple.pseudoClass pseudo).Grammatical ∧ pseudo ≠ "scope" := by
      simp only [List.mem_cons, List.not_mem_nil, or_false] at known
      rcases known with rfl | rfl
      all_goals
        exact ⟨⟨isKeyword_of_chars rfl (by decide) (by decide +kernel), by decide⟩, by decide⟩
    obtain ⟨again, same, accepted⟩ :=
      exists_parse_type plain grammatical.1 (by simpa using grammatical.2)
    cases again with
    | pseudoClass other =>
      obtain rfl : other = pseudo := by simpa [Simple.unplaced] using same
      exact accepted
    | _ => simp [Simple.unplaced] at same
  cases place with
  | first =>
    have lexed : (tokenize ":first-child").toOption = some
        [⟨.delim, ":", 0⟩, ⟨.ident, "first-child", 1⟩, ⟨.eof, "", 12⟩] := by decide +kernel
    rw [sided, parse_of_tokenize lexed]
    cbv
  | last =>
    have lexed : (tokenize ":last-child").toOption = some
        [⟨.delim, ":", 0⟩, ⟨.ident, "last-child", 1⟩, ⟨.eof, "", 11⟩] := by decide +kernel
    rw [sided, parse_of_tokenize lexed]
    cbv
  | only =>
    have lexed : (tokenize ":first-child:last-child").toOption = some
        [⟨.delim, ":", 0⟩, ⟨.ident, "first-child", 1⟩, ⟨.delim, ":", 12⟩,
          ⟨.ident, "last-child", 13⟩, ⟨.eof, "", 23⟩] := by decide +kernel
    rw [sided, parse_of_tokenize lexed]
    cbv
  | firstOfType name =>
    have text : (Simple.pseudoClass "first-of-type").css = ":first-of-type" := by decide +kernel
    rw [sided, ← text]
    exact ofType (plain name rfl) (by simp)
  | lastOfType name =>
    have text : (Simple.pseudoClass "last-of-type").css = ":last-of-type" := by decide +kernel
    rw [sided, ← text]
    exact ofType (plain name rfl) (by simp)

/-! ### What their paths describe -/

/-- The name of the children that are counted, as the options write it. -/
def type (options : Options) (place : ChildPlace) : Option String :=
  place.named.map (Options.foldCase options.lowerCaseElementNames)

theorem isPlainName_type {place : ChildPlace} (plain : place.IsPlain) (options : Options) :
    ∀ name ∈ place.type options, isPlainName name = true := by
  intro name member
  obtain ⟨written, inside, rfl⟩ := Option.map_eq_some_iff.mp member
  exact isPlainName_foldCase _ (plain written inside)

theorem isTest_type {place : ChildPlace} (plain : place.IsPlain) (options : Options) :
    IsTest (place.type options) ((place.type options).getD "*") :=
  ⟨rfl, fun name member =>
    isPlainQNameChars_of_isPlainNameChars (isPlainName_type plain options name member)⟩

/-- What counts children finds the first or the last one below an element. -/
theorem exists_path_callOne {place : ChildPlace} {function : FunctionalClass}
    {direction : Direction} {counting : Counting} (plain : place.IsPlain)
    (counted : function.counting? = some (direction, counting))
    (typed : (counting = .sameType ↔ place.named.isSome)) (pos : Nat) :
    ∃ path, Tree.path options (.restricted (.element none place.named) (callOne function pos)) =
        .ok path ∧
      path.Describes document (place.type options) fun x =>
        document.hasType (place.type options) x = true ∧ document.HasParent x ∧
          document.EndsSiblings (place.type options) direction x := by
  have known : FunctionalClass.ofName? function.name = some function := by
    cases function <;> decide +kernel
  have counts : (FunctionCall.mk function.name [⟨.number, "1", pos⟩]).Counts direction counting
      (.index 1) := ⟨⟨function, known, counted⟩, by cbv⟩
  have sameType (ofType : counting = .sameType) : (place.type options).isSome := by
    rw [type, Option.isSome_map]
    exact typed.mp ofType
  have typePath : (typePath options none place.named).Describes document (place.type options) _ :=
    describes_typePath options plain
  obtain ⟨path, compiled, describes⟩ := exists_restrictPosition typePath counts.2 sameType
  refine ⟨path, Tree.path_restricted_eq_ok_iff.mpr ⟨_, rfl, ?_⟩,
    describes.congr fun x => and_congr_right fun hasType => ?_⟩
  · exact (Simple.restrict_of_counts counts options _).trans compiled
  · have among : counting.type document x = place.type options := by
      cases counting with
      | children =>
        have untyped : place.named = none := by simpa using typed.not.mp (by simp)
        simp [Counting.type, type, untyped]
      | sameType =>
        obtain ⟨name, known⟩ := Option.isSome_iff_exists.mp (sameType rfl)
        have named : document.hasType (place.type options) x = true := hasType
        rw [known, Document.hasType_some] at named
        rw [Counting.type, named, known]
    rw [among]
    exact Document.isNth_first_iff hasType

/-- A condition about the elements of one type is about the type that the path describes. -/
theorem ofType_eq_ok {path : LocationPath} {name : String} {Matched : Address → Prop}
    (describes : path.Describes document (some name) Matched) (pseudo : String)
    (condition : String → Expr) :
    Condition.ofType path pseudo condition = .ok (condition name) := by
  have plain := describes.plain name rfl
  have named : path.namedType? = some name := by
    rw [namedType?, describes.typeName]
    simp [plain]
  rw [Condition.ofType, named]

/-- A pseudo-class with the same meaning in every document adds its condition. -/
theorem path_structural {base : Tree} {path : LocationPath} {name : String} {condition : Expr}
    (before : base.path options = .ok path) (anyDialect : Condition.inHtml? name = none)
    (known : Condition.structural path name = .ok condition) :
    Tree.path options (.restricted base (.pseudoClass name)) =
      .ok (path.addCondition condition) := by
  refine Tree.path_restricted_eq_ok_iff.mpr ⟨path, before, ?_⟩
  simp only [Simple.restrict, Condition.ofPseudoClass, anyDialect, ite_self, known]

/-- The selector that counts children finds what is at the place below an element. -/
theorem exists_path_countedTree (place : ChildPlace)
    (plain : place.IsPlain) (pos : Nat) :
    ∃ path, (place.countedTree pos).path options = .ok path ∧
      path.Describes document (place.type options) fun x =>
        document.HasParent x ∧ place.Holds document (place.type options) x := by
  have nth (function : FunctionalClass) {direction : Direction} {counting : Counting}
      (counted : function.counting? = some (direction, counting))
      (typed : (counting = .sameType ↔ place.named.isSome))
      (same : ∀ x, place.Holds document (place.type options) x ↔
        document.hasType (place.type options) x = true ∧
          document.EndsSiblings (place.type options) direction x) :
      ∃ path, Tree.path options (.restricted (.element none place.named) (callOne function pos)) =
          .ok path ∧
        path.Describes document (place.type options) fun x =>
          document.HasParent x ∧ place.Holds document (place.type options) x := by
    obtain ⟨path, compiled, describes⟩ :=
      @exists_path_callOne document options place _ _ _ plain counted typed pos
    exact ⟨path, compiled, describes.congr fun x => by rw [same]; exact and_left_comm⟩
  cases place with
  | first => exact nth .nthChild rfl (by simp [named]) fun _ => Iff.rfl
  | last => exact nth .nthLastChild rfl (by simp [named]) fun _ => Iff.rfl
  | firstOfType name => exact nth .nthOfType rfl (by simp [named]) fun _ => Iff.rfl
  | lastOfType name =>
    exact nth .nthLastOfType rfl (by simp [named]) fun _ => Iff.rfl
  | only =>
    refine ⟨_, path_structural rfl rfl rfl,
      ((describes_typePath options plain).addCondition fun x inside position size _ =>
        Condition.asserts_onlyChild .star (Document.hasType_none.mpr inside)).congr fun x => ?_⟩
    exact and_left_comm

theorem exists_path_sidedTree (place : ChildPlace)
    (plain : place.IsPlain) :
    ∃ path, place.sidedTree.path options = .ok path ∧
      path.Describes document (place.type options) (place.Holds document (place.type options)) := by
  have start : (typePath options none place.named).Describes document _ _ :=
    describes_typePath options plain
  cases place with
  | first =>
    exact ⟨_, path_structural rfl rfl rfl,
      start.addCondition fun x inside _ _ _ => Condition.asserts_noneBefore .star inside⟩
  | last =>
    exact ⟨_, path_structural rfl rfl rfl,
      start.addCondition fun x inside _ _ _ => Condition.asserts_noneBehind .star inside⟩
  | only =>
    refine ⟨_, path_structural (path_structural rfl rfl rfl) rfl rfl,
      ((start.addCondition fun x inside _ _ _ =>
        Condition.asserts_noneBefore .star inside).addCondition fun x inside _ _ _ =>
          Condition.asserts_noneBehind .star inside).congr fun x => ?_⟩
    exact and_assoc
  | firstOfType name =>
    have isTest := isTest_type plain options
    exact ⟨_, path_structural rfl rfl (ofType_eq_ok start _ _),
      start.addCondition fun x inside _ _ _ => Condition.asserts_noneBefore isTest inside⟩
  | lastOfType name =>
    have isTest := isTest_type plain options
    exact ⟨_, path_structural rfl rfl (ofType_eq_ok start _ _),
      start.addCondition fun x inside _ _ _ => Condition.asserts_noneBehind isTest inside⟩

/-! ### What they select -/

theorem selects_counted (place : ChildPlace)
    (anywhere : options.leading = "descendant-or-self::") (plain : place.IsPlain) :
    options.Selects document place.counted fun x =>
      document.HasParent x ∧ place.Holds document (place.type options) x := by
  obtain ⟨pos, accepted⟩ := place.exists_parse_countedTree plain
  obtain ⟨path, compiled, describes⟩ := place.exists_path_countedTree plain pos
  exact Options.selects_of_describes anywhere accepted compiled describes

theorem selects_sided (place : ChildPlace)
    (anywhere : options.leading = "descendant-or-self::") (plain : place.IsPlain) :
    options.Selects document place.sided (place.Holds document (place.type options)) := by
  obtain ⟨path, compiled, describes⟩ := place.exists_path_sidedTree plain
  exact Options.selects_of_describes anywhere (place.parse_sidedTree plain) compiled describes

/-- The root element is the one whose parent is no element. -/
theorem hasParent_iff {x : Address} (inside : document.IsElement x) :
    document.HasParent x ↔ x ≠ [0] := by
  obtain ⟨index, parent, rfl⟩ := inside.exists_parent
  constructor
  · rintro ⟨_, _, same, above⟩ root
    obtain ⟨rfl, rfl⟩ := List.cons.inj root
    obtain ⟨-, rfl⟩ := List.cons.inj same
    simp [Document.IsElement, Document.name?, Document.content?] at above
  · intro below
    refine ⟨index, parent, rfl, (Document.isElement_of_child inside.isSome).resolve_left ?_⟩
    rintro rfl
    have bound : index < 1 := Document.isSome_content?.mp inside.isSome
    exact below (by rw [Nat.lt_one_iff.mp bound])

/-- The root element has no siblings. -/
theorem holds_root_iff (place : ChildPlace) (type : Option String) :
    place.Holds document type [0] ↔ document.hasType type [0] = true := by
  have before : document.EndsSiblings type .fromStart [0] := rfl
  have behind : document.EndsSiblings type .fromEnd [0] := rfl
  cases place <;> simp [Holds, before, behind]

/-- Both ways of asking for a place select the same elements, apart from the root element. Only the
way over the siblings selects that, if it has the name that is asked for. -/
theorem exists_selects_both (place : ChildPlace)
    (anywhere : options.leading = "descendant-or-self::")
    (plain : place.IsPlain) (document : Document) :
    ∃ Counted Sided, options.Selects document place.counted Counted ∧
      options.Selects document place.sided Sided ∧
      (∀ x, x ≠ [0] → (Counted x ↔ Sided x)) ∧
      ¬ Counted [0] ∧ (Sided [0] ↔ document.hasType (place.type options) [0] = true) := by
  refine ⟨_, _, place.selects_counted anywhere plain, place.selects_sided anywhere plain,
    fun x below => ?_, ?_, place.holds_root_iff _⟩
  · refine and_iff_right_of_imp fun holds => ?_
    exact (hasParent_iff (Document.isElement_of_hasType holds.1)).mpr below
  · rintro ⟨hasParent, holds⟩
    exact (hasParent_iff (Document.isElement_of_hasType holds.1)).mp hasParent rfl

/-- The last one of two elements `p` with a text between them, in HTML. -/
theorem exists_selects_both_last :
    let document : Document :=
      ⟨"a", .none, [.element "p" .none [], .text " ", .element "p" .none []]⟩
    Options.html.leading = "descendant-or-self::" ∧
      (lastOfType "P").IsPlain ∧
      ∃ Counted Sided, Options.html.Selects document (lastOfType "P").counted Counted ∧
        Options.html.Selects document (lastOfType "P").sided Sided ∧
        (∀ x, x ≠ [0] → (Counted x ↔ Sided x)) ∧
        ¬ Counted [0] ∧
        (Sided [0] ↔ document.hasType ((lastOfType "P").type .html) [0] = true) := by
  intro document
  have plain : (lastOfType "P").IsPlain := by
    intro name member
    rw [← Option.mem_some_iff.mp member]
    decide +kernel
  exact ⟨rfl, plain, exists_selects_both _ rfl plain document⟩

/-- The root element has no siblings in front, and is the first child of no element. -/
theorem selects_root_sided :
    ∃ Counted Sided, Options.generic.Selects ⟨"a", .none, []⟩ ":nth-child(1)" Counted ∧
      Options.generic.Selects ⟨"a", .none, []⟩ ":first-child" Sided ∧
      Sided [0] ∧ ¬ Counted [0] := by
  have root : Document.IsElement ⟨"a", .none, []⟩ [0] := rfl
  have plain : first.IsPlain := by simp [IsPlain, named]
  refine ⟨_, _, first.selects_counted rfl plain, first.selects_sided rfl plain,
    (first.holds_root_iff _).mpr rfl, fun counted => ?_⟩
  exact (hasParent_iff root).mp counted.1 rfl

end ChildPlace

end SelectorPath
