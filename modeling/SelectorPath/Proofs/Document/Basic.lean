import Mathlib.Data.List.Nodup

/-!
# Documents

The documents that selectors and expressions are about: one element, whose content is elements and
texts in order. A node is known by its address, the indices on the way to it from the innermost on,
so that the parent of a node is the tail of its address. The document itself is a node, the one with
the empty address, and its only child is the root element.

## Main definitions

* `Content`, `Attributes`, `Document` — documents
* `Address`, `Document.content?` — nodes and what they are
* `Document.children`, `Document.addresses` — the children of a node, and all nodes, in order
* `Document.name?`, `Document.value?` — the name and the attributes of an element
* `Document.elements` — the child elements of a node, all or those of one name

## Main results

* `Document.mem_children`, `Document.mem_addresses`, `Document.mem_elements` — exactly the nodes are
  listed
* `Document.isElement_of_child` — only elements and the document have children
* `Document.pairwise_addresses` — a node is listed in front of what is below it
-/

namespace SelectorPath

/-- The attributes of an element in order. No two have one name. -/
structure Attributes where
  entries : List (String × String)
  distinct : (entries.map Prod.fst).Nodup

/-- No attributes. -/
def Attributes.none : Attributes := ⟨[], List.nodup_nil⟩

/-- What stands in an element. -/
inductive Content
  | element (name : String) (attributes : Attributes) (children : List Content)
  | text (value : String)

namespace Content

/-- What stands in an element; nothing stands in a text. -/
def children : Content → List Content
  | .element _ _ children => children
  | .text _ => []

mutual

/-- The texts in an element one after the other. -/
def stringValue : Content → String
  | .element _ _ children => stringValues children
  | .text value => value

/-- The texts in several contents one after the other. -/
def stringValues : List Content → String
  | [] => ""
  | content :: rest => content.stringValue ++ stringValues rest

end

end Content

/-- A place in a document: the index of the node among its siblings, then that of its parent among
theirs, and so on. -/
abbrev Address := List Nat

/-- A document with its root element. -/
structure Document where
  name : String
  attributes : Attributes
  content : List Content

/-! ### Addresses in order -/

namespace Content

/-- What stands at a place that is given from here. -/
def at? (content : Content) : Address → Option Content
  | [] => some content
  | index :: parent =>
    match content.at? parent with
    | some above => above.children[index]?
    | none => none

mutual

/-- The addresses in a content that stands at `address`, in document order. -/
def addresses (address : Address) : Content → List Address
  | .element _ _ children => address :: addressesFrom address 0 children
  | .text _ => [address]

/-- The addresses in several children of `parent`, the first of which has the given index. -/
def addressesFrom (parent : Address) (index : Nat) : List Content → List Address
  | [] => []
  | content :: rest =>
    content.addresses (index :: parent) ++ addressesFrom parent (index + 1) rest

end

theorem at?_append (content : Content) (index : Nat) (path : Address) :
    content.at? (path ++ [index]) =
      match content.children[index]? with
      | some child => child.at? path
      | none => none := by
  induction path with
  | nil => cases h : content.children[index]? <;> simp [at?, h]
  | cons next path ih =>
    rw [List.cons_append, at?, ih]
    cases content.children[index]? <;> rfl

mutual

/-- The addresses in a content are those where something stands. -/
theorem mem_addresses {address q : Address} : (content : Content) →
    (q ∈ content.addresses address ↔ ∃ path, q = path ++ address ∧ (content.at? path).isSome)
  | .element name attributes children => by
    rw [addresses, List.mem_cons, mem_addressesFrom children]
    constructor
    · rintro (rfl | ⟨index, child, found, path, rfl, stands⟩)
      · exact ⟨[], rfl, rfl⟩
      · refine ⟨path ++ [index], by simp, ?_⟩
        have below : (Content.element name attributes children).children[index]? = some child :=
          found
        simpa [at?_append, below] using stands
    · rintro ⟨path, rfl, stands⟩
      rcases List.eq_nil_or_concat path with rfl | ⟨path, index, rfl⟩
      · exact .inl rfl
      · refine .inr ?_
        rw [List.concat_eq_append, at?_append] at stands
        split at stands
        · rename_i child found
          exact ⟨index, child, found, path, by simp, stands⟩
        · simp at stands
  | .text value => by
    rw [addresses, List.mem_singleton]
    constructor
    · rintro rfl
      exact ⟨[], rfl, rfl⟩
    · rintro ⟨path, rfl, stands⟩
      rcases List.eq_nil_or_concat path with rfl | ⟨path, index, rfl⟩
      · rfl
      · rw [List.concat_eq_append, at?_append] at stands
        simp [children] at stands

theorem mem_addressesFrom {parent q : Address} {start : Nat} : (contents : List Content) →
    (q ∈ addressesFrom parent start contents ↔ ∃ index child, contents[index]? = some child ∧
      ∃ path, q = path ++ (start + index) :: parent ∧ (child.at? path).isSome)
  | [] => by simp [addressesFrom]
  | content :: rest => by
    rw [addressesFrom, List.mem_append, mem_addresses content, mem_addressesFrom rest]
    constructor
    · rintro (⟨path, rfl, stands⟩ | ⟨index, child, found, path, rfl, stands⟩)
      · exact ⟨0, content, rfl, path, rfl, stands⟩
      · exact ⟨index + 1, child, found, path, by simp [Nat.add_comm, Nat.add_left_comm], stands⟩
    · rintro ⟨index, child, found, path, rfl, stands⟩
      cases index with
      | zero =>
        obtain rfl : content = child := by simpa using found
        exact .inl ⟨path, rfl, stands⟩
      | succ index =>
        exact .inr ⟨index, child, found, path, by simp [Nat.add_comm, Nat.add_left_comm], stands⟩

end

/-- Of two different children neither is below the other. -/
theorem not_suffix_of_siblings {parent path other : Address} {index place : Nat}
    (siblings : index ≠ place) : ¬ other ++ place :: parent <:+ path ++ index :: parent := by
  intro below
  have suffix : place :: parent <:+ path ++ index :: parent :=
    (List.suffix_append other _).trans below
  have also : index :: parent <:+ path ++ index :: parent := List.suffix_append path _
  have same := List.suffix_of_suffix_length_le suffix also (by simp)
  obtain ⟨eq, -⟩ := List.cons.inj (same.eq_of_length (by simp))
  exact siblings eq.symm

mutual

/-- In document order, no node stands behind another one that it is or that is below it. -/
theorem pairwise_addresses (address : Address) : (content : Content) →
    (content.addresses address).Pairwise fun earlier later => ¬ later <:+ earlier
  | .element _ _ children => by
    rw [addresses]
    refine List.Pairwise.cons (fun later member => ?_) (pairwise_addressesFrom address 0 children)
    obtain ⟨index, child, -, path, rfl, -⟩ := (mem_addressesFrom children).mp member
    intro below
    have shorter := below.length_le
    rw [List.length_append, List.length_cons] at shorter
    omega
  | .text _ => List.pairwise_singleton _ _

theorem pairwise_addressesFrom (parent : Address) (start : Nat) : (contents : List Content) →
    (addressesFrom parent start contents).Pairwise fun earlier later => ¬ later <:+ earlier
  | [] => .nil
  | content :: rest => by
    rw [addressesFrom, List.pairwise_append]
    refine ⟨pairwise_addresses (start :: parent) content,
      pairwise_addressesFrom parent (start + 1) rest, ?_⟩
    intro earlier member later memberLater
    obtain ⟨path, rfl, -⟩ := (mem_addresses content).mp member
    obtain ⟨index, child, -, other, rfl, -⟩ := (mem_addressesFrom rest).mp memberLater
    exact not_suffix_of_siblings (by omega)

end

end Content

namespace Document

/-- The root element. -/
def root (document : Document) : Content :=
  .element document.name document.attributes document.content

/-- What stands below an address. -/
def contents (document : Document) : Address → List Content
  | [] => [document.root]
  | index :: parent =>
    match (document.contents parent)[index]? with
    | some content => content.children
    | none => []

/-- The element or text at an address. The document itself is neither. -/
def content? (document : Document) : Address → Option Content
  | [] => none
  | index :: parent => (document.contents parent)[index]?

/-- The children of a node in document order. -/
def children (document : Document) (parent : Address) : List Address :=
  (List.range (document.contents parent).length).map (· :: parent)

/-- All nodes in document order, the document itself first. -/
def addresses (document : Document) : List Address := [] :: document.root.addresses [0]

/-- The name of the element at an address. -/
def name? (document : Document) (address : Address) : Option String :=
  match document.content? address with
  | some (.element name _ _) => some name
  | _ => none

/-- An element with the given name is at the address, or any element if no name is given. -/
def hasType (document : Document) (named : Option String) (address : Address) : Bool :=
  match document.name? address with
  | some name => named.all (name == ·)
  | none => false

/-- The children of a node that are elements with the given name, or elements of any name. -/
def elements (document : Document) (named : Option String) (parent : Address) : List Address :=
  (document.children parent).filter (document.hasType named)

/-- The attributes of the element at an address. -/
def attributesAt (document : Document) (address : Address) : List (String × String) :=
  match document.content? address with
  | some (.element _ attributes _) => attributes.entries
  | _ => []

/-- The value of an attribute of the element at an address. -/
def value? (document : Document) (address : Address) (name : String) : Option String :=
  (document.attributesAt address).lookup name

/-- An element is at the address. -/
def IsElement (document : Document) (address : Address) : Prop :=
  (document.name? address).isSome

instance (document : Document) (address : Address) : Decidable (document.IsElement address) :=
  inferInstanceAs (Decidable (_ = true))

/-- The texts in a node one after the other. -/
def textAt (document : Document) : Address → String
  | [] => document.root.stringValue
  | address =>
    match document.content? address with
    | some content => content.stringValue
    | none => ""

variable {document : Document} {address parent : Address}

/-! ### Children -/

theorem contents_cons (index : Nat) (parent : Address) :
    document.contents (index :: parent) =
      match document.content? (index :: parent) with
      | some content => content.children
      | none => [] := rfl

/-- The children of a node are the addresses one index longer where something stands. -/
theorem mem_children {child : Address} :
    child ∈ document.children parent ↔
      ∃ index, child = index :: parent ∧ (document.content? child).isSome := by
  simp only [children, List.mem_map, List.mem_range]
  constructor
  · rintro ⟨index, bound, rfl⟩
    exact ⟨index, rfl, by simpa [content?] using bound⟩
  · rintro ⟨index, rfl, stands⟩
    exact ⟨index, by simpa [content?] using stands, rfl⟩

theorem nodup_children (document : Document) (parent : Address) :
    (document.children parent).Nodup :=
  List.nodup_range.map fun _ _ same => by simpa using same

/-- Where something stands below a node, the node is the document or an element. -/
theorem isElement_of_child {index : Nat} (stands : (document.content? (index :: parent)).isSome) :
    parent = [] ∨ document.IsElement parent := by
  cases parent with
  | nil => exact .inl rfl
  | cons next above =>
    refine .inr ?_
    have nonempty : document.contents (next :: above) ≠ [] := by
      intro empty
      simp [content?, empty] at stands
    rw [contents_cons] at nonempty
    unfold IsElement name?
    split at nonempty
    · rename_i content found
      rw [found]
      cases content with
      | element name attributes children => rfl
      | text value => exact absurd rfl nonempty
    · exact absurd rfl nonempty

theorem isSome_content? {index : Nat} :
    (document.content? (index :: parent)).isSome ↔ index < (document.contents parent).length := by
  simp [content?]

/-! ### Elements -/

@[simp] theorem hasType_none :
    document.hasType none address = true ↔ document.IsElement address := by
  unfold hasType IsElement
  cases document.name? address <;> simp

@[simp] theorem hasType_some {name : String} :
    document.hasType (some name) address = true ↔ document.name? address = some name := by
  unfold hasType
  cases document.name? address <;> simp

theorem isElement_of_hasType {named : Option String}
    (typed : document.hasType named address = true) : document.IsElement address := by
  unfold hasType at typed
  unfold IsElement
  cases known : document.name? address <;> simp_all

/-- An element stands at its address. -/
theorem IsElement.isSome (inside : document.IsElement address) :
    (document.content? address).isSome := by
  unfold IsElement name? at inside
  split at inside
  · rename_i found
    rw [found]
    rfl
  · simp at inside

/-- An element has a parent. -/
theorem IsElement.exists_parent (inside : document.IsElement address) :
    ∃ index parent, address = index :: parent := by
  cases address with
  | nil => simp [IsElement, name?, content?] at inside
  | cons index parent => exact ⟨index, parent, rfl⟩

theorem mem_elements {named : Option String} {child : Address} :
    child ∈ document.elements named parent ↔
      (∃ index, child = index :: parent) ∧ document.hasType named child = true := by
  rw [elements, List.mem_filter, mem_children]
  refine ⟨fun ⟨⟨index, same, _⟩, typed⟩ => ⟨⟨index, same⟩, typed⟩, ?_⟩
  rintro ⟨⟨index, same⟩, typed⟩
  exact ⟨⟨index, same, (isElement_of_hasType typed).isSome⟩, typed⟩

theorem nodup_elements (document : Document) (named : Option String) (parent : Address) :
    (document.elements named parent).Nodup :=
  (nodup_children document parent).filter _

/-! ### Attributes -/

/-- The attributes that have a value are those that are listed. -/
theorem isSome_value? {name : String} :
    (document.value? address name).isSome ↔
      ∃ entry ∈ document.attributesAt address, entry.1 = name := by
  rw [value?, List.lookup_isSome_iff]
  exact exists_congr fun entry => and_congr_right fun _ => by rw [beq_iff_eq, eq_comm]

/-- Only elements have attributes. -/
theorem isElement_of_value? {name : String} (present : (document.value? address name).isSome) :
    document.IsElement address := by
  obtain ⟨entry, member, -⟩ := isSome_value?.mp present
  unfold attributesAt at member
  unfold IsElement name?
  split at member
  · rfl
  · simp at member

/-! ### All nodes -/

/-- What stands at an address of the document stands there in the root element. -/
theorem content?_append (path : Address) :
    document.content? (path ++ [0]) = document.root.at? path := by
  induction path with
  | nil => rfl
  | cons index path ih =>
    cases path with
    | nil => rfl
    | cons next path =>
      have below : document.contents (next :: path ++ [0]) =
          match document.root.at? (next :: path) with
          | some content => content.children
          | none => [] := by
        rw [← ih]
        rfl
      have inner : document.root.at? (index :: next :: path) =
          match document.root.at? (next :: path) with
          | some above => above.children[index]?
          | none => none := rfl
      rw [List.cons_append, content?, below, inner]
      cases document.root.at? (next :: path) <;> simp

theorem exists_append_of_content? (stands : (document.content? address).isSome) :
    ∃ path, address = path ++ [0] := by
  induction address with
  | nil => simp [content?] at stands
  | cons index parent ih =>
    cases parent with
    | nil =>
      obtain rfl : index = 0 := by simpa [content?, contents] using stands
      exact ⟨[], rfl⟩
    | cons next above =>
      have inside : document.IsElement (next :: above) :=
        (isElement_of_child stands).resolve_left (by simp)
      obtain ⟨path, split⟩ := ih inside.isSome
      exact ⟨index :: path, by rw [split, List.cons_append]⟩

/-- Exactly the nodes of the document are listed. -/
theorem mem_addresses :
    address ∈ document.addresses ↔ address = [] ∨ (document.content? address).isSome := by
  rw [addresses, List.mem_cons, Content.mem_addresses]
  refine or_congr_right ⟨?_, fun stands => ?_⟩
  · rintro ⟨path, rfl, stands⟩
    rwa [content?_append]
  · obtain ⟨path, rfl⟩ := exists_append_of_content? stands
    exact ⟨path, rfl, by rwa [content?_append] at stands⟩

/-- No node stands behind another one that it is or that is below it. -/
theorem pairwise_addresses (document : Document) :
    document.addresses.Pairwise fun earlier later => ¬ later <:+ earlier := by
  refine List.Pairwise.cons (fun later member => ?_) (Content.pairwise_addresses [0] document.root)
  obtain ⟨path, rfl, -⟩ := (Content.mem_addresses _).mp member
  simp

end Document

end SelectorPath
