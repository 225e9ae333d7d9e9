import SelectorPath.XPath.LocationPath

/-!
# What a join keeps

A join writes its right path behind a link. A link leads to children, to descendants or to siblings
itself, so the step `*` that was made for positions is left out. Whether there is such a step is
read off the text: a path whose steps before the last are written `*/` loses them, and that may as
well be a step `*` that the selector asked for. Every other path is kept as it is, and joins of such
paths are associative. Exactly where one of two orders loses steps and the other does not, they
differ.

## Main definitions

* `LocationPath.SpellsStar` — the steps before the last are written `*/`
* `LocationPath.WrittenAlike` — two paths have the same texts

## Main results

* `LocationPath.spellsStar_iff` — between the usual links, only the step `*` is written so
* `LocationPath.text_join_iff` — which joins keep all of both paths, and which are associative
-/

namespace SelectorPath.XPath

/-- The link is not given as a text. -/
def Link.IsNamed : Link → Prop
  | .verbatim _ => False
  | _ => True

/-- A link is a slash and what may follow it, which is nothing for children. -/
theorem Link.IsNamed.exists_text {link : Link} (named : link.IsNamed) :
    ∃ rest, link.text.toList = '/' :: rest ∧ (rest = [] → link = .child) := by
  cases link with
  | child => exact ⟨[], by decide +kernel, fun _ => rfl⟩
  | descendant =>
    exact ⟨"descendant-or-self::*/".toList, by decide +kernel, fun none => absurd none (by decide)⟩
  | followingSibling =>
    exact ⟨"following-sibling::".toList, by decide +kernel, fun none => absurd none (by decide)⟩
  | verbatim => exact named.elim

namespace LocationPath

variable {path : LocationPath}

/-! ### The step that is left out -/

/-- The steps before the last are written like a single `*` that a child step follows. -/
def SpellsStar (path : LocationPath) : Prop := segmentsText path.segments = "*/"

instance (path : LocationPath) : Decidable path.SpellsStar :=
  inferInstanceAs (Decidable (segmentsText path.segments = "*/"))

/-- Only the test `*` without a condition is written `*`. -/
theorem stepText_eq_star {test : String} {condition : Option Expr}
    (star : stepText test condition = "*") : test = "*" ∧ condition = none := by
  cases condition with
  | none =>
    refine ⟨?_, rfl⟩
    simpa [stepText, predicates, Expr.predicatesText] using star
  | some condition =>
    -- the brackets alone are longer
    have length := congrArg (fun text => text.toList.length) star
    simp [stepText, predicates, Expr.predicatesText] at length
    omega

/-- Steps between named links have a text. -/
theorem eq_nil_of_segmentsText {segments : List Segment}
    (named : ∀ segment ∈ segments, segment.link.IsNamed) (empty : segmentsText segments = "") :
    segments = [] := by
  cases segments with
  | nil => rfl
  | cons segment rest =>
    obtain ⟨behind, link, -⟩ := (named segment List.mem_cons_self).exists_text
    have chars := congrArg String.toList empty
    simp [segmentsText, Segment.text, link] at chars

/-- The slash can only be the second of the two characters. -/
theorem eq_star_of_append {cs behind : List Char} (whole : cs ++ '/' :: behind = ['*', '/']) :
    cs = ['*'] ∧ behind = [] := by
  match cs, whole with
  | [], whole => simp at whole
  | [only], whole => simpa using whole
  | first :: second :: others, whole => simp at whole

/-- Between links that are no given texts, the steps before the last are written `*/` only if they
are the step `*`. -/
theorem spellsStar_iff (named : ∀ segment ∈ path.segments, segment.link.IsNamed) :
    path.SpellsStar ↔ path.segments = [.star] := by
  unfold SpellsStar
  constructor
  · intro spells
    match segments : path.segments with
    | [] =>
      rw [segments] at spells
      exact absurd spells (by decide)
    | ⟨test, condition, link⟩ :: rest =>
      rw [segments] at spells named
      obtain ⟨isNamed, others⟩ := List.forall_mem_cons.mp named
      obtain ⟨more, text, child⟩ := isNamed.exists_text
      have chars : (stepText test condition).toList ++ '/' :: (more ++ (segmentsText rest).toList) =
          ['*', '/'] := by
        have chars := congrArg String.toList spells
        simpa [segmentsText, Segment.text, text] using chars
      -- one character stands in front of the slash and none behind it, so nothing else is there
      obtain ⟨step, last⟩ := eq_star_of_append chars
      obtain ⟨noMore, noRest⟩ := List.append_eq_nil_iff.mp last
      obtain ⟨rfl, rfl⟩ := stepText_eq_star (String.toList_inj.mp step)
      obtain rfl := eq_nil_of_segmentsText others (String.toList_inj.mp noRest)
      obtain rfl : link = .child := child noMore
      rfl
  · intro star
    rw [star, segmentsText_star]

/-! ### Texts of joins -/

/-- The text of some steps, unless it is that of the step that is left out. -/
def withoutStar (steps : String) : String := if steps = "*/" then "" else steps

/-- The text of the steps that stand behind a link. -/
theorem segmentsText_joinedSegments (path : LocationPath) :
    segmentsText path.joinedSegments = withoutStar (segmentsText path.segments) := by
  unfold joinedSegments withoutStar
  split <;> rfl

theorem segmentsText_join (left : LocationPath) (link : Link) (right : LocationPath) :
    segmentsText (left.join link right).segments =
      left.text ++ link.text ++ segmentsText right.joinedSegments := by
  simp [join, segmentsText_append, segmentsText, Segment.text, text, condition?, String.append_assoc]

/-- No text stands behind a star and a slash in itself. -/
theorem star_append_ne (text : String) : "*/" ++ text ≠ text := by
  intro same
  have length := congrArg (fun text => text.toList.length) same
  simp only [String.toList_append, List.length_append] at length
  exact absurd length (by simp)

/-- A join is one path behind the other exactly if the right path is not taken for a starred one. -/
theorem text_join_eq_iff (left : LocationPath) (link : Link) (right : LocationPath) :
    (left.join link right).text = left.text ++ link.text ++ right.text ↔ ¬ right.SpellsStar := by
  rw [text_join, String.append_right_inj]
  unfold SpellsStar
  by_cases spells : segmentsText right.segments = "*/"
  · rw [if_pos spells, text, spells, eq_comm]
    exact iff_of_false (star_append_ne _) (not_not_intro rfl)
  · rw [if_neg spells]
    exact iff_of_true rfl spells

/-! ### Orders of joins -/

/-- Two paths have the same steps, conditions and marks as texts. -/
structure WrittenAlike (first second : LocationPath) : Prop where
  segments : segmentsText first.segments = segmentsText second.segments
  test : first.test = second.test
  conditions : first.conditions.map Expr.text = second.conditions.map Expr.text
  starred : first.starred = second.starred
  typeName : first.typeName = second.typeName

/-- It makes a difference whether the step is left out of the front of a text or of the whole,
unless both are the step, or neither is. -/
theorem withoutStar_append_iff (front behind : String) :
    withoutStar (front ++ behind) = withoutStar front ++ behind ↔
      (front = "*/" ↔ front ++ behind = "*/") := by
  unfold withoutStar
  by_cases star : front = "*/" <;> by_cases whole : front ++ behind = "*/"
  · -- nothing stands behind the step, and nothing is left in either way
    have nothing : behind = "" := by simpa [star] using whole
    simp [star, nothing]
  · rw [if_neg whole, if_pos star, String.empty_append, star]
    exact iff_of_false (star_append_ne behind) (by simpa [star] using whole)
  · rw [if_pos whole, if_neg star, whole]
    exact iff_of_false (by decide) (by simp [star])
  · rw [if_neg whole, if_neg star]
    exact iff_of_true rfl (iff_of_false star whole)

/-- The order of two joins matters exactly if steps are left out in one order only. -/
theorem writtenAlike_join_join_iff (left middle right : LocationPath) (link next : Link) :
    (left.join link (middle.join next right)).WrittenAlike
        ((left.join link middle).join next right) ↔
      (middle.SpellsStar ↔ (middle.join next right).SpellsStar) := by
  -- what stands in the inner join behind the steps of the middle path
  let behind := stepText middle.test middle.condition? ++ next.text ++
    segmentsText right.joinedSegments
  have inner : segmentsText (middle.join next right).segments =
      segmentsText middle.segments ++ behind := by
    rw [segmentsText_join, text]
    simp only [behind, String.append_assoc]
  have outer : segmentsText ((left.join link middle).join next right).segments =
      left.text ++ link.text ++ (segmentsText middle.joinedSegments ++ behind) := by
    rw [segmentsText_join, text, segmentsText_join]
    simp only [behind, join, condition?, String.append_assoc]
  have steps : segmentsText (left.join link (middle.join next right)).segments =
      segmentsText ((left.join link middle).join next right).segments ↔
        (middle.SpellsStar ↔ (middle.join next right).SpellsStar) := by
    rw [outer, segmentsText_join, String.append_right_inj, segmentsText_joinedSegments,
      segmentsText_joinedSegments, SpellsStar, SpellsStar, inner]
    exact withoutStar_append_iff _ _
  exact ⟨fun alike => steps.mp alike.segments, fun same => ⟨steps.mpr same, rfl, rfl, rfl, rfl⟩⟩

/-! ### Which joins keep what they join -/

/-- A join is one path behind the other, and the order of two joins makes no difference, exactly if
no path is taken for a starred one. Between the usual links only a path whose one step before the
last is `*` is. -/
theorem text_join_iff (left middle right : LocationPath) (link next : Link) :
    ((left.join link right).text = left.text ++ link.text ++ right.text ↔ ¬ right.SpellsStar) ∧
    ((left.join link (middle.join next right)).WrittenAlike
        ((left.join link middle).join next right) ↔
      (middle.SpellsStar ↔ (middle.join next right).SpellsStar)) ∧
    ((∀ segment ∈ right.segments, segment.link.IsNamed) →
      (right.SpellsStar ↔ right.segments = [.star])) :=
  ⟨text_join_eq_iff left link right, writtenAlike_join_join_iff left middle right link next,
    spellsStar_iff⟩

/-- A path of two steps, the first of them not `*`, is kept whole. -/
theorem text_join_iff_descendant :
    let right := (ofTest "ul").join .descendant (ofTest "li")
    (∀ segment ∈ right.segments, segment.link.IsNamed) ∧
      ((ofTest "a").join .child right).text = (ofTest "a").text ++ Link.text .child ++ right.text := by
  intro right
  have segments : right.segments = [⟨"ul", none, .descendant⟩] := by
    simp [right, join, joinedSegments, ofTest, condition?, segmentsText]
  have named : ∀ segment ∈ right.segments, segment.link.IsNamed := by
    simp [segments, Link.IsNamed]
  have joins := text_join_iff (ofTest "a") (ofTest "a") right .child .child
  refine ⟨named, joins.1.mpr fun spells => ?_⟩
  have star := (joins.2.2 named).mp spells
  simp [segments, Segment.star] at star

/-- The step `*` of `* > p` is asked for, and no star was made. Behind `a >` it is lost, and it is
not if `a > *` is joined first. -/
theorem text_join_child_star_ne :
    let right := (ofTest "*").join .child (ofTest "p")
    right.starred = false ∧
      ((ofTest "a").join .child right).text ≠
        (ofTest "a").text ++ Link.text .child ++ right.text ∧
      ¬ ((ofTest "a").join .child right).WrittenAlike
        (((ofTest "a").join .child (ofTest "*")).join .child (ofTest "p")) := by
  refine ⟨rfl, by decide +kernel, fun alike => ?_⟩
  exact absurd alike.segments (by decide +kernel)

end LocationPath

end SelectorPath.XPath
