import Mathlib.Data.List.Infix

/-!
# Words

The words of a text are its longest parts without blanks. With one separator between neighbouring
words and one more at each end, a word of the text is what stands between two separators.

## Main definitions

* `Text.words` — the words of a text
* `Text.separated` — words with a separator between each two

## Main results

* `Text.words_congr` — which characters outside the text are blank does not matter
* `Text.isInfix_separated` — a word stands between two separators exactly if it is one of the words
-/

namespace SelectorPath.Text

/-- The longest parts of a text without blanks. -/
def words (isBlank : Char → Bool) (cs : List Char) : List (List Char) :=
  (cs.splitOnP isBlank).filter fun word => !word.isEmpty

/-- Words with one separator between each two. -/
def separated (separator : Char) (words : List (List Char)) : List Char :=
  [separator].intercalate words

/-! ### Words of a text -/

section Words

variable {isBlank other : Char → Bool} {cs word : List Char}

theorem not_isBlank_of_mem_splitOnP (member : word ∈ cs.splitOnP isBlank) :
    ∀ c ∈ word, isBlank c = false := by
  induction cs generalizing word with
  | nil =>
    obtain rfl : word = [] := by simpa using member
    simp
  | cons first rest ih =>
    rw [List.splitOnP_cons_eq_if_modifyHead] at member
    by_cases blank : isBlank first = true
    · rw [if_pos blank] at member
      rcases List.mem_cons.mp member with rfl | member
      · simp
      · exact ih member
    · obtain ⟨head, tail, split⟩ :=
        List.exists_cons_of_ne_nil (List.splitOnP_ne_nil isBlank rest)
      rw [split] at member ih
      rw [if_neg blank, List.modifyHead_cons] at member
      rcases List.mem_cons.mp member with rfl | member
      · intro c inside
        rcases List.mem_cons.mp inside with rfl | inside
        · exact Bool.eq_false_iff.mpr blank
        · exact ih List.mem_cons_self c inside
      · exact ih (List.mem_cons_of_mem head member)

/-- A word is not empty and has no blanks. -/
theorem of_mem_words (member : word ∈ words isBlank cs) :
    word ≠ [] ∧ ∀ c ∈ word, isBlank c = false := by
  obtain ⟨piece, nonempty⟩ := List.mem_filter.mp member
  exact ⟨by simpa using nonempty, not_isBlank_of_mem_splitOnP piece⟩

/-- Two sets of blanks that agree on the characters of a text give it the same words. -/
theorem words_congr (same : ∀ c ∈ cs, isBlank c = other c) :
    words isBlank cs = words other cs := by
  have split : cs.splitOnP isBlank = cs.splitOnP other := by
    induction cs with
    | nil => rfl
    | cons first rest ih =>
      rw [List.splitOnP_cons_eq_if_modifyHead, List.splitOnP_cons_eq_if_modifyHead,
        same first List.mem_cons_self, ih fun c member => same c (List.mem_cons_of_mem first member)]
  rw [words, split, words]

/-- A text without blanks is its only word. -/
theorem words_eq_singleton (nonempty : cs ≠ []) (visible : ∀ c ∈ cs, isBlank c = false) :
    words isBlank cs = [cs] := by
  rw [words, List.splitOnP_eq_singleton visible]
  simp [nonempty]

end Words

/-! ### Words between separators -/

section Separated

variable {separator : Char} {ws : List (List Char)} {word : List Char}

theorem separated_singleton (only : List Char) : separated separator [only] = only :=
  List.intercalate_singleton

theorem separated_cons (first : List Char) (nonempty : ws ≠ []) :
    separated separator (first :: ws) = first ++ separator :: separated separator ws := by
  rw [separated, List.intercalate_cons_of_ne_nil nonempty, List.append_assoc]
  rfl

theorem separated_append {others : List (List Char)} (nonempty : ws ≠ []) (more : others ≠ []) :
    separated separator (ws ++ others) =
      separated separator ws ++ separator :: separated separator others := by
  induction ws with
  | nil => exact absurd rfl nonempty
  | cons first rest ih =>
    by_cases last : rest = []
    · rw [last, List.singleton_append, separated_cons first more, separated_singleton]
    · rw [List.cons_append, separated_cons first (by simp [last]), ih last,
        separated_cons first last, List.append_assoc, List.cons_append]

/-- Separators at both ends are those around an empty word in front and one behind. -/
theorem separated_between (nonempty : ws ≠ []) :
    separated separator ([] :: (ws ++ [[]])) =
      separator :: (separated separator ws ++ [separator]) := by
  rw [separated_cons [] (by simp), separated_append nonempty (by simp)]
  rfl

/-- Between two separators stand exactly the words. -/
theorem isInfix_separated (free : ∀ other ∈ word :: ws, separator ∉ other) (nonempty : word ≠ []) :
    separator :: (word ++ [separator]) <:+: separator :: (separated separator ws ++ [separator]) ↔
      word ∈ ws := by
  have notMem : separator ∉ word := free word List.mem_cons_self
  by_cases none : ws = []
  · -- two separators alone leave no room for a word
    subst none
    refine iff_of_false (fun found => ?_) List.not_mem_nil
    have length := found.length_le
    have positive := List.length_pos_iff.mpr nonempty
    simp only [separated, List.intercalate_nil, List.length_cons, List.length_append,
      List.length_nil] at length
    omega
  rw [← separated_between none]
  constructor
  · rintro ⟨before, after, whole⟩
    -- the separators cut the text into the words and an empty piece at each end
    have pieces : (separated separator ([] :: (ws ++ [[]]))).splitOn separator =
        [] :: (ws ++ [[]]) := by
      refine List.splitOn_intercalate separator (fun other member => ?_) (by simp)
      rcases List.mem_cons.mp member with rfl | member
      · exact List.not_mem_nil
      rcases List.mem_append.mp member with member | member
      · exact free other (List.mem_cons_of_mem word member)
      · rw [List.mem_singleton.mp member]
        exact List.not_mem_nil
    have regrouped : before ++ separator :: (word ++ [separator]) ++ after =
        before ++ separator :: (word ++ separator :: after) := by simp
    rw [← whole, regrouped, List.splitOn_append_cons_self,
      List.splitOn_append_cons_self_of_not_mem notMem] at pieces
    have member : word ∈ [] :: (ws ++ [[]]) := by
      rw [← pieces]
      simp
    simpa [nonempty] using member
  · intro member
    obtain ⟨before, after, rfl⟩ := List.append_of_mem member
    refine ⟨separated separator ([] :: before), separated separator (after ++ [[]]), ?_⟩
    have front : [] :: (before ++ word :: after ++ [[]]) =
        ([] :: before) ++ (word :: (after ++ [[]])) := by simp
    have back : separated separator (word :: (after ++ [[]])) =
        word ++ separator :: separated separator (after ++ [[]]) :=
      separated_cons word (by simp)
    rw [front, separated_append (List.cons_ne_nil _ _) (List.cons_ne_nil _ _), back]
    simp

end Separated

end SelectorPath.Text
