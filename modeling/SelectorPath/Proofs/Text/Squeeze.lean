import Mathlib.Data.List.TakeWhile
import SelectorPath.Proofs.Text.Case

/-!
# Runs of blanks as single spaces

A text is squeezed when every run of blanks in it has become one space. Squeezing leaves words as
they are and works on the parts of a text apart from each other, wherever no run of blanks is cut,
so a squeezed text in two parts comes from a text in two parts.

## Main definitions

* `Text.squeeze` — the text with one space for every run of blanks

## Main results

* `Text.squeeze_append` — the parts of a text are squeezed apart
* `Text.exists_of_squeeze_eq_append` — the parts of a squeezed text come from parts
* `Text.trimBlanks_append`, `Text.exists_trimBlanks` — blanks are trimmed, and nothing else
-/

namespace SelectorPath.Text

/-- The text with one space for every run of blanks. -/
def squeeze : List Char → List Char
  | [] => []
  | c :: cs =>
    if isCssBlank c then
      -- the last blank of a run stands for the whole run
      if cs.head?.any isCssBlank then squeeze cs else ' ' :: squeeze cs
    else c :: squeeze cs

section Squeeze

variable {c : Char} {cs word run front back before behind : List Char}

theorem squeeze_cons (noBlank : isCssBlank c = false) : squeeze (c :: cs) = c :: squeeze cs := by
  rw [squeeze, noBlank, if_neg Bool.false_ne_true]

/-- A run of blanks ends in front of what is none. -/
theorem squeeze_last (blank : isCssBlank c = true) (stop : ∀ d ∈ cs.head?, isCssBlank d = false) :
    squeeze (c :: cs) = ' ' :: squeeze cs := by
  have ends : ¬ cs.head?.any isCssBlank = true := by
    rw [Option.any_eq_true]
    rintro ⟨d, first, blank⟩
    exact absurd blank (by rw [stop d first]; exact Bool.false_ne_true)
  rw [squeeze, if_pos blank, if_neg ends]

/-- A run of blanks goes on with another blank. -/
theorem squeeze_more {d : Char} (blank : isCssBlank c = true) (more : isCssBlank d = true) :
    squeeze (c :: d :: cs) = squeeze (d :: cs) := by
  rw [squeeze, if_pos blank, List.head?_cons, Option.any_some, if_pos more]

/-- What is no blank stays as it is. -/
theorem squeeze_append_of_word (noBlanks : ∀ c ∈ word, isCssBlank c = false) (cs : List Char) :
    squeeze (word ++ cs) = word ++ squeeze cs := by
  induction word with
  | nil => rfl
  | cons c word ih =>
    obtain ⟨here, behind⟩ := List.forall_mem_cons.mp noBlanks
    rw [List.cons_append, squeeze_cons here, ih behind, List.cons_append]

theorem squeeze_of_word (noBlanks : ∀ c ∈ word, isCssBlank c = false) : squeeze word = word := by
  simpa [squeeze] using squeeze_append_of_word noBlanks []

/-- The parts of a text are squeezed apart, unless a run of blanks goes on from one to the other. -/
theorem squeeze_append
    (edge : ∀ c ∈ front.getLast?, ∀ d ∈ back.head?, isCssBlank c = false ∨ isCssBlank d = false) :
    squeeze (front ++ back) = squeeze front ++ squeeze back := by
  induction front with
  | nil => rfl
  | cons c front ih =>
    cases front with
    | nil =>
      by_cases blank : isCssBlank c = true
      · have stop : ∀ d ∈ back.head?, isCssBlank d = false := fun d first =>
          (edge c rfl d first).resolve_left (by simp [blank])
        rw [List.singleton_append, squeeze_last blank stop, squeeze_last blank (by simp)]
        rfl
      · rw [Bool.not_eq_true] at blank
        rw [List.singleton_append, squeeze_cons blank, squeeze_cons blank]
        rfl
    | cons d front =>
      rw [List.getLast?_cons_cons] at edge
      have apart := ih edge
      by_cases blank : isCssBlank c = true
      · by_cases more : isCssBlank d = true
        · rw [List.cons_append, List.cons_append, squeeze_more blank more, squeeze_more blank more,
            ← List.cons_append, apart]
        · rw [Bool.not_eq_true] at more
          rw [List.cons_append, squeeze_last blank (by simpa using more),
            squeeze_last blank (by simpa using more), apart, List.cons_append]
      · rw [Bool.not_eq_true] at blank
        rw [List.cons_append, squeeze_cons blank, squeeze_cons blank, apart, List.cons_append]

/-- A run in front of a word and what follows the word are squeezed apart. -/
theorem squeeze_append_append (nonempty : word ≠ []) (noBlanks : ∀ c ∈ word, isCssBlank c = false)
    (front cs : List Char) :
    squeeze (front ++ (word ++ cs)) = squeeze front ++ (word ++ squeeze cs) := by
  rw [squeeze_append, squeeze_append_of_word noBlanks]
  obtain ⟨first, more, rfl⟩ := List.exists_cons_of_ne_nil nonempty
  rintro c - d ⟨⟩
  exact .inr (noBlanks first List.mem_cons_self)

/-- A run of blanks alone is one space, or nothing if there is none. -/
theorem squeeze_of_blanks (blanks : ∀ c ∈ run, isCssBlank c = true) :
    squeeze run = if run = [] then [] else [' '] := by
  induction run with
  | nil => rfl
  | cons c run ih =>
    obtain ⟨here, behind⟩ := List.forall_mem_cons.mp blanks
    cases run with
    | nil => exact squeeze_last here (by simp)
    | cons d run => rw [squeeze_more here (behind d List.mem_cons_self), ih behind]; simp

/-- Every character of a text is still there, or there is a space for it. -/
theorem mem_squeeze (member : c ∈ cs) : (if isCssBlank c then ' ' else c) ∈ squeeze cs := by
  induction cs generalizing c with
  | nil => exact absurd member List.not_mem_nil
  | cons d cs ih =>
    by_cases blank : isCssBlank d = true
    · by_cases stop : ∀ e ∈ cs.head?, isCssBlank e = false
      · rw [squeeze_last blank stop]
        rcases List.mem_cons.mp member with rfl | member
        · rw [if_pos blank]
          exact List.mem_cons_self
        · exact List.mem_cons_of_mem _ (ih member)
      · -- the space for `d` is that of the blank behind it
        cases cs with
        | nil => exact absurd (by simp) stop
        | cons e cs =>
          have more : isCssBlank e = true := by simpa using stop
          rw [squeeze_more blank more]
          rcases List.mem_cons.mp member with rfl | member
          · have space := ih List.mem_cons_self
            rw [if_pos more] at space
            rwa [if_pos blank]
          · exact ih member
    · rw [squeeze_cons (by simpa using blank)]
      rcases List.mem_cons.mp member with rfl | member
      · rw [if_neg blank]
        exact List.mem_cons_self
      · exact List.mem_cons_of_mem _ (ih member)

theorem of_mem_squeeze (member : c ∈ squeeze cs) : c = ' ' ∨ c ∈ cs := by
  induction cs with
  | nil => exact absurd member List.not_mem_nil
  | cons d cs ih =>
    rw [squeeze] at member
    repeat' split at member
    · exact (ih member).imp_right (List.mem_cons_of_mem _)
    · rcases List.mem_cons.mp member with rfl | member
      · exact .inl rfl
      · exact (ih member).imp_right (List.mem_cons_of_mem _)
    · rcases List.mem_cons.mp member with rfl | member
      · exact .inr List.mem_cons_self
      · exact (ih member).imp_right (List.mem_cons_of_mem _)

/-- What holds of a space and of every character holds of every character of the squeezed text. -/
theorem forall_mem_squeeze {p : Char → Prop} (space : p ' ') (each : ∀ c ∈ cs, p c) :
    ∀ c ∈ squeeze cs, p c := by
  intro c member
  rcases of_mem_squeeze member with rfl | member
  · exact space
  · exact each c member

/-- What holds of every character of the squeezed text, and of all blanks, holds of every character.
-/
theorem forall_mem_of_squeeze {p : Char → Prop} (blanks : ∀ c, isCssBlank c = true → p c)
    (each : ∀ c ∈ squeeze cs, p c) : ∀ c ∈ cs, p c := by
  intro c member
  by_cases blank : isCssBlank c = true
  · exact blanks c blank
  · have kept := mem_squeeze member
    rw [if_neg blank] at kept
    exact each c kept

/-- If nothing in the squeezed text is a blank, nothing was squeezed. -/
theorem eq_of_squeeze_eq_word (noBlanks : ∀ c ∈ word, isCssBlank c = false)
    (same : squeeze cs = word) : cs = word := by
  rw [← same, squeeze_of_word]
  refine fun c member => Bool.eq_false_iff.mpr fun blank => ?_
  have space := mem_squeeze member
  rw [if_pos blank, same] at space
  exact absurd (noBlanks ' ' space) (by decide)

/-- The parts of a squeezed text are squeezed parts of the text. -/
theorem exists_of_squeeze_eq_append (split : squeeze cs = front ++ back) :
    ∃ before behind, cs = before ++ behind ∧ squeeze before = front ∧ squeeze behind = back := by
  induction cs generalizing front with
  | nil =>
    obtain ⟨rfl, rfl⟩ := List.append_eq_nil_iff.mp split.symm
    exact ⟨[], [], rfl, rfl, rfl⟩
  | cons c cs ih =>
    cases front with
    | nil => exact ⟨[], c :: cs, rfl, rfl, split⟩
    | cons d front =>
      -- a run of blanks counts for its last character, so it is cut behind that one
      by_cases blank : isCssBlank c = true
      · by_cases stop : ∀ e ∈ cs.head?, isCssBlank e = false
        · rw [squeeze_last blank stop, List.cons_append] at split
          obtain ⟨rfl, rest⟩ := List.cons.inj split
          obtain ⟨before, behind, rfl, rfl, same⟩ := ih rest
          refine ⟨c :: before, behind, rfl, squeeze_last blank fun e first => ?_, same⟩
          refine stop e ?_
          obtain ⟨more, rfl⟩ := List.head?_eq_some_iff.mp first
          rfl
        · -- the run goes on, and with it the part that it belongs to
          cases cs with
          | nil => exact absurd (by simp) stop
          | cons e cs =>
            have more : isCssBlank e = true := by simpa using stop
            rw [squeeze_more blank more] at split
            obtain ⟨before, behind, whole, here, same⟩ := ih split
            cases before with
            | nil => exact nomatch here
            | cons first before =>
              obtain ⟨rfl, rfl⟩ := List.cons.inj whole
              exact ⟨c :: e :: before, behind, rfl, (squeeze_more blank more).trans here, same⟩
      · rw [Bool.not_eq_true] at blank
        rw [squeeze_cons blank, List.cons_append] at split
        obtain ⟨rfl, rest⟩ := List.cons.inj split
        obtain ⟨before, behind, rfl, rfl, same⟩ := ih rest
        exact ⟨c :: before, behind, rfl, squeeze_cons blank, same⟩

theorem isCssBlank_toLower (c : Char) : isCssBlank c.toLower = isCssBlank c := by
  rw [Bool.eq_iff_iff]
  simp only [isCssBlank, Bool.or_eq_true, beq_iff_eq, eq_iff_toNat, toNat_toLower]
  simp only [Char.reduceToNat]
  split <;> omega

/-- The same blanks are squeezed in small letters. -/
theorem squeeze_map_toLower (cs : List Char) :
    squeeze (cs.map Char.toLower) = (squeeze cs).map Char.toLower := by
  induction cs with
  | nil => rfl
  | cons c cs ih =>
    have alike : (cs.map Char.toLower).head?.any isCssBlank = cs.head?.any isCssBlank := by
      cases cs with
      | nil => rfl
      | cons d cs => exact isCssBlank_toLower d
    rw [List.map_cons, squeeze, squeeze, isCssBlank_toLower, alike, ih]
    repeat' split
    all_goals rfl

end Squeeze

/-! ### Blanks at the ends -/

section Trim

variable {before inside behind : List Char}

/-- Blanks around a text do not matter when it is trimmed. -/
theorem trimBlanks_append (blankBefore : ∀ c ∈ before, isBlank c = true)
    (blankBehind : ∀ c ∈ behind, isBlank c = true) :
    trimBlanks (before ++ (inside ++ behind)) = trimBlanks inside := by
  rw [trimBlanks, trimBlanks, List.dropWhile_append_of_pos blankBefore, List.dropWhile_append]
  split
  · -- all is blank, in front of `behind` and with it
    rename_i empty
    rw [List.isEmpty_iff.mp empty, List.dropWhile_eq_nil_iff.mpr blankBehind]
  · rw [List.reverse_append, List.dropWhile_append_of_pos (by simpa using blankBehind)]

/-- A text that starts and ends with no blank is trimmed already. -/
theorem trimBlanks_eq_self (first : ∀ c ∈ inside.head?, isBlank c = false)
    (last : ∀ c ∈ inside.getLast?, isBlank c = false) : trimBlanks inside = inside := by
  rw [trimBlanks, (run_of_head first).2, (run_of_head (by rwa [List.head?_reverse])).2,
    List.reverse_reverse]

/-- Nothing but blanks is trimmed. -/
theorem exists_trimBlanks (cs : List Char) :
    ∃ before behind, cs = before ++ (trimBlanks cs ++ behind) ∧
      (∀ c ∈ before, isBlank c = true) ∧ ∀ c ∈ behind, isBlank c = true := by
  refine ⟨cs.takeWhile isBlank, ((cs.dropWhile isBlank).reverse.takeWhile isBlank).reverse, ?_,
    fun c member => List.mem_takeWhile_imp member,
    fun c member => List.mem_takeWhile_imp (List.mem_reverse.mp member)⟩
  rw [trimBlanks, ← List.reverse_append, List.takeWhile_append_dropWhile, List.reverse_reverse,
    List.takeWhile_append_dropWhile]

end Trim

end SelectorPath.Text
