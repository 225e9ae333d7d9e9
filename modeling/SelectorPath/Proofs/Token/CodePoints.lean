import SelectorPath.Proofs.Text.Case
import SelectorPath.Proofs.Token.Identifiers

/-!
# Names written by code points

Any character but U+0000 can be written as a backslash, its code point in hexadecimal digits, and
one blank that ends the digits. The digits may be of either case and have zeros in front, six of
them at most; the blank may be a carriage return with a line feed, which count as one. A text
written so is one name, whatever its characters are: the first escape starts the name, and no later
one ends it.

## Main definitions

* `Text.IsCode`, `Text.codeBlanks` — the digits of a code point, and the blanks behind them
* `Text.IsCoded` — a text in which every character is written by its code point

## Main results

* `Lexer.readNameParts_coded` — such a text is read to its end
* `hasOneToken_coded` — it is one identifier, and behind `#` one hash
-/

namespace SelectorPath

namespace Text

variable {c : Char} {cs digits source : List Char}

/-! ### Hexadecimal digits -/

theorem hexValue_concat (digits : List Char) (d : Char) :
    hexValue (digits ++ [d]) = 16 * hexValue digits + hexDigitValue d := by
  simp [hexValue]

theorem hexValue_replicate_zero (n : ℕ) (digits : List Char) :
    hexValue (List.replicate n '0' ++ digits) = hexValue digits := by
  have zeros : (List.replicate n '0').foldl (fun value digit => 16 * value + hexDigitValue digit) 0
      = 0 := by
    induction n with
    | zero => rfl
    | succ n ih => rw [List.replicate_succ, List.foldl_cons]; exact ih
  rw [hexValue, List.foldl_append, zeros]
  rfl

theorem hexDigitValue_digitChar : ∀ n < 16, hexDigitValue (Nat.digitChar n) = n := by decide

theorem isHexDigit_digitChar : ∀ n < 16, isHexDigit (Nat.digitChar n) = true := by decide

theorem toLower_digitChar : ∀ n < 16, (Nat.digitChar n).toLower = Nat.digitChar n := by decide

/-- The hexadecimal digits of a number have its value. -/
theorem hexValue_toDigits (n : ℕ) : hexValue (Nat.toDigits 16 n) = n := by
  induction n using Nat.strongRecOn with
  | ind n ih =>
    by_cases small : n < 16
    · rw [Nat.toDigits_of_lt_base small]
      simpa [hexValue] using hexDigitValue_digitChar n small
    · have base : 16 ≤ n := Nat.le_of_not_lt small
      rw [Nat.toDigits_of_base_le (by decide) base, hexValue_concat, ih (n / 16) (by omega),
        hexDigitValue_digitChar _ (Nat.mod_lt n (by decide))]
      omega

/-- The hexadecimal digits of a number are the sixteen of small letters. -/
theorem exists_of_mem_toDigits {n : ℕ} (member : c ∈ Nat.toDigits 16 n) :
    ∃ k < 16, c = Nat.digitChar k := by
  induction n using Nat.strongRecOn with
  | ind n ih =>
    by_cases small : n < 16
    · rw [Nat.toDigits_of_lt_base small, List.mem_singleton] at member
      exact ⟨n, small, member⟩
    · have base : 16 ≤ n := Nat.le_of_not_lt small
      rw [Nat.toDigits_of_base_le (by decide) base] at member
      rcases List.mem_append.mp member with member | member
      · exact ih (n / 16) (by omega) member
      · exact ⟨n % 16, Nat.mod_lt n (by decide), List.mem_singleton.mp member⟩

theorem isHexDigit_of_mem_toDigits {n : ℕ} (member : c ∈ Nat.toDigits 16 n) :
    isHexDigit c = true := by
  obtain ⟨k, small, rfl⟩ := exists_of_mem_toDigits member
  exact isHexDigit_digitChar k small

theorem map_toLower_toDigits (n : ℕ) : (Nat.toDigits 16 n).map Char.toLower = Nat.toDigits 16 n := by
  refine (List.map_congr_left fun c member => ?_).trans (List.map_id _)
  obtain ⟨k, small, rfl⟩ := exists_of_mem_toDigits member
  exact toLower_digitChar k small

theorem isHexDigit_of_toLower (hex : isHexDigit c.toLower = true) : isHexDigit c = true := by
  simp only [isHexDigit, isDigit, Bool.or_eq_true, Bool.and_eq_true, decide_eq_true_eq,
    le_iff_toNat, toNat_toLower] at *
  simp only [Char.reduceToNat] at *
  split at hex <;> omega

/-- A digit has one value in both cases. -/
theorem hexDigitValue_toLower (c : Char) : hexDigitValue c.toLower = hexDigitValue c := by
  simp only [hexDigitValue, isDigit, Bool.and_eq_true, decide_eq_true_eq, le_iff_toNat,
    toNat_toLower]
  simp only [Char.reduceToNat]
  repeat' split
  all_goals omega

theorem hexValue_map_toLower (digits : List Char) :
    hexValue (digits.map Char.toLower) = hexValue digits := by
  simp only [hexValue, List.foldl_map, hexDigitValue_toLower]

/-! ### Characters by their code points -/

/-- The digits are the code point of the character in hexadecimal, of either case, with zeros in
front of it and not more than six. -/
structure IsCode (c : Char) (digits : List Char) : Prop where
  written : ∃ zeros, digits.map Char.toLower = List.replicate zeros '0' ++ Nat.toDigits 16 c.toNat
  few : digits.length ≤ 6

/-- What ends a code point: one blank, or a carriage return with a line feed. -/
def codeBlanks : List (List Char) := [[' '], ['\t'], ['\n'], ['\x0c'], ['\r', '\n']]

/-- Each character is written as a backslash, its code point and a blank. -/
inductive IsCoded : List Char → List Char → Prop
  | nil : IsCoded [] []
  | cons {c : Char} {cs digits blank source : List Char} (code : IsCode c digits)
      (ended : blank ∈ codeBlanks) (behind : IsCoded source cs) :
      IsCoded ('\\' :: (digits ++ blank) ++ source) (c :: cs)

theorem IsCode.hex (code : IsCode c digits) : ∀ d ∈ digits, isHexDigit d = true := by
  obtain ⟨zeros, written⟩ := code.written
  intro d member
  have lower : d.toLower ∈ digits.map Char.toLower := List.mem_map_of_mem member
  rw [written] at lower
  apply isHexDigit_of_toLower
  rcases List.mem_append.mp lower with zero | digit
  · rw [List.eq_of_mem_replicate zero]
    rfl
  · exact isHexDigit_of_mem_toDigits digit

theorem IsCode.ne_nil (code : IsCode c digits) : digits ≠ [] := by
  obtain ⟨zeros, written⟩ := code.written
  rintro rfl
  have empty := (List.append_eq_nil_iff.mp written.symm).2
  exact Nat.toDigits_ne_nil empty

/-- The digits of a code point have it as their value. -/
theorem IsCode.hexValue_eq (code : IsCode c digits) : hexValue digits = c.toNat := by
  obtain ⟨zeros, written⟩ := code.written
  rw [← hexValue_map_toLower, written, hexValue_replicate_zero, hexValue_toDigits]

theorem IsCoded.eq_cons (coded : IsCoded source cs) (nonempty : cs ≠ []) :
    ∃ more, source = '\\' :: more := by
  cases coded with
  | nil => exact absurd rfl nonempty
  | cons => exact ⟨_, List.cons_append⟩

/-- Every character has a code point of six digits at most. -/
theorem exists_isCode (c : Char) : IsCode c (Nat.toDigits 16 c.toNat) := by
  have bound : c.toNat < 16 ^ 6 := by
    have := c.valid
    simp only [UInt32.isValidChar, Nat.isValidChar] at this
    simp only [Char.toNat]
    omega
  exact ⟨⟨0, map_toLower_toDigits _⟩, (Nat.length_toDigits_le_iff (by decide) (by decide)).mpr bound⟩

theorem exists_isCoded (cs : List Char) : ∃ source, IsCoded source cs := by
  induction cs with
  | nil => exact ⟨[], .nil⟩
  | cons c cs ih =>
    obtain ⟨source, coded⟩ := ih
    exact ⟨_, .cons (exists_isCode c) List.mem_cons_self coded⟩

end Text

namespace Lexer

open Text

variable {c : Char} {cs digits blank source rest : List Char}

/-- A code point and the blank behind it are read as the character, whatever follows. -/
theorem readEscape_code (code : IsCode c digits) (ended : blank ∈ codeBlanks) (visible : c ≠ '\x00')
    (rest : List Char) : readEscape ('\\' :: (digits ++ blank) ++ rest) = some (c, rest) := by
  have blankFirst : ∀ d ∈ (blank ++ rest).head?, isHexDigit d = false := by
    simp only [codeBlanks, List.mem_cons, List.not_mem_nil, or_false] at ended
    rcases ended with rfl | rfl | rfl | rfl | rfl <;> simp [isHexDigit, isDigit]
  have isOneBlank : IsOneBlank blank rest := by
    simp only [codeBlanks, List.mem_cons, List.not_mem_nil, or_false] at ended
    rcases ended with rfl | rfl | rfl | rfl | rfl
    case inr.inr.inr.inr => exact .pair rest
    all_goals exact .single rfl (by simp)
  have same : charOfCode (hexValue digits) = c := by
    have nonzero : c.toNat ≠ 0 := fun zero => visible (eq_iff_toNat.mpr zero)
    have valid : c.toNat.isValidChar := c.valid
    rw [code.hexValue_eq]
    simp [charOfCode, nonzero, valid, Char.ofNat_toNat]
  refine readEscape_iff.mpr ⟨_, rfl, ?_⟩
  have escape : IsEscape _ _ rest :=
    .code code.ne_nil ⟨code.hex, code.few, fun _ => blankFirst⟩ isOneBlank
  rwa [same] at escape

theorem readCharOrEscape_code (accepts : Char → Bool) (bar : accepts '\\' = false)
    (code : IsCode c digits) (ended : blank ∈ codeBlanks) (visible : c ≠ '\x00')
    (rest : List Char) :
    readCharOrEscape accepts ('\\' :: (digits ++ blank) ++ rest) = some (c, rest) := by
  rw [List.cons_append, readCharOrEscape, bar, ← List.cons_append,
    readEscape_code code ended visible]
  rfl

/-- What is written by code points is read to its end. -/
theorem readNameParts_coded (coded : IsCoded source cs) (visible : '\x00' ∉ cs) :
    readNameParts source = (cs, []) := by
  induction coded with
  | nil => exact readNameParts_of_none rfl
  | @cons c cs digits blank source code ended behind ih =>
    have here : c ≠ '\x00' := fun zero => visible (zero ▸ List.mem_cons_self)
    have first := readCharOrEscape_code isNamePart rfl code ended here source
    rw [readNameParts_of_some first, ih fun member => visible (List.mem_cons_of_mem c member)]

theorem readIdent_coded (coded : IsCoded source cs) (nonempty : cs ≠ []) (visible : '\x00' ∉ cs) :
    readIdent source = some (cs, []) := by
  cases coded with
  | nil => exact absurd rfl nonempty
  | @cons c cs digits blank source code ended behind =>
    have here : c ≠ '\x00' := fun zero => visible (zero ▸ List.mem_cons_self)
    have first := readCharOrEscape_code isNameStart rfl code ended here source
    have parts := readNameParts_coded behind fun member => visible (List.mem_cons_of_mem c member)
    have noHyphen : takeHyphen ('\\' :: (digits ++ blank) ++ source) =
        ([], '\\' :: (digits ++ blank) ++ source) := rfl
    rw [readIdent, noHyphen]
    simp only [first, parts, List.nil_append]

theorem readHash_coded (coded : IsCoded source cs) (nonempty : cs ≠ []) (visible : '\x00' ∉ cs) :
    readHash ('#' :: source) = some (cs, []) := by
  cases cs with
  | nil => exact absurd rfl nonempty
  | cons c cs => simp [readHash, readNameParts_coded coded visible]

end Lexer

open Lexer Text

/-- A text without U+0000 that is not empty can be written by code points, and however that is done,
it is one identifier with the text as its value, and behind `#` one hash with that value. -/
theorem hasOneToken_coded {text : String} (nonempty : text ≠ "") (visible : '\x00' ∉ text.toList) :
    (∃ source, IsCoded source text.toList) ∧
      ∀ source, IsCoded source text.toList →
        HasOneToken (String.ofList source) .ident text ∧
          HasOneToken (String.ofList ('#' :: source)) .hash text := by
  refine ⟨exists_isCoded text.toList, fun source coded => ?_⟩
  have chars : text.toList ≠ [] := by simpa using nonempty
  have name := readIdent_coded coded chars visible
  have hash := readHash_coded coded chars visible
  constructor
  · -- the first code starts with a backslash, so no other rule takes the identifier
    obtain ⟨more, rfl⟩ := coded.eq_cons chars
    have lexes : Lexes ('\\' :: more) .ident text.toList [] :=
      lexes_of_readIdent (.inl rfl) (by rwa [List.append_nil])
    simpa using lexes.hasOneToken
  · have lexes : Lexes ('#' :: source) .hash text.toList [] :=
      lexes_of_readHash (by rwa [List.append_nil])
    simpa only [String.ofList_toList] using lexes.hasOneToken

/-- A digit in front, ended by a carriage return with a line feed, and a line feed with zeros before
its digit, which is a capital. -/
theorem hasOneToken_coded_lineFeed :
    "1\n" ≠ "" ∧ '\x00' ∉ "1\n".toList ∧ IsCoded "\\31\r\n\\00000A ".toList "1\n".toList ∧
      HasOneToken "\\31\r\n\\00000A " .ident "1\n" ∧
      HasOneToken "#\\31\r\n\\00000A " .hash "1\n" := by
  have digit : IsCode '1' ['3', '1'] := ⟨⟨0, by decide⟩, by decide⟩
  have lineFeed : IsCode '\n' ['0', '0', '0', '0', '0', 'A'] := ⟨⟨5, by decide⟩, by decide⟩
  have pair : ['\r', '\n'] ∈ codeBlanks := by decide
  have space : [' '] ∈ codeBlanks := by decide
  have coded : IsCoded "\\31\r\n\\00000A ".toList "1\n".toList :=
    .cons digit pair (.cons lineFeed space .nil)
  have nonempty : "1\n" ≠ "" := by decide
  have visible : '\x00' ∉ "1\n".toList := by decide
  exact ⟨nonempty, visible, coded, (hasOneToken_coded nonempty visible).2 _ coded⟩

end SelectorPath
