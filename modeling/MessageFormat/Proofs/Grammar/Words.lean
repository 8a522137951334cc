import MessageFormat.Parse.Choice
import MessageFormat.Proofs.Cursor

/-!
# The words of a message

The pieces a message is put together from, as predicates on texts: blanks, identifiers, tag
names, numerals, selectors and the offset of a plural argument.  Each of them says what the piece
is and nothing about how it is found.

No text is two kinds of piece at the place where they meet.  The classes of characters that can
follow each other are disjoint, and the second half of the file has the disjointness in the form
in which it is used: where one piece is written, the run of another class ends.
-/

namespace MessageFormat

/-- Blanks, possibly none. -/
def IsBlank (text : List Char) : Prop := ∀ ch ∈ text, isPatternWhiteSpace ch = true

/-- An argument name, a type word, or a selector that is a word. -/
def IsIdentifier (text : List Char) : Prop :=
  text ≠ [] ∧ ∀ ch ∈ text, isIdentifierChar ch = true

/-- A tag name. -/
def IsTagName (text : List Char) : Prop :=
  (∃ ch, text.head? = some ch ∧ isAsciiLetter ch = true) ∧ ∀ ch ∈ text, isTagNameChar ch = true

/-- A sign, possibly none. -/
def IsSign (text : List Char) : Prop := text = [] ∨ text = ['+'] ∨ text = ['-']

/-- The digits of a numeral. -/
def IsDigits (text : List Char) : Prop := text ≠ [] ∧ ∀ ch ∈ text, isAsciiDigit ch = true

/-- An exact selector: an equals sign and an integer of at most sixty-three bits. -/
def IsExact (text : List Char) : Prop :=
  ∃ sign digits, text = '=' :: (sign ++ digits) ∧ IsSign sign ∧ IsDigits digits ∧
    natOfDigits digits < wordSize 63

/-- A selector of a plural or select argument. -/
def IsSelector (choice : Choice) (text : List Char) : Prop :=
  IsIdentifier text ∨ choice.isPlural = true ∧ IsExact text

/-- The offset `n` of a plural argument: its keyword and a numeral.  A minus sign is possible
only before zero. -/
def IsOffset (text : List Char) (n : Nat) : Prop :=
  ∃ blanks sign digits, text = "offset:".toList ++ blanks ++ sign ++ digits ∧ IsBlank blanks ∧
    IsSign sign ∧ IsDigits digits ∧ n = natOfDigits digits ∧ n < wordSize 32 ∧
    (sign = ['-'] → n = 0)

/-- The type word of a plural or select argument. -/
def Choice.word : Choice → List Char
  | .select => "select".toList
  | .plural .cardinal => "plural".toList
  | .plural .ordinal => "selectordinal".toList

instance (text : List Char) : Decidable (IsBlank text) :=
  decidable_of_iff (text.all isPatternWhiteSpace = true) List.all_eq_true

instance (text : List Char) : Decidable (IsIdentifier text) :=
  decidable_of_iff (text ≠ [] ∧ text.all isIdentifierChar = true)
    (and_congr_right fun _ => List.all_eq_true)

instance (text : List Char) : Decidable (IsTagName text) :=
  decidable_of_iff (text.head?.any isAsciiLetter = true ∧ text.all isTagNameChar = true)
    (and_congr (Option.any_eq_true _ _) List.all_eq_true)

/-! ## Where classes end -/

theorem isBlank_nil : IsBlank [] := by
  intro ch hch
  cases hch

theorem isIdentifierChar_eq_false_of_blank {ch : Char} (h : isPatternWhiteSpace ch = true) :
    isIdentifierChar ch = false := by
  rw [isIdentifierChar, h]
  rfl

theorem isPatternWhiteSpace_eq_false {ch : Char} (h : isIdentifierChar ch = true) :
    isPatternWhiteSpace ch = false := by
  rw [Bool.eq_false_iff]
  intro hblank
  rw [isIdentifierChar_eq_false_of_blank hblank] at h
  cases h

theorem isTagNameChar_eq_false_of_blank {ch : Char} (h : isPatternWhiteSpace ch = true) :
    isTagNameChar ch = false := by
  simp only [isPatternWhiteSpace, isTagNameChar, inRanges, patternWhiteSpace, tagNameRanges,
    List.any_cons, List.any_nil, Bool.or_eq_true, Bool.and_eq_true, decide_eq_true_eq,
    Bool.or_eq_false_iff, Bool.and_eq_false_iff, decide_eq_false_iff_not, Bool.false_eq_true,
    or_false, and_true] at h ⊢
  omega

theorem isAsciiDigit_eq_false_of_blank {ch : Char} (h : isPatternWhiteSpace ch = true) :
    isAsciiDigit ch = false := by
  rw [Bool.eq_false_iff, ne_eq, isAsciiDigit_iff]
  simp only [isPatternWhiteSpace, inRanges, patternWhiteSpace, List.any_cons, List.any_nil,
    Bool.or_eq_true, Bool.and_eq_true, decide_eq_true_eq, Bool.false_eq_true, or_false] at h
  omega

theorem isPatternWhiteSpace_eq_false_of_digit {ch : Char} (h : isAsciiDigit ch = true) :
    isPatternWhiteSpace ch = false := by
  rw [Bool.eq_false_iff]
  intro hblank
  rw [isAsciiDigit_eq_false_of_blank hblank] at h
  cases h

end MessageFormat
