/-!
# Character classes

The four classes a message, a skeleton and a catalogue are read by, each as a table of
code point ranges.

* `isPatternWhiteSpace` is the Unicode property `Pattern_White_Space`: the blanks of a
  message.
* `isPatternSyntax` is the Unicode property `Pattern_Syntax`: what an identifier may not hold.
* `isTagNameChar` is the XML class `NameChar` without the colon.
* `isWhiteSpace` is the Unicode property `White_Space`: the blanks of a skeleton, a language
  tag and a catalogue.  It differs from the first class on both sides: U+200E and U+200F
  are only in the first, U+00A0 and the wide spaces only in this one.
-/

namespace MessageFormat

/-- An inclusive range of code points. -/
abbrev CodeRange := Nat × Nat

/-- Whether a character lies in one of the ranges. -/
def inRanges (ranges : List CodeRange) (c : Char) : Bool :=
  ranges.any fun (lo, hi) => decide (lo ≤ c.toNat) && decide (c.toNat ≤ hi)

/-- The ranges of `Pattern_White_Space`. -/
def patternWhiteSpace : List CodeRange :=
  [(0x09, 0x0D), (0x20, 0x20), (0x85, 0x85), (0x200E, 0x200F), (0x2028, 0x2029)]

/-- The ranges of `Pattern_Syntax`. -/
def patternSyntaxRanges : List CodeRange :=
  [(0x21, 0x2F), (0x3A, 0x40), (0x5B, 0x5E), (0x60, 0x60), (0x7B, 0x7E),
   (0xA1, 0xA7), (0xA9, 0xA9), (0xAB, 0xAC), (0xAE, 0xAE), (0xB0, 0xB1), (0xB6, 0xB6),
   (0xBB, 0xBB), (0xBF, 0xBF), (0xD7, 0xD7), (0xF7, 0xF7),
   (0x2010, 0x2027), (0x2030, 0x203E), (0x2041, 0x2053), (0x2055, 0x205E),
   (0x2190, 0x245F), (0x2500, 0x2775), (0x2794, 0x2BFF), (0x2E00, 0x2E7F),
   (0x3001, 0x3003), (0x3008, 0x3020), (0x3030, 0x3030),
   (0xFD3E, 0xFD3F), (0xFE45, 0xFE46)]

/-- The ranges of the characters a tag name is made of. -/
def tagNameRanges : List CodeRange :=
  [(0x2D, 0x2E), (0x30, 0x39), (0x5F, 0x5F), (0x61, 0x7A), (0x41, 0x5A), (0xB7, 0xB7),
   (0xC0, 0xD6), (0xD8, 0xF6), (0xF8, 0x37D), (0x37F, 0x1FFF), (0x200C, 0x200D),
   (0x203F, 0x2040), (0x2070, 0x218F), (0x2C00, 0x2FEF), (0x3001, 0xD7FF),
   (0xF900, 0xFDCF), (0xFDF0, 0xFFFD), (0x10000, 0xEFFFF)]

/-- The ranges of `White_Space`. -/
def whiteSpaceRanges : List CodeRange :=
  [(0x09, 0x0D), (0x20, 0x20), (0x85, 0x85), (0xA0, 0xA0), (0x1680, 0x1680),
   (0x2000, 0x200A), (0x2028, 0x2029), (0x202F, 0x202F), (0x205F, 0x205F),
   (0x3000, 0x3000)]

/-- Blanks of a message. -/
def isPatternWhiteSpace (c : Char) : Bool := inRanges patternWhiteSpace c

/-- Punctuation and symbols that no identifier holds. -/
def isPatternSyntax (c : Char) : Bool := inRanges patternSyntaxRanges c

/-- Characters of a tag name. -/
def isTagNameChar (c : Char) : Bool := inRanges tagNameRanges c

/-- Blanks of everything but a message. -/
def isWhiteSpace (c : Char) : Bool := inRanges whiteSpaceRanges c

/-- Characters of an argument name, a selector or a type word: everything but blanks and
pattern syntax. -/
def isIdentifierChar (c : Char) : Bool := !isPatternWhiteSpace c && !isPatternSyntax c

/-- The letters of ASCII, which start a tag name. -/
def isAsciiLetter (c : Char) : Bool := c.isAlpha

/-- The digits of ASCII. -/
def isAsciiDigit (c : Char) : Bool := c.isDigit

theorem isAsciiLetter_iff {c : Char} :
    isAsciiLetter c = true ↔
      65 ≤ c.toNat ∧ c.toNat ≤ 90 ∨ 97 ≤ c.toNat ∧ c.toNat ≤ 122 := by
  have hvalue : isAsciiLetter c =
      (decide (65 ≤ c.val ∧ c.val ≤ 90) || decide (97 ≤ c.val) && decide (c.val ≤ 122)) := rfl
  simp [hvalue, UInt32.le_iff_toNat_le]

theorem isAsciiDigit_iff {c : Char} :
    isAsciiDigit c = true ↔ 48 ≤ c.toNat ∧ c.toNat ≤ 57 := by
  simp [isAsciiDigit, Char.isDigit, UInt32.le_iff_toNat_le]

/-- The visible characters of ASCII are no blanks. -/
theorem isWhiteSpace_eq_false_of_ascii {c : Char} (h : 33 ≤ c.toNat ∧ c.toNat ≤ 126) :
    isWhiteSpace c = false := by
  simp only [isWhiteSpace, inRanges, whiteSpaceRanges, List.any_eq_false, List.mem_cons,
    List.not_mem_nil, or_false, Bool.and_eq_true, decide_eq_true_eq]
  rintro ⟨lo, hi⟩ hrange
  simp only [Prod.mk.injEq] at hrange
  omega

end MessageFormat
