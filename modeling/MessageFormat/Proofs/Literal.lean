import MessageFormat.Literal
import MessageFormat.Proofs.Cursor

/-!
# Literal text

Two facts about a run of literal text.  `Literal.scan` takes something exactly when `Token.peek`
sees text, and where it stops `Token.peek` sees none.  And every text can be written so that it
is read back, in one of the ways that `Literal.Quotes` allows.  `Literal.escape` is one of them: it
doubles the apostrophes and puts everything from the first character with a meaning of its own into
one quotation.  `Literal.enclose` is another, which does not depend on whether there are tags.

What follows the written text matters only in that it must not be text itself.  Then it does not
begin with an apostrophe, and a quotation at the end is closed where it seems to be.
-/

namespace MessageFormat

variable {context : TextContext}

/-! ## Tokens -/

namespace Token

theorem afterAngle_eq_tagStart {rest : List Char} (h : afterAngle rest = .tagStart) :
    ∃ ch tail, rest = ch :: tail ∧ isAsciiLetter ch = true := by
  cases rest with
  | nil => cases h
  | cons ch tail =>
    rw [afterAngle] at h
    split at h
    · cases h
    · split at h
      · exact ⟨ch, tail, rfl, ‹_›⟩
      · cases h

theorem afterAngle_eq_closingTagStart {rest : List Char}
    (h : afterAngle rest = .closingTagStart) : ∃ tail, rest = '/' :: tail := by
  cases rest with
  | nil => cases h
  | cons ch tail =>
    rw [afterAngle] at h
    split at h
    · next hch => exact ⟨tail, by rw [hch]⟩
    · split at h <;> cases h

/-- What stands in front of each kind of token. -/
theorem peek_cases (context : TextContext) (rest : List Char) :
    match peek context rest with
    | .endOfText => rest = []
    | .argumentStart => ∃ tail, rest = '{' :: tail
    | .closeBrace => ∃ tail, rest = '}' :: tail
    | .pound => context.inPlural = true ∧ ∃ tail, rest = '#' :: tail
    | .closingTagStart => context.ignoreTag = false ∧ ∃ tail, rest = '<' :: '/' :: tail
    | .tagStart => context.ignoreTag = false ∧
        ∃ ch tail, rest = '<' :: ch :: tail ∧ isAsciiLetter ch = true
    | .text => rest ≠ [] := by
  cases rest with
  | nil => rfl
  | cons ch rest =>
    rw [peek]
    by_cases hopen : ch = '{'
    · rw [if_pos hopen]
      exact ⟨rest, by rw [hopen]⟩
    by_cases hclose : ch = '}'
    · rw [if_neg hopen, if_pos hclose]
      exact ⟨rest, by rw [hclose]⟩
    by_cases hpound : ch = '#' ∧ context.inPlural
    · rw [if_neg hopen, if_neg hclose, if_pos hpound]
      exact ⟨hpound.2, rest, by rw [hpound.1]⟩
    by_cases hangle : ch = '<' ∧ !context.ignoreTag
    · rw [if_neg hopen, if_neg hclose, if_neg hpound, if_pos hangle]
      obtain ⟨rfl, htags⟩ := hangle
      cases hafter : afterAngle rest with
      | tagStart =>
        obtain ⟨ch, tail, rfl, hletter⟩ := afterAngle_eq_tagStart hafter
        exact ⟨by simpa using htags, ch, tail, rfl, hletter⟩
      | closingTagStart =>
        obtain ⟨tail, rfl⟩ := afterAngle_eq_closingTagStart hafter
        exact ⟨by simpa using htags, tail, rfl⟩
      | text => simp
      | endOfText | argumentStart | closeBrace | pound =>
        cases rest with
        | nil => cases hafter
        | cons ch tail =>
          rw [afterAngle] at hafter
          split at hafter
          · cases hafter
          · split at hafter <;> cases hafter
    · rw [if_neg hopen, if_neg hclose, if_neg hpound, if_neg hangle]
      simp

end Token

namespace Literal

/-! ## What belongs to a run -/

theorem afterAngle_eq_text_iff {rest : List Char} :
    Token.afterAngle rest = .text ↔
      rest.head?.any (fun ch => ch = '/' || isAsciiLetter ch) = false := by
  cases rest with
  | nil => simp [Token.afterAngle]
  | cons ch rest =>
    by_cases hslash : ch = '/'
    · simp [Token.afterAngle, hslash]
    · cases hletter : isAsciiLetter ch <;> simp [Token.afterAngle, hslash, hletter]

/-- A run goes on with a character exactly where a token of text begins. -/
theorem goesOn_iff {ch : Char} {rest : List Char} :
    goesOn context ch rest = true ↔ Token.peek context (ch :: rest) = .text := by
  rw [goesOn, Token.peek]
  by_cases hopen : ch = '{'
  · simp [isOrdinary, isLoneAngle, hopen]
  by_cases hclose : ch = '}'
  · simp [isOrdinary, isLoneAngle, hclose]
  by_cases hpound : ch = '#' ∧ context.inPlural
  · simp [isOrdinary, isLoneAngle, hpound]
  by_cases hangle : ch = '<'
  · cases htags : context.ignoreTag with
    | true => simp [isOrdinary, isLoneAngle, hangle, htags]
    | false => simp [isOrdinary, isLoneAngle, hangle, htags, afterAngle_eq_text_iff]
  · have hordinary : isOrdinary context ch = true := by
      by_cases hsign : ch = '#'
      · have hplural : context.inPlural = false := by simpa [hsign] using hpound
        simp [isOrdinary, hsign, hplural]
      · simp [isOrdinary, hopen, hclose, hangle, hsign]
    simp [hordinary, hopen, hclose, hpound, hangle]

/-! ## Where a run starts and ends -/

theorem scanFrom_reaches (context : TextContext) (quoted : Bool) (rest : List Char)
    (p : Position) : Cursor.Reaches ⟨rest, p⟩ (scanFrom context quoted rest p).2 := by
  fun_induction scanFrom context quoted rest p with
  | case1 quoted p => exact .refl _
  | case2 rest p ih => exact .trans ⟨['\'', '\''], rfl, rfl⟩ ih
  | case3 rest p _ ih => exact .trans ⟨['\''], rfl, rfl⟩ ih
  | case4 ch rest p _ _ ih => exact .trans ⟨[ch], rfl, rfl⟩ ih
  | case5 rest p ih => exact .trans ⟨['\'', '\''], rfl, rfl⟩ ih
  | case6 ch rest p _ _ ih => exact .trans ⟨['\'', ch], rfl, rfl⟩ ih
  | case7 ch rest p _ _ ih => exact .trans ⟨['\''], rfl, rfl⟩ ih
  | case8 ch rest p _ _ _ ih => exact .trans ⟨[ch], rfl, rfl⟩ ih
  | case9 ch rest p _ _ _ => exact .refl _

theorem peek_scanFrom (context : TextContext) (quoted : Bool) (rest : List Char)
    (p : Position) : Token.peek context (scanFrom context quoted rest p).2.rest ≠ .text := by
  fun_induction scanFrom context quoted rest p with
  | case1 quoted p => simp [Token.peek]
  | case2 rest p ih => exact ih
  | case3 rest p _ ih => exact ih
  | case4 ch rest p _ _ ih => exact ih
  | case5 rest p ih => exact ih
  | case6 ch rest p _ _ ih => exact ih
  | case7 ch rest p _ _ ih => exact ih
  | case8 ch rest p _ _ _ ih => exact ih
  | case9 ch rest p _ _ h => exact fun hpeek => h (goesOn_iff.2 hpeek)

/-- Text is never passed over without being returned. -/
theorem scanFrom_of_peek {rest : List Char} {p : Position}
    (h : Token.peek context rest = .text) :
    (scanFrom context false rest p).1 ≠ [] ∧
      ∃ ch read, Cursor.Reads ⟨rest, p⟩ (ch :: read) (scanFrom context false rest p).2 := by
  have next : ∀ (ch : Char) (s : List Char) (quoted : Bool) (p q : Position) (t : List Char),
      Cursor.Reads ⟨ch :: s ++ t, p⟩ (ch :: s) ⟨t, q⟩ →
      ∃ x read, Cursor.Reads ⟨ch :: s ++ t, p⟩ (x :: read) (scanFrom context quoted t q).2 := by
    intro ch s quoted p q t hread
    obtain ⟨read, hscan⟩ := scanFrom_reaches context quoted t q
    exact ⟨ch, s ++ read, hread.append hscan⟩
  generalize hquoted : false = quoted
  fun_cases scanFrom context quoted rest p with
  | case1 => simp [Token.peek] at h
  | case2 => cases hquoted
  | case3 => cases hquoted
  | case4 => cases hquoted
  | case5 rest => exact ⟨by simp [keep], next '\'' ['\''] false _ _ rest ⟨rfl, rfl⟩⟩
  | case6 ch rest => exact ⟨by simp [keep], next '\'' [ch] true _ _ rest ⟨rfl, rfl⟩⟩
  | case7 ch rest => exact ⟨by simp [keep], next '\'' [] false _ _ (ch :: rest) ⟨rfl, rfl⟩⟩
  | case8 ch rest => exact ⟨by simp [keep], next ch [] false _ _ rest ⟨rfl, rfl⟩⟩
  | case9 ch rest => exact absurd (goesOn_iff.2 h) ‹_›

theorem scan_reaches {c d : Cursor} {text : List Char} (h : scan context c = (text, d)) :
    c.Reaches d := by
  have := scanFrom_reaches context false c.rest c.position
  rwa [← scan, h] at this

theorem scan_ends {c d : Cursor} {text : List Char} (h : scan context c = (text, d)) :
    Token.peek context d.rest ≠ .text := by
  have := peek_scanFrom context false c.rest c.position
  rwa [← scan, h] at this

theorem scan_of_peek {c d : Cursor} {text : List Char} (h : scan context c = (text, d))
    (hpeek : Token.peek context c.rest = .text) :
    text ≠ [] ∧ ∃ ch read, c.Reads (ch :: read) d := by
  have := scanFrom_of_peek (p := c.position) hpeek
  rwa [← scan, h] at this

/-! ## Writing a text so that it is read back -/

/-- A text inside a quotation. -/
def double (text : List Char) : List Char :=
  text.flatMap fun ch => if ch = '\'' then ['\'', '\''] else [ch]

/-- Whether a character must be inside a quotation to stand for itself. -/
def isSpecial (context : TextContext) (ch : Char) : Bool :=
  ch = '{' || ch = '}' || (ch = '<' && !context.ignoreTag) || (ch = '#' && context.inPlural)

/-- The ways to write a text.  A plain character is written as it is and an apostrophe is doubled.
Any stretch that begins with a syntax character can be put in a quotation, in front of anything
but an apostrophe. -/
inductive Quotes (context : TextContext) : List Char → List Char → Prop
  | nil : Quotes context [] []
  | plain {ch : Char} {text written : List Char} (special : isSpecial context ch = false)
      (apostrophe : ch ≠ '\'') (tail : Quotes context text written) :
      Quotes context (ch :: text) (ch :: written)
  | apostrophe {text written : List Char} (tail : Quotes context text written) :
      Quotes context ('\'' :: text) ('\'' :: '\'' :: written)
  | quotation {ch : Char} {quoted text written : List Char}
      (opens : isQuotable context ch = true) (tail : Quotes context text written)
      (closes : written.head? ≠ some '\'') :
      Quotes context (ch :: quoted ++ text) ('\'' :: double (ch :: quoted) ++ '\'' :: written)

/-- A text with its apostrophes doubled and everything from its first special character on in one
quotation. -/
def escape (context : TextContext) : List Char → List Char
  | [] => []
  | ch :: text =>
    if isSpecial context ch then '\'' :: double (ch :: text) ++ ['\'']
    else if ch = '\'' then '\'' :: '\'' :: escape context text
    else ch :: escape context text

@[simp] theorem double_nil : double [] = [] := rfl

theorem double_cons (ch : Char) (text : List Char) :
    double (ch :: text) = (if ch = '\'' then ['\'', '\''] else [ch]) ++ double text := by
  rw [double, List.flatMap_cons, ← double]

theorem isQuotable_of_isSpecial {ch : Char} (h : isSpecial context ch = true) :
    isQuotable context ch = true := by
  simp only [isSpecial, isQuotable, Bool.or_eq_true, Bool.and_eq_true, decide_eq_true_eq] at h ⊢
  rcases h with ((h | h) | h) | h <;> simp [h]

/-- A quotation can go on to the end of the text. -/
theorem Quotes.to_end {ch : Char} {quoted : List Char} (opens : isQuotable context ch = true) :
    Quotes context (ch :: quoted) ('\'' :: double (ch :: quoted) ++ ['\'']) := by
  have quotes : Quotes context (ch :: quoted ++ []) ('\'' :: double (ch :: quoted) ++ ['\'']) :=
    .quotation opens .nil (by simp)
  rwa [List.append_nil] at quotes

/-- Every text can be written. -/
theorem quotes_escape (context : TextContext) (text : List Char) :
    Quotes context text (escape context text) := by
  induction text with
  | nil => exact .nil
  | cons ch text ih =>
    rw [escape]
    split
    · next hspecial => exact .to_end (isQuotable_of_isSpecial hspecial)
    · next hspecial =>
      split
      · next hch =>
        subst hch
        exact .apostrophe ih
      · next hch => exact .plain (by simpa using hspecial) hch ih

/-! ## Reading it back -/

/-- What is not text is not read as text. -/
theorem scanFrom_of_not_text {rest : List Char} {p : Position}
    (h : Token.peek context rest ≠ .text) : scanFrom context false rest p = ([], ⟨rest, p⟩) := by
  cases rest with
  | nil => rfl
  | cons ch rest =>
    have hch : ch ≠ '\'' := by
      rintro rfl
      exact h (by simp [Token.peek])
    have hstop : ¬goesOn context ch rest = true := fun hgoes => h (goesOn_iff.1 hgoes)
    simp [scanFrom, hch, hstop]

/-- Inside a quotation every text is read as it was doubled, up to the closing apostrophe. -/
theorem scanFrom_double {text rest : List Char} {p : Position}
    (h : rest.head? ≠ some '\'') :
    scanFrom context true (double text ++ '\'' :: rest) p =
      (text ++ (scanFrom context false rest (p.advanceAll (double text ++ ['\'']))).1,
        (scanFrom context false rest (p.advanceAll (double text ++ ['\'']))).2) := by
  induction text generalizing p with
  | nil =>
    -- What follows the quotation cannot double its closing apostrophe.
    have hrest : ∀ tail, rest ≠ '\'' :: tail := by
      rintro tail rfl
      exact h rfl
    rw [double_nil, List.nil_append, scanFrom.eq_3 _ _ _ hrest]
    rfl
  | cons ch text ih =>
    by_cases hch : ch = '\''
    · subst hch
      simp [double_cons, scanFrom, ih, keep]
    · simp [double_cons, hch, scanFrom, ih, keep]

theorem peek_of_plain {ch : Char} {rest : List Char} (h : isSpecial context ch = false) :
    Token.peek context (ch :: rest) = .text := by
  simp only [isSpecial, Bool.or_eq_false_iff, decide_eq_false_iff_not, Bool.and_eq_false_iff,
    Bool.not_eq_false'] at h
  obtain ⟨⟨⟨hopen, hclose⟩, hangle⟩, hpound⟩ := h
  rw [Token.peek, if_neg hopen, if_neg hclose, if_neg, if_neg]
  · rintro ⟨hch, htags⟩
    rcases hangle with hangle | hangle
    · exact hangle hch
    · simp [hangle] at htags
  · rintro ⟨hch, hplural⟩
    rcases hpound with hpound | hpound
    · exact hpound hch
    · simp [hpound] at hplural

/-- A written text is seen as text. -/
theorem Quotes.peek {text written rest : List Char} (h : Quotes context text written)
    (hne : text ≠ []) : Token.peek context (written ++ rest) = .text := by
  cases h with
  | nil => exact absurd rfl hne
  | plain special _ _ => exact peek_of_plain special
  | apostrophe => simp [Token.peek]
  | quotation => simp [Token.peek]

/-- A written text in front of anything but text is read back. -/
theorem scanFrom_quotes {text written rest : List Char} {p : Position}
    (h : Quotes context text written) (hrest : Token.peek context rest ≠ .text) :
    scanFrom context false (written ++ rest) p = (text, ⟨rest, p.advanceAll written⟩) := by
  induction h generalizing p with
  | nil => exact scanFrom_of_not_text hrest
  | @plain ch text written special hch _ ih =>
    have hgoes : goesOn context ch (written ++ rest) = true := goesOn_iff.2 (peek_of_plain special)
    simp [hch, scanFrom, hgoes, ih, keep]
  | apostrophe _ ih => simp [scanFrom, ih, keep]
  | @quotation ch quoted text written opens _ closes ih =>
    have hch : ch ≠ '\'' := by
      rintro rfl
      simp [isQuotable] at opens
    have hclose : (written ++ rest).head? ≠ some '\'' := by
      cases written with
      | cons x written => exact closes
      | nil =>
        intro hhead
        obtain ⟨tail, rfl⟩ := List.head?_eq_some_iff.1 hhead
        exact hrest (by simp [Token.peek])
    simp [double_cons, hch, scanFrom, opens, scanFrom_double hclose, ih, keep,
      Position.advanceAll_append]

theorem scan_quotes {text written : List Char} {c d : Cursor} (h : Quotes context text written)
    (hrest : Token.peek context d.rest ≠ .text) (reads : c.Reads written d) :
    scan context c = (text, d) := by
  rw [scan, reads.1, scanFrom_quotes h hrest, ← reads.2]

/-! ## One quotation up to the end -/

/-- The characters that begin something else than text in some message of the context. -/
def isSyntax (context : TextContext) (ch : Char) : Bool :=
  ch = '{' || ch = '}' || ch = '<' || (ch = '#' && context.inPlural)

/-- A text with its apostrophes doubled, and with everything from its first syntax character to its
end in one pair of apostrophes. -/
def enclose (context : TextContext) (text : List Char) : List Char :=
  let plain := text.takeWhile fun ch => !isSyntax context ch
  let quoted := text.dropWhile fun ch => !isSyntax context ch
  double plain ++ if quoted.isEmpty then [] else '\'' :: double quoted ++ ['\'']

theorem isSpecial_of_not_isSyntax {ch : Char} (h : isSyntax context ch = false) :
    isSpecial context ch = false := by
  simp only [isSyntax, isSpecial, Bool.or_eq_false_iff] at h ⊢
  obtain ⟨⟨hbraces, hangle⟩, hpound⟩ := h
  exact ⟨⟨hbraces, by rw [hangle, Bool.false_and]⟩, hpound⟩

theorem isQuotable_of_isSyntax {ch : Char} (h : isSyntax context ch = true) :
    isQuotable context ch = true := by
  simp only [isSyntax, isQuotable, Bool.or_eq_true, Bool.and_eq_true, decide_eq_true_eq] at h ⊢
  rcases h with ((h | h) | h) | h <;> simp [h]

/-- Plain text with its apostrophes doubled can be written before everything. -/
theorem Quotes.double_append {plain text written : List Char}
    (hplain : ∀ ch ∈ plain, isSpecial context ch = false) (tail : Quotes context text written) :
    Quotes context (plain ++ text) (double plain ++ written) := by
  induction plain with
  | nil => exact tail
  | cons ch plain ih =>
    have htail := ih fun x hx => hplain x (List.mem_cons_of_mem ch hx)
    rw [double_cons]
    by_cases hch : ch = '\''
    · subst hch
      exact .apostrophe htail
    · rw [if_neg hch]
      exact .plain (hplain ch List.mem_cons_self) hch htail

theorem quotes_enclose (context : TextContext) (text : List Char) :
    Quotes context text (enclose context text) := by
  have hplain : ∀ ch ∈ text.takeWhile fun ch => !isSyntax context ch,
      isSpecial context ch = false := by
    intro ch hch
    have hsyntax := List.all_eq_true.1 List.all_takeWhile ch hch
    exact isSpecial_of_not_isSyntax (by simpa using hsyntax)
  have hquoted : Quotes context (text.dropWhile fun ch => !isSyntax context ch)
      (if (text.dropWhile fun ch => !isSyntax context ch).isEmpty then []
        else '\'' :: double (text.dropWhile fun ch => !isSyntax context ch) ++ ['\'']) := by
    have hfirst := List.head?_dropWhile_not (fun ch => !isSyntax context ch) text
    cases hdrop : text.dropWhile fun ch => !isSyntax context ch with
    | nil => exact .nil
    | cons ch quoted =>
      have hsyntax : isSyntax context ch = true := by simpa [hdrop] using hfirst
      exact .to_end (isQuotable_of_isSyntax hsyntax)
  have quotes := Quotes.double_append hplain hquoted
  rwa [List.takeWhile_append_dropWhile] at quotes

/-- In every context an enclosed text is seen as text, and it is read back as one literal that ends
where the written text does, unless more text follows, which would be read along with it. -/
theorem scan_enclose (context : TextContext) (text rest : List Char) (p : Position)
    (hne : text ≠ []) :
    Token.peek context (enclose context text ++ rest) = .text ∧
      (scan context ⟨enclose context text ++ rest, p⟩ =
          (text, ⟨rest, p.advanceAll (enclose context text)⟩) ↔
        Token.peek context rest ≠ .text) := by
  have quotes := quotes_enclose context text
  refine ⟨quotes.peek hne, fun hscan => ?_, fun hrest => ?_⟩
  · exact scan_ends hscan
  · exact scan_quotes quotes hrest ⟨rfl, rfl⟩

/-- Apostrophes next to a syntax character and at the end, in front of an argument. -/
theorem scan_enclose_apostrophes :
    enclose ⟨true, false⟩ "it's '#'".toList = "it''s '''#'''".toList ∧
      scan ⟨true, false⟩ ⟨"it''s '''#'''{n}".toList, .start⟩ =
        ("it's '#'".toList, ⟨"{n}".toList, ⟨13, 1, 14⟩⟩) := by
  have henclose : enclose ⟨true, false⟩ "it's '#'".toList = "it''s '''#'''".toList := by decide
  have hscan := (scan_enclose ⟨true, false⟩ "it's '#'".toList "{n}".toList .start
    (by decide)).2.2 (by decide)
  rw [henclose] at hscan
  exact ⟨henclose, hscan⟩

end Literal

end MessageFormat
