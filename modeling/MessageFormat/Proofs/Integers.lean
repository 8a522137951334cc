import Mathlib.Data.List.Infix
import MessageFormat.Proofs.Anchors
import MessageFormat.Proofs.ExactSelectors

/-!
# Integers and the offset of a plural argument

An integer is read from the longest text ahead that is an optional sign and any digits
(`LongestNumeral`).  Without a digit that is an error, and so it is with a magnitude of more than
sixty-three bits.  Otherwise the value is the one that the places of the digits give, however many
there are: the running value of the first digits is never larger than the whole, so that it stays
in the range whenever the whole is in it.

The offset of a plural argument is such an integer, and it must be below two to the thirty-second.
That leaves zero with a minus sign and no other negative number.
-/

namespace MessageFormat

/-! ## The longest numeral -/

/-- An optional sign and any digits, or none. -/
def IsNumeralHead (text : List Char) : Prop :=
  ∃ sign digits, text = sign ++ digits ∧ IsSign sign ∧ ∀ ch ∈ digits, isAsciiDigit ch = true

/-- `sign` and `digits` are the longest text of this form that `rest` begins with. -/
structure LongestNumeral (rest sign digits : List Char) : Prop where
  isSign : IsSign sign
  all : ∀ ch ∈ digits, isAsciiDigit ch = true
  begins : sign ++ digits <+: rest
  longest : ∀ text, IsNumeralHead text → text <+: rest → text.length ≤ (sign ++ digits).length

/-- The number that digits stand for by their places. -/
def placeValue (digits : List Char) : Nat :=
  Nat.ofDigits 10 (digits.map (·.toNat - 48)).reverse

/-- The integer that a sign and digits stand for. -/
def signedValue (sign digits : List Char) : Int :=
  (if sign = ['-'] then -1 else 1) * placeValue digits

variable {c d : Cursor} {sign digits : List Char}

/-- A character of such a text is a digit, or it is the first one and a sign. -/
theorem IsNumeralHead.digit_or_sign {before after : List Char} {ch : Char}
    (h : IsNumeralHead (before ++ ch :: after)) :
    isAsciiDigit ch = true ∨ before = [] ∧ (ch = '+' ∨ ch = '-') := by
  obtain ⟨sign, digits, htext, hsign, hdigits⟩ := h
  rcases hsign with rfl | rfl | rfl
  · have hrest : before ++ ch :: after = digits := htext
    exact .inl (hdigits ch (by simp [← hrest]))
  all_goals
    cases before with
    | nil =>
      cases htext
      exact .inr ⟨rfl, by simp⟩
    | cons x before =>
      have hrest : before ++ ch :: after = digits := (List.cons.inj htext).2
      exact .inl (hdigits ch (by simp [← hrest]))

theorem NumeralWritten.longest (h : NumeralWritten c sign digits d) :
    LongestNumeral c.rest sign digits := by
  have reads := h.reads
  obtain ⟨hsign, hnone, m, hm, hrun⟩ := h
  have hwhole : sign ++ digits <+: c.rest := ⟨d.rest, reads.1.symm⟩
  refine ⟨hsign, hrun.all, hwhole, fun text hhead htext => ?_⟩
  rcases List.prefix_or_prefix_of_prefix htext hwhole with hle | ⟨u, rfl⟩
  · exact hle.length_le
  cases u with
  | nil => simp
  | cons ch u =>
    -- The text would go on with the character at `d`, which is none of a numeral.
    have hcurrent : d.current? = some ch := by
      rw [reads.1, List.prefix_append_right_inj] at htext
      obtain ⟨tail, htail⟩ := htext
      rw [Cursor.current?, ← htail]
      rfl
    rcases hhead.digit_or_sign with hdigit | ⟨hempty, hch⟩
    · rw [hrun.ends ch hcurrent] at hdigit
      cases hdigit
    · rw [hempty] at reads
      obtain rfl := reads.eq_of_nil
      obtain ⟨hplus, hminus⟩ := hnone (List.append_eq_nil_iff.1 hempty).1
      rcases hch with rfl | rfl
      · exact absurd hcurrent hplus
      · exact absurd hcurrent hminus

theorem numeralWritten_of_longest (h : LongestNumeral c.rest sign digits)
    (reads : c.Reads (sign ++ digits) d) : NumeralWritten c sign digits d := by
  -- One more character would make a longer text of the form.
  have hmore : ∀ ch, d.current? = some ch → ¬IsNumeralHead (sign ++ digits ++ [ch]) := by
    intro ch hch hhead
    have hbegins := reads.append (Cursor.reads_next hch)
    have hle := h.longest _ hhead ⟨d.next.rest, hbegins.1.symm⟩
    simp at hle
  obtain ⟨m, hm, hdigits⟩ := reads.split
  refine ⟨h.isSign, ?_, m, hm, hdigits, h.all, ?_⟩
  · rintro rfl
    have hfirst : ∀ ch, ch = '+' ∨ ch = '-' → c.current? ≠ some ch := by
      intro ch hsign hch
      have hhead : IsNumeralHead [ch] := by
        rcases hsign with rfl | rfl
        · exact ⟨['+'], [], rfl, .inr (.inl rfl), by simp⟩
        · exact ⟨['-'], [], rfl, .inr (.inr rfl), by simp⟩
      have hle := h.longest _ hhead ⟨c.next.rest, (Cursor.reads_next hch).1.symm⟩
      cases digits with
      | nil => simp at hle
      | cons x digits =>
        rw [Cursor.Reads.current?_eq reads] at hch
        cases hch
        have hx := h.all ch List.mem_cons_self
        rcases hsign with rfl | rfl <;> cases hx
    exact ⟨hfirst '+' (.inl rfl), hfirst '-' (.inr rfl)⟩
  · intro ch hch
    rw [Bool.eq_false_iff]
    intro hdigit
    refine hmore ch hch ⟨sign, digits ++ [ch], by simp, h.isSign, ?_⟩
    simpa [or_imp, forall_and, hdigit] using h.all

/-! ## Values -/

theorem natOfDigits_eq_placeValue (digits : List Char) :
    natOfDigits digits = placeValue digits :=
  natOfDigits_eq_ofDigits digits

theorem withSign_eq_signedValue (sign digits : List Char) :
    withSign (decide (sign = ['-'])) (natOfDigits digits) = signedValue sign digits := by
  rw [natOfDigits_eq_placeValue, signedValue]
  by_cases hminus : sign = ['-'] <;> simp [withSign, hminus]

theorem natAbs_signedValue (sign digits : List Char) :
    (signedValue sign digits).natAbs = placeValue digits := by
  unfold signedValue
  split <;> simp

theorem natOfDigits_lt_wordSize_iff :
    natOfDigits digits < wordSize 63 ↔ placeValue digits ≤ 2 ^ 63 - 1 := by
  rw [natOfDigits_eq_placeValue]
  exact Nat.lt_iff_le_pred (by decide)

/-- The first digits of a number stand for one that is not larger. -/
theorem natOfDigits_le_append (s t : List Char) : natOfDigits s ≤ natOfDigits (s ++ t) := by
  induction t using List.reverseRecOn with
  | nil => simp
  | append_singleton t ch ih =>
    rw [← List.append_assoc, natOfDigits_append_singleton]
    omega

/-- The running value is that of the digits so far, as long as the whole is in the range. -/
theorem natOfDigitsBelow?_of_prefix {bound : Nat} {s digits : List Char}
    (hsmall : natOfDigits digits < bound) (hs : s <+: digits) :
    natOfDigitsBelow? bound s = some (placeValue s) := by
  obtain ⟨t, rfl⟩ := hs
  have hle := natOfDigits_le_append s t
  rw [natOfDigitsBelow?_eq (by omega), below?, if_pos (by omega), natOfDigits_eq_placeValue]

namespace Read

theorem run_integer_placeValue {events : List Event} (h : NumeralWritten c sign digits d)
    (missing tooLarge : Fault) :
    integer missing tooLarge ⟨c, events⟩ =
      if digits = [] then .error (faultAt missing c d) ⟨d, events⟩
      else if placeValue digits ≤ 2 ^ 63 - 1 then
        .ok ⟨signedValue sign digits, sign ++ digits, ⟨c.position, d.position⟩⟩ ⟨d, events⟩
      else .error (faultAt tooLarge c d) ⟨d, events⟩ := by
  simp only [run_integer h, natOfDigits_lt_wordSize_iff, withSign_eq_signedValue]

/-! ## Offsets -/

/-- What stands between the type word of a plural argument, which ends at `c`, and the offset: a
comma, the keyword and a colon, with blanks around. -/
def OffsetBegun (c d : Cursor) : Prop :=
  ∃ m₁ m₂ blanks, CommaWritten c m₁ ∧ m₁.Reads "offset:".toList m₂ ∧
    m₂.Run isPatternWhiteSpace blanks d

/-- Reads what comes after the offset of a plural argument: the branches, and the brace that closes
the argument. -/
def afterOffset (options : Options) (inner : Option Inner) (frame : Frame) (kind : PluralKind)
    (opening : Position) : Read (List Branch × Option Span) := do
  skipBlanks
  let branches ← branches options inner frame (.plural kind) (← identifier)
  closeBrace opening
  return (branches, ← capture options opening)

section Offsets

variable {options : Options} {inner : Option Inner} {frame : Frame} {kind : PluralKind}
  {name : String} {opening : Position} {start : Cursor} {events : List Event}

/-- An offset that has begun is read as an integer, and checked to be in its range. -/
theorem run_choice_offset (begun : OffsetBegun start c) :
    choice options inner frame (.plural kind) name opening ⟨start, events⟩ =
      (do
        let n ← integer .missingOffsetDigits .offsetTooLarge
        if 0 ≤ n.value ∧ n.value < wordSize 32 then
          (fun (branches, span) => .plural name kind n.value.toNat branches span) <$>
            afterOffset options inner frame kind opening
        else failAt n.span (.offsetOutOfRange n.value) : Read Element) ⟨c, events⟩ := by
  obtain ⟨m₁, m₂, blanks, ⟨before, after, hbefore, hafter, hcomma⟩, hkeyword, hblanks⟩ := begun
  obtain ⟨s₁, hs₁, hcomma⟩ := hcomma.split
  obtain ⟨s₂, hs₂, hs₃⟩ := Cursor.Reads.split (s := [',']) hcomma
  obtain ⟨k, hk, hcolon⟩ := Cursor.Reads.split (s := "offset".toList) (t := [':']) hkeyword
  have hgap : start.Run isPatternWhiteSpace before s₁ := ⟨hs₁, hbefore, hs₂.ends (by decide)⟩
  have hgap' : s₂.Run isPatternWhiteSpace after m₁ :=
    ⟨hs₃, hafter, Cursor.Reads.ends hk (by decide)⟩
  have hword : m₁.Run isIdentifierChar "offset".toList k :=
    ⟨hk, isIdentifier_offset.2, hcolon.ends (by decide)⟩
  have hposition : position ⟨start, events⟩ = .ok start.position ⟨start, events⟩ := rfl
  unfold choice
  rw [run_bind hposition, run_bind (run_skipBlanks hgap), run_bind (run_accept hs₂)]
  rw [if_pos rfl, run_bind (run_skipBlanks hgap'), run_bind (run_identifier hword)]
  unfold offset
  rw [if_pos ⟨rfl, rfl⟩, bind_assoc, run_bind (run_accept hcolon), if_pos rfl, bind_assoc,
    run_bind (run_skipBlanks hblanks), bind_assoc]
  refine congrFun (congrArg (integer _ _ >>= ·) (funext fun n => ?_)) _
  split
  · simp [afterOffset, bind_assoc, map_bind, Choice.element]
  · rfl

/-- The fault of an offset that is not in its range. -/
def offsetFault (sign digits : List Char) : Fault :=
  if placeValue digits ≤ 2 ^ 63 - 1 then .offsetOutOfRange (signedValue sign digits)
  else .offsetTooLarge

theorem run_choice_numeral (begun : OffsetBegun start c) (h : NumeralWritten c sign digits d) :
    choice options inner frame (.plural kind) name opening ⟨start, events⟩ =
      if digits = [] then .error (faultAt .missingOffsetDigits c d) ⟨d, events⟩
      else if 0 ≤ signedValue sign digits ∧ signedValue sign digits ≤ 2 ^ 32 - 1 then
        ((fun (branches, span) =>
            .plural name kind (signedValue sign digits).toNat branches span) <$>
          afterOffset options inner frame kind opening) ⟨d, events⟩
      else .error (faultAt (offsetFault sign digits) c d) ⟨d, events⟩ := by
  have hinteger : integer .missingOffsetDigits .offsetTooLarge ⟨c, events⟩ = _ :=
    run_integer_placeValue h _ _
  rw [run_choice_offset begun]
  by_cases hempty : digits = []
  · rw [if_pos hempty] at hinteger ⊢
    exact run_bind_error hinteger
  rw [if_neg hempty] at hinteger ⊢
  have habs := natAbs_signedValue sign digits
  by_cases hsmall : placeValue digits ≤ 2 ^ 63 - 1
  · rw [if_pos hsmall] at hinteger
    rw [run_bind hinteger, offsetFault, if_pos hsmall]
    have hrange : (0 ≤ signedValue sign digits ∧ signedValue sign digits < wordSize 32) ↔
        0 ≤ signedValue sign digits ∧ signedValue sign digits ≤ 2 ^ 32 - 1 :=
      and_congr_right fun _ => Int.le_sub_one_iff.symm
    by_cases hoffset : 0 ≤ signedValue sign digits ∧ signedValue sign digits ≤ 2 ^ 32 - 1
    · rw [if_pos hoffset, if_pos (hrange.2 hoffset)]
    · rw [if_neg hoffset, if_neg (fun h => hoffset (hrange.1 h))]
      rfl
  · have hoffset : ¬(0 ≤ signedValue sign digits ∧ signedValue sign digits ≤ 2 ^ 32 - 1) := by
      omega
    rw [if_neg hsmall] at hinteger
    rw [run_bind_error hinteger, if_neg hoffset, offsetFault, if_neg hsmall]

end Offsets

/-- Integers are read exactly.  There is a longest text ahead that is an optional sign and any
digits.  Reading an integer takes all of it and nothing else.  Without digits it fails with the one
fault, with a magnitude of more than sixty-three bits with the other, and else it gives the value.
In that case no running value, from digit to digit, and not the value with its sign leaves the
range.

After the keyword of an offset the same text decides how a plural argument goes on: it is taken as
the offset of the element exactly if its value is one of thirty-two bits. -/
theorem integer_exact (c : Cursor) (events : List Event) :
    (∃ sign digits, LongestNumeral c.rest sign digits) ∧
      ∀ sign digits d, LongestNumeral c.rest sign digits → c.Reads (sign ++ digits) d →
        (∀ missing tooLarge, integer missing tooLarge ⟨c, events⟩ =
          if digits = [] then .error (faultAt missing c d) ⟨d, events⟩
          else if placeValue digits ≤ 2 ^ 63 - 1 then
            .ok ⟨signedValue sign digits, sign ++ digits, ⟨c.position, d.position⟩⟩ ⟨d, events⟩
          else .error (faultAt tooLarge c d) ⟨d, events⟩) ∧
        (placeValue digits ≤ 2 ^ 63 - 1 →
          (∀ s, s <+: digits → natOfDigitsBelow? (wordSize 63) s = some (placeValue s)) ∧
            (signedValue sign digits).natAbs ≤ 2 ^ 63 - 1) ∧
        ∀ start, OffsetBegun start c → ∃ missing invalid : Fault,
          missing.kind = .expectPluralArgumentOffsetValue ∧
          invalid.kind = .invalidPluralArgumentOffsetValue ∧
          ∀ options inner frame kind name opening,
            choice options inner frame (.plural kind) name opening ⟨start, events⟩ =
              if digits = [] then .error (faultAt missing c d) ⟨d, events⟩
              else if 0 ≤ signedValue sign digits ∧ signedValue sign digits ≤ 2 ^ 32 - 1 then
                ((fun (branches, span) =>
                    .plural name kind (signedValue sign digits).toNat branches span) <$>
                  afterOffset options inner frame kind opening) ⟨d, events⟩
              else .error (faultAt invalid c d) ⟨d, events⟩ := by
  constructor
  · obtain ⟨sign, digits, d, h⟩ := exists_numeralWritten c
    exact ⟨sign, digits, h.longest⟩
  intro sign digits d hlongest reads
  have h := numeralWritten_of_longest hlongest reads
  refine ⟨run_integer_placeValue h, fun hsmall => ⟨fun s hs => ?_, ?_⟩, fun start begun => ?_⟩
  · refine natOfDigitsBelow?_of_prefix ?_ hs
    exact natOfDigits_lt_wordSize_iff.2 hsmall
  · rwa [natAbs_signedValue]
  · refine ⟨.missingOffsetDigits, offsetFault sign digits, rfl, ?_, ?_⟩
    · unfold offsetFault
      split <;> rfl
    · intro options inner frame kind name opening
      exact run_choice_numeral begun h

/-- Zero is an offset also with a minus sign and a zero too much. -/
theorem integer_exact_minus_zero :
    LongestNumeral "-00 other \x7b\x7d\x7d".toList ['-'] ['0', '0'] ∧
      choice {} (some (message {} 0)) {} (.plural .cardinal) "n" .start
          ⟨⟨", offset:-00 other \x7b\x7d\x7d".toList, .start⟩, []⟩ =
        ((fun (branches, span) => .plural "n" .cardinal 0 branches span) <$>
          afterOffset {} (some (message {} 0)) {} .cardinal .start)
            ⟨⟨" other \x7b\x7d\x7d".toList, ⟨12, 1, 13⟩⟩, []⟩ := by
  have reads : Cursor.Reads ⟨"-00 other \x7b\x7d\x7d".toList, ⟨9, 1, 10⟩⟩ (['-'] ++ ['0', '0'])
      ⟨" other \x7b\x7d\x7d".toList, ⟨12, 1, 13⟩⟩ := ⟨rfl, rfl⟩
  have hblank : Cursor.Reads ⟨" other \x7b\x7d\x7d".toList, ⟨12, 1, 13⟩⟩ [' ']
      ⟨"other \x7b\x7d\x7d".toList, ⟨13, 1, 14⟩⟩ := ⟨rfl, rfl⟩
  have numeral := numeralWritten_of_reads (.inr (.inr rfl)) ⟨by simp, by simp [isAsciiDigit]⟩
    reads (hblank.ends (by decide))
  have begun : OffsetBegun ⟨", offset:-00 other \x7b\x7d\x7d".toList, .start⟩
      ⟨"-00 other \x7b\x7d\x7d".toList, ⟨9, 1, 10⟩⟩ := by
    refine ⟨⟨"offset:-00 other \x7b\x7d\x7d".toList, ⟨2, 1, 3⟩⟩, _, [], ?_, ?_,
      (Cursor.Reads.ends reads (by decide)).run⟩
    · exact ⟨[], [' '], by simp [IsBlank], by simp [IsBlank]; decide, rfl, rfl⟩
    · exact ⟨rfl, rfl⟩
  obtain ⟨-, -, h⟩ := (integer_exact _ []).2 _ _ _ numeral.longest reads
  obtain ⟨_, _, -, -, hchoice⟩ := h _ begun
  refine ⟨numeral.longest, ?_⟩
  have hvalue : (signedValue ['-'] ['0', '0']).toNat = 0 := by decide
  rw [hchoice, if_neg (by decide), if_pos (by decide), hvalue]

end Read

end MessageFormat
