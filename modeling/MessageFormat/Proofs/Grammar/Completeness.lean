import MessageFormat.Proofs.Grammar.Soundness

/-!
# What is written is read

The converse of `Grammar.Soundness`: a phrase that is `Written` between two cursors is what the
action for it gives from the first, and the second is where it ends.  With both directions the
grammar and the reader are the same thing, `parse_eq_ok_iff`.

The proof follows the rules of the grammar.  At each piece it has to be shown that the reader,
which takes as much as it can, takes no more than the piece.  That is so because of the character
that comes next, and most of the lemmas are about that character.
-/

namespace MessageFormat

/-! ## Where pieces end -/

namespace Cursor

variable {c d m : Cursor} {s t : List Char}

/-- Blanks in front of a character of another kind are a run of blanks, and no word goes on where
they begin. -/
theorem Reads.blanks {test : Char → Bool} {ch : Char} (h : c.Reads s m) (hs : IsBlank s)
    (next : m.Reads (ch :: t) d) (hblank : isPatternWhiteSpace ch = false)
    (htest : ∀ x, isPatternWhiteSpace x = true → test x = false) (hch : test ch = false) :
    c.Run isPatternWhiteSpace s m ∧ c.Ends test :=
  ⟨⟨h, hs, next.ends hblank⟩,
    (h.append next).ends_append (fun x hx => htest x (hs x hx)) hch⟩

end Cursor

theorem IsIdentifier.exists_cons {text : List Char} (h : IsIdentifier text) :
    ∃ ch tail, text = ch :: tail ∧ isIdentifierChar ch = true := by
  obtain ⟨hne, hall⟩ := h
  cases text with
  | nil => exact absurd rfl hne
  | cons ch tail => exact ⟨ch, tail, rfl, hall ch (by simp)⟩

theorem IsTagName.exists_cons {name : List Char} (h : IsTagName name) :
    ∃ ch tail, name = ch :: tail ∧ isAsciiLetter ch = true := by
  obtain ⟨⟨ch, hhead, hletter⟩, -⟩ := h
  obtain ⟨tail, rfl⟩ := List.head?_eq_some_iff.1 hhead
  exact ⟨ch, tail, rfl, hletter⟩

namespace Read

variable {options : Options} {depth : Nat} {frame : Frame} {c d m : Cursor} {inner : Option Inner}

/-! ## Integers -/

theorem gives_integer {sign digits : List Char} {missing tooLarge : Fault}
    (numeral : NumeralWritten c sign digits d) (hdigits : digits ≠ [])
    (hsmall : natOfDigits digits < wordSize 63) :
    Gives (integer missing tooLarge) c
      ⟨withSign (decide (sign = ['-'])) (natOfDigits digits), sign ++ digits,
        ⟨c.position, d.position⟩⟩ d := by
  refine .of_run fun events => ?_
  rw [run_integer numeral, if_neg hdigits, if_pos hsmall]

/-- A sign and digits, in front of something else, are a numeral. -/
theorem numeralWritten_of_reads {sign digits : List Char} (hsign : IsSign sign)
    (hdigits : IsDigits digits) (reads : c.Reads (sign ++ digits) d)
    (ends : d.Ends isAsciiDigit) : NumeralWritten c sign digits d := by
  obtain ⟨m, hreads, hrun⟩ := reads.split
  refine ⟨hsign, ?_, m, hreads, ⟨hrun, hdigits.2, ends⟩⟩
  rintro rfl
  obtain rfl := hreads.eq_of_nil
  obtain ⟨ch, tail, rfl⟩ := List.exists_cons_of_ne_nil hdigits.1
  have hch := hdigits.2 ch (by simp)
  rw [hrun.current?_eq]
  constructor
  · rintro ⟨⟩
    cases hch
  · rintro ⟨⟩
    cases hch

/-- A numeral does not begin with a blank. -/
theorem exists_cons_of_numeral {sign digits : List Char} (hsign : IsSign sign)
    (hdigits : IsDigits digits) :
    ∃ ch tail, sign ++ digits = ch :: tail ∧ isPatternWhiteSpace ch = false := by
  rcases hsign with rfl | rfl | rfl
  · obtain ⟨ch, tail, rfl⟩ := List.exists_cons_of_ne_nil hdigits.1
    exact ⟨ch, tail, rfl, isPatternWhiteSpace_eq_false_of_digit (hdigits.2 ch (by simp))⟩
  · exact ⟨'+', digits, rfl, by decide⟩
  · exact ⟨'-', digits, rfl, by decide⟩

/-! ## Branches -/

theorem isIdentifier_offset : IsIdentifier "offset".toList := by decide

theorem gives_offset {choice : Choice} {n : Nat} {text next : List Char} {f : Cursor}
    (h : OffsetWritten choice c n m) (first : c.Run isIdentifierChar text d)
    (run : m.Run isIdentifierChar next f) (ends : m.Ends isPatternWhiteSpace) :
    Gives (offset choice (text, ⟨c.position, d.position⟩)) d
      (n, (next, ⟨m.position, f.position⟩)) f := by
  unfold offset
  cases h with
  | absent keyword =>
    rw [if_neg]
    · obtain ⟨rfl, rfl⟩ := first.unique run
      exact gives_pure _ _
    · rintro ⟨hplural, htext⟩
      dsimp only at htext
      subst htext
      exact keyword hplural d first
  | present plural offset blank reads endsDigits =>
    next after =>
    obtain ⟨blanks, sign, digits, rfl, hblanks, hsign, hdigits, rfl, hsmall, hminus⟩ := offset
    have reads : c.Reads
        ("offset".toList ++ ([':'] ++ (blanks ++ ((sign ++ digits) ++ after)))) m := by
      simpa [List.append_assoc] using reads
    obtain ⟨c₁, hkeyword, reads⟩ := reads.split
    obtain ⟨c₂, hcolon, reads⟩ := reads.split
    obtain ⟨c₃, hgap, reads⟩ := reads.split
    obtain ⟨c₄, hnumeral, hafter⟩ := reads.split
    have keyword : c.Run isIdentifierChar "offset".toList c₁ :=
      ⟨hkeyword, isIdentifier_offset.2, hcolon.ends (by decide)⟩
    obtain ⟨rfl, rfl⟩ := first.unique keyword
    have gap : c₂.Run isPatternWhiteSpace blanks c₃ := by
      obtain ⟨ch, tail, heq, hch⟩ := exists_cons_of_numeral hsign hdigits
      rw [heq] at hnumeral
      exact ⟨hgap, hblanks, hnumeral.ends hch⟩
    have numeral : NumeralWritten c₃ sign digits c₄ := by
      refine numeralWritten_of_reads hsign hdigits hnumeral ?_
      cases after with
      | nil =>
        obtain rfl := hafter.eq_of_nil
        exact endsDigits rfl
      | cons ch tail => exact hafter.ends (isAsciiDigit_eq_false_of_blank (blank ch (by simp)))
    have hwide : natOfDigits digits < wordSize 63 :=
      Nat.lt_of_lt_of_le hsmall (by decide)
    rw [if_pos ⟨plural, rfl⟩]
    refine (gives_accept hcolon).bind ((gives_skipBlanks gap).bind ?_)
    refine (gives_integer numeral hdigits.1 hwide).bind ?_
    rw [if_pos (offset_range_iff.2 ⟨hsmall, by simpa using hminus⟩)]
    refine (gives_skipBlanks ⟨hafter, blank, ends⟩).bind ((gives_identifier run).bind ?_)
    rw [withSign_toNat hminus]
    exact gives_pure _ _

theorem gives_selector? {choice : Choice} {selector before text : List Char} {c₁ c₂ : Cursor}
    (selects : IsSelector choice selector) (head : c.Reads (selector ++ before) c₁)
    (blank : IsBlank before) (brace : c₁.Reads ['{'] c₂) (run : c.Run isIdentifierChar text m) :
    ∃ s, m.Reaches s ∧ s.Run isPatternWhiteSpace before c₁ ∧
      Gives (selector? choice (text, ⟨c.position, m.position⟩)) m
        (some (String.ofList selector, ⟨c.position, s.position⟩)) s := by
  obtain ⟨s, hselector, hbefore⟩ := head.split
  unfold selector?
  rcases selects with hword | ⟨hplural, sign, digits, rfl, hsign, hdigits, hsmall⟩
  · obtain ⟨hblanks, hends⟩ := hbefore.blanks blank brace (by decide)
      (fun _ => isIdentifierChar_eq_false_of_blank) (by decide)
    obtain ⟨rfl, rfl⟩ := run.unique ⟨hselector, hword.2, hends⟩
    refine ⟨m, .refl m, hblanks, ?_⟩
    rw [if_pos (by simpa using hword.1)]
    exact gives_pure _ _
  · obtain ⟨hblanks, hends⟩ := hbefore.blanks blank brace (by decide)
      (fun _ => isAsciiDigit_eq_false_of_blank) (by decide)
    obtain ⟨rfl, rfl⟩ := (Cursor.Reads.ends hselector (by decide)).eq_nil run
    refine ⟨s, hselector.reaches, hblanks, ?_⟩
    obtain ⟨c₃, hequals, hnumeral⟩ := Cursor.Reads.split (s := ['=']) hselector
    rw [if_neg (by simp)]
    apply bind_position
    rw [if_pos hplural]
    refine (gives_accept hequals).bind ((gives_integer
      (numeralWritten_of_reads hsign hdigits hnumeral hends) hdigits.1 hsmall).bind ?_)
    exact bind_cursor (gives_pure _ _)

/-- In front of the closing brace there is no further selector. -/
theorem gives_selector?_none {choice : Choice} {text : List Char} (close : c.Reads ['}'] d)
    (run : c.Run isIdentifierChar text m) :
    Gives (selector? choice (text, ⟨c.position, m.position⟩)) m none c := by
  obtain ⟨rfl, rfl⟩ := (close.ends (by decide)).eq_nil run
  rw [selector?, if_neg (by simp)]
  apply bind_position
  split
  · refine (gives_accept_false (Cursor.accept?_eq_none ?_)).bind (gives_pure _ _)
    rw [close.current?_eq]
    decide
  · exact gives_pure _ _

/-- A selector does not begin with a blank. -/
theorem ends_of_selector {choice : Choice} {selector before : List Char}
    (selects : IsSelector choice selector) (head : c.Reads (selector ++ before) d) :
    c.Ends isPatternWhiteSpace := by
  rcases selects with hword | ⟨-, sign, digits, rfl, -⟩
  · obtain ⟨ch, tail, rfl, hch⟩ := hword.exists_cons
    exact Cursor.Reads.ends head (isPatternWhiteSpace_eq_false hch)
  · exact Cursor.Reads.ends head (by decide)

/-- Neither do branches, nor the closing brace after them. -/
theorem ends_of_branches {choice : Choice} {list : List Branch} {f : Cursor}
    (h : Written options depth frame (.branches choice list) c d) (close : d.Reads ['}'] f) :
    c.Ends isPatternWhiteSpace := by
  cases h with
  | noBranch => exact close.ends (by decide)
  | branch selects _ head => exact ends_of_selector selects head

/-! ## Arguments -/

/-- An argument is read up to its name if something follows it. -/
theorem meets_argument_of_name {name tail : List Char} {ch : Char}
    {ok : Element → Cursor → Prop} {bad : ParseError → Prop} (head : NameWritten c name m)
    (next : m.Reads (ch :: tail) d) (hblank : isPatternWhiteSpace ch = false)
    (hword : isIdentifierChar ch = false)
    (h : ∀ s after, s.Run isPatternWhiteSpace after m →
      Meets (afterName options inner frame (String.ofList name) c.position) s ok bad) :
    Meets (argument options inner frame) c ok bad := by
  obtain ⟨before, after, hbefore, hafter, isName, reads⟩ := head
  have reads : c.Reads (['{'] ++ (before ++ (name ++ after))) m := by
    simpa [List.append_assoc] using reads
  obtain ⟨c₁, hopen, reads⟩ := reads.split
  obtain ⟨c₂, hgap, reads⟩ := reads.split
  obtain ⟨c₃, hname, hgap'⟩ := reads.split
  obtain ⟨hrun, hends⟩ := hgap'.blanks hafter next hblank
    (fun _ => isIdentifierChar_eq_false_of_blank) hword
  obtain ⟨x, xs, rfl, hx⟩ := isName.exists_cons
  unfold argument
  refine bind_position (bind_next ?_)
  rw [hopen.next_eq]
  refine (gives_skipBlanks ⟨hgap, hbefore, hname.ends (isPatternWhiteSpace_eq_false hx)⟩).bind ?_
  apply bind_cursor
  rw [hname.current?_eq]
  dsimp only
  rw [if_neg (by rintro rfl; cases hx)]
  refine (gives_identifier ⟨hname, isName.2, hends⟩).bind ?_
  exact h c₃ after hrun

theorem gives_plainArgument {name : List Char} (head : NameWritten c name m)
    (close : m.Reads ['}'] d) :
    Gives (argument options inner frame) c
      (.argument (String.ofList name) (kept options c d)) d := by
  refine meets_argument_of_name head close (by decide) (by decide) fun s after hrun => ?_
  unfold afterName
  refine (gives_skipBlanks hrun).bind (bind_cursor ?_)
  rw [close.current?_eq]
  apply bind_next
  rw [close.next_eq]
  exact bind_capture (gives_pure _ _)

/-- A typed argument is read up to its type word if the word ends there. -/
theorem meets_argument_of_type {name word : List Char} {ok : Element → Cursor → Prop}
    {bad : ParseError → Prop} (head : TypeWritten c name word d) (isWord : IsIdentifier word)
    (ends : d.Ends isIdentifierChar)
    (h : ∀ m, m.Run isIdentifierChar word d →
      Meets (typedArgument options inner frame (String.ofList name) c.position) m ok bad) :
    Meets (argument options inner frame) c ok bad := by
  obtain ⟨m, blanks, hname, hblanks, reads⟩ := head
  refine meets_argument_of_name hname reads (by decide) (by decide) fun s after hrun => ?_
  have reads : m.Reads ([','] ++ (blanks ++ word)) d := by
    simpa [List.append_assoc] using reads
  obtain ⟨c₁, hcomma, reads⟩ := reads.split
  obtain ⟨c₂, hgap, hword⟩ := reads.split
  obtain ⟨x, xs, rfl, hx⟩ := isWord.exists_cons
  unfold afterName
  refine (gives_skipBlanks hrun).bind (bind_cursor ?_)
  rw [hcomma.current?_eq]
  apply bind_next
  rw [hcomma.next_eq]
  refine (gives_skipBlanks ⟨hgap, hblanks, hword.ends (isPatternWhiteSpace_eq_false hx)⟩).bind ?_
  apply bind_cursor
  have hnonempty : ¬c₂.isAtEnd = true := by
    rw [Cursor.isAtEnd_iff, hword.1]
    simp
  rw [if_neg hnonempty]
  exact h c₂ ⟨hword, isWord.2, ends⟩

/-- The word before a style ends with it. -/
theorem ends_of_style {style : Option (List Char × Span)} (h : StyleWritten c m style)
    (close : m.Reads ['}'] d) : c.Ends isIdentifierChar := by
  cases h with
  | absent blank reads =>
    exact (reads.append close).ends_append
      (fun x hx => isIdentifierChar_eq_false_of_blank (blank x hx)) (by decide)
  | present comma =>
    obtain ⟨before, after, hbefore, -, reads⟩ := comma
    exact reads.ends_append
      (fun x hx => isIdentifierChar_eq_false_of_blank (hbefore x hx)) (by decide)

/-- An argument with an optional style is read if its type word leads to the action for styles. -/
theorem gives_styledArgument {σ : Type} {pattern : List Char → Span → Read σ}
    {patternOf : List Char → Span → Except Fault σ}
    {make : Option (ArgumentStyle σ) → Option Span → Element} {name word : List Char}
    {text : Option (List Char × Span)} {style : Option (ArgumentStyle σ)} {c₁ : Cursor}
    (computes : Computes pattern patternOf) (isWord : IsIdentifier word)
    (typed : ∀ {s : Cursor} {ok : Element → Cursor → Prop} {bad : ParseError → Prop},
      s.Run isIdentifierChar word c₁ →
      Meets (styled options c.position pattern >>= fun (style, span) => pure (make style span)) c₁
        ok bad →
      Meets (typedArgument options inner frame (String.ofList name) c.position) s ok bad)
    (head : TypeWritten c name word c₁) (written : StyleWritten c₁ m text)
    (close : m.Reads ['}'] d) (value : Style.styleOf patternOf text = .ok style) :
    Gives (argument options inner frame) c (make style (kept options c d)) d := by
  refine meets_argument_of_type head isWord (ends_of_style written close) fun s hrun => ?_
  refine typed hrun ?_
  exact (gives_styled computes options c written close value).bind (gives_pure _ _)

theorem gives_number {name : List Char} {text : Option (List Char × Span)}
    {style : Option (ArgumentStyle NumberPattern)} {c₁ : Cursor}
    (head : TypeWritten c name "number".toList c₁) (written : StyleWritten c₁ m text)
    (close : m.Reads ['}'] d)
    (value : Style.styleOf (Style.numberPatternOf options) text = .ok style) :
    Gives (argument options inner frame) c
      (.number (String.ofList name) style (kept options c d)) d := by
  refine gives_styledArgument (computes_numberPattern options) (by decide) ?_ head written close
    value
  intro s ok bad hrun h
  exact (gives_identifier hrun).bind h

theorem gives_date {name : List Char} {text : Option (List Char × Span)}
    {style : Option (ArgumentStyle DateTimePattern)} {c₁ : Cursor}
    (head : TypeWritten c name "date".toList c₁) (written : StyleWritten c₁ m text)
    (close : m.Reads ['}'] d)
    (value : Style.styleOf (Style.dateTimePatternOf options) text = .ok style) :
    Gives (argument options inner frame) c
      (.date (String.ofList name) style (kept options c d)) d := by
  refine gives_styledArgument (computes_dateTimePattern options) (by decide) ?_ head written close
    value
  intro s ok bad hrun h
  exact (gives_identifier hrun).bind h

theorem gives_time {name : List Char} {text : Option (List Char × Span)}
    {style : Option (ArgumentStyle DateTimePattern)} {c₁ : Cursor}
    (head : TypeWritten c name "time".toList c₁) (written : StyleWritten c₁ m text)
    (close : m.Reads ['}'] d)
    (value : Style.styleOf (Style.dateTimePatternOf options) text = .ok style) :
    Gives (argument options inner frame) c
      (.time (String.ofList name) style (kept options c d)) d := by
  refine gives_styledArgument (computes_dateTimePattern options) (by decide) ?_ head written close
    value
  intro s ok bad hrun h
  exact (gives_identifier hrun).bind h

/-- The type word of a choice leads to the action that reads its branches. -/
theorem meets_typedArgument_of_choice {choice : Choice} {name : List Char}
    {ok : Element → Cursor → Prop} {bad : ParseError → Prop} {opening : Position}
    (run : c.Run isIdentifierChar choice.word d)
    (h : Meets (Read.choice options inner frame choice (String.ofList name) opening) d ok bad) :
    Meets (typedArgument options inner frame (String.ofList name) opening) c ok bad := by
  unfold typedArgument
  cases choice with
  | select => exact (gives_identifier run).bind h
  | plural kind =>
    cases kind with
    | cardinal => exact (gives_identifier run).bind h
    | ordinal => exact (gives_identifier run).bind h

theorem isIdentifier_word (choice : Choice) : IsIdentifier choice.word := by
  rcases choice with _ | (_ | _) <;> decide

/-- A plural or select argument is read if its branches are. -/
theorem gives_choice {choice : Choice} {name : List Char} {n : Nat} {list : List Branch}
    {c₁ c₂ c₃ : Cursor} (head : TypeWritten c name choice.word c₁) (comma : CommaWritten c₁ c₂)
    (offset : OffsetWritten choice c₂ n c₃)
    (branches : Written options depth frame (.branches choice list) c₃ m)
    (nonempty : list ≠ [])
    (other : options.requiresOther = true → ∃ b ∈ list, b.selector = "other")
    (close : m.Reads ['}'] d)
    (gives : ∀ n text s, c₃.Run isIdentifierChar text s → s.rest.length < n →
      Gives (branchesFrom options inner frame choice n [] (text, ⟨c₃.position, s.position⟩)) s
        list m) :
    Gives (argument options inner frame) c
      (choice.element (String.ofList name) n list (kept options c d)) d := by
  obtain ⟨before, after, hbefore, hafter, reads⟩ := comma
  obtain ⟨s₁, hgap, reads⟩ := reads.split
  obtain ⟨s₂, hcomma, hgap'⟩ := Cursor.Reads.split (s := [',']) reads
  obtain ⟨hblanks, hends⟩ := hgap.blanks hbefore hcomma (by decide)
    (fun _ => isIdentifierChar_eq_false_of_blank) (by decide)
  refine meets_argument_of_type head (isIdentifier_word choice) hends fun s hrun => ?_
  refine meets_typedArgument_of_choice hrun ?_
  have ends := ends_of_branches branches close
  obtain ⟨text, s₃, htext⟩ := c₂.exists_run isIdentifierChar
  obtain ⟨next, s₄, hnext⟩ := c₃.exists_run isIdentifierChar
  unfold Read.choice
  refine bind_position ((gives_skipBlanks hblanks).bind ((gives_accept hcomma).bind ?_))
  have hends' : c₂.Ends isPatternWhiteSpace := by
    cases offset with
    | absent => exact ends
    | present _ offset _ reads =>
      obtain ⟨blanks, sign, digits, rfl, -⟩ := offset
      rw [show "offset:".toList = 'o' :: "ffset:".toList from rfl] at reads
      exact Cursor.Reads.ends reads (by decide)
  refine (gives_skipBlanks ⟨hgap', hafter, hends'⟩).bind ((gives_identifier htext).bind ?_)
  refine (gives_offset offset htext hnext ends).bind ?_
  have hbranches : Gives (Read.branches options inner frame choice
      (next, ⟨c₃.position, s₄.position⟩)) s₄ list m := by
    unfold Read.branches
    refine bind_cursor ((gives _ next s₄ hnext (Nat.lt_succ_self _)).bind ?_)
    rw [if_neg (by simpa using nonempty), if_neg]
    · exact gives_pure _ _
    · rw [Bool.and_eq_true]
      rintro ⟨hrequired, hnone⟩
      obtain ⟨b, hb, hother⟩ := other hrequired
      simp only [Bool.not_eq_true', List.any_eq_false, beq_iff_eq] at hnone
      exact hnone b hb hother
  refine hbranches.bind ((gives_closeBrace close).bind (bind_capture ?_))
  exact gives_pure _ _

/-! ## Tags -/

theorem gives_tagName {name : List Char} (run : c.Run isTagNameChar name d) :
    Gives tagName c (String.ofList name) d :=
  (gives_word run).bind (gives_pure _ _)

/-- A tag is read up to its name and the blanks after it if its end follows. -/
theorem meets_tag_of_name {name blanks tail : List Char} {ch : Char}
    {ok : Element → Cursor → Prop} {bad : ParseError → Prop} (tagName : IsTagName name)
    (blank : IsBlank blanks) (reads : c.Reads ('<' :: name ++ blanks) m)
    (next : m.Reads (ch :: tail) d) (hch : ch = '/' ∨ ch = '>')
    (h : ∀ s, s.Run isPatternWhiteSpace blanks m →
      Meets (afterTagName options inner frame c.position (String.ofList name)) s ok bad) :
    Meets (tag options inner frame) c ok bad := by
  have hblank : isPatternWhiteSpace ch = false := by rcases hch with rfl | rfl <;> decide
  have hname : isTagNameChar ch = false := by rcases hch with rfl | rfl <;> decide
  have reads : c.Reads (['<'] ++ (name ++ blanks)) m := reads
  obtain ⟨c₁, hopen, reads⟩ := reads.split
  obtain ⟨s, hreads, hgap⟩ := reads.split
  obtain ⟨hrun, hends⟩ := hgap.blanks blank next hblank
    (fun _ => isTagNameChar_eq_false_of_blank) hname
  unfold tag
  refine bind_position (bind_next ?_)
  rw [hopen.next_eq]
  refine (gives_tagName ⟨hreads, tagName.2, hends⟩).bind (bind_cursor ?_)
  -- What follows the name is a blank or the end of the tag, so the name is not at fault.
  split
  · exact h s hrun
  · next x hx =>
    have hx : endsTagName x = true := by
      cases blanks with
      | nil =>
        obtain rfl := hgap.eq_of_nil
        rw [next.current?_eq] at hx
        cases hx
        rcases hch with rfl | rfl <;> decide
      | cons y blanks =>
        rw [hgap.current?_eq] at hx
        cases hx
        simp [endsTagName, blank x (by simp)]
    rw [if_pos hx]
    exact h s hrun

theorem gives_selfClosing {name blanks : List Char} (tagName : IsTagName name)
    (blank : IsBlank blanks) (reads : c.Reads ('<' :: name ++ blanks ++ ['/', '>']) d) :
    Gives (tag options inner frame) c
      (.literal ("<" ++ String.ofList name ++ "/>") (kept options c d)) d := by
  obtain ⟨m, reads, hslash⟩ := reads.split
  refine meets_tag_of_name tagName blank reads hslash (.inl rfl) fun s hrun => ?_
  unfold afterTagName
  refine (gives_skipBlanks hrun).bind ((gives_accept hslash).bind (bind_capture ?_))
  exact gives_pure _ _

theorem gives_closingTag {name : List Char} {opening : Position} (tagName : IsTagName name)
    (h : ClosingTagWritten c name d) : Gives (closingTag (String.ofList name) opening) c () d := by
  obtain ⟨blanks, blank, reads⟩ := h
  have reads : c.Reads (['<', '/'] ++ (name ++ (blanks ++ ['>']))) d := by
    simpa [List.append_assoc] using reads
  obtain ⟨c₁, hopen, reads⟩ := reads.split
  obtain ⟨c₂, hname, reads⟩ := reads.split
  obtain ⟨c₃, hgap, hbracket⟩ := reads.split
  obtain ⟨hrun, hends⟩ := hgap.blanks blank hbracket (by decide)
    (fun _ => isTagNameChar_eq_false_of_blank) (by decide)
  have hletter : c₁.current?.any isAsciiLetter = true := by
    obtain ⟨ch, tail, rfl, hletter⟩ := tagName.exists_cons
    rw [hname.current?_eq]
    exact hletter
  unfold closingTag
  refine bind_position ((gives_accept hopen).bind (bind_position (bind_cursor ?_)))
  rw [if_pos hletter]
  refine (gives_tagName ⟨hname, tagName.2, hends⟩).bind ?_
  rw [if_pos rfl]
  exact (gives_skipBlanks hrun).bind ((gives_accept hbracket).bind (gives_pure _ _))

/-- A tag is read if what it contains is. -/
theorem gives_tag {read : Inner} {name : List Char} {es : List Element} {c₁ : Cursor}
    (opening : OpeningTagWritten c name c₁) (closing : ClosingTagWritten m name d)
    (children : Gives (read frame.tag) c₁ es m) :
    Gives (tag options (some read) frame) c
      (.tag (String.ofList name) es (kept options c d)) d := by
  obtain ⟨blanks, tagName, blank, reads⟩ := opening
  obtain ⟨c₂, reads, hbracket⟩ := reads.split
  refine meets_tag_of_name tagName blank reads hbracket (.inr rfl) fun s hrun => ?_
  unfold afterTagName
  have hslash : c₂.accept? ['/', '>'] = none :=
    Cursor.accept?_eq_none (by rw [hbracket.current?_eq]; decide)
  refine (gives_skipBlanks hrun).bind ((gives_accept_false hslash).bind ?_)
  refine (gives_accept hbracket).bind ((gives_pure read c₁).bind (children.bind ?_))
  exact (gives_closingTag tagName closing).bind (bind_capture (gives_pure _ _))

/-! ## Messages -/

theorem gives_element?_of_argument {e : Element} (opens : c.current? = some '{')
    (h : Gives (argument options inner frame) c e d) :
    Gives (element? options inner frame) c (some e) d := by
  obtain ⟨tail, hrest⟩ := List.head?_eq_some_iff.1 opens
  unfold element?
  apply bind_cursor
  simp only [hrest, Token.peek, if_true]
  exact h.bind (gives_pure _ _)

theorem peek_of_tag {name tail : List Char} (tags : options.ignoreTag = false)
    (tagName : IsTagName name) (reads : c.Reads ('<' :: name ++ tail) m) :
    Token.peek ⟨frame.inPlural, options.ignoreTag⟩ c.rest = .tagStart := by
  obtain ⟨ch, name, rfl, hletter⟩ := tagName.exists_cons
  have hslash : ch ≠ '/' := by
    rintro rfl
    cases hletter
  rw [reads.1]
  simp [Token.peek, Token.afterAngle, tags, hslash, hletter]

theorem gives_element?_of_tag {e : Element} {name tail : List Char}
    (tags : options.ignoreTag = false) (tagName : IsTagName name)
    (reads : c.Reads ('<' :: name ++ tail) m) (h : Gives (tag options inner frame) c e d) :
    Gives (element? options inner frame) c (some e) d := by
  unfold element?
  apply bind_cursor
  rw [peek_of_tag tags tagName reads]
  exact h.bind (gives_pure _ _)

theorem gives_element?_of_stops (stops : frame.Stops options c.rest) :
    Gives (element? options inner frame) c none c := by
  unfold element?
  apply bind_cursor
  rw [Frame.Stops, Frame.context] at stops
  split at stops
  · next hpeek =>
    rw [hpeek]
    exact gives_pure _ _
  · next hpeek =>
    rw [hpeek]
    dsimp only
    rw [if_pos stops]
    exact gives_pure _ _
  · next hpeek =>
    rw [hpeek]
    dsimp only
    rw [if_pos stops]
    exact gives_pure _ _
  · exact stops.elim

/-- The reader of the messages nested in one below which `depth` more levels may be nested. -/
def below (options : Options) : (depth : Nat) → Option Inner
  | 0 => none
  | depth + 1 => some (message options depth)

theorem message_eq_level (options : Options) (depth : Nat) :
    message options depth = level options (below options depth) := by
  cases depth <;> rfl

/-- A branch is read if its body is. -/
theorem gives_branch {read : Inner} {choice : Choice} {earlier : List Branch}
    {selector before : List Char} {es : List Element} {span : Span} {c₁ c₂ : Cursor}
    (new : String.ofList selector ∉ earlier.map Branch.selector)
    (blanks : c.Run isPatternWhiteSpace before c₁) (brace : c₁.Reads ['{'] c₂)
    (body : Gives (read (frame.branch choice)) c₂ es m) (close : m.Reads ['}'] d) :
    Gives (branch options (some read) frame choice earlier (String.ofList selector) span) c
      (.mk (String.ofList selector) es (kept options c₁ d)) d := by
  rw [branch, if_neg (by simpa using new)]
  refine (gives_skipBlanks blanks).bind (bind_position ((gives_accept brace).bind ?_))
  refine (gives_pure read c₂).bind (body.bind ((gives_closeBrace close).bind ?_))
  exact bind_capture (gives_pure _ _)

/-- The action for a phrase gives the phrase.  The numbers that bound elements and branches, and
the branches read before, are any that can occur. -/
def GivesPhrase (options : Options) (depth : Nat) (frame : Frame) (c d : Cursor) :
    Phrase → Prop
  | .message es =>
    ∀ n, c.rest.length ≤ n → Gives (elements options (below options depth) frame n) c es d
  | .element e => Gives (element? options (below options depth) frame) c (some e) d
  | .branches choice list =>
    ∀ n earlier text s f, d.Reads ['}'] f →
      ((earlier ++ list).map Branch.selector).Nodup → c.Run isIdentifierChar text s →
      s.rest.length < n →
      Gives (branchesFrom options (below options depth) frame choice n earlier
        (text, ⟨c.position, s.position⟩)) s (earlier ++ list) d

theorem GivesPhrase.message {es : List Element}
    (h : GivesPhrase options depth frame c d (.message es)) :
    Gives (Read.message options depth frame) c es d := by
  rw [message_eq_level]
  exact bind_cursor (h _ (Nat.le_refl _))

theorem gives_of_written {x : Phrase} (h : Written options depth frame x c d) :
    GivesPhrase options depth frame c d x := by
  induction h with
  | nil stops =>
    intro n _
    cases n with
    | zero => exact gives_pure _ _
    | succ n => exact (gives_element?_of_stops stops).bind (gives_pure _ _)
  | cons head _ gives ih =>
    intro n hn
    have hlt := head.length_lt
    cases n with
    | zero => omega
    | succ n => exact gives.bind ((ih n (by omega)).bind (gives_pure _ _))
  | literal peek scan =>
    rw [GivesPhrase, element?]
    apply bind_cursor
    rw [Frame.context] at peek scan
    rw [peek]
    refine Gives.bind (bind_position (bind_moving (bind_capture ?_))) (gives_pure _ _)
    rw [scan]
    exact gives_pure _ _
  | selfClosing tags tagName blank reads =>
    refine gives_element?_of_tag tags tagName (by simpa using reads) ?_
    exact gives_selfClosing tagName blank reads
  | pound plural reads =>
    obtain ⟨tail, hrest⟩ := List.head?_eq_some_iff.1 reads.current?_eq
    rw [GivesPhrase, element?]
    apply bind_cursor
    simp only [hrest, Token.peek, plural, if_true, and_true, Char.reduceEq, if_false]
    refine Gives.bind (bind_position (bind_next (bind_capture ?_))) (gives_pure _ _)
    rw [reads.next_eq]
    exact gives_pure _ _
  | argument head close =>
    exact gives_element?_of_argument head.opens (gives_plainArgument head close)
  | number head written close value =>
    exact gives_element?_of_argument head.opens (gives_number head written close value)
  | date head written close value =>
    exact gives_element?_of_argument head.opens (gives_date head written close value)
  | time head written close value =>
    exact gives_element?_of_argument head.opens (gives_time head written close value)
  | choice head comma offset branches nonempty distinct other close ih =>
    refine gives_element?_of_argument head.opens
      (gives_choice head comma offset branches nonempty other close ?_)
    intro n text s hrun hn
    exact ih n [] text s _ close distinct hrun hn
  | tag tags opening children closing ih =>
    obtain ⟨blanks, tagName, blank, reads⟩ := id opening
    refine gives_element?_of_tag tags tagName (by simpa using reads) ?_
    exact gives_tag opening closing ih.message
  | noBranch =>
    intro n earlier text s f close _ hrun hn
    cases n with
    | zero => omega
    | succ n =>
      rw [List.append_nil]
      exact (gives_selector?_none close hrun).bind (gives_pure _ _)
  | @branch depth frame choice selector _ _ es list c c₁ c₂ m d c₃ f selects blank₁ head brace body
      close blank₂ gap tail ihbody ihtail =>
    intro n earlier text s f' hclose hdistinct hrun hn
    cases n with
    | zero => omega
    | succ n =>
      obtain ⟨s', hreach, hblanks, hselector⟩ := gives_selector? selects head blank₁ brace hrun
      obtain ⟨next, t, hnext⟩ := c₃.exists_run isIdentifierChar
      have ends := ends_of_branches tail hclose
      have hnew : String.ofList selector ∉ earlier.map Branch.selector := by
        rw [List.map_append, List.nodup_append] at hdistinct
        exact fun hmem => hdistinct.2.2 _ hmem _ List.mem_cons_self rfl
      refine hselector.bind ((gives_branch hnew hblanks brace ihbody.message close).bind ?_)
      refine (gives_skipBlanks ⟨gap, blank₂, ends⟩).bind ((gives_identifier hnext).bind ?_)
      have hlength : t.rest.length < n := by
        have := hreach.length_le
        have := hblanks.reads.reaches.length_le
        have := brace.length_lt
        have := (body.reaches.trans (close.reaches.trans gap.reaches)).length_le
        have := hnext.reads.reaches.length_le
        omega
      have hmoved : ∀ b, earlier ++ b :: list = (earlier ++ [b]) ++ list := by simp
      rw [hmoved] at hdistinct ⊢
      exact ihtail n _ next t f' hclose hdistinct hnext hlength

end Read

/-! ## Whole texts -/

/-- A text is read as what is written in it. -/
theorem parse_of_written {options : Options} {text : String} {es : List Element} {d : Cursor}
    (h : Written options options.maxNestingDepth {} (.message es) (.ofString text) d) :
    parse options text = .ok ⟨es, ⟨.start, d.position⟩⟩ := by
  have hgives := (Read.gives_of_written h).message []
  rw [parse, parseTraced, EStateM.run]
  split at hgives
  · next elements s hrun =>
    obtain ⟨rfl, rfl⟩ := hgives
    rw [hrun]
    rfl
  · exact hgives.elim

/-- The grammar describes exactly the texts that are read, and what they are read as. -/
theorem parse_eq_ok_iff {options : Options} {text : String} {m : Message} :
    parse options text = .ok m ↔
      ∃ d, Written options options.maxNestingDepth {} (.message m.elements) (.ofString text) d ∧
        m.span = ⟨.start, d.position⟩ := by
  constructor
  · exact written_of_parse
  · rintro ⟨d, hwritten, hspan⟩
    rw [parse_of_written hwritten, ← hspan]

end MessageFormat
