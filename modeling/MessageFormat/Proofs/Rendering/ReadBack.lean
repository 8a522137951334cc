import MessageFormat.Proofs.Grammar.Completeness
import MessageFormat.Proofs.Rendering.Forms
import MessageFormat.Proofs.Source

/-!
# Renderings are read back

Every rendering of a tree is read as that tree.  The reader is not looked at again.  A rendering
is shown to be `Written` between the cursors before and after it, and the rest is the completeness
of the grammar.

What a rendering does not say is what comes after it, and a piece of grammar needs that in three
places: literal text must be followed by something else, a message by its end, and the offset of a
plural argument by something that is no digit.  `Phrase.EndsAt` is what the induction asks of the
cursor after a phrase.
-/

namespace MessageFormat

/-! ## Styles -/

namespace Style

theorem Balanced.append {s t : List Char} (hs : Balanced s) (ht : Balanced t) :
    Balanced (s ++ t) := by
  induction hs with
  | nil => exact ht
  | char apostrophe opening closing _ ih => exact .char apostrophe opening closing ih
  | quotation closed _ ih =>
    rw [List.append_assoc, List.cons_append]
    exact .quotation closed ih
  | braces body _ _ ih =>
    rw [List.append_assoc, List.cons_append]
    exact .braces body ih

theorem balanced_of_whiteSpace {text : List Char} (h : ∀ ch ∈ text, isWhiteSpace ch = true) :
    Balanced text := by
  induction text with
  | nil => exact .nil
  | cons ch text ih =>
    have hch := h ch (by simp)
    refine .char ?_ ?_ ?_ (ih fun x hx => h x (by simp [hx]))
    all_goals
      rintro rfl
      revert hch
      decide

/-- Inside a quotation everything is read up to the apostrophe that closes it. -/
theorem scanFrom_quotation {quoted rest : List Char} {start p : Position} {depth : Nat}
    (h : '\'' ∉ quoted) :
    scanFrom (some start) depth (quoted ++ '\'' :: rest) p =
      (scanFrom none depth rest (p.advanceAll (quoted ++ ['\'']))).map
        fun (text, d) => (quoted ++ '\'' :: text, d) := by
  induction quoted generalizing p with
  | nil =>
    rw [List.nil_append, scanFrom]
    cases scanFrom none depth rest (p.advance '\'') <;> rfl
  | cons ch quoted ih =>
    rw [List.mem_cons, not_or] at h
    have hch : ¬ch = '\'' := fun heq => h.1 heq.symm
    rw [List.cons_append, scanFrom, if_neg hch, ih h.2]
    simp only [List.cons_append, Position.advanceAll_cons]
    cases scanFrom none depth rest _ <;> rfl

/-- Balanced text is read as it is, at any depth, and what comes after it at the same depth. -/
theorem scanFrom_balanced {text : List Char} (h : Balanced text) (rest : List Char)
    (p : Position) (depth : Nat) :
    scanFrom none depth (text ++ rest) p =
      (scanFrom none depth rest (p.advanceAll text)).map fun (read, d) => (text ++ read, d) := by
  induction h generalizing rest p depth with
  | nil => cases hscan : scanFrom none depth rest p <;> simp [hscan, Except.map]
  | @char ch text apostrophe opening closing _ ih =>
    rw [List.cons_append, scanFrom, if_neg (fun h => closing h.1)]
    simp only [apostrophe, opening, closing, if_false]
    rw [ih, Position.advanceAll_cons]
    cases scanFrom none depth rest _ <;> rfl
  | @quotation quoted text closed _ ih =>
    rw [List.append_assoc, List.cons_append, List.cons_append, scanFrom,
      if_neg (by simp)]
    simp only [if_true, Char.reduceEq, if_false]
    rw [scanFrom_quotation closed, ih]
    simp only [List.cons_append, List.append_assoc, Position.advanceAll_cons,
      Position.advanceAll_append, Position.advanceAll_nil]
    cases scanFrom none depth rest _ <;> rfl
  | @braces inside text _ _ ihbody ihtail =>
    rw [List.append_assoc, List.cons_append, List.cons_append, scanFrom, if_neg (by simp)]
    simp only [if_true, Char.reduceEq, if_false]
    rw [ihbody, scanFrom, if_neg (by simp)]
    simp only [if_true, Char.reduceEq, if_false, Nat.add_sub_cancel]
    rw [ihtail]
    simp only [List.cons_append, List.append_assoc, Position.advanceAll_cons,
      Position.advanceAll_append]
    cases scanFrom none depth rest _ <;> rfl

/-- A balanced style goes up to the brace that closes the argument. -/
theorem scan_balanced {c d f : Cursor} {text : List Char} (h : Balanced text)
    (reads : c.Reads text d) (close : d.Reads ['}'] f) : scan c = .ok (text, d) := by
  obtain ⟨rest, p⟩ := d
  obtain ⟨hrest, hp⟩ := reads
  have hclose : rest = '}' :: f.rest := close.1
  subst hclose
  rw [scan, hrest, scanFrom_balanced h, ← hp, scanFrom, if_pos ⟨rfl, rfl⟩]
  simp [Except.map]

end Style

/-! ## Pieces -/

variable {options : Options} {c d : Cursor} {name : String} {text : List Char}

theorem NameRenders.written (h : NameRenders name text) (isName : IsIdentifier name.toList)
    (reads : c.Reads text d) : NameWritten c name.toList d := by
  obtain ⟨b₁, b₂, blank₁, blank₂, rfl⟩ := h
  exact ⟨b₁, b₂, blank₁, blank₂, isName, reads⟩

theorem TypeRenders.written {word : List Char} (h : TypeRenders name word text)
    (isName : IsIdentifier name.toList) (reads : c.Reads text d) :
    TypeWritten c name.toList word d := by
  obtain ⟨head, blanks, named, blank, rfl⟩ := h
  obtain ⟨m, hhead, hword⟩ := reads.split
  exact ⟨m, blanks, named.written isName hhead, blank, hword⟩

theorem CommaRenders.written (h : CommaRenders text) (reads : c.Reads text d) :
    CommaWritten c d := by
  obtain ⟨b₁, b₂, blank₁, blank₂, rfl⟩ := h
  exact ⟨b₁, b₂, blank₁, blank₂, reads⟩

/-- A rendered style is the written form of it. -/
theorem StyleRenders.written {σ : Type} {style : Option (ArgumentStyle σ)} {skeleton : σ → Prop}
    {f : Cursor} (patternOf : List Char → Span → Except Fault σ) (h : StyleRenders style text)
    (wellFormed : ArgumentStyle.WellFormed skeleton style) (plain : ArgumentStyle.Plain style)
    (reads : c.Reads text d) (close : d.Reads ['}'] f) :
    ∃ read, StyleWritten c d read ∧ Style.styleOf patternOf read = .ok style := by
  match style, h, wellFormed, plain with
  | none, blank, _, _ => exact ⟨none, .absent blank reads, rfl⟩
  | some (.simple style), ⟨comma, after, separated, hafter, htext⟩, simple, ⟨balanced, hhead⟩ =>
    subst htext
    obtain ⟨m, hcomma, hstyle⟩ := reads.split
    have htrim := Text.trimEnd_append hafter simple.trimmed
    have ends : m.Ends isPatternWhiteSpace := by
      obtain ⟨ch, rest, heq⟩ := List.exists_cons_of_ne_nil simple.nonempty
      have hch := hhead ch (by rw [heq]; rfl)
      rw [heq] at hstyle
      exact Cursor.Reads.ends hstyle hch
    have scan := Style.scan_balanced (balanced.append (Style.balanced_of_whiteSpace hafter))
      hstyle close
    refine ⟨_, .present (separated.written hcomma) ends scan ?_, ?_⟩
    · rw [htrim]
      exact simple.nonempty
    · rw [Style.styleOf, htrim, after?_colons_eq_none_iff.2 simple.noSkeleton,
        String.ofList_toList]
  | some (.skeleton _), h, _, _ => exact h.elim

theorem kept_eq_none (spans : options.captureSpans = false) (c d : Cursor) :
    kept options c d = none := by
  rw [kept, spans]
  rfl

/-- An argument with a rendered style is the written form of one, for each kind of argument that
has a style. -/
theorem TypeRenders.written_styled {σ : Type} {style : Option (ArgumentStyle σ)}
    {skeleton : σ → Prop} {word head : List Char} {depth : Nat} {frame : Frame}
    {make : String → Option (ArgumentStyle σ) → Option Span → Element}
    {patternOf : List Char → Span → Except Fault σ} (spans : options.captureSpans = false)
    (kind : ∀ {c₁ m read}, TypeWritten c name.toList word c₁ → StyleWritten c₁ m read →
      m.Reads ['}'] d → Style.styleOf patternOf read = .ok style →
      Written options depth frame
        (.element (make (String.ofList name.toList) style (kept options c d))) c d)
    (typed : TypeRenders name word head) (styled : StyleRenders style text)
    (isName : IsIdentifier name.toList) (wellFormed : ArgumentStyle.WellFormed skeleton style)
    (plain : ArgumentStyle.Plain style) (reads : c.Reads (head ++ (text ++ ['}'])) d) :
    Written options depth frame (.element (make name style none)) c d := by
  obtain ⟨c₁, hhead, reads⟩ := reads.split
  obtain ⟨m, hstyle, hclose⟩ := reads.split
  obtain ⟨read, hread, value⟩ := styled.written patternOf wellFormed plain hstyle hclose
  have written := kind (typed.written isName hhead) hread hclose value
  rwa [String.ofList_toList, kept_eq_none spans] at written

theorem IsSelector.exists_cons {choice : Choice} {selector : List Char}
    (h : IsSelector choice selector) : ∃ ch tail, selector = ch :: tail := by
  rcases h with hword | ⟨-, sign, digits, rfl, -⟩
  · obtain ⟨ch, tail, rfl, -⟩ := hword.exists_cons
    exact ⟨ch, tail, rfl⟩
  · exact ⟨_, _, rfl⟩

/-- A rendered offset is the written form of it, in front of the selector it was rendered for. -/
theorem OffsetRenders.written {choice : Choice} {first blanks tail : List Char} {n : Nat}
    {s f : Cursor} (h : OffsetRenders choice first n text) (selects : IsSelector choice first)
    (reads : c.Reads text d) (head : d.Reads (first ++ blanks) s) (blank : IsBlank blanks)
    (brace : s.Reads ('{' :: tail) f) : OffsetWritten choice c n d := by
  cases h with
  | absent keyword =>
    obtain rfl := reads.eq_of_nil
    refine .absent fun plural e hrun => ?_
    obtain ⟨m, hfirst, hblanks⟩ := head.split
    rcases selects with hword | ⟨-, sign, digits, rfl, -⟩
    · obtain ⟨-, ends⟩ := hblanks.blanks blank brace (by decide)
        (fun _ => isIdentifierChar_eq_false_of_blank) (by decide)
      have first : c.Run isIdentifierChar first m := ⟨hfirst, hword.2, ends⟩
      exact keyword plural (first.unique hrun).1
    · obtain ⟨hnil, -⟩ := (Cursor.Reads.ends hfirst (by decide)).eq_nil hrun
      cases hnil
  | present plural offset blank' ends =>
    refine .present plural offset blank' reads fun hnil ch hch => ?_
    obtain ⟨x, rest, rfl⟩ := selects.exists_cons
    refine ends hnil ch ?_
    rw [← hch, Cursor.Reads.current?_eq head]
    rfl

/-! ## Phrases -/

/-- What has to come after a phrase. -/
def Phrase.EndsAt (options : Options) (frame : Frame) (d : Cursor) : Phrase → Prop
  | .message _ => frame.Stops options d.rest
  | .element e => e.isLiteral = true → Token.peek (frame.context options) d.rest ≠ .text
  | .branches _ _ => True

/-- An element that is no literal is not taken for one. -/
theorem peek_of_renders {context : TextContext} {e : Element} {rest : List Char}
    (h : Renders options context.inPlural (.element e) text)
    (htags : context.ignoreTag = options.ignoreTag)
    (wellFormed : e.WellFormed options context.inPlural) (hliteral : e.isLiteral = false) :
    Token.peek context (text ++ rest) ≠ .text := by
  cases h with
  | literal => cases hliteral
  | pound =>
    rw [Element.WellFormed] at wellFormed
    simp [Token.peek, wellFormed]
  | argument named =>
    obtain ⟨b₁, b₂, -, -, rfl⟩ := named
    simp [Token.peek]
  | number typed | date typed | time typed | choice typed =>
    obtain ⟨head, blanks, ⟨b₁, b₂, -, -, rfl⟩, -, rfl⟩ := typed
    simp [Token.peek]
  | tag =>
    rw [Element.WellFormed] at wellFormed
    obtain ⟨tags, tagName, -⟩ := wellFormed
    obtain ⟨ch, tail, hname, hletter⟩ := tagName.exists_cons
    have hslash : ch ≠ '/' := by
      rintro rfl
      cases hletter
    simp [Token.peek, Token.afterAngle, htags, tags, hname, hslash, hletter]

theorem not_text_of_stops {frame : Frame} {rest : List Char} (h : frame.Stops options rest) :
    Token.peek (frame.context options) rest ≠ .text := by
  intro hpeek
  rw [Frame.Stops, hpeek] at h
  exact h

/-- Branches begin with the selector of the first of them. -/
theorem exists_selector_of_renders {inPlural : Bool} {choice : Choice} {first : Branch}
    {list : List Branch} (h : Renders options inPlural (.branches choice (first :: list)) text) :
    ∃ blanks tail, IsBlank blanks ∧ text = first.selector.toList ++ blanks ++ '{' :: tail := by
  cases h with
  | branch blank₁ => exact ⟨_, _, blank₁, rfl⟩

/-- What the branches of a choice are known to be, whichever kind it is. -/
theorem selects_of_wellFormed {inPlural : Bool} {choice : Choice} {n : Nat} {list : List Branch}
    {span : Option Span} (h : (choice.element name n list span).WellFormed options inPlural) :
    IsIdentifier name.toList ∧ choice.Selects options list ∧
      Branch.AllWellFormed options choice.isPlural list := by
  cases choice with
  | select =>
    rw [Choice.element, Element.WellFormed] at h
    exact h
  | plural kind =>
    rw [Choice.element, Element.WellFormed] at h
    exact h

theorem allPlain_of_plain {choice : Choice} {n : Nat} {list : List Branch} {span : Option Span}
    (h : (choice.element name n list span).Plain) : Branch.AllPlain list := by
  cases choice with
  | select =>
    rw [Choice.element, Element.Plain] at h
    exact h.1
  | plural kind =>
    rw [Choice.element, Element.Plain] at h
    exact h.2.1

theorem height_choice {choice : Choice} {n : Nat} {list : List Branch} {span : Option Span} :
    (choice.element name n list span).height = Branch.heightList list := by
  cases choice <;> rw [Choice.element, Element.height]

/-- A rendering is the written form of what it renders. -/
theorem written_of_renders (spans : options.captureSpans = false) {inPlural : Bool} {x : Phrase}
    (h : Renders options inPlural x text) {depth : Nat} {frame : Frame}
    (hframe : frame.inPlural = inPlural) (wellFormed : x.WellFormed options inPlural)
    (plain : x.Plain) (hdepth : x.height ≤ depth) (reads : c.Reads text d)
    (ends : x.EndsAt options frame d) : Written options depth frame x c d := by
  induction h generalizing depth frame c d with
  | nil =>
    obtain rfl := reads.eq_of_nil
    exact .nil ends
  | @cons _ e es s t head tail ihhead ihtail =>
    obtain ⟨m, hs, ht⟩ := reads.split
    simp only [Phrase.WellFormed, Element.AllWellFormed] at wellFormed
    simp only [Phrase.Plain, Element.AllPlain] at plain
    simp only [Phrase.height, Element.heightList, Nat.max_le] at hdepth
    obtain ⟨wellFormed, wellFormed'⟩ := wellFormed
    obtain ⟨plain, apart, plain'⟩ := plain
    refine .cons (ihhead hframe wellFormed plain hdepth.1 hs fun hliteral => ?_)
      (ihtail hframe wellFormed' plain' hdepth.2 ht ends)
    -- After a literal there is the end of the message or an element of another kind.
    cases tail with
    | nil =>
      obtain rfl := ht.eq_of_nil
      exact not_text_of_stops ends
    | cons head' _ =>
      subst hframe
      rw [ht.1, List.append_assoc]
      exact peek_of_renders head' rfl wellFormed'.1 (apart hliteral _ rfl)
  | @literal _ text written quotes =>
    subst hframe
    simp only [Phrase.WellFormed, Element.WellFormed] at wellFormed
    have hpeek : Token.peek (frame.context options) c.rest = .text := by
      rw [reads.1]
      exact quotes.peek (by simpa using wellFormed)
    have written : Written options depth frame
        (.element (.literal (String.ofList text.toList) (kept options c d))) c d :=
      .literal hpeek (Literal.scan_quotes quotes (ends rfl) reads)
    rwa [String.ofList_toList, kept_eq_none spans] at written
  | pound =>
    simp only [Phrase.WellFormed, Element.WellFormed] at wellFormed
    have written : Written options depth frame (.element (.pound (kept options c d))) c d :=
      .pound (hframe.trans wellFormed) reads
    rwa [kept_eq_none spans] at written
  | @argument _ name head named =>
    simp only [Phrase.WellFormed, Element.WellFormed] at wellFormed
    obtain ⟨m, hhead, hclose⟩ := reads.split
    have written : Written options depth frame
        (.element (.argument (String.ofList name.toList) (kept options c d))) c d :=
      .argument (named.written wellFormed hhead) hclose
    rwa [String.ofList_toList, kept_eq_none spans] at written
  | number typed styled =>
    simp only [Phrase.WellFormed, Element.WellFormed] at wellFormed
    simp only [Phrase.Plain, Element.Plain] at plain
    exact typed.written_styled spans .number styled wellFormed.1 wellFormed.2 plain.1 reads
  | date typed styled =>
    simp only [Phrase.WellFormed, Element.WellFormed] at wellFormed
    simp only [Phrase.Plain, Element.Plain] at plain
    exact typed.written_styled spans .date styled wellFormed.1 wellFormed.2 plain.1 reads
  | time typed styled =>
    simp only [Phrase.WellFormed, Element.WellFormed] at wellFormed
    simp only [Phrase.Plain, Element.Plain] at plain
    exact typed.written_styled spans .time styled wellFormed.1 wellFormed.2 plain.1 reads
  | @choice _ choice name n first list head comma offset text typed separated begun branches ih =>
    obtain ⟨isName, selects, bodies⟩ := selects_of_wellFormed wellFormed
    have plain := allPlain_of_plain plain
    rw [Phrase.height, height_choice] at hdepth
    obtain ⟨c₁, hhead, reads⟩ := reads.split
    obtain ⟨c₂, hcomma, reads⟩ := reads.split
    obtain ⟨c₃, hoffset, reads⟩ := reads.split
    obtain ⟨m, htext, hclose⟩ := reads.split
    have hbranches := ih hframe ⟨bodies, selects.selectors⟩ plain hdepth htext trivial
    obtain ⟨blanks, tail, blank, rfl⟩ := exists_selector_of_renders branches
    obtain ⟨s, hselector, hbrace⟩ := htext.split
    have written : Written options depth frame (.element (choice.element
        (String.ofList name.toList) n (first :: list) (kept options c d))) c d :=
      .choice (typed.written isName hhead) (separated.written hcomma)
        (begun.written (selects.selectors first List.mem_cons_self) hoffset hselector blank hbrace)
        hbranches selects.nonempty selects.distinct selects.other hclose
    rwa [String.ofList_toList, kept_eq_none spans] at written
  | @tag _ name es b₁ b₂ text blank₁ blank₂ children ih =>
    simp only [Phrase.WellFormed, Element.WellFormed] at wellFormed
    simp only [Phrase.Plain, Element.Plain] at plain
    simp only [Phrase.height, Element.height] at hdepth
    obtain ⟨tags, tagName, wellFormed⟩ := wellFormed
    obtain ⟨c₁, hopen, reads⟩ := reads.split
    obtain ⟨m, htext, hclose⟩ := reads.split
    have stops : frame.tag.Stops options m.rest := by
      rw [hclose.1, Frame.Stops]
      simp [Frame.context, Frame.tag, Token.peek, Token.afterAngle, tags]
    cases depth with
    | zero => omega
    | succ depth =>
      have written : Written options (depth + 1) frame
          (.element (.tag (String.ofList name.toList) es (kept options c d))) c d :=
        .tag tags ⟨b₁, tagName, blank₁, hopen⟩
          (ih hframe wellFormed plain.1 (Nat.le_of_succ_le_succ hdepth) htext stops)
          ⟨b₂, blank₂, hclose⟩
      rwa [String.ofList_toList, kept_eq_none spans] at written
  | noBranch =>
    obtain rfl := reads.eq_of_nil
    exact .noBranch
  | @branch _ choice selector es list b₁ b₂ text rest blank₁ blank₂ body tail ihbody ihtail =>
    obtain ⟨wellFormed, selectors⟩ := wellFormed
    simp only [Branch.AllWellFormed] at wellFormed
    simp only [Phrase.Plain, Branch.AllPlain] at plain
    simp only [Phrase.height, Branch.heightList, Nat.max_le] at hdepth
    obtain ⟨c₁, hhead, reads⟩ := reads.split
    obtain ⟨c₂, hbrace, reads⟩ := reads.split
    obtain ⟨m, htext, reads⟩ := reads.split
    obtain ⟨d₁, hclose, reads⟩ := reads.split
    obtain ⟨c₃, hgap, hrest⟩ := reads.split
    have stops : (frame.branch choice).Stops options m.rest := by
      rw [hclose.1, Frame.Stops]
      simp [Frame.branch, Token.peek]
    have selects := selectors _ List.mem_cons_self
    cases depth with
    | zero => omega
    | succ depth =>
      have written : Written options (depth + 1) frame (.branches choice
          (.mk (String.ofList selector.toList) es (kept options c₁ d₁) :: list)) c d :=
        .branch selects blank₁ hhead hbrace
          (ihbody rfl wellFormed.1 plain.1 (Nat.le_of_succ_le_succ hdepth.1) htext stops) hclose
          blank₂ hgap (ihtail hframe
            ⟨wellFormed.2, fun b hb => selectors b (List.mem_cons_of_mem _ hb)⟩ plain.2.2 hdepth.2
            hrest trivial)
      rwa [String.ofList_toList, kept_eq_none spans] at written

end MessageFormat
