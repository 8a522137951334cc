import MessageFormat.Parse.Message
import MessageFormat.Proofs.Grammar.Style
import MessageFormat.Proofs.Literal

/-!
# The written form of a message

`Written options depth frame x c d` says that the phrase `x` is what is written between the
cursors `c` and `d`, where at most `depth` messages may be nested inside.  A phrase is a whole
message, one element, or the branches of a plural or select argument; one relation has all three
because each of them occurs in the others, and one induction then goes through all of them.

The relation is the grammar of messages.  It mentions no reader and no order of reading: each rule
lists the pieces of a construct and the texts they are written as.  What is found by looking ahead
shows up in three rules only.  A run of literal text goes up to the next place that is not text,
a style goes up to the brace that closes it, and a message ends where `Frame.Stops` says so.
Everywhere else a piece ends because the next one begins with a character it cannot contain.
-/

namespace MessageFormat

/-- A part of a message that is read on its own. -/
inductive Phrase where
  | message (elements : List Element)
  | element (e : Element)
  | branches (choice : Choice) (list : List Branch)

namespace Frame

/-- What is special in the text of a message. -/
def context (frame : Frame) (options : Options) : TextContext :=
  ⟨frame.inPlural, options.ignoreTag⟩

/-- Whether a message ends in front of the given text. -/
def Stops (frame : Frame) (options : Options) (rest : List Char) : Prop :=
  match Token.peek (frame.context options) rest with
  | .endOfText => True
  | .closeBrace => frame.inBranch = true
  | .closingTagStart => frame.inTag = true
  | _ => False

/-- The frame of the branches of an argument. -/
def branch (frame : Frame) (choice : Choice) : Frame :=
  { frame with inPlural := choice.isPlural, inBranch := true }

/-- The frame of what a tag contains. -/
def tag (frame : Frame) : Frame := { frame with inTag := true }

end Frame

/-- The opening brace and the name of an argument, with blanks around the name. -/
def NameWritten (c : Cursor) (name : List Char) (d : Cursor) : Prop :=
  ∃ before after, IsBlank before ∧ IsBlank after ∧ IsIdentifier name ∧
    c.Reads ('{' :: before ++ name ++ after) d

/-- An argument up to its type word. -/
def TypeWritten (c : Cursor) (name word : List Char) (d : Cursor) : Prop :=
  ∃ m blanks, NameWritten c name m ∧ IsBlank blanks ∧ m.Reads (',' :: blanks ++ word) d

/-- An opening tag. -/
def OpeningTagWritten (c : Cursor) (name : List Char) (d : Cursor) : Prop :=
  ∃ blanks, IsTagName name ∧ IsBlank blanks ∧ c.Reads ('<' :: name ++ blanks ++ ['>']) d

/-- A closing tag. -/
def ClosingTagWritten (c : Cursor) (name : List Char) (d : Cursor) : Prop :=
  ∃ blanks, IsBlank blanks ∧ c.Reads ('<' :: '/' :: name ++ blanks ++ ['>']) d

/-- The offset of a plural or select argument.  It may be left out if it is zero, unless the first
selector would be taken for its keyword. -/
inductive OffsetWritten (choice : Choice) (c : Cursor) : Nat → Cursor → Prop
  | absent (keyword : choice.isPlural = true → ∀ d, ¬c.Run isIdentifierChar "offset".toList d) :
      OffsetWritten choice c 0 c
  | present {text blanks : List Char} {n : Nat} {d : Cursor} (plural : choice.isPlural = true)
      (offset : IsOffset text n) (blank : IsBlank blanks) (reads : c.Reads (text ++ blanks) d)
      (ends : blanks = [] → d.Ends isAsciiDigit) :
      OffsetWritten choice c n d

/-- What is written between two cursors. -/
inductive Written (options : Options) : Nat → Frame → Phrase → Cursor → Cursor → Prop
  | nil {depth : Nat} {frame : Frame} {c : Cursor} (stops : frame.Stops options c.rest) :
      Written options depth frame (.message []) c c
  | cons {depth : Nat} {frame : Frame} {e : Element} {es : List Element} {c d f : Cursor}
      (head : Written options depth frame (.element e) c d)
      (tail : Written options depth frame (.message es) d f) :
      Written options depth frame (.message (e :: es)) c f
  | literal {depth : Nat} {frame : Frame} {text : List Char} {c d : Cursor}
      (peek : Token.peek (frame.context options) c.rest = .text)
      (scan : Literal.scan (frame.context options) c = (text, d)) :
      Written options depth frame (.element (.literal (String.ofList text) (kept options c d))) c d
  /-- A self-closing tag is literal text without the blanks in it. -/
  | selfClosing {depth : Nat} {frame : Frame} {name blanks : List Char} {c d : Cursor}
      (tags : options.ignoreTag = false) (tagName : IsTagName name) (blank : IsBlank blanks)
      (reads : c.Reads ('<' :: name ++ blanks ++ ['/', '>']) d) :
      Written options depth frame
        (.element (.literal ("<" ++ String.ofList name ++ "/>") (kept options c d))) c d
  | pound {depth : Nat} {frame : Frame} {c d : Cursor} (plural : frame.inPlural = true)
      (reads : c.Reads ['#'] d) :
      Written options depth frame (.element (.pound (kept options c d))) c d
  | argument {depth : Nat} {frame : Frame} {name : List Char} {c m d : Cursor}
      (head : NameWritten c name m) (close : m.Reads ['}'] d) :
      Written options depth frame
        (.element (.argument (String.ofList name) (kept options c d))) c d
  | number {depth : Nat} {frame : Frame} {name : List Char}
      {text : Option (List Char × Span)} {style : Option (ArgumentStyle NumberPattern)}
      {c c₁ m d : Cursor} (head : TypeWritten c name "number".toList c₁)
      (written : StyleWritten c₁ m text) (close : m.Reads ['}'] d)
      (value : Style.styleOf (Style.numberPatternOf options) text = .ok style) :
      Written options depth frame
        (.element (.number (String.ofList name) style (kept options c d))) c d
  | date {depth : Nat} {frame : Frame} {name : List Char}
      {text : Option (List Char × Span)} {style : Option (ArgumentStyle DateTimePattern)}
      {c c₁ m d : Cursor} (head : TypeWritten c name "date".toList c₁)
      (written : StyleWritten c₁ m text) (close : m.Reads ['}'] d)
      (value : Style.styleOf (Style.dateTimePatternOf options) text = .ok style) :
      Written options depth frame
        (.element (.date (String.ofList name) style (kept options c d))) c d
  | time {depth : Nat} {frame : Frame} {name : List Char}
      {text : Option (List Char × Span)} {style : Option (ArgumentStyle DateTimePattern)}
      {c c₁ m d : Cursor} (head : TypeWritten c name "time".toList c₁)
      (written : StyleWritten c₁ m text) (close : m.Reads ['}'] d)
      (value : Style.styleOf (Style.dateTimePatternOf options) text = .ok style) :
      Written options depth frame
        (.element (.time (String.ofList name) style (kept options c d))) c d
  | choice {depth : Nat} {frame : Frame} {choice : Choice} {name : List Char} {n : Nat}
      {list : List Branch} {c c₁ c₂ c₃ m d : Cursor}
      (head : TypeWritten c name choice.word c₁) (comma : CommaWritten c₁ c₂)
      (offset : OffsetWritten choice c₂ n c₃)
      (branches : Written options depth frame (.branches choice list) c₃ m)
      (nonempty : list ≠ []) (distinct : (list.map Branch.selector).Nodup)
      (other : options.requiresOther = true → ∃ b ∈ list, b.selector = "other")
      (close : m.Reads ['}'] d) :
      Written options depth frame
        (.element (choice.element (String.ofList name) n list (kept options c d))) c d
  | tag {depth : Nat} {frame : Frame} {name : List Char} {es : List Element}
      {c c₁ m d : Cursor} (tags : options.ignoreTag = false)
      (opening : OpeningTagWritten c name c₁)
      (children : Written options depth frame.tag (.message es) c₁ m)
      (closing : ClosingTagWritten m name d) :
      Written options (depth + 1) frame
        (.element (.tag (String.ofList name) es (kept options c d))) c d
  | noBranch {depth : Nat} {frame : Frame} {choice : Choice} {c : Cursor} :
      Written options depth frame (.branches choice []) c c
  | branch {depth : Nat} {frame : Frame} {choice : Choice} {selector before after : List Char}
      {es : List Element} {list : List Branch} {c c₁ c₂ m d c₃ f : Cursor}
      (selects : IsSelector choice selector) (blank₁ : IsBlank before)
      (head : c.Reads (selector ++ before) c₁) (brace : c₁.Reads ['{'] c₂)
      (body : Written options depth (frame.branch choice) (.message es) c₂ m)
      (close : m.Reads ['}'] d) (blank₂ : IsBlank after) (gap : d.Reads after c₃)
      (tail : Written options (depth + 1) frame (.branches choice list) c₃ f) :
      Written options (depth + 1) frame
        (.branches choice (.mk (String.ofList selector) es (kept options c₁ d) :: list)) c f

/-! ## What is written takes its place -/

theorem NameWritten.length_lt {c d : Cursor} {name : List Char} (h : NameWritten c name d) :
    d.rest.length < c.rest.length := by
  obtain ⟨before, after, -, -, -, reads⟩ := h
  exact reads.length_lt

theorem NameWritten.reaches {c d : Cursor} {name : List Char} (h : NameWritten c name d) :
    c.Reaches d := by
  obtain ⟨before, after, -, -, -, reads⟩ := h
  exact reads.reaches

theorem NameWritten.opens {c d : Cursor} {name : List Char} (h : NameWritten c name d) :
    c.current? = some '{' := by
  obtain ⟨before, after, -, -, -, reads⟩ := h
  exact reads.current?_eq

theorem TypeWritten.opens {c d : Cursor} {name word : List Char}
    (h : TypeWritten c name word d) : c.current? = some '{' := by
  obtain ⟨m, blanks, head, -, reads⟩ := h
  exact head.opens

theorem TypeWritten.length_lt {c d : Cursor} {name word : List Char}
    (h : TypeWritten c name word d) : d.rest.length < c.rest.length := by
  obtain ⟨m, blanks, head, -, reads⟩ := h
  exact Nat.lt_trans reads.length_lt head.length_lt

theorem TypeWritten.reaches {c d : Cursor} {name word : List Char}
    (h : TypeWritten c name word d) : c.Reaches d := by
  obtain ⟨m, blanks, head, -, reads⟩ := h
  exact head.reaches.trans reads.reaches

theorem OpeningTagWritten.length_lt {c d : Cursor} {name : List Char}
    (h : OpeningTagWritten c name d) : d.rest.length < c.rest.length := by
  obtain ⟨blanks, -, -, reads⟩ := h
  exact reads.length_lt

theorem OpeningTagWritten.reaches {c d : Cursor} {name : List Char}
    (h : OpeningTagWritten c name d) : c.Reaches d := by
  obtain ⟨blanks, -, -, reads⟩ := h
  exact reads.reaches

theorem ClosingTagWritten.reaches {c d : Cursor} {name : List Char}
    (h : ClosingTagWritten c name d) : c.Reaches d := by
  obtain ⟨blanks, -, reads⟩ := h
  exact reads.reaches

theorem OffsetWritten.reaches {choice : Choice} {c d : Cursor} {n : Nat}
    (h : OffsetWritten choice c n d) : c.Reaches d := by
  cases h with
  | absent _ => exact .refl c
  | present _ _ _ reads _ => exact reads.reaches

namespace Written

variable {options : Options} {depth : Nat} {frame : Frame} {x : Phrase} {c d : Cursor}

theorem reaches (h : Written options depth frame x c d) : c.Reaches d := by
  induction h with
  | nil _ => exact .refl _
  | cons _ _ head tail => exact head.trans tail
  | literal _ scan => exact Literal.scan_reaches scan
  | selfClosing _ _ _ reads => exact reads.reaches
  | pound _ reads => exact reads.reaches
  | argument head close => exact head.reaches.trans close.reaches
  | number head written close _ =>
    exact head.reaches.trans (written.reaches.trans close.reaches)
  | date head written close _ =>
    exact head.reaches.trans (written.reaches.trans close.reaches)
  | time head written close _ =>
    exact head.reaches.trans (written.reaches.trans close.reaches)
  | choice head comma offset _ _ _ _ close branches =>
    exact head.reaches.trans (comma.reaches.trans
      (offset.reaches.trans (branches.trans close.reaches)))
  | tag _ opening _ closing children =>
    exact opening.reaches.trans (children.trans closing.reaches)
  | noBranch => exact .refl _
  | branch _ _ head brace _ close _ gap _ body tail =>
    exact head.reaches.trans (brace.reaches.trans
      (body.trans (close.reaches.trans (gap.reaches.trans tail))))

/-- Every element takes at least one character. -/
theorem length_lt {e : Element} (h : Written options depth frame (.element e) c d) :
    d.rest.length < c.rest.length := by
  cases h with
  | literal peek scan =>
    obtain ⟨-, ch, read, reads⟩ := Literal.scan_of_peek scan peek
    exact reads.length_lt
  | selfClosing _ _ _ reads => exact reads.length_lt
  | pound _ reads => exact reads.length_lt
  | argument head close =>
    have := head.length_lt
    have := close.length_lt
    omega
  | number head written close _ =>
    have := head.length_lt
    have := (written.reaches.trans close.reaches).length_le
    omega
  | date head written close _ =>
    have := head.length_lt
    have := (written.reaches.trans close.reaches).length_le
    omega
  | time head written close _ =>
    have := head.length_lt
    have := (written.reaches.trans close.reaches).length_le
    omega
  | choice head comma offset branches _ _ _ close =>
    have := head.length_lt
    have := (comma.reaches.trans (offset.reaches.trans branches.reaches)).length_le
    have := close.length_lt
    omega
  | tag _ opening children closing =>
    have := opening.length_lt
    have := (children.reaches.trans closing.reaches).length_le
    omega

/-- A message ends where its frame says so. -/
theorem stops {es : List Element} (h : Written options depth frame (.message es) c d) :
    frame.Stops options d.rest := by
  induction es generalizing c with
  | nil =>
    cases h
    assumption
  | cons e es ih =>
    cases h with
    | cons _ tail => exact ih tail

/-- Outside of everything a message ends at the end of the text only. -/
theorem rest_eq_nil {es : List Element} (h : Written options depth {} (.message es) c d) :
    d.rest = [] := by
  have hstops := h.stops
  have hcases := Token.peek_cases (Frame.context {} options) d.rest
  rw [Frame.Stops] at hstops
  split at hstops
  · next hpeek =>
    rw [hpeek] at hcases
    exact hcases
  · cases hstops
  · cases hstops
  · exact hstops.elim

/-- Branches that follow each other. -/
theorem branches_append {choice : Choice} {l l' : List Branch} {f : Cursor}
    (h : Written options depth frame (.branches choice l) c d)
    (h' : Written options depth frame (.branches choice l') d f) :
    Written options depth frame (.branches choice (l ++ l')) c f := by
  induction l generalizing c with
  | nil =>
    cases h
    exact h'
  | cons b l ih =>
    cases h with
    | branch selects blank₁ head brace body close blank₂ gap tail =>
      exact .branch selects blank₁ head brace body close blank₂ gap (ih tail)

end Written

end MessageFormat
