import MessageFormat.Proofs.Erasure
import MessageFormat.Proofs.Grammar.Completeness
import MessageFormat.Proofs.Rendering.Forms
import MessageFormat.Proofs.Source

/-!
# Tags as text

A text can be read with tags or with angle brackets as plain text.  The second tree is the first
with every tag replaced by the text of its two ends, around what it contains.  `Element.flatten`
does this to a tree.  It needs the source because a tag says nothing about the blanks in its ends,
and because a self-closing tag is kept as a literal without its blanks.

The two readings cut the text in different places: what is one run of text in the second is cut
at each tag in the first.  So the pieces are joined from the back.  `Splices` says that pieces can
be put in front of any message that is written without tags, and that the text at the end of the
one runs on into the text at the start of the other.
-/

namespace MessageFormat

/-! ## Flattening a tree -/

/-- The text of the source that a span covers. -/
def covered (source : String) (span : Option Span) : List Char :=
  ((span.bind (·.slice? source)).getD "").toList

/-- Whether a text is a self-closing tag. -/
def isSelfClosingTag : List Char → Bool
  | '<' :: text => text.head?.any isAsciiLetter &&
      (text.dropWhile isTagNameChar).dropWhile isPatternWhiteSpace == ['/', '>']
  | _ => false

/-- The opening tag at the start of a text. -/
def openingTag (text : List Char) : List Char := text.takeWhile (· ≠ '>') ++ ['>']

/-- The closing tag at the end of a text. -/
def closingTag (text : List Char) : List Char :=
  '<' :: (text.reverse.takeWhile (· ≠ '<')).reverse

namespace Element

/-- Puts an element in front of others, where two literals that meet become one. -/
def consJoined : Element → List Element → List Element
  | .literal s _, .literal t _ :: es => .literal (s ++ t) none :: es
  | e, es => e :: es

/-- The elements with all adjacent literals concatenated. -/
def joinLiterals (es : List Element) : List Element := es.foldr consJoined []

end Element

mutual

/-- What becomes of an element if tags are text, without spans. -/
def Element.flatten (source : String) : Element → List Element
  | .literal text span =>
    if isSelfClosingTag (covered source span) then
      [.literal (String.ofList (covered source span)) none]
    else [.literal text none]
  | .select name branches _ => [.select name (Branch.flattenList source branches) none]
  | .plural name kind offset branches _ =>
    [.plural name kind offset (Branch.flattenList source branches) none]
  | .tag _ children span =>
    .literal (String.ofList (openingTag (covered source span))) none ::
      (Element.flattenList source children ++
        [.literal (String.ofList (closingTag (covered source span))) none])
  | e => [e.relabel (.spans false)]

/-- What becomes of the elements of a list, one after the other. -/
def Element.flattenList (source : String) : List Element → List Element
  | [] => []
  | e :: es => e.flatten source ++ Element.flattenList source es

/-- The branches of a list with flattened bodies. -/
def Branch.flattenList (source : String) : List Branch → List Branch
  | [] => []
  | .mk selector body _ :: branches =>
    .mk selector (Element.joinLiterals (Element.flattenList source body)) none ::
      Branch.flattenList source branches

end

theorem Branch.map_selector_flattenList (source : String) (list : List Branch) :
    (flattenList source list).map selector = list.map selector := by
  induction list with
  | nil => simp [flattenList]
  | cons b list ih =>
    obtain ⟨selector, body, span⟩ := b
    simp only [flattenList, List.map_cons, ih]
    rfl

theorem Choice.flatten_element (source : String) (choice : Choice) (name : String) (offset : Nat)
    (branches : List Branch) (span : Option Span) :
    (choice.element name offset branches span).flatten source =
      [choice.element name offset (Branch.flattenList source branches) none] := by
  cases choice <;> simp [Choice.element, Element.flatten]

/-- Only literals are joined. -/
theorem Element.consJoined_of_not_literal {e : Element} (h : e.isLiteral = false)
    (es : List Element) : e.consJoined es = e :: es := by
  cases e with
  | literal => cases h
  | _ => rfl

theorem Element.consJoined_cons {e f : Element} (h : f.isLiteral = false) (es : List Element) :
    e.consJoined (f :: es) = e :: f :: es := by
  cases f with
  | literal => cases h
  | _ => cases e <;> rfl

theorem Element.isLiteral_relabel (r : Relabelling) (e : Element) :
    (e.relabel r).isLiteral = e.isLiteral := by
  cases e <;> simp [Element.relabel, Element.isLiteral]

theorem Element.bare_literal (text : String) (span : Option Span) (es : List Element) :
    relabelList (.spans false) (.literal text span :: es) =
      .literal text none :: relabelList (.spans false) es := by
  simp only [relabelList, relabel]
  rfl

/-! ## The ends of a tag -/

/-- A text without the characters that have a meaning even where tags are text. -/
def IsPlain (text : List Char) : Prop := ∀ ch ∈ ['{', '}', '#', '\''], ch ∉ text

theorem IsPlain.append {s t : List Char} (hs : IsPlain s) (ht : IsPlain t) : IsPlain (s ++ t) := by
  intro ch hch hmem
  rcases List.mem_append.1 hmem with hmem | hmem
  · exact hs ch hch hmem
  · exact ht ch hch hmem

/-- What is not in the class is not in the text. -/
theorem not_mem_of_all {test : Char → Bool} {text : List Char}
    (all : ∀ ch ∈ text, test ch = true) {ch : Char} (h : test ch = false) : ch ∉ text := by
  intro hmem
  rw [all ch hmem] at h
  cases h

theorem isPlain_of_all {test : Char → Bool} {text : List Char}
    (all : ∀ ch ∈ text, test ch = true) (h : ['{', '}', '#', '\''].any test = false) :
    IsPlain text := by
  intro ch hch
  exact not_mem_of_all all (Bool.eq_false_iff.2 (List.any_eq_false.1 h ch hch))

theorem isPlain_angle : IsPlain ['<'] := by simp [IsPlain]

theorem isPlain_slash : IsPlain ['<', '/'] := by simp [IsPlain]

theorem isPlain_close : IsPlain ['>'] := by simp [IsPlain]

theorem IsTagName.isPlain {name : List Char} (h : IsTagName name) : IsPlain name :=
  isPlain_of_all h.2 (by rfl)

theorem IsBlank.isPlain {blanks : List Char} (h : IsBlank blanks) : IsPlain blanks :=
  isPlain_of_all h (by rfl)

/-- The opening tag ends with the first bracket. -/
theorem openingTag_append {name blanks : List Char} (hname : IsTagName name)
    (hblanks : IsBlank blanks) (rest : List Char) :
    openingTag ('<' :: name ++ blanks ++ ['>'] ++ rest) = '<' :: name ++ blanks ++ ['>'] := by
  have hinside : ∀ ch ∈ '<' :: name ++ blanks, ch ≠ '>' := by
    intro ch hch
    rintro rfl
    have hname' : '>' ∉ name := not_mem_of_all hname.2 (by decide)
    have hblanks' : '>' ∉ blanks := not_mem_of_all hblanks (by decide)
    simp [hname', hblanks'] at hch
  have hsplit : '<' :: name ++ blanks ++ ['>'] ++ rest =
      ('<' :: name ++ blanks) ++ '>' :: rest := by
    simp
  rw [openingTag, hsplit, List.takeWhile_append_of_pos (by simpa using hinside)]
  simp

/-- The closing tag begins with the last bracket. -/
theorem closingTag_append {name blanks : List Char} (hname : IsTagName name)
    (hblanks : IsBlank blanks) (rest : List Char) :
    closingTag (rest ++ ('<' :: '/' :: name ++ blanks ++ ['>'])) =
      '<' :: '/' :: name ++ blanks ++ ['>'] := by
  have hinside : ∀ ch ∈ ('/' :: name ++ blanks ++ ['>']).reverse, ch ≠ '<' := by
    intro ch hch
    rintro rfl
    have hname' : '<' ∉ name := not_mem_of_all hname.2 (by decide)
    have hblanks' : '<' ∉ blanks := not_mem_of_all hblanks (by decide)
    simp [hname', hblanks'] at hch
  have hreverse : (rest ++ ('<' :: '/' :: name ++ blanks ++ ['>'])).reverse =
      ('/' :: name ++ blanks ++ ['>']).reverse ++ '<' :: rest.reverse := by
    simp
  rw [closingTag, hreverse, List.takeWhile_append_of_pos (by simpa using hinside)]
  simp

theorem isSelfClosingTag_written {name blanks : List Char} (hname : IsTagName name)
    (hblanks : IsBlank blanks) :
    isSelfClosingTag ('<' :: name ++ blanks ++ ['/', '>']) = true := by
  obtain ⟨⟨ch, hhead, hletter⟩, hall⟩ := hname
  have hdrop : (name ++ (blanks ++ ['/', '>'])).dropWhile isTagNameChar =
      blanks ++ ['/', '>'] := by
    rw [List.dropWhile_append_of_pos hall]
    cases blanks with
    | nil => rfl
    | cons x blanks =>
      have hx : isTagNameChar x = false := isTagNameChar_eq_false_of_blank (hblanks x (by simp))
      simp [hx]
  have hdrop' : (blanks ++ ['/', '>']).dropWhile isPatternWhiteSpace = ['/', '>'] := by
    rw [List.dropWhile_append_of_pos hblanks]
    rfl
  simp [isSelfClosingTag, hhead, hletter, hdrop, hdrop']

/-- What is seen as text is no self-closing tag. -/
theorem isSelfClosingTag_eq_false {inPlural : Bool} {text rest : List Char}
    (h : Token.peek ⟨inPlural, false⟩ (text ++ rest) = .text) : isSelfClosingTag text = false := by
  rw [Bool.eq_false_iff]
  intro htag
  rw [isSelfClosingTag.eq_def] at htag
  split at htag
  · next text =>
    obtain ⟨hletter, -⟩ := Bool.and_eq_true_iff.1 htag
    cases text with
    | nil => cases hletter
    | cons ch text =>
      have hletter : isAsciiLetter ch = true := hletter
      have hslash : ch ≠ '/' := by
        rintro rfl
        revert hletter
        decide
      simp [Token.peek, Token.afterAngle, hletter, hslash] at h
  · cases htag

/-! ## Text that runs on -/

namespace Literal

/-- Literal text that begins at `c` goes on at `d`, and `text` is what is read in between. -/
structure RunsOn (context : TextContext) (c : Cursor) (text : List Char) (d : Cursor) : Prop where
  peek : Token.peek context c.rest = .text
  scan : scan context c = (text ++ (Literal.scan context d).1, (Literal.scan context d).2)

variable {inPlural : Bool}

/-- What is text with tags is text without them. -/
theorem peek_ignoreTag {rest : List Char} (h : Token.peek ⟨inPlural, false⟩ rest = .text) :
    Token.peek ⟨inPlural, true⟩ rest = .text := by
  cases rest with
  | nil => cases h
  | cons ch rest =>
    simp only [Token.peek] at h ⊢
    split at h
    · cases h
    split at h
    · cases h
    split at h
    · cases h
    simp_all

/-- Where a run ends because of a tag, it goes on if tags are text. -/
theorem scanFrom_ignoreTag (quoted : Bool) (rest : List Char) (p : Position) :
    scanFrom ⟨inPlural, true⟩ quoted rest p =
      ((scanFrom ⟨inPlural, false⟩ quoted rest p).1 ++
          (scan ⟨inPlural, true⟩ (scanFrom ⟨inPlural, false⟩ quoted rest p).2).1,
        (scan ⟨inPlural, true⟩ (scanFrom ⟨inPlural, false⟩ quoted rest p).2).2) := by
  fun_induction scanFrom ⟨inPlural, false⟩ quoted rest p with
  | case1 quoted p => cases quoted <;> rfl
  | case2 rest p ih => rw [scanFrom, ih]; rfl
  | case3 rest p hrest ih => rw [scanFrom.eq_3 _ _ _ hrest, ih]
  | case4 ch rest p h₁ h₂ ih => rw [scanFrom.eq_4 _ _ _ _ h₁ h₂, ih]; rfl
  | case5 rest p ih => rw [scanFrom, ih]; rfl
  | case6 ch rest p h₁ h₂ ih =>
    have hquotable : isQuotable ⟨inPlural, true⟩ ch = true := h₂
    rw [scanFrom.eq_6 _ _ _ _ h₁, if_pos hquotable, ih]
    rfl
  | case7 ch rest p h₁ h₂ ih =>
    have hquotable : ¬isQuotable ⟨inPlural, true⟩ ch = true := h₂
    rw [scanFrom.eq_6 _ _ _ _ h₁, if_neg hquotable, ih]
    rfl
  | case8 ch rest p h₁ h₂ h₃ ih =>
    have hgoes : goesOn ⟨inPlural, true⟩ ch rest = true :=
      goesOn_iff.2 (peek_ignoreTag (goesOn_iff.1 h₃))
    rw [scanFrom.eq_7 _ _ _ _ h₁ h₂, if_pos hgoes, ih]
    rfl
  | case9 ch rest p h₁ h₂ h₃ => rfl

/-- A run of text up to a tag goes on with the text of the tag. -/
theorem runsOn_of_scan {c d : Cursor} {text : List Char}
    (hpeek : Token.peek ⟨inPlural, false⟩ c.rest = .text)
    (hscan : scan ⟨inPlural, false⟩ c = (text, d)) : RunsOn ⟨inPlural, true⟩ c text d := by
  refine ⟨peek_ignoreTag hpeek, ?_⟩
  have hrun := @scanFrom_ignoreTag inPlural false c.rest c.position
  rw [← scan, ← scan, hscan] at hrun
  exact hrun

theorem peek_of_isPlain {ch : Char} {text rest : List Char} (h : IsPlain (ch :: text)) :
    Token.peek ⟨inPlural, true⟩ (ch :: rest) = .text := by
  apply peek_of_plain
  have hopen : ch ≠ '{' := fun heq => h '{' (by simp) (by simp [heq])
  have hclose : ch ≠ '}' := fun heq => h '}' (by simp) (by simp [heq])
  have hpound : ch ≠ '#' := fun heq => h '#' (by simp) (by simp [heq])
  simp [isSpecial, hopen, hclose, hpound]

theorem scanFrom_of_isPlain {text : List Char} (h : IsPlain text) (rest : List Char)
    (p : Position) :
    scanFrom ⟨inPlural, true⟩ false (text ++ rest) p =
      (text ++ (scanFrom ⟨inPlural, true⟩ false rest (p.advanceAll text)).1,
        (scanFrom ⟨inPlural, true⟩ false rest (p.advanceAll text)).2) := by
  induction text generalizing p with
  | nil => rfl
  | cons ch text ih =>
    have htext : IsPlain text := fun x hx hmem => h x hx (List.mem_cons_of_mem _ hmem)
    have hquote : ch ≠ '\'' := fun heq => h '\'' (by simp) (by simp [heq])
    have hgoes : goesOn ⟨inPlural, true⟩ ch (text ++ rest) = true :=
      goesOn_iff.2 (peek_of_isPlain h)
    simp [scanFrom, hquote, hgoes, ih htext, keep]

/-- The text of a tag is read as it is and goes on with what follows. -/
theorem runsOn_of_isPlain {c d : Cursor} {ch : Char} {text : List Char}
    (h : IsPlain (ch :: text)) (reads : c.Reads (ch :: text) d) :
    RunsOn ⟨inPlural, true⟩ c (ch :: text) d := by
  constructor
  · rw [reads.1]
    exact peek_of_isPlain h
  · rw [scan, reads.1, scanFrom_of_isPlain h, ← reads.2]
    rfl

end Literal

/-! ## Messages without tags -/

section

variable {options : Options} {depth : Nat} {frame : Frame} {c d f : Cursor}

theorem Token.peek_ne_text_of_brace {context : TextContext} (h : c.current? = some '{') :
    Token.peek context c.rest ≠ .text := by
  obtain ⟨tail, hrest⟩ := List.head?_eq_some_iff.1 h
  simp [hrest, Token.peek]

/-- If tags are text, literals and nothing else stand where there is text. -/
theorem Written.isLiteral_iff (tags : options.ignoreTag = true) {e : Element}
    (h : Written options depth frame (.element e) c d) :
    e.isLiteral = true ↔ Token.peek (frame.context options) c.rest = .text := by
  cases h with
  | literal peek => simp [Element.isLiteral, peek]
  | selfClosing hfalse =>
    rw [tags] at hfalse
    cases hfalse
  | pound plural reads => simp [Element.isLiteral, reads.1, Token.peek, Frame.context, plural]
  | argument head | number head | date head | time head =>
    simp [Element.isLiteral, Token.peek_ne_text_of_brace head.opens]
  | @choice _ _ choice _ _ _ _ _ _ _ _ _ head =>
    have hpeek : Token.peek (frame.context options) c.rest ≠ .text :=
      Token.peek_ne_text_of_brace head.opens
    cases choice <;> simp [Choice.element, Element.isLiteral, hpeek]
  | tag hfalse =>
    rw [tags] at hfalse
    cases hfalse

/-- If tags are text, a message that begins with text begins with the run that is read there. -/
theorem Written.exists_literal (tags : options.ignoreTag = true) {es : List Element}
    (h : Written options depth frame (.message es) c f)
    (hpeek : Token.peek (frame.context options) c.rest = .text) :
    ∃ text d es', es = .literal (String.ofList text) (kept options c d) :: es' ∧
      Literal.scan (frame.context options) c = (text, d) ∧
      Written options depth frame (.message es') d f := by
  cases h with
  | nil stops =>
    rw [Frame.Stops, hpeek] at stops
    exact stops.elim
  | @cons _ _ e es _ d _ head tail =>
    have he : e.isLiteral = true := (head.isLiteral_iff tags).2 hpeek
    cases head with
    | @literal _ _ text _ _ _ scan => exact ⟨text, d, es, rfl, scan, tail⟩
    | selfClosing hfalse =>
      rw [tags] at hfalse
      cases hfalse
    | @choice _ _ choice => cases choice <;> cases he
    | _ => cases he

/-- The pieces can be put in front of every message that is written from `d` on, and the result is
written from `c` on, with the text at the seam in one literal. -/
def Splices (options : Options) (depth : Nat) (frame : Frame) (pieces : List Element)
    (c d : Cursor) : Prop :=
  ∀ es f, Written options depth frame (.message es) d f →
    ∃ gs, Written options depth frame (.message gs) c f ∧
      Element.relabelList (.spans false) gs =
        pieces.foldr Element.consJoined (Element.relabelList (.spans false) es)

theorem splices_nil (c : Cursor) : Splices options depth frame [] c c :=
  fun es _ written => ⟨es, written, rfl⟩

theorem Splices.append {pieces more : List Element} (h : Splices options depth frame pieces c d)
    (h' : Splices options depth frame more d f) :
    Splices options depth frame (pieces ++ more) c f := by
  intro es g written
  obtain ⟨gs, hgs, hbare⟩ := h' es g written
  obtain ⟨gs', hgs', hbare'⟩ := h gs g hgs
  exact ⟨gs', hgs', by rw [hbare', hbare, List.foldr_append]⟩

/-- An element that is no literal stands for itself. -/
theorem splices_element {e : Element} (h : Written options depth frame (.element e) c d)
    (he : e.isLiteral = false) : Splices options depth frame [e.relabel (.spans false)] c d := by
  intro es f written
  refine ⟨e :: es, .cons h written, ?_⟩
  have he' : (e.relabel (.spans false)).isLiteral = false := by rwa [Element.isLiteral_relabel]
  rw [Element.relabelList, List.foldr_cons, List.foldr_nil,
    Element.consJoined_of_not_literal he']

/-- Text in front of a message is joined with the text that the message begins with. -/
theorem splices_text (tags : options.ignoreTag = true) {text : List Char}
    (runs : Literal.RunsOn (frame.context options) c text d) :
    Splices options depth frame [.literal (String.ofList text) none] c d := by
  intro es f written
  by_cases hpeek : Token.peek (frame.context options) d.rest = .text
  · obtain ⟨more, m, es', rfl, hscan, tail⟩ := written.exists_literal tags hpeek
    have hjoined : Literal.scan (frame.context options) c = (text ++ more, m) := by
      rw [runs.scan, hscan]
    refine ⟨_, .cons (.literal runs.peek hjoined) tail, ?_⟩
    simp [Element.bare_literal, Element.consJoined]
  · have hstop : Literal.scan (frame.context options) d = ([], d) :=
      Literal.scanFrom_of_not_text hpeek
    have halone : Literal.scan (frame.context options) c = (text, d) := by
      rw [runs.scan, hstop, List.append_nil]
    refine ⟨_, .cons (.literal runs.peek halone) written, ?_⟩
    cases written with
    | nil =>
      rw [Element.bare_literal]
      rfl
    | @cons _ _ e es _ _ _ head tail =>
      have he : (e.relabel (.spans false)).isLiteral = false := by
        rw [Element.isLiteral_relabel, Bool.eq_false_iff]
        exact fun hliteral => hpeek ((head.isLiteral_iff tags).1 hliteral)
      rw [Element.bare_literal, Element.relabelList, List.foldr_cons, List.foldr_nil,
        Element.consJoined_cons he]

theorem splices_plain (tags : options.ignoreTag = true) {ch : Char} {text : List Char}
    (h : IsPlain (ch :: text)) (reads : c.Reads (ch :: text) d) :
    Splices options depth frame [.literal (String.ofList (ch :: text)) none] c d := by
  apply splices_text tags
  rw [Frame.context, tags]
  exact Literal.runsOn_of_isPlain h reads

/-- The two ends of a tag are text around what it contains. -/
theorem splices_tag (tags : options.ignoreTag = true) {name text : List Char}
    {pieces : List Element} {c₁ m : Cursor} (opening : OpeningTagWritten c name c₁)
    (inside : c₁.Reaches m) (children : Splices options depth frame pieces c₁ m)
    (closing : ClosingTagWritten m name d) (reads : c.Reads text d) :
    Splices options depth frame (.literal (String.ofList (openingTag text)) none ::
      (pieces ++ [.literal (String.ofList (closingTag text)) none])) c d := by
  obtain ⟨blanks₁, tagName, blank₁, reads₁⟩ := opening
  obtain ⟨blanks₂, blank₂, reads₂⟩ := closing
  obtain ⟨between, readsInside⟩ := inside
  have htext : text = '<' :: name ++ blanks₁ ++ ['>'] ++
      (between ++ ('<' :: '/' :: name ++ blanks₂ ++ ['>'])) :=
    List.append_cancel_right (reads.1.symm.trans (reads₁.append (readsInside.append reads₂)).1)
  have hopening : openingTag text = '<' :: name ++ blanks₁ ++ ['>'] := by
    rw [htext, openingTag_append tagName blank₁]
  have hclosing : closingTag text = '<' :: '/' :: name ++ blanks₂ ++ ['>'] := by
    rw [htext, ← List.append_assoc, closingTag_append tagName blank₂]
  have plain₁ := ((isPlain_angle.append tagName.isPlain).append blank₁.isPlain).append
    isPlain_close
  have plain₂ := ((isPlain_slash.append tagName.isPlain).append blank₂.isPlain).append
    isPlain_close
  have front : Splices options depth frame [.literal (String.ofList (openingTag text)) none]
      c c₁ := by
    rw [hopening]
    exact splices_plain tags plain₁ reads₁
  have back : Splices options depth frame [.literal (String.ofList (closingTag text)) none]
      m d := by
    rw [hclosing]
    exact splices_plain tags plain₂ reads₂
  exact front.append (children.append back)

/-- A plural or select argument stands for itself with other branches, if their selectors are the
same. -/
theorem splices_choice {choice : Choice} {name : List Char} {n : Nat} {list list' : List Branch}
    {c₁ c₂ c₃ m : Cursor} (head : TypeWritten c name choice.word c₁) (comma : CommaWritten c₁ c₂)
    (offset : OffsetWritten choice c₂ n c₃)
    (branches : Written options depth frame (.branches choice list') c₃ m)
    (selectors : list'.map Branch.selector = list.map Branch.selector) (nonempty : list ≠ [])
    (distinct : (list.map Branch.selector).Nodup)
    (other : options.requiresOther = true → ∃ b ∈ list, b.selector = "other")
    (close : m.Reads ['}'] d) :
    Splices options depth frame [choice.element (String.ofList name) n
      (Branch.relabelList (.spans false) list') none] c d := by
  have nonempty' : list' ≠ [] := by
    rintro rfl
    exact nonempty (List.map_eq_nil_iff.1 selectors.symm)
  have other' : options.requiresOther = true → ∃ b ∈ list', b.selector = "other" := by
    intro required
    have hother : "other" ∈ list.map Branch.selector := List.mem_map.2 (other required)
    rw [← selectors] at hother
    exact List.mem_map.1 hother
  have written := Written.choice head comma offset branches nonempty' (by rwa [selectors]) other'
    close
  have hliteral : (choice.element (String.ofList name) n list' (kept options c d)).isLiteral =
      false := by
    cases choice <;> rfl
  have hsplices := splices_element written hliteral
  rw [Choice.relabel_element] at hsplices
  exact hsplices

end

/-! ## Flattening what is written -/

/-- What a phrase becomes that is written with tags, if it is read without them. -/
def Phrase.Flattens (options : Options) (source : String) (depth : Nat) (frame : Frame)
    (c d : Cursor) : Phrase → Prop
  | .message es => Splices options depth frame (Element.flattenList source es) c d
  | .element e => Splices options depth frame (e.flatten source) c d
  | .branches choice list => ∃ list', Written options depth frame (.branches choice list') c d ∧
      Branch.relabelList (.spans false) list' = Branch.flattenList source list

theorem Cursor.In.covered_kept {options : Options} (spans : options.captureSpans = true)
    {source : String} {c d : Cursor} {text : List Char} (h : c.In source) (reads : c.Reads text d) :
    covered source (kept options c d) = text := by
  have hslice : Span.slice? ⟨c.position, d.position⟩ source = some (String.ofList text) := by
    rw [slice?_eq_some_iff, String.toList_ofList]
    exact h.stands reads
  rw [covered, kept, if_pos spans, Option.bind_some, hslice, Option.getD_some,
    String.toList_ofList]

/-- What is written with tags is flattened if they are text.  The levels of tags are no longer
needed, and whether a tag is open no longer matters. -/
theorem flattens_of_written {options : Options} (spans : options.captureSpans = true)
    (tags : options.ignoreTag = false) {source : String} {depth : Nat} {frame : Frame} {x : Phrase}
    {c d : Cursor} (h : Written options depth frame x c d) (hc : c.In source) {n : Nat}
    (hdepth : depth ≤ n) {frame' : Frame} (hframe : frame'.inPlural = frame.inPlural) :
    x.Flattens { options with ignoreTag := true } source n frame' c d := by
  induction h generalizing n frame' with
  | nil _ =>
    simp only [Phrase.Flattens, Element.flattenList]
    exact splices_nil _
  | cons head tail ihhead ihtail =>
    simp only [Phrase.Flattens, Element.flattenList]
    exact (ihhead hc hdepth hframe).append (ihtail (hc.reaches head.reaches) hdepth hframe)
  | @literal depth frame text c d peek scan =>
    -- The run ends where a tag begins, or where it ends in both readings.
    rw [Frame.context, tags, ← hframe] at peek scan
    obtain ⟨read, reads⟩ := Literal.scan_reaches scan
    have htag : isSelfClosingTag read = false := by
      rw [reads.1] at peek
      exact isSelfClosingTag_eq_false peek
    simp only [Phrase.Flattens, Element.flatten, hc.covered_kept spans reads, htag]
    exact splices_text rfl (Literal.runsOn_of_scan peek scan)
  | selfClosing _ tagName blank reads =>
    simp only [Phrase.Flattens, Element.flatten, hc.covered_kept spans reads,
      isSelfClosingTag_written tagName blank, if_true]
    have hplain := ((isPlain_angle.append tagName.isPlain).append blank.isPlain).append
      (t := ['/', '>']) (by simp [IsPlain])
    exact splices_plain rfl hplain reads
  | pound plural reads =>
    simp only [Phrase.Flattens, Element.flatten]
    exact splices_element (.pound (hframe.trans plural) reads) rfl
  | argument head close =>
    simp only [Phrase.Flattens, Element.flatten]
    exact splices_element (.argument head close) rfl
  | number head style close value =>
    simp only [Phrase.Flattens, Element.flatten]
    exact splices_element (.number head style close value) rfl
  | date head style close value =>
    simp only [Phrase.Flattens, Element.flatten]
    exact splices_element (.date head style close value) rfl
  | time head style close value =>
    simp only [Phrase.Flattens, Element.flatten]
    exact splices_element (.time head style close value) rfl
  | @choice depth frame choice name k list c c₁ c₂ c₃ m d head comma offset _ nonempty distinct
      other close ih =>
    have hc₃ := hc.reaches (head.reaches.trans (comma.reaches.trans offset.reaches))
    obtain ⟨list', written, hbare⟩ := ih hc₃ hdepth hframe
    have hselectors : list'.map Branch.selector = list.map Branch.selector := by
      rw [← Branch.map_selector_relabelList (r := .spans false), hbare,
        Branch.map_selector_flattenList]
    simp only [Phrase.Flattens, Choice.flatten_element, ← hbare]
    exact splices_choice head comma offset written hselectors nonempty distinct other close
  | @tag depth frame name es c c₁ m d _ opening children closing ih =>
    have hc₁ := hc.reaches opening.reaches
    have hchildren : Splices { options with ignoreTag := true } n frame'
        (Element.flattenList source es) c₁ m := ih hc₁ (by omega) hframe
    obtain ⟨text, reads⟩ :=
      opening.reaches.trans (children.reaches.trans closing.reaches)
    simp only [Phrase.Flattens, Element.flatten, hc.covered_kept spans reads]
    exact splices_tag rfl opening children.reaches hchildren closing reads
  | noBranch =>
    exact ⟨[], .noBranch, by simp [Branch.relabelList, Branch.flattenList]⟩
  | @branch depth frame choice selector before after es list c c₁ c₂ m d c₃ f selects blank₁ head
      brace body close blank₂ gap tail ihbody ihtail =>
    obtain ⟨k, rfl⟩ : ∃ k, n = k + 1 := Nat.exists_eq_add_one.2 (by omega)
    have hc₂ := (hc.reads head).reads brace
    have hc₃ := ((hc₂.reaches body.reaches).reads close).reads gap
    have hbody : Splices { options with ignoreTag := true } k (frame'.branch choice)
        (Element.flattenList source es) c₂ m := ihbody hc₂ (by omega) rfl
    obtain ⟨list', hlist', hbare'⟩ := ihtail hc₃ hdepth hframe
    have stops : (frame'.branch choice).Stops { options with ignoreTag := true } m.rest := by
      rw [close.1]
      simp [Frame.Stops, Token.peek, Frame.branch]
    -- The body goes in front of the empty message at the brace that closes the branch.
    obtain ⟨gs, hgs, hbare⟩ := hbody [] m (.nil stops)
    refine ⟨_, .branch selects blank₁ head brace hgs close blank₂ gap hlist', ?_⟩
    simp only [Branch.relabelList, Branch.flattenList, hbare, hbare']
    rfl

/-- Turning tags off flattens the tree and does nothing else. -/
theorem parse_flattens (options : Options) (text : String) {m : Message}
    (h : parse { options with captureSpans := true, ignoreTag := false } text = .ok m) :
    ∃ m', parse { options with captureSpans := true, ignoreTag := true } text = .ok m' ∧
      m'.span = m.span ∧
      Element.relabelList (.spans false) m'.elements =
        Element.joinLiterals (Element.flattenList text m.elements) := by
  obtain ⟨d, written, hspan⟩ := written_of_parse h
  have hsplices : Splices { options with captureSpans := true, ignoreTag := true }
      options.maxNestingDepth {} (Element.flattenList text m.elements) (.ofString text) d :=
    flattens_of_written rfl rfl written (Cursor.in_ofString text) (Nat.le_refl _) rfl
  have stops : Frame.Stops {} { options with captureSpans := true, ignoreTag := true } d.rest := by
    rw [written.rest_eq_nil]
    trivial
  obtain ⟨gs, hgs, hbare⟩ := hsplices [] d (.nil stops)
  exact ⟨_, parse_of_written hgs, hspan.symm, hbare⟩

/-- Blanks in the ends of tags, an empty element and a quoted bracket. -/
theorem parse_flattens_quoted : ∃ m m',
    parse {} "a<b >'<'{n, plural, other {#<br />}}</b >." = .ok m ∧ m.elements.length = 3 ∧
    parse { ignoreTag := true } "a<b >'<'{n, plural, other {#<br />}}</b >." = .ok m' ∧
    m'.elements.length = 3 ∧
    Element.relabelList (.spans false) m'.elements = Element.joinLiterals
      (Element.flattenList "a<b >'<'{n, plural, other {#<br />}}</b >." m.elements) := by
  obtain ⟨m, hparse, hlength⟩ := exists_parse_eq_ok {}
    "a<b >'<'{n, plural, other {#<br />}}</b >." 3 (by decide +kernel)
  obtain ⟨m', hparse', -, hbare⟩ := parse_flattens {} _ hparse
  obtain ⟨m'', hparse'', hlength'⟩ := exists_parse_eq_ok { ignoreTag := true }
    "a<b >'<'{n, plural, other {#<br />}}</b >." 3 (by decide +kernel)
  have heq : m'' = m' := Except.ok.inj (hparse''.symm.trans hparse')
  subst heq
  exact ⟨m, m'', hparse, hlength, hparse'', hlength', hbare⟩

end MessageFormat
