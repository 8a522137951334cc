import Mathlib.Data.List.Chain
import MessageFormat.Proofs.Erasure
import MessageFormat.Proofs.Rendering.Forms

/-!
# Literals side by side

Where text begins and ends is decided in two places.  `Token.peek` looks at a place and names what
stands there, and `Literal.scan` reads on as long as it finds text.  The two agree: a run is read
where text is seen, nothing is read where none is, and behind a run no text is seen.

So two runs never follow each other.  The elements that a message, a branch or a tag holds can have
literals side by side all the same, because a self-closing tag is kept as a literal.  That is the
only way: of two literals side by side one is a self-closing tag of the source
(`Element.MayMeet`).
-/

namespace MessageFormat

/-! ## The elements that stand together -/

mutual

/-- What an element holds, list by list: the bodies of its branches or what is between the two ends
of a tag, and everything that these hold in turn. -/
def Element.bodies : Element → List (List Element)
  | .select _ branches _ => Branch.bodiesList branches
  | .plural _ _ _ branches _ => Branch.bodiesList branches
  | .tag _ children _ => children :: Element.bodiesList children
  | _ => []

/-- What the elements of a list hold. -/
def Element.bodiesList : List Element → List (List Element)
  | [] => []
  | e :: es => e.bodies ++ Element.bodiesList es

/-- The bodies of branches, and what they hold. -/
def Branch.bodiesList : List Branch → List (List Element)
  | [] => []
  | .mk _ body _ :: branches =>
    body :: (Element.bodiesList body ++ Branch.bodiesList branches)

end

/-- The lists of elements in a message: its own, and those inside it at any depth. -/
def Message.bodies (m : Message) : List (List Element) :=
  m.elements :: Element.bodiesList m.elements

/-- The element is a self-closing tag of the source, kept as a literal without the blanks that
stand in the tag. -/
def Element.IsSelfClosing (source : String) (e : Element) : Prop :=
  ∃ name blanks span, IsTagName name ∧ IsBlank blanks ∧
    e = .literal ("<" ++ String.ofList name ++ "/>") (some span) ∧
    span.slice? source = some (String.ofList ('<' :: name ++ blanks ++ ['/', '>']))

/-- The elements may stand side by side: if both are literals, there are tags and one of the two
is a self-closing tag. -/
def Element.MayMeet (options : Options) (source : String) (e f : Element) : Prop :=
  e.isLiteral = true → f.isLiteral = true →
    options.ignoreTag = false ∧ (e.IsSelfClosing source ∨ f.IsSelfClosing source)

/-! ## From the grammar -/

variable {options : Options} {depth : Nat} {frame : Frame} {source : String} {c d : Cursor}

theorem isSelfClosing_of_reads (spans : options.captureSpans = true) {name blanks : List Char}
    (tagName : IsTagName name) (blank : IsBlank blanks)
    (reads : c.Reads ('<' :: name ++ blanks ++ ['/', '>']) d) (hc : c.In source) :
    Element.IsSelfClosing source
      (.literal ("<" ++ String.ofList name ++ "/>") (kept options c d)) := by
  refine ⟨name, blanks, ⟨c.position, d.position⟩, tagName, blank, by rw [kept, if_pos spans], ?_⟩
  rw [slice?_eq_some_iff, String.toList_ofList]
  exact hc.stands reads

/-- A literal is a self-closing tag, or a run of text that is read where there is text. -/
theorem Written.literal_cases (spans : options.captureSpans = true) {e : Element}
    (h : Written options depth frame (.element e) c d) (hc : c.In source)
    (he : e.isLiteral = true) :
    options.ignoreTag = false ∧ e.IsSelfClosing source ∨
      Token.peek (frame.context options) c.rest = .text ∧
        Token.peek (frame.context options) d.rest ≠ .text := by
  cases h with
  | literal peek scan => exact .inr ⟨peek, Literal.scan_ends scan⟩
  | selfClosing tags tagName blank reads =>
    exact .inl ⟨tags, isSelfClosing_of_reads spans tagName blank reads hc⟩
  | @choice _ _ choice => cases choice <;> cases he
  | pound | argument | number | date | time | tag => cases he

theorem Written.mayMeet (spans : options.captureSpans = true) {e f : Element} {g : Cursor}
    (he : Written options depth frame (.element e) c d)
    (hf : Written options depth frame (.element f) d g) (hc : c.In source) :
    e.MayMeet options source f := by
  intro hliteral hliteral'
  rcases he.literal_cases spans hc hliteral with ⟨tags, hself⟩ | ⟨-, hends⟩
  · exact ⟨tags, .inl hself⟩
  rcases hf.literal_cases spans (hc.reaches he.reaches) hliteral' with ⟨tags, hself⟩ | ⟨hbegins, -⟩
  · exact ⟨tags, .inr hself⟩
  · exact absurd hbegins hends

/-- The lists of elements in a phrase. -/
def Phrase.bodies : Phrase → List (List Element)
  | .message es => es :: Element.bodiesList es
  | .element e => e.bodies
  | .branches _ list => Branch.bodiesList list

theorem isChain_of_written (spans : options.captureSpans = true) {x : Phrase}
    (h : Written options depth frame x c d) (hc : c.In source) :
    ∀ es ∈ x.bodies, es.IsChain (Element.MayMeet options source) := by
  induction h with
  | nil | noBranch =>
    simp [Phrase.bodies, Element.bodiesList, Branch.bodiesList]
  | literal | selfClosing | pound | argument | number | date | time =>
    simp [Phrase.bodies, Element.bodies]
  | @cons depth frame e es c d f head tail ihhead ihtail =>
    have ihtail := ihtail (hc.reaches head.reaches)
    simp only [Phrase.bodies, List.forall_mem_cons] at ihtail
    have hchain : (e :: es).IsChain (Element.MayMeet options source) := by
      cases tail with
      | nil => exact .singleton e
      | cons next _ => exact .cons_cons (head.mayMeet spans next hc) ihtail.1
    simp only [Phrase.bodies, Element.bodiesList, List.forall_mem_cons, List.forall_mem_append]
    exact ⟨hchain, ihhead hc, ihtail.2⟩
  | @choice _ _ choice _ _ _ _ _ _ _ _ _ head comma offset _ _ _ _ _ ih =>
    have hfirst := head.reaches.trans (comma.reaches.trans offset.reaches)
    have ih := ih (hc.reaches hfirst)
    cases choice <;> simpa only [Phrase.bodies, Choice.element, Element.bodies] using ih
  | tag _ opening _ _ ih =>
    have ih := ih (hc.reaches opening.reaches)
    simpa only [Phrase.bodies, Element.bodies] using ih
  | branch _ _ head brace body close _ gap _ ihbody ihtail =>
    have hbody := hc.reaches (head.reaches.trans brace.reaches)
    have htail := hbody.reaches (body.reaches.trans (close.reaches.trans gap.reaches))
    have ihbody := ihbody hbody
    have ihtail := ihtail htail
    simp only [Phrase.bodies, List.forall_mem_cons] at ihbody ihtail
    simp only [Phrase.bodies, Branch.bodiesList, List.forall_mem_cons, List.forall_mem_append]
    exact ⟨ihbody.1, ihbody.2, ihtail⟩

/-! ## Results -/

/-- Tokens and runs agree about where text is: a run is read, and is not empty, exactly where text
is seen, where none is seen nothing is read, and none is seen behind a run.  Hence in every message
that is read, at any depth, two literals side by side include a self-closing tag.  Which literals
are tags is told by their spans, and if these are not kept, by those of the same message with
spans. -/
theorem scan_agrees_peek (options : Options) :
    (∀ (context : TextContext) (c : Cursor),
      (Token.peek context c.rest = .text ↔ (Literal.scan context c).1 ≠ [] ∧
        ∃ ch read, c.Reads (ch :: read) (Literal.scan context c).2) ∧
      (Token.peek context c.rest ≠ .text → Literal.scan context c = ([], c)) ∧
      Token.peek context (Literal.scan context c).2.rest ≠ .text) ∧
    ∀ (text : String) (m : Message), parse options text = .ok m →
      ∃ spanned, parse { options with captureSpans := true } text = .ok spanned ∧
        m.elements = Element.relabelList (.spans options.captureSpans) spanned.elements ∧
        ∀ es ∈ spanned.bodies, es.IsChain (Element.MayMeet options text) := by
  constructor
  · intro context c
    have hstays : Token.peek context c.rest ≠ .text → Literal.scan context c = ([], c) :=
      Literal.scanFrom_of_not_text
    refine ⟨⟨fun hpeek => Literal.scan_of_peek rfl hpeek, ?_⟩, hstays, Literal.scan_ends rfl⟩
    rintro ⟨hne, -⟩
    by_contra hpeek
    exact hne (by rw [hstays hpeek])
  · intro text m hparse
    obtain ⟨spanned, hspanned, helements⟩ := exists_spanned_of_parse hparse
    refine ⟨spanned, hspanned, helements, ?_⟩
    obtain ⟨d, written, -⟩ := written_of_parse hspanned
    exact isChain_of_written rfl written (Cursor.in_ofString text)

/-- Three literals side by side inside a tag, the second of which is a self-closing tag. -/
theorem scan_agrees_peek_nested : ∃ m, parse {} "a<b>x<br />y</b>" = .ok m ∧
    m.bodies.map (·.map Element.isLiteral) = [[true, false], [true, true, true]] ∧
    ∀ es ∈ m.bodies, es.IsChain (Element.MayMeet {} "a<b>x<br />y</b>") := by
  obtain ⟨m, hparse, hliterals⟩ := exists_parse_of_map
    (show (parse {} "a<b>x<br />y</b>").toOption.map
        (fun m => m.bodies.map (·.map Element.isLiteral)) =
      some [[true, false], [true, true, true]] by decide +kernel)
  obtain ⟨spanned, hspanned, -, hchain⟩ := (scan_agrees_peek {}).2 _ m hparse
  obtain rfl : m = spanned := Except.ok.inj (hparse.symm.trans hspanned)
  exact ⟨m, hparse, hliterals, hchain⟩

end MessageFormat
