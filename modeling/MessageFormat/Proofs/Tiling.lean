import MessageFormat.Proofs.Grammar.Soundness
import MessageFormat.Proofs.Source

/-!
# The spans of a message tile its source

If spans are kept, the tree of a message says where every part of its source went.  The spans of
the elements of a message lie side by side, without a gap and without an overlap, from the first
byte to the last (`Element.Tile`).  The same holds inside a tag, between its two ends, and inside
each branch of a plural or select argument, between its braces.  What lies between the branches of
such an argument, before the first and after the last is accounted for as well
(`Branch.Lie`, `IsChoiceHead`).

The predicates mention the tree and the source only.  They are read off the grammar: wherever
`Written` has two cursors, the two offsets bound the text in between.
-/

namespace MessageFormat

/-- The span goes from one byte offset to another. -/
def SpanAt (span : Option Span) (a b : Nat) : Prop :=
  ∃ s, span = some s ∧ s.start.offset = a ∧ s.stop.offset = b

/-- The text of a plural or select argument before its first selector: the brace, the name, the
type word, and the offset if it is written. -/
def IsChoiceHead (choice : Choice) (name : List Char) (n : Nat) (text : List Char) : Prop :=
  ∃ b₁ b₂ b₃ b₄ b₅ clause,
    text = '{' :: b₁ ++ name ++ b₂ ++ ',' :: b₃ ++ choice.word ++ b₄ ++ ',' :: b₅ ++ clause ∧
    (∀ blanks ∈ [b₁, b₂, b₃, b₄, b₅], IsBlank blanks) ∧
    (clause = [] ∧ n = 0 ∨ choice.isPlural = true ∧
      ∃ offset blanks, clause = offset ++ blanks ∧ IsOffset offset n ∧ IsBlank blanks)

/-- The text between two branches: the selector of the second with blanks around it. -/
def IsSelectorGap (selector text : List Char) : Prop :=
  ∃ before after, IsBlank before ∧ IsBlank after ∧ text = before ++ selector ++ after

/-- A plural or select argument from `a` to `b`, given where its branches lie. -/
def ChoiceLies (source : String) (choice : Choice) (name : String) (n : Nat)
    (branches : Nat → Nat → Prop) (a b : Nat) : Prop :=
  ∃ c d head, a < c ∧ c ≤ d ∧ d + 1 = b ∧ Stands source a c head ∧
    IsChoiceHead choice name.toList n head ∧ branches c d ∧ Stands source d b ['}']

mutual

/-- The element lies between two byte offsets of the source, and what it contains lies inside. -/
def Element.Lies (source : String) : Element → Nat → Nat → Prop
  | .literal _ span, a, b => SpanAt span a b
  | .argument _ span, a, b => SpanAt span a b
  | .number _ _ span, a, b => SpanAt span a b
  | .date _ _ span, a, b => SpanAt span a b
  | .time _ _ span, a, b => SpanAt span a b
  | .pound span, a, b => SpanAt span a b
  | .select name branches span, a, b =>
    SpanAt span a b ∧ ChoiceLies source .select name 0 (Branch.Lie source branches) a b
  | .plural name kind n branches span, a, b =>
    SpanAt span a b ∧ ChoiceLies source (.plural kind) name n (Branch.Lie source branches) a b
  | .tag name children span, a, b =>
    SpanAt span a b ∧ ∃ c d, c ≤ d ∧
      (∃ blanks, IsBlank blanks ∧ Stands source a c ('<' :: name.toList ++ blanks ++ ['>'])) ∧
      Element.Tile source children c d ∧
      (∃ blanks, IsBlank blanks ∧ Stands source d b ('<' :: '/' :: name.toList ++ blanks ++ ['>']))

/-- The elements lie side by side from one byte offset to another, and none of them is empty. -/
def Element.Tile (source : String) : List Element → Nat → Nat → Prop
  | [], a, b => a = b
  | e :: es, a, b => ∃ c, a < c ∧ e.Lies source a c ∧ Element.Tile source es c b

/-- The branches lie one after the other between two byte offsets.  Before each of them there is
its selector, and after the last there are only blanks. -/
def Branch.Lie (source : String) : List Branch → Nat → Nat → Prop
  | [], a, b => ∃ blanks, IsBlank blanks ∧ Stands source a b blanks
  | .mk selector body span :: branches, a, b =>
    ∃ p q gap, a ≤ p ∧ p < q ∧ q ≤ b ∧ SpanAt span p q ∧
      Stands source a p gap ∧ IsSelectorGap selector.toList gap ∧
      (∃ c d, Stands source p c ['{'] ∧ Element.Tile source body c d ∧ Stands source d q ['}']) ∧
      Branch.Lie source branches q b

end

/-! ## Intervals -/

theorem Element.Tile.le {source : String} {es : List Element} {a b : Nat}
    (h : Element.Tile source es a b) : a ≤ b := by
  induction es generalizing a with
  | nil =>
    rw [Element.Tile] at h
    omega
  | cons e es ih =>
    rw [Element.Tile] at h
    obtain ⟨c, hlt, -, htail⟩ := h
    have := ih htail
    omega

/-- Only no elements tile an empty interval, and only some tile one that is not. -/
theorem Element.Tile.eq_nil_iff {source : String} {es : List Element} {a b : Nat}
    (h : Element.Tile source es a b) : es = [] ↔ a = b := by
  cases es with
  | nil =>
    rw [Element.Tile] at h
    simp [h]
  | cons e es =>
    rw [Element.Tile] at h
    obtain ⟨c, hlt, -, htail⟩ := h
    have := htail.le
    constructor
    · intro hnil
      cases hnil
    · omega

theorem Branch.Lie.le {source : String} {list : List Branch} {a b : Nat}
    (h : Branch.Lie source list a b) : a ≤ b := by
  cases list with
  | nil =>
    rw [Branch.Lie] at h
    obtain ⟨blanks, -, hstands⟩ := h
    exact hstands.le
  | cons branch list =>
    obtain ⟨selector, body, span⟩ := branch
    rw [Branch.Lie] at h
    obtain ⟨p, q, gap, hap, hpq, hqb, -⟩ := h
    omega

/-- A brace takes one byte. -/
theorem Stands.brace {source : String} {a b : Nat} (h : Stands source a b ['}']) : a + 1 = b := by
  obtain ⟨before, after, -, rfl, rfl⟩ := h
  rw [byteSize_append]
  rfl

/-! ## From the grammar -/

variable {options : Options} {source : String} {c d : Cursor}

theorem spanAt_kept (spans : options.captureSpans = true) :
    SpanAt (kept options c d) c.position.offset d.position.offset := by
  rw [kept, if_pos spans]
  exact ⟨_, rfl, rfl, rfl⟩

/-- Reading on from a cursor of the source, and getting somewhere, makes the offset larger. -/
theorem Cursor.In.offset_lt (h : c.In source) (reaches : c.Reaches d)
    (shorter : d.rest.length < c.rest.length) : c.position.offset < d.position.offset := by
  obtain ⟨text, reads⟩ := reaches
  obtain ⟨before, after, -, hc, hd⟩ := h.stands reads
  cases text with
  | nil =>
    obtain rfl := reads.eq_of_nil
    omega
  | cons ch text =>
    have := byteSize_cons_pos ch text
    rw [byteSize_append] at hd
    omega

/-- The parts of a plural or select argument up to its branches make its head. -/
theorem exists_choiceHead {choice : Choice} {name : List Char} {n : Nat} {c₁ c₂ c₃ : Cursor}
    (head : TypeWritten c name choice.word c₁) (comma : CommaWritten c₁ c₂)
    (offset : OffsetWritten choice c₂ n c₃) :
    ∃ text, IsChoiceHead choice name n text ∧ c.Reads text c₃ := by
  obtain ⟨m, b₃, ⟨b₁, b₂, h₁, h₂, -, hname⟩, h₃, hword⟩ := head
  obtain ⟨b₄, b₅, h₄, h₅, hcomma⟩ := comma
  have reads := (hname.append hword).append hcomma
  have hblanks : ∀ blanks ∈ [b₁, b₂, b₃, b₄, b₅], IsBlank blanks := by
    simp only [List.mem_cons, List.not_mem_nil, or_false, forall_eq_or_imp, forall_eq]
    exact ⟨h₁, h₂, h₃, h₄, h₅⟩
  cases offset with
  | absent =>
    refine ⟨_, ⟨b₁, b₂, b₃, b₄, b₅, [], rfl, hblanks, .inl ⟨rfl, rfl⟩⟩, ?_⟩
    simpa [List.append_assoc] using reads
  | present plural offset blank hoffset =>
    refine ⟨_, ⟨b₁, b₂, b₃, b₄, b₅, _, rfl, hblanks, .inr ⟨plural, _, _, rfl, offset, blank⟩⟩, ?_⟩
    simpa [List.append_assoc] using reads.append hoffset

/-- What the phrase says of the stretch of the source it is written in.  Branches may have blanks
before them. -/
def Phrase.Laid (source : String) (c d : Cursor) : Phrase → Prop
  | .message es => Element.Tile source es c.position.offset d.position.offset
  | .element e => e.Lies source c.position.offset d.position.offset
  | .branches _ list => ∀ (c₀ : Cursor) (blanks : List Char), c₀.In source → IsBlank blanks →
      c₀.Reads blanks c → Branch.Lie source list c₀.position.offset d.position.offset

theorem laid_of_written (spans : options.captureSpans = true) {depth : Nat} {frame : Frame}
    {x : Phrase} (h : Written options depth frame x c d) (hc : c.In source) :
    x.Laid source c d := by
  induction h with
  | nil => simp [Phrase.Laid, Element.Tile]
  | cons head tail ihhead ihtail =>
    have hd := hc.reaches head.reaches
    simp only [Phrase.Laid, Element.Tile]
    exact ⟨_, hc.offset_lt head.reaches head.length_lt, ihhead hc, ihtail hd⟩
  | literal | selfClosing | pound | argument | number | date | time =>
    simp only [Phrase.Laid, Element.Lies]
    exact spanAt_kept spans
  | @choice depth frame choice name n list c c₁ c₂ c₃ m d head comma offset branches _ _ _ close
      ih =>
    obtain ⟨text, isHead, reads⟩ := exists_choiceHead head comma offset
    have hc₃ := hc.reads reads
    have lie := ih hc₃ c₃ [] hc₃ isBlank_nil (.refl c₃)
    have hclose := (hc₃.reaches branches.reaches).stands close
    have lies : ChoiceLies source choice (String.ofList name) n (Branch.Lie source list)
        c.position.offset d.position.offset := by
      refine ⟨_, _, text, hc.offset_lt reads.reaches ?_, lie.le, hclose.brace, hc.stands reads,
        by simpa using isHead, lie, hclose⟩
      have := head.length_lt
      have := (comma.reaches.trans offset.reaches).length_le
      omega
    cases choice with
    | plural kind =>
      simp only [Phrase.Laid, Choice.element, Element.Lies]
      exact ⟨spanAt_kept spans, lies⟩
    | select =>
      cases offset with
      | absent =>
        simp only [Phrase.Laid, Choice.element, Element.Lies]
        exact ⟨spanAt_kept spans, lies⟩
      | present plural => cases plural
  | tag _ opening children closing ih =>
    obtain ⟨blanks₁, -, blank₁, reads₁⟩ := opening
    obtain ⟨blanks₂, blank₂, reads₂⟩ := closing
    have hc₁ := hc.reads reads₁
    have tiles := ih hc₁
    simp only [Phrase.Laid] at tiles
    simp only [Phrase.Laid, Element.Lies, String.toList_ofList]
    exact ⟨spanAt_kept spans, _, _, tiles.le, ⟨blanks₁, blank₁, hc.stands reads₁⟩, tiles,
      blanks₂, blank₂, (hc₁.reaches children.reaches).stands reads₂⟩
  | noBranch =>
    intro c₀ blanks hc₀ blank reads
    simp only [Branch.Lie]
    exact ⟨blanks, blank, hc₀.stands reads⟩
  | @branch depth frame choice selector before after es list c c₁ c₂ m d c₃ f _ blank₁ head brace
      body close blank₂ gap tail ihbody ihtail =>
    intro c₀ blanks hc₀ blank reads
    have hc₁ := hc.reads head
    have hc₂ := hc₁.reads brace
    have hm := hc₂.reaches body.reaches
    have hd := hm.reads close
    have htail := ihtail (hd.reads gap) d after hd blank₂ gap
    have hgap := hc₀.stands (reads.append head)
    have hbrace : c₁.Reaches d := brace.reaches.trans (body.reaches.trans close.reaches)
    simp only [Branch.Lie, String.toList_ofList]
    refine ⟨c₁.position.offset, d.position.offset, _, hgap.le, ?_, htail.le, spanAt_kept spans,
      hgap, ⟨blanks, before, blank, blank₁, by simp⟩, ?_, htail⟩
    · refine hc₁.offset_lt hbrace ?_
      have := brace.length_lt
      have := (body.reaches.trans close.reaches).length_le
      omega
    · exact ⟨_, _, hc₁.stands brace, ihbody hc₂, hm.stands close⟩

/-- If spans are kept, those of a message tile its source: nothing is lost and nothing is read
twice. -/
theorem parse_tiles {text : String} {m : Message} (spans : options.captureSpans = true)
    (h : parse options text = .ok m) :
    m.span.start.offset = 0 ∧ m.span.stop.offset = text.utf8ByteSize ∧
      Element.Tile text m.elements 0 text.utf8ByteSize ∧
      ∀ es a b, Element.Tile text es a b → (es = [] ↔ a = b) := by
  obtain ⟨d, written, hspan⟩ := written_of_parse h
  have hstart := Cursor.in_ofString text
  have hstop : d.position.offset = text.utf8ByteSize :=
    (hstart.reaches written.reaches).offset_eq written.rest_eq_nil
  have tiles := laid_of_written spans written hstart
  rw [hspan]
  refine ⟨rfl, hstop, ?_, fun _ _ _ => Element.Tile.eq_nil_iff⟩
  rw [← hstop]
  exact tiles

theorem parse_tiles_nested : ∃ m, parse {} "Hi {n, plural, =0 {none} other {<b>#</b>}}!" = .ok m ∧
    m.elements.length = 3 ∧
    Element.Tile "Hi {n, plural, =0 {none} other {<b>#</b>}}!" m.elements 0 43 := by
  obtain ⟨m, hparse, hlength⟩ := exists_parse_eq_ok {}
    "Hi {n, plural, =0 {none} other {<b>#</b>}}!" 3 (by decide +kernel)
  have hsize : "Hi {n, plural, =0 {none} other {<b>#</b>}}!".utf8ByteSize = 43 := by
    decide +kernel
  obtain ⟨-, -, tiles, -⟩ := parse_tiles rfl hparse
  rw [hsize] at tiles
  exact ⟨m, hparse, hlength, tiles⟩

end MessageFormat
