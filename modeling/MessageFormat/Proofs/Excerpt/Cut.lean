import MessageFormat.Proofs.Excerpt.Window

/-!
# Cutting a message between its elements

The elements of a message do not depend on what is around them.  If a text is read as a message, it
can be cut at the start of any of its elements, and both parts are read as messages: the first has
the elements before the cut, with the spans they have, and the second has the others, with their
spans counted from the cut (`parse_cut`).  The text of a single element is read as that element.

A cut hides what comes after it, and what is in front of it might be read in another way then: a
quote or a left angle bracket means something else at the end of a text.  `Written.window` says that
this does not happen.  With it, what is left to show is that the elements of a message form a `Row`,
which can be split anywhere, and that a row alone in a window is a message.
-/

namespace MessageFormat

/-- The phrase with all leaves changed. -/
def Phrase.relabel (r : Relabelling) : Phrase → Phrase
  | .message es => .message (Element.relabelList r es)
  | .element e => .element (e.relabel r)
  | .branches choice list => .branches choice (Branch.relabelList r list)

variable {w : Window} {options : Options} {depth : Nat} {frame : Frame} {x : Phrase}
  {c d : Cursor}

/-! ## What is written in a window -/

/-- The span of a construct moves with its ends. -/
theorem moved_kept :
    (Relabelling.moved w.place).span (kept options c d) =
      kept options (w.cursor c) (w.cursor d) := by
  rw [kept, kept]
  split <;> rfl

/-- The window sees the token that an element begins with. -/
theorem Written.sees {e : Element} (h : Written options depth frame (.element e) c d)
    (hc : w.origin.Reaches c) (hd : w.hidden ≤ d.rest.length) :
    w.Sees (frame.context options) c := by
  cases h with
  | literal peek _ => exact Window.sees_of_text peek
  | selfClosing _ tagName _ reads =>
    obtain ⟨ch, tail, rfl, -⟩ := tagName.exists_cons
    exact Window.sees_of_angle hc reads hd
  | pound _ reads => exact Window.sees_of_current reads.current?_eq (by decide)
  | argument head _ => exact Window.sees_of_current head.opens (by decide)
  | number head _ _ _ => exact Window.sees_of_current head.opens (by decide)
  | date head _ _ _ => exact Window.sees_of_current head.opens (by decide)
  | time head _ _ _ => exact Window.sees_of_current head.opens (by decide)
  | choice head _ _ _ _ _ _ _ => exact Window.sees_of_current head.opens (by decide)
  | tag _ opening children closing =>
    obtain ⟨blanks, tagName, -, reads⟩ := opening
    obtain ⟨ch, tail, rfl, -⟩ := tagName.exists_cons
    have hinside := (children.reaches.trans closing.reaches).length_le
    exact Window.sees_of_angle hc reads (Nat.le_trans hd hinside)

/-- A message ends in the window where it ends in the text. -/
theorem Window.Sees.stops (sees : w.Sees (frame.context options) c)
    (h : frame.Stops options c.rest) : frame.Stops options (w.cursor c).rest := by
  rcases sees with hnil | hsame
  · have hnil : (w.cursor c).rest = [] := hnil
    rw [Frame.Stops, hnil]
    trivial
  · have hsame : Token.peek (frame.context options) (w.cursor c).rest =
      Token.peek (frame.context options) c.rest := hsame
    rw [Frame.Stops, hsame]
    exact h

/-- The window sees what comes next in front of a message if it does so behind it. -/
theorem Written.sees_message {es : List Element}
    (h : Written options depth frame (.message es) c d) (hc : w.origin.Reaches c)
    (hd : w.hidden ≤ d.rest.length) (sees : w.Sees (frame.context options) d) :
    w.Sees (frame.context options) c := by
  cases h with
  | nil _ => exact sees
  | cons head tail => exact head.sees hc (Nat.le_trans hd tail.reaches.length_le)

/-- A number, date or time argument in a window. -/
theorem styled_window {name word : List Char} {text : Option (List Char × Span)} {c₁ m : Cursor}
    (head : TypeWritten c name word c₁) (written : StyleWritten c₁ m text)
    (close : m.Reads ['}'] d) (hc : w.origin.Reaches c) (hd : w.hidden ≤ d.rest.length) :
    TypeWritten (w.cursor c) name word (w.cursor c₁) ∧
      StyleWritten (w.cursor c₁) (w.cursor m)
        (text.map fun read => (read.1, read.2.map w.place)) ∧
      (w.cursor m).Reads ['}'] (w.cursor d) := by
  have hc₁ := hc.trans head.reaches
  have hc₁' := Nat.le_trans hd (written.reaches.trans close.reaches).length_le
  exact ⟨head.window hc hc₁', written.window hc₁ close hd,
    w.reads (hc₁.trans written.reaches) close hd⟩

/-- What is written inside a window is written in the same way in the stretch it shows, if the
window sees what comes next. -/
theorem Written.window (h : Written options depth frame x c d) (hc : w.origin.Reaches c)
    (hd : w.hidden ≤ d.rest.length) (sees : w.Sees (frame.context options) d) :
    Written options depth frame (x.relabel (.moved w.place)) (w.cursor c) (w.cursor d) := by
  -- A phrase inside another is followed by a brace or a tag of the outer one, or by an element.
  induction h with
  | nil stops =>
    simp only [Phrase.relabel, Element.relabelList]
    exact .nil (sees.stops stops)
  | cons head tail ihhead ihtail =>
    have hm := hc.trans head.reaches
    have hm' := Nat.le_trans hd tail.reaches.length_le
    simp only [Phrase.relabel, Element.relabelList]
    exact .cons (ihhead hc hm' (tail.sees_message hm hd sees)) (ihtail hm hd sees)
  | literal peek scan =>
    obtain ⟨-, ch, read, reads⟩ := Literal.scan_of_peek scan peek
    have hshown := (w.reads hc reads hd).1
    rcases Window.sees_of_text (w := w) peek with hnil | hsame
    · have hnil : _ = [] := hshown.symm.trans hnil
      simp at hnil
    · simp only [Phrase.relabel, Element.relabel, moved_kept]
      exact .literal (hsame.trans peek) (w.scan_literal hc hd sees scan)
  | selfClosing tags tagName blank reads =>
    simp only [Phrase.relabel, Element.relabel, moved_kept]
    exact .selfClosing tags tagName blank (w.reads hc reads hd)
  | pound plural reads =>
    simp only [Phrase.relabel, Element.relabel, moved_kept]
    exact .pound plural (w.reads hc reads hd)
  | argument head close =>
    have hm' := Nat.le_trans hd close.reaches.length_le
    simp only [Phrase.relabel, Element.relabel, moved_kept]
    exact .argument (head.window hc hm') (w.reads (hc.trans head.reaches) close hd)
  | number head written close value =>
    obtain ⟨head', written', close'⟩ := styled_window head written close hc hd
    simp only [Phrase.relabel, Element.relabel, moved_kept]
    exact .number head' written' close' (styleOf_map (numberPatternOf_map _) value)
  | date head written close value =>
    obtain ⟨head', written', close'⟩ := styled_window head written close hc hd
    simp only [Phrase.relabel, Element.relabel, moved_kept]
    exact .date head' written' close' (styleOf_map (dateTimePatternOf_map _) value)
  | time head written close value =>
    obtain ⟨head', written', close'⟩ := styled_window head written close hc hd
    simp only [Phrase.relabel, Element.relabel, moved_kept]
    exact .time head' written' close' (styleOf_map (dateTimePatternOf_map _) value)
  | @choice _ _ _ _ _ list _ _ _ _ _ _ head comma offset branches nonempty distinct other close
      ih =>
    have hc₁ := hc.trans head.reaches
    have hc₂ := hc₁.trans comma.reaches
    have hc₃ := hc₂.trans offset.reaches
    have hm := hc₃.trans branches.reaches
    have hm' := Nat.le_trans hd close.reaches.length_le
    have hc₃' := Nat.le_trans hm' branches.reaches.length_le
    have hc₂' := Nat.le_trans hc₃' offset.reaches.length_le
    have hc₁' := Nat.le_trans hc₂' comma.reaches.length_le
    obtain ⟨t, ht⟩ := branches.reaches
    rw [Phrase.relabel, Choice.relabel_element, moved_kept]
    refine .choice (head.window hc hc₁') (comma.window hc₁ hc₂')
      (offset.window hc₂ (ht.append close) hd)
      (ih hc₃ hm' (Window.sees_of_current close.current?_eq (by decide))) ?_ ?_ ?_
      (w.reads hm close hd)
    · intro hnil
      have hempty := Branch.isEmpty_relabelList (r := .moved w.place) list
      rw [hnil] at hempty
      exact nonempty (List.isEmpty_iff.1 hempty.symm)
    · rw [Branch.map_selector_relabelList]
      exact distinct
    · intro required
      rw [← List.mem_map, Branch.map_selector_relabelList, List.mem_map]
      exact other required
  | tag tags opening children closing ih =>
    have hm' := Nat.le_trans hd closing.reaches.length_le
    have hc₁ := hc.trans opening.reaches
    have hm := hc₁.trans children.reaches
    have hc₁' := Nat.le_trans hm' children.reaches.length_le
    have ⟨_, _, reads⟩ := closing
    simp only [Phrase.relabel, Element.relabel, moved_kept]
    exact .tag tags (opening.window hc hc₁') (ih hc₁ hm' (Window.sees_of_angle hm reads hd))
      (closing.window hm hd)
  | noBranch =>
    simp only [Phrase.relabel, Branch.relabelList]
    exact .noBranch
  | branch selects blank₁ head brace body close blank₂ gap tail ihbody ihtail =>
    have hc₁ := hc.trans head.reaches
    have hc₂ := hc₁.trans brace.reaches
    have hm := hc₂.trans body.reaches
    have he := hm.trans close.reaches
    have hc₃' := Nat.le_trans hd tail.reaches.length_le
    have he' := Nat.le_trans hc₃' gap.reaches.length_le
    have hm' := Nat.le_trans he' close.reaches.length_le
    have hc₂' := Nat.le_trans hm' body.reaches.length_le
    have hc₁' := Nat.le_trans hc₂' brace.reaches.length_le
    simp only [Phrase.relabel, Branch.relabelList, moved_kept]
    exact .branch selects blank₁ (w.reads hc head hc₁') (w.reads hc₁ brace hc₂')
      (ihbody hc₂ hm' (Window.sees_of_current close.current?_eq (by decide)))
      (w.reads hm close he') blank₂ (w.reads he gap hc₃') (ihtail (he.trans gap.reaches) hd sees)

/-! ## Rows of elements -/

/-- The elements are written one after the other, whatever comes next. -/
def Row (options : Options) (depth : Nat) (frame : Frame) :
    List Element → Cursor → Cursor → Prop
  | [], c, d => c = d
  | e :: es, c, d =>
    ∃ m, Written options depth frame (.element e) c m ∧ Row options depth frame es m d

theorem Written.row {es : List Element} (h : Written options depth frame (.message es) c d) :
    Row options depth frame es c d := by
  induction es generalizing c with
  | nil =>
    cases h
    rfl
  | cons e es ih =>
    cases h with
    | cons head tail => exact ⟨_, head, ih tail⟩

namespace Row

variable {es es' : List Element}

theorem reaches (h : Row options depth frame es c d) : c.Reaches d := by
  induction es generalizing c with
  | nil =>
    obtain rfl : c = d := h
    exact .refl c
  | cons e es ih =>
    obtain ⟨m, head, tail⟩ := h
    exact head.reaches.trans (ih tail)

theorem split (h : Row options depth frame (es ++ es') c d) :
    ∃ m, Row options depth frame es c m ∧ Row options depth frame es' m d := by
  induction es generalizing c with
  | nil => exact ⟨c, rfl, h⟩
  | cons e es ih =>
    obtain ⟨m, head, tail⟩ := h
    obtain ⟨f, hes, hes'⟩ := ih tail
    exact ⟨f, ⟨m, head, hes⟩, hes'⟩

/-- A row at the end of a window is a message there. -/
theorem window (h : Row options depth frame es c d) (hc : w.origin.Reaches c)
    (hd : w.hidden = d.rest.length) :
    Written options depth frame (.message (Element.relabelList (.moved w.place) es))
      (w.cursor c) (w.cursor d) := by
  have hnil : w.shown d.rest = [] := by simp [Window.shown, hd]
  induction es generalizing c with
  | nil =>
    obtain rfl : c = d := h
    have hstops : frame.Stops options (w.cursor c).rest := by
      rw [Frame.Stops, Window.cursor, hnil]
      trivial
    simp only [Element.relabelList]
    exact .nil hstops
  | cons e es ih =>
    obtain ⟨m, head, tail⟩ := h
    have hm := hc.trans head.reaches
    have hm' : w.hidden ≤ m.rest.length := hd ▸ tail.reaches.length_le
    -- Behind the element there is another one, or nothing at all.
    have hsees : w.Sees (frame.context options) m := by
      cases es with
      | nil =>
        obtain rfl : m = d := tail
        exact .inl hnil
      | cons e' es =>
        obtain ⟨f, next, rest⟩ := tail
        exact next.sees hm (hd ▸ rest.reaches.length_le)
    simp only [Element.relabelList]
    exact .cons (head.window hc hm' hsees) (ih tail hm)

/-- The text of a row, on its own, is read as a message. -/
theorem parse_window {text : List Char}
    (h : Row options options.maxNestingDepth {} es w.origin d) (reads : w.origin.Reads text d)
    (hstart : w.place w.origin.position = .start) (hd : w.hidden = d.rest.length) :
    parse options (String.ofList text) =
      .ok ⟨Element.relabelList (.moved w.place) es, ⟨.start, w.place d.position⟩⟩ := by
  have horigin : w.cursor w.origin = .ofString (String.ofList text) := by
    rw [Window.cursor, Cursor.ofString, hstart, String.toList_ofList, reads.1,
      Window.shown_append (Nat.le_of_eq hd)]
    simp [Window.shown, hd]
  have hwritten := h.window (.refl _) hd
  rw [horigin] at hwritten
  exact parse_of_written hwritten

/-- A row that the whole text begins with keeps its spans. -/
theorem parse_before {text : String} {before : List Char}
    (h : Row options options.maxNestingDepth {} es (.ofString text) d)
    (reads : (Cursor.ofString text).Reads before d) :
    parse options (String.ofList before) = .ok ⟨es, ⟨.start, d.position⟩⟩ := by
  have hparse := parse_window (w := .between (.ofString text) d) h reads rfl rfl
  simp only [Window.between, Relabelling.moved_id, Element.relabelList_id] at hparse
  exact hparse

/-- A row inside a text has its spans counted from its start. -/
theorem parse_inside {text : List Char} (h : Row options options.maxNestingDepth {} es c d)
    (reads : c.Reads text d) :
    parse options (String.ofList text) =
      .ok ⟨Element.relabelList (.moved (c.position.since text)) es,
        ⟨.start, c.position.since text d.position⟩⟩ := by
  have hparse := parse_window (w := .since c d) h reads
    (c.position.since_advanceAll List.nil_prefix) rfl
  have htext : c.rest.take (c.rest.length - d.rest.length) = text := by simp [reads.1]
  simp only [Window.since, htext] at hparse
  exact hparse

end Row

/-! ## Cuts -/

theorem Written.span_eq {e : Element} (h : Written options depth frame (.element e) c d) :
    e.span = kept options c d := by
  cases h with
  | @choice _ _ choice => cases choice <;> rfl
  | _ => rfl

/-- Where the element with the given number starts, or the end of the message if there is none. -/
def Message.boundary (m : Message) (i : Nat) : Position :=
  ((m.elements[i]?.bind Element.span).map Span.start).getD m.span.stop

/-- The cursor behind the first `i` elements of a message stands at the boundary. -/
theorem boundary_eq {m : Message} {i : Nat} (spans : options.captureSpans = true)
    (h : Row options depth frame (m.elements.drop i) c d) (hstop : m.span.stop = d.position) :
    m.boundary i = c.position := by
  rw [Message.boundary]
  cases hdrop : m.elements.drop i with
  | nil =>
    rw [hdrop] at h
    obtain rfl : c = d := h
    rw [List.getElem?_eq_none (List.drop_eq_nil_iff.1 hdrop)]
    exact hstop
  | cons e es =>
    rw [hdrop] at h
    obtain ⟨f, head, -⟩ := h
    have hhead : m.elements[i]? = some e := by
      rw [← List.head?_drop, hdrop]
      rfl
    rw [hhead, Option.bind_some, head.span_eq, kept, if_pos spans]
    rfl

/-- The elements before the one with a given number and those from it on are two rows, which meet at
the boundary. -/
theorem exists_rows {text : String} {m : Message} (spans : options.captureSpans = true)
    (h : parse options text = .ok m) (i : Nat) :
    ∃ c d, Row options options.maxNestingDepth {} (m.elements.take i) (.ofString text) c ∧
      Row options options.maxNestingDepth {} (m.elements.drop i) c d ∧ d.rest = [] ∧
      m.boundary i = c.position ∧ m.span.stop = d.position := by
  obtain ⟨d, written, hspan⟩ := written_of_parse h
  have hstop : m.span.stop = d.position := by rw [hspan]
  have hrow := written.row
  rw [← List.take_append_drop i m.elements] at hrow
  obtain ⟨c, hbefore, hafter⟩ := hrow.split
  exact ⟨c, d, hbefore, hafter, written.rest_eq_nil, boundary_eq spans hafter hstop, hstop⟩

/-- The text of a single element is read as that element. -/
theorem Written.parse_alone {text : String} {e : Element} (spans : options.captureSpans = true)
    (h : Written options options.maxNestingDepth {} (.element e) c d) (hc : c.In text) :
    ∃ (span : Span) (alone : String), e.span = some span ∧ span.slice? text = some alone ∧
      parse options alone = .ok
        ⟨[e.relabel (.moved (span.start.since alone.toList))],
          ⟨.start, span.start.since alone.toList span.stop⟩⟩ := by
  obtain ⟨alone, reads⟩ := h.reaches
  have hspan := h.span_eq
  rw [kept, if_pos spans] at hspan
  have hrow : Row options options.maxNestingDepth {} [e] c d := ⟨d, h, rfl⟩
  have hparse := hrow.parse_inside reads
  simp only [Element.relabelList] at hparse
  refine ⟨_, String.ofList alone, hspan, ?_, ?_⟩
  · rw [slice?_eq_some_iff, String.toList_ofList]
    exact hc.stands reads
  · rw [String.toList_ofList]
    exact hparse

/-- If spans are kept, a text that is read can be cut at the start of any top-level element.  The
part before the cut is read as the elements before it, and the part after it as the others with
their spans counted from the cut.  The text of one element is read as that element. -/
theorem parse_cut {text : String} {m : Message} (spans : options.captureSpans = true)
    (h : parse options text = .ok m) (i : Nat) :
    (m.boundary m.elements.length).offset = text.utf8ByteSize ∧
    (∃ before after : String, text = before ++ after ∧
      before.utf8ByteSize = (m.boundary i).offset ∧
      parse options before = .ok ⟨m.elements.take i, ⟨.start, m.boundary i⟩⟩ ∧
      parse options after = .ok
        ⟨Element.relabelList (.moved ((m.boundary i).since after.toList)) (m.elements.drop i),
          ⟨.start, (m.boundary i).since after.toList m.span.stop⟩⟩) ∧
    ∀ e, m.elements[i]? = some e → ∃ (span : Span) (alone : String), e.span = some span ∧
      span.slice? text = some alone ∧
      parse options alone = .ok
        ⟨[e.relabel (.moved (span.start.since alone.toList))],
          ⟨.start, span.start.since alone.toList span.stop⟩⟩ := by
  obtain ⟨c, d, hbefore, hafter, hnil, hboundary, hstop⟩ := exists_rows spans h i
  have hc := (Cursor.in_ofString text).reaches hbefore.reaches
  refine ⟨?_, ?_, ?_⟩
  · have hend : m.boundary m.elements.length = d.position := by simp [Message.boundary, hstop]
    rw [hend]
    exact (hc.reaches hafter.reaches).offset_eq hnil
  · obtain ⟨before, hreads⟩ := hbefore.reaches
    obtain ⟨after, hreads'⟩ := hafter.reaches
    refine ⟨String.ofList before, String.ofList after, ?_, ?_, ?_, ?_⟩
    · have htext : text.toList = before ++ after := by
        have hrest : text.toList = before ++ c.rest := hreads.1
        rw [hrest, hreads'.1, hnil, List.append_nil]
      rw [← String.ofList_append, ← htext, String.ofList_toList]
    · have hposition : c.position = Position.start.advanceAll before := hreads.2
      rw [hboundary, hposition, Position.advanceAll_start]
      rfl
    · rw [hboundary]
      exact hbefore.parse_before hreads
    · rw [hboundary, hstop, String.toList_ofList]
      exact hafter.parse_inside hreads'
  · intro e he
    obtain ⟨hi, rfl⟩ := List.getElem?_eq_some_iff.1 he
    rw [List.drop_eq_getElem_cons hi] at hafter
    obtain ⟨f, head, -⟩ := hafter
    exact head.parse_alone spans hc

/-- A cut behind a left angle bracket, which could begin a tag, and in front of an argument. -/
theorem parse_cut_lookahead :
    ∃ m e span, parse {} "it's <{n, plural, other {<b>#</b>}}<br/>" = .ok m ∧
      m.elements.length = 3 ∧ m.elements[1]? = some e ∧ e.span = some span ∧
      parse {} "it's <" = .ok ⟨m.elements.take 1, ⟨.start, m.boundary 1⟩⟩ ∧
      parse {} "{n, plural, other {<b>#</b>}}<br/>" = .ok
        ⟨Element.relabelList
            (.moved ((m.boundary 1).since "{n, plural, other {<b>#</b>}}<br/>".toList))
            (m.elements.drop 1),
          ⟨.start, (m.boundary 1).since "{n, plural, other {<b>#</b>}}<br/>".toList m.span.stop⟩⟩ ∧
      parse {} "{n, plural, other {<b>#</b>}}" = .ok
        ⟨[e.relabel (.moved (span.start.since "{n, plural, other {<b>#</b>}}".toList))],
          ⟨.start, span.start.since "{n, plural, other {<b>#</b>}}".toList span.stop⟩⟩ := by
  obtain ⟨m, hparse, hlength⟩ := exists_parse_eq_ok {}
    "it's <{n, plural, other {<b>#</b>}}<br/>" 3 (by decide +kernel)
  have hplaces : (parse {} "it's <{n, plural, other {<b>#</b>}}<br/>").toOption.map
      (fun m => ((m.boundary 1).offset, (m.elements[1]?.bind Element.span).bind
        (Span.slice? · "it's <{n, plural, other {<b>#</b>}}<br/>"))) =
      some (6, some "{n, plural, other {<b>#</b>}}") := by decide +kernel
  rw [hparse] at hplaces
  obtain ⟨hoffset, hslice⟩ := Prod.mk.inj (Option.some.inj hplaces)
  have hcut : cutAtByte 6 "it's <{n, plural, other {<b>#</b>}}<br/>".toList =
      some ("it's <".toList, "{n, plural, other {<b>#</b>}}<br/>".toList) := by
    decide +kernel
  obtain ⟨-, ⟨before, after, htext, hsize, hbefore, hafter⟩, hsingle⟩ := parse_cut rfl hparse 1
  have helement : m.elements[1]? = some m.elements[1] := List.getElem?_eq_getElem (by omega)
  obtain ⟨span, alone, hspan, hcovers, halone⟩ := hsingle _ helement
  rw [htext, String.toList_append, ← hoffset, ← hsize, ← byteSize_toList, cutAtByte_append,
    Option.some.injEq, Prod.mk.injEq, String.toList_inj, String.toList_inj] at hcut
  rw [helement, Option.bind_some, hspan, Option.bind_some, hcovers, Option.some.injEq] at hslice
  rw [hcut.1] at hbefore
  rw [hcut.2] at hafter
  rw [hslice] at halone
  exact ⟨m, _, span, hparse, hlength, helement, hspan, hbefore, hafter, halone⟩

end MessageFormat
