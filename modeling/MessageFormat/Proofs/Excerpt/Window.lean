import Mathlib.Data.List.Induction
import MessageFormat.Proofs.Comparison.Relabelling
import MessageFormat.Proofs.Grammar.Completeness
import MessageFormat.Proofs.Source

/-!
# A stretch of a text as a text of its own

A `Window` is a stretch of a text, from a cursor up to a number of characters before the end.  Seen
through it, a cursor of the text becomes one of the stretch: the characters behind the window are
gone, and positions may be counted from another origin.

Everything that is written inside a window is written in the same way in the stretch
(`Written.window`).  What comes after a phrase matters for a phrase in two ways only.  A message
ends where a certain token is seen, and so does a run of literal text.  Hence the one condition is
that the window `Sees` the token at the end of the phrase, or shows nothing there.  At all other
ends, those of the phrases inside, it does, because the next piece of the grammar is in the window
and decides what token is seen.
-/

namespace MessageFormat

/-! ## Positions seen from another one -/

namespace Position

/-- A position as it is counted in a text that begins at `origin`: lines from there on, and columns
too on the first line.  Which positions are on that line is told by their offsets, as the number of
a line may come back. -/
def since (origin : Position) (text : List Char) (p : Position) : Position :=
  ⟨p.offset - origin.offset, p.line - origin.line + 1,
    if p.offset - origin.offset ≤ byteSize (text.takeWhile (· ≠ '\n')) then
      p.column - origin.column + 1
    else p.column⟩

/-- What a text does to a position. -/
theorem advanceAll_eq (p : Position) (text : List Char) :
    p.advanceAll text =
      ⟨p.offset + byteSize text, p.line + .ofNat (text.count '\n'),
        if '\n' ∈ text then .ofNat (columnAfter text) else p.column + .ofNat text.length⟩ := by
  induction text using List.reverseRecOn with
  | nil => simp
  | append_singleton text ch ih =>
    rw [advanceAll_append, ih, advanceAll_cons, advanceAll_nil, advance]
    by_cases hch : ch = '\n'
    · simp [hch, columnAfter, UInt32.ofNat_add, UInt32.add_assoc, Nat.add_assoc]
    · by_cases hmem : '\n' ∈ text
      · simp [hch, hmem, columnAfter, UInt32.ofNat_add, UInt32.add_assoc, Nat.add_assoc]
      · simp [hch, hmem, Ne.symm hch, UInt32.ofNat_add, UInt32.add_assoc, Nat.add_assoc]

/-- A beginning of a text is on its first line exactly if it holds no line feed. -/
theorem byteSize_le_firstLine_iff {start text : List Char} (h : start <+: text) :
    byteSize start ≤ byteSize (text.takeWhile (· ≠ '\n')) ↔ '\n' ∉ start := by
  obtain ⟨rest, rfl⟩ := h
  induction start with
  | nil => simp
  | cons ch start ih =>
    by_cases hch : ch = '\n'
    · have hpos := byteSize_cons_pos ch start
      rw [List.cons_append, List.takeWhile_cons_of_neg (by simp [hch]), byteSize_nil]
      simp only [hch, List.mem_cons_self, not_true_eq_false, iff_false] at hpos ⊢
      omega
    · simpa [hch, Ne.symm hch] using ih

/-- From the origin on, positions are counted as from the start of a text. -/
theorem since_advanceAll (origin : Position) {before text : List Char} (h : before <+: text) :
    origin.since text (origin.advanceAll before) = start.advanceAll before := by
  have hoffset : origin.offset + byteSize before - origin.offset = byteSize before :=
    Nat.add_sub_cancel_left ..
  have hback : ∀ a b : UInt32, a + b - a + 1 = 1 + b := by
    intro a b
    rw [UInt32.add_comm a, UInt32.add_sub_cancel, UInt32.add_comm]
  simp only [advanceAll_eq, since, hoffset, byteSize_le_firstLine_iff h, start, Nat.zero_add, hback]
  by_cases hmem : '\n' ∈ before
  · simp only [hmem, not_true_eq_false, if_true, if_false]
  · simp only [hmem, not_false_eq_true, if_true, if_false, hback]

end Position

/-- The span with both ends moved. -/
def Span.map (f : Position → Position) (s : Span) : Span := ⟨f s.start, f s.stop⟩

/-- Moves all spans of a tree. -/
def Relabelling.moved (f : Position → Position) : Relabelling where
  span := Option.map (Span.map f)
  number p := { p with span := p.span.map (Span.map f) }
  dateTime p := { p with span := p.span.map (Span.map f) }

theorem Relabelling.moved_id : Relabelling.moved id = {} := by
  have hspan : ∀ s : Option Span, s.map (Span.map id) = s := by
    rintro (_ | s)
    · rfl
    · rfl
  have hmoved : (Option.map (Span.map id) : Option Span → Option Span) = id := funext hspan
  simp only [moved, hspan, hmoved]
  rfl

/-! ## Windows -/

/-- A stretch of a text.  It begins at `origin` and leaves out the last `hidden` characters, and
`place` tells how positions are counted in it. -/
structure Window where
  origin : Cursor
  hidden : Nat
  place : Position → Position
  place_advanceAll {text : List Char}
    (h : text <+: origin.rest.take (origin.rest.length - hidden)) :
    place (origin.position.advanceAll text) = (place origin.position).advanceAll text

namespace Window

variable {w : Window} {c d e : Cursor} {context : TextContext}

/-- The stretch between two cursors, with positions as they are. -/
def between (c d : Cursor) : Window := ⟨c, d.rest.length, id, fun _ => rfl⟩

/-- The stretch between two cursors, with positions counted from the first. -/
def since (c d : Cursor) : Window where
  origin := c
  hidden := d.rest.length
  place := c.position.since (c.rest.take (c.rest.length - d.rest.length))
  place_advanceAll h := by
    have hstart := c.position.since_advanceAll (List.nil_prefix.trans h)
    rw [Position.advanceAll_nil] at hstart
    rw [c.position.since_advanceAll h, hstart]
    rfl

/-- What a window shows of a text from some place on. -/
def shown (w : Window) (rest : List Char) : List Char := rest.take (rest.length - w.hidden)

/-- A cursor seen through a window. -/
def cursor (w : Window) (c : Cursor) : Cursor := ⟨w.shown c.rest, w.place c.position⟩

/-- Seen through the window, the token at `c` is the same, or there is nothing. -/
def Sees (w : Window) (context : TextContext) (c : Cursor) : Prop :=
  w.shown c.rest = [] ∨ Token.peek context (w.shown c.rest) = Token.peek context c.rest

/-- What is hidden comes last. -/
theorem shown_append {s t : List Char} (h : w.hidden ≤ t.length) :
    w.shown (s ++ t) = s ++ w.shown t := by
  have hlength : s.length + t.length - w.hidden - s.length = t.length - w.hidden := by omega
  rw [Window.shown, List.length_append, List.take_append, hlength,
    List.take_of_length_le (by omega)]
  rfl

theorem exists_shown (w : Window) (rest : List Char) : ∃ behind, rest = w.shown rest ++ behind :=
  ⟨_, (List.take_append_drop _ rest).symm⟩

/-- Reading inside a window. -/
theorem reads {text : List Char} (hc : w.origin.Reaches c) (h : c.Reads text d)
    (hd : w.hidden ≤ d.rest.length) : (w.cursor c).Reads text (w.cursor d) := by
  obtain ⟨before, hbefore⟩ := hc
  constructor
  · rw [cursor, cursor, h.1]
    exact shown_append hd
  · have hrest := hbefore.1
    rw [h.1, ← List.append_assoc] at hrest
    have hprefix : before ++ text <+: w.shown w.origin.rest := by
      rw [hrest, shown_append hd]
      exact List.prefix_append _ _
    have hc := w.place_advanceAll ((List.prefix_append before text).trans hprefix)
    have hd := w.place_advanceAll hprefix
    rw [Position.advanceAll_append, ← hbefore.2, ← h.2] at hd
    rw [← hbefore.2] at hc
    rw [cursor, cursor, hd, hc, Position.advanceAll_append]

/-- A window shows no character that is not there. -/
theorem current?_of_cursor {ch : Char} (h : (w.cursor c).current? = some ch) :
    c.current? = some ch := by
  obtain ⟨behind, hrest⟩ := w.exists_shown c.rest
  obtain ⟨tail, htail⟩ := List.head?_eq_some_iff.1 h
  have hshown : w.shown c.rest = ch :: tail := htail
  rw [Cursor.current?, hrest, hshown]
  rfl

theorem ends {test : Char → Bool} (h : c.Ends test) : (w.cursor c).Ends test :=
  fun ch hch => h ch (current?_of_cursor hch)

/-- A run is seen as it is if the character that ends it is in the window. -/
theorem exists_run {test : Char → Bool} {t run : List Char} {ch : Char} {f : Cursor}
    (hc : w.origin.Reaches c) (h : c.Reads (t ++ [ch]) d) (hd : w.hidden ≤ d.rest.length)
    (hch : test ch = false) (seen : (w.cursor c).Run test run f) : ∃ g, c.Run test run g := by
  have hstop : ∀ r, (t ++ [ch] ++ r).takeWhile test = t.takeWhile test := by
    intro r
    clear h
    induction t with
    | nil => simp [hch]
    | cons x t ih => by_cases hx : test x = true <;> simp_all
  obtain ⟨run', g, hrun⟩ := c.exists_run test
  have hsame : run' = run := by
    rw [hrun.eq_takeWhile, seen.eq_takeWhile, h.1, (reads hc h hd).1, hstop, hstop]
  exact ⟨g, hsame ▸ hrun⟩

/-! ## Tokens in a window -/

/-- Part of what is seen as text is seen as text. -/
theorem peek_of_append {s t : List Char} (h : Token.peek context (s ++ t) = .text)
    (hs : s ≠ []) : Token.peek context s = .text := by
  obtain ⟨ch, s, rfl⟩ := List.exists_cons_of_ne_nil hs
  cases s with
  | cons x s => exact h
  | nil =>
    -- A left angle bracket may lose what makes it text, but at the end it is text as well.
    simp only [List.cons_append, Token.peek] at h ⊢
    split at h
    · cases h
    split at h
    · cases h
    split at h
    · cases h
    simp_all [Token.afterAngle]

theorem sees_of_text (h : Token.peek context c.rest = .text) : w.Sees context c := by
  obtain ⟨behind, hrest⟩ := w.exists_shown c.rest
  by_cases hshown : w.shown c.rest = []
  · exact .inl hshown
  · right
    rw [h]
    rw [hrest] at h
    exact peek_of_append h hshown

/-- A character other than the left angle bracket makes a token on its own. -/
theorem sees_of_current {ch : Char} (h : c.current? = some ch) (hch : ch ≠ '<') :
    w.Sees context c := by
  obtain ⟨behind, hrest⟩ := w.exists_shown c.rest
  cases hshown : w.shown c.rest with
  | nil => exact .inl hshown
  | cons x tail =>
    rw [hshown, List.cons_append] at hrest
    have hx : x = ch := by
      rw [Cursor.current?, hrest] at h
      exact Option.some.inj h
    right
    rw [hshown, hrest, hx]
    simp [Token.peek, hch]

/-- The left angle bracket and the character after it make a token. -/
theorem sees_of_angle {ch : Char} {t : List Char} (hc : w.origin.Reaches c)
    (h : c.Reads ('<' :: ch :: t) d) (hd : w.hidden ≤ d.rest.length) : w.Sees context c := by
  right
  have hshown : w.shown c.rest = '<' :: ch :: t ++ w.shown d.rest := (reads hc h hd).1
  rw [hshown, h.1]
  rfl

end Window

/-! ## Literal text and styles -/

/-- If two texts are the same and the end of the one is not longer than that of the other, its
beginning goes on after the other beginning. -/
theorem exists_append_of_append_eq {s r t rest : List Char} (h : s ++ r = t ++ rest)
    (hr : r.length ≤ rest.length) : ∃ s', s = t ++ s' ∧ s' ++ r = rest := by
  rcases List.append_eq_append_iff.1 h with ⟨u, rfl, rfl⟩ | ⟨u, rfl, rfl⟩
  · have hu : u = [] := List.eq_nil_of_length_eq_zero (by rw [List.length_append] at hr; omega)
    exact ⟨[], by simp [hu], by simp [hu]⟩
  · exact ⟨u, rfl, rfl⟩

/-- A run of literal text is read alike if what comes after it is left out, wholly or up to a place
where no text is seen. -/
theorem Literal.scanFrom_of_append {context : TextContext} {quoted : Bool} {s r v : List Char}
    {p : Position} (h : (scanFrom context quoted (s ++ r) p).2.rest = v ++ r)
    (hv : Token.peek context v ≠ .text) (q : Position) :
    (scanFrom context quoted s q).1 = (scanFrom context quoted (s ++ r) p).1 ∧
      (scanFrom context quoted s q).2.rest = v := by
  -- The run ends before `r`, so that the characters of each step are in `s`.
  have inside : ∀ {quoted : Bool} {t rest : List Char} {p : Position} {s : List Char},
      s ++ r = t ++ rest → (scanFrom context quoted rest p).2.rest = v ++ r →
      ∃ s', s = t ++ s' ∧ s' ++ r = rest := by
    intro quoted t rest p s hs h
    have hle := (scanFrom_reaches context quoted rest p).length_le
    rw [h, List.length_append] at hle
    exact exists_append_of_append_eq hs (Nat.le_trans (Nat.le_add_left _ _) hle)
  generalize hrest : s ++ r = rest at h ⊢
  fun_induction scanFrom context quoted rest p generalizing s q with
  | case1 quoted p =>
    obtain ⟨rfl, rfl⟩ := List.append_eq_nil_iff.1 hrest
    obtain ⟨rfl, -⟩ := List.append_eq_nil_iff.1 h.symm
    exact ⟨rfl, rfl⟩
  | case2 rest p ih =>
    obtain ⟨s, rfl, hs⟩ := inside (t := ['\'', '\'']) hrest h
    obtain ⟨htext, hend⟩ := ih _ hs h
    exact ⟨congrArg ('\'' :: ·) htext, hend⟩
  | case3 rest p single ih =>
    obtain ⟨s, rfl, hs⟩ := inside (t := ['\'']) hrest h
    rw [List.singleton_append, scanFrom.eq_3]
    · exact ih _ hs h
    · rintro tail rfl
      exact single _ hs.symm
  | case4 ch rest p _ hch ih =>
    obtain ⟨s, rfl, hs⟩ := inside (t := [ch]) hrest h
    obtain ⟨htext, hend⟩ := ih (q.advance ch) hs h
    rw [List.singleton_append, scanFrom.eq_4 _ _ _ _ (fun _ heq => (hch heq).elim) hch]
    exact ⟨congrArg (ch :: ·) htext, hend⟩
  | case5 rest p ih =>
    obtain ⟨s, rfl, hs⟩ := inside (t := ['\'', '\'']) hrest h
    obtain ⟨htext, hend⟩ := ih _ hs h
    exact ⟨congrArg ('\'' :: ·) htext, hend⟩
  | case6 ch rest p hch quotable ih =>
    obtain ⟨s, rfl, hs⟩ := inside (t := ['\'', ch]) hrest h
    obtain ⟨htext, hend⟩ := ih ((q.advance '\'').advance ch) hs h
    rw [List.cons_append, List.singleton_append, scanFrom.eq_6 _ _ _ _ hch, if_pos quotable]
    exact ⟨congrArg (ch :: ·) htext, hend⟩
  | case7 ch rest p hch quotable ih =>
    obtain ⟨s, rfl, hs⟩ := inside (t := ['\'']) hrest h
    obtain ⟨htext, hend⟩ := ih (q.advance '\'') hs h
    have hstep : scanFrom context false ('\'' :: s) q =
        keep '\'' (scanFrom context false s (q.advance '\'')) := by
      cases s with
      | nil => simp [scanFrom, goesOn, isOrdinary]
      | cons x s =>
        obtain rfl : x = ch := (List.cons.inj hs).1
        rw [scanFrom.eq_6 _ _ _ _ hch, if_neg quotable]
    rw [List.singleton_append, hstep]
    exact ⟨congrArg ('\'' :: ·) htext, hend⟩
  | case8 ch rest p single double goes ih =>
    obtain ⟨s, rfl, rfl⟩ := inside (t := [ch]) hrest h
    obtain ⟨htext, hend⟩ := ih (q.advance ch) rfl h
    have hpeek : Token.peek context (ch :: s) = .text :=
      Window.peek_of_append (goesOn_iff.1 goes) (List.cons_ne_nil ch s)
    rw [List.singleton_append, scanFrom.eq_7, if_pos (goesOn_iff.2 hpeek)]
    · exact ⟨congrArg (ch :: ·) htext, hend⟩
    · rintro tail hch rfl
      exact single _ hch rfl
    · rintro x tail hch rfl
      exact double _ _ hch rfl
  | case9 ch rest p _ _ stops =>
    obtain rfl : s = v := List.append_cancel_right (hrest.trans h)
    rw [scanFrom_of_not_text hv]
    exact ⟨rfl, rfl⟩

/-- A style is read alike if what comes after its closing brace is left out. -/
theorem Style.scanFrom_of_append {quote quote' : Option Position} {depth : Nat}
    {s r v text : List Char} {p : Position} {d : Cursor}
    (h : scanFrom quote depth (s ++ r) p = .ok (text, d)) (hd : d.rest = '}' :: v ++ r)
    (hquote : quote'.isSome = quote.isSome) (q : Position) :
    ∃ e, scanFrom quote' depth s q = .ok (text, e) ∧ e.rest = '}' :: v := by
  induction s generalizing quote quote' depth text p q with
  | nil =>
    -- The brace would lie behind the text that is left.
    have hlength := (scanFrom_ok h).length_eq
    simp only [List.nil_append, hd, List.length_append, List.length_cons] at hlength
    omega
  | cons ch s ih =>
    have step : ∀ {quote quote' : Option Position} {depth : Nat},
        (scanFrom quote depth (s ++ r) (p.advance ch) >>= fun read =>
          (.ok (ch :: read.1, read.2) : Except Span _)) = .ok (text, d) →
        quote'.isSome = quote.isSome →
        ∃ e, (scanFrom quote' depth s (q.advance ch) >>= fun read =>
          (.ok (ch :: read.1, read.2) : Except Span _)) = .ok (text, e) ∧ e.rest = '}' :: v := by
      intro quote quote' depth h hquote
      cases hrest : scanFrom quote depth (s ++ r) (p.advance ch) with
      | error span =>
        rw [hrest] at h
        cases h
      | ok read =>
        rw [hrest] at h
        cases h
        obtain ⟨e, he, hend⟩ := ih hrest hquote (q.advance ch)
        exact ⟨e, by rw [he]; rfl, hend⟩
    cases quote with
    | some start =>
      obtain ⟨start', rfl⟩ := Option.isSome_iff_exists.1 hquote
      refine step h ?_
      split <;> rfl
    | none =>
      obtain rfl : quote' = none := Option.not_isSome_iff_eq_none.1 (by simp [hquote])
      rw [List.cons_append, scanFrom] at h
      rw [scanFrom]
      split at h
      · next stops =>
        cases h
        have hrest : ch :: s ++ r = '}' :: v ++ r := hd
        have hend : ch :: s = '}' :: v := List.append_cancel_right hrest
        rw [if_pos stops]
        exact ⟨_, rfl, hend⟩
      · next stops =>
        rw [if_neg stops]
        refine step h ?_
        split <;> rfl

/-- Where a cursor gets to is known from what is left there. -/
theorem Cursor.Reaches.eq_of_rest {c d e : Cursor} (hd : c.Reaches d) (he : c.Reaches e)
    (h : d.rest = e.rest) : d = e := by
  obtain ⟨s, hs⟩ := hd
  obtain ⟨t, ht⟩ := he
  have hst : s = t := by
    have hrest := hs.1.symm.trans ht.1
    rw [h] at hrest
    exact List.append_cancel_right hrest
  rw [hst] at hs
  exact hs.unique ht

namespace Window

variable {w : Window} {c d e : Cursor} {context : TextContext} {text : List Char}

/-- The characters hidden from one cursor are hidden from every other. -/
theorem exists_hidden (hc : w.origin.Reaches c) (h : c.Reaches d) (hd : w.hidden ≤ d.rest.length) :
    ∃ behind, c.rest = w.shown c.rest ++ behind ∧ d.rest = w.shown d.rest ++ behind := by
  obtain ⟨t, ht⟩ := h
  obtain ⟨behind, hbehind⟩ := w.exists_shown d.rest
  have hshown : w.shown c.rest = t ++ w.shown d.rest := (reads hc ht hd).1
  refine ⟨behind, ?_, hbehind⟩
  rw [hshown, List.append_assoc, ← hbehind, ht.1]

theorem scan_literal (hc : w.origin.Reaches c) (hd : w.hidden ≤ d.rest.length)
    (sees : w.Sees context d) (h : Literal.scan context c = (text, d)) :
    Literal.scan context (w.cursor c) = (text, w.cursor d) := by
  have hreach := Literal.scan_reaches h
  obtain ⟨behind, hcrest, hdrest⟩ := exists_hidden hc hreach hd
  have hends : Token.peek context (w.shown d.rest) ≠ .text := by
    rcases sees with hnil | hsame
    · simp [hnil, Token.peek]
    · rw [hsame]
      exact Literal.scan_ends h
  have hscan : Literal.scanFrom context false (w.shown c.rest ++ behind) c.position =
      (text, d) := by
    rw [← hcrest]
    exact h
  obtain ⟨htext, hrest⟩ := Literal.scanFrom_of_append (by rw [hscan]; exact hdrest) hends
    (w.cursor c).position
  rw [hscan] at htext
  obtain ⟨t, ht⟩ := hreach
  have hend := (Literal.scanFrom_reaches context false (w.cursor c).rest
    (w.cursor c).position).eq_of_rest (reads hc ht hd).reaches hrest
  exact Prod.ext htext hend

theorem scan_style (hc : w.origin.Reaches c) (close : d.Reads ['}'] e)
    (he : w.hidden ≤ e.rest.length) (h : Style.scan c = .ok (text, d)) :
    Style.scan (w.cursor c) = .ok (text, w.cursor d) := by
  have hreads := Style.scan_ok h
  have hd : w.hidden ≤ d.rest.length := Nat.le_trans he close.reaches.length_le
  obtain ⟨behind, hcrest, hdrest⟩ := exists_hidden hc hreads.reaches hd
  have hbrace : w.shown d.rest = '}' :: w.shown e.rest :=
    (reads (hc.trans hreads.reaches) close he).1
  have hscan : Style.scanFrom none 0 (w.shown c.rest ++ behind) c.position = .ok (text, d) := by
    rw [← hcrest]
    exact h
  rw [hbrace] at hdrest
  obtain ⟨f, hf, hrest⟩ := Style.scanFrom_of_append hscan hdrest rfl (w.cursor c).position
  have hend : f = w.cursor d := by
    refine (Style.scanFrom_ok hf).reaches.eq_of_rest (reads hc hreads hd).reaches ?_
    rw [hrest, ← hbrace]
    rfl
  rw [← hend]
  exact hf

end Window

/-! ## The pieces of the grammar -/

section Pieces

variable {w : Window} {c d e : Cursor} {name word : List Char} {options : Options}

theorem NameWritten.window (h : NameWritten c name d) (hc : w.origin.Reaches c)
    (hd : w.hidden ≤ d.rest.length) : NameWritten (w.cursor c) name (w.cursor d) := by
  obtain ⟨before, after, hbefore, hafter, isName, reads⟩ := h
  exact ⟨before, after, hbefore, hafter, isName, w.reads hc reads hd⟩

theorem TypeWritten.window (h : TypeWritten c name word d) (hc : w.origin.Reaches c)
    (hd : w.hidden ≤ d.rest.length) : TypeWritten (w.cursor c) name word (w.cursor d) := by
  obtain ⟨m, blanks, head, blank, reads⟩ := h
  have hm := Nat.le_trans hd reads.reaches.length_le
  exact ⟨w.cursor m, blanks, head.window hc hm, blank, w.reads (hc.trans head.reaches) reads hd⟩

theorem CommaWritten.window (h : CommaWritten c d) (hc : w.origin.Reaches c)
    (hd : w.hidden ≤ d.rest.length) : CommaWritten (w.cursor c) (w.cursor d) := by
  obtain ⟨before, after, hbefore, hafter, reads⟩ := h
  exact ⟨before, after, hbefore, hafter, w.reads hc reads hd⟩

theorem OpeningTagWritten.window (h : OpeningTagWritten c name d) (hc : w.origin.Reaches c)
    (hd : w.hidden ≤ d.rest.length) : OpeningTagWritten (w.cursor c) name (w.cursor d) := by
  obtain ⟨blanks, tagName, blank, reads⟩ := h
  exact ⟨blanks, tagName, blank, w.reads hc reads hd⟩

theorem ClosingTagWritten.window (h : ClosingTagWritten c name d) (hc : w.origin.Reaches c)
    (hd : w.hidden ≤ d.rest.length) : ClosingTagWritten (w.cursor c) name (w.cursor d) := by
  obtain ⟨blanks, blank, reads⟩ := h
  exact ⟨blanks, blank, w.reads hc reads hd⟩

/-- The offset of an argument whose closing brace is in the window. -/
theorem OffsetWritten.window {choice : Choice} {n : Nat} {t : List Char}
    (h : OffsetWritten choice c n d) (hc : w.origin.Reaches c) (close : d.Reads (t ++ ['}']) e)
    (he : w.hidden ≤ e.rest.length) : OffsetWritten choice (w.cursor c) n (w.cursor d) := by
  have hd := Nat.le_trans he close.reaches.length_le
  cases h with
  | absent keyword =>
    refine .absent fun plural f seen => ?_
    obtain ⟨g, run⟩ := w.exists_run hc close he (by decide) seen
    exact keyword plural g run
  | present plural offset blank reads ends =>
    exact .present plural offset blank (w.reads hc reads hd) fun hblanks => w.ends (ends hblanks)

/-- A style whose closing brace is in the window. -/
theorem StyleWritten.window {style : Option (List Char × Span)} (h : StyleWritten c d style)
    (hc : w.origin.Reaches c) (close : d.Reads ['}'] e) (he : w.hidden ≤ e.rest.length) :
    StyleWritten (w.cursor c) (w.cursor d)
      (style.map fun read => (read.1, read.2.map w.place)) := by
  have hd := Nat.le_trans he close.reaches.length_le
  cases h with
  | absent blank reads => exact .absent blank (w.reads hc reads hd)
  | @present m text comma ends scan nonempty =>
    have hm := Nat.le_trans hd (Style.scan_ok scan).reaches.length_le
    have hscan := w.scan_style (hc.trans comma.reaches) close he scan
    exact .present (comma.window hc hm) (w.ends ends) hscan nonempty

theorem patternSpan_map (f : Position → Position) (span : Span) :
    Read.patternSpan options (span.map f) = (Read.patternSpan options span).map (Span.map f) := by
  rw [Read.patternSpan, Read.patternSpan]
  split <;> rfl

theorem numberPatternOf_map (f : Position → Position) (skeleton : List Char) (span : Span) :
    Style.numberPatternOf options skeleton (span.map f) =
      (Style.numberPatternOf options skeleton span).map (Relabelling.moved f).number := by
  rw [Style.numberPatternOf, Style.numberPatternOf, patternSpan_map]
  split
  · rfl
  cases NumberSkeleton.tokenize (String.ofList skeleton) with
  | error cause => rfl
  | ok tokens =>
    dsimp only
    split
    · cases NumberSkeleton.interpret tokens <;> rfl
    · rfl

theorem dateTimePatternOf_map (f : Position → Position) (skeleton : List Char) (span : Span) :
    Style.dateTimePatternOf options skeleton (span.map f) =
      (Style.dateTimePatternOf options skeleton span).map (Relabelling.moved f).dateTime := by
  rw [Style.dateTimePatternOf, Style.dateTimePatternOf, patternSpan_map]
  split
  · rfl
  split
  · cases DateTimeSkeleton.parse (String.ofList skeleton) <;> rfl
  · rfl

/-- A style stands for the same wherever it is, but for the span of its skeleton. -/
theorem styleOf_map {σ : Type} {patternOf : List Char → Span → Except Fault σ} {change : σ → σ}
    {f : Position → Position} {text : Option (List Char × Span)}
    {style : Option (ArgumentStyle σ)}
    (h : ∀ skeleton span, patternOf skeleton (span.map f) = (patternOf skeleton span).map change)
    (value : Style.styleOf patternOf text = .ok style) :
    Style.styleOf patternOf (text.map fun read => (read.1, read.2.map f)) =
      .ok (style.map (·.relabel change)) := by
  cases text with
  | none =>
    cases value
    rfl
  | some read =>
    obtain ⟨t, span⟩ := read
    simp only [Option.map_some, Style.styleOf] at value ⊢
    cases hskeleton : Text.after? [':', ':'] t with
    | none =>
      rw [hskeleton] at value
      cases value
      rfl
    | some skeleton =>
      rw [hskeleton] at value
      dsimp only at value ⊢
      rw [h]
      cases hpattern : patternOf (Text.trimStart skeleton) span with
      | error fault =>
        rw [hpattern] at value
        cases value
      | ok pattern =>
        rw [hpattern] at value
        cases value
        rfl

end Pieces

end MessageFormat
