import Mathlib.Algebra.Group.Nat.Even
import Mathlib.Data.List.Induction
import Mathlib.Data.List.Infix
import MessageFormat.Proofs.Grammar.Style

/-!
# Where a style ends

The text of a style goes up to the brace that closes the argument.  Which brace that is can be said
without reading: it is the first one that stands outside of quotations while as many braces have
been closed as opened (`Style.FirstEnd`).  If there is none, the style takes everything that is
left.  And there is no style at all if a quotation is opened before that brace and never closed
(`Style.LeftOpen`).

The reader keeps two things while it goes on, whether a quotation is open and how many braces are.
`Style.Tracks` says what they are in terms of the text that was read.  One more character keeps it
true, as long as it is not the brace that ends the style.
-/

namespace MessageFormat

namespace Style

/-- The characters of a text outside of quotations, for a text that begins inside of one or not.
The apostrophes themselves are left out. -/
def outside (quoted : Bool) : List Char → List Char
  | [] => []
  | ch :: text =>
    if ch = '\'' then outside (!quoted) text
    else if quoted then outside quoted text
    else ch :: outside quoted text

/-- A closing brace after the text ends the style: the place is outside of quotations, and no brace
is open there. -/
def EndsAfter (text : List Char) : Prop :=
  Even (text.count '\'') ∧ (outside false text).count '{' = (outside false text).count '}'

/-- No brace in the text ends the style. -/
def Unended (text : List Char) : Prop := ∀ s, s ++ ['}'] <+: text → ¬EndsAfter s

/-- The text is what stands before the first brace that ends the style. -/
structure FirstEnd (rest text : List Char) : Prop where
  brace : text ++ ['}'] <+: rest
  ends : EndsAfter text
  first : Unended text

/-- An apostrophe opens a quotation before any brace has ended the style, and there is no apostrophe
after it. -/
def LeftOpen (rest : List Char) : Prop :=
  ∃ s t, rest = s ++ '\'' :: t ∧ Even (s.count '\'') ∧ '\'' ∉ t ∧ Unended s

/-- All quotations of the text are closed, and outside of them every brace that is closed has been
opened and every one that is opened is closed. -/
structure Matched (text : List Char) : Prop where
  closed : Even (text.count '\'')
  opened : ∀ s, s <+: text → (outside false s).count '}' ≤ (outside false s).count '{'
  level : (outside false text).count '{' = (outside false text).count '}'

instance (text : List Char) : Decidable (Matched text) :=
  decidable_of_iff
    (Even (text.count '\'') ∧
      (∀ s ∈ text.inits, (outside false s).count '}' ≤ (outside false s).count '{') ∧
      (outside false text).count '{' = (outside false text).count '}')
    ⟨fun ⟨closed, opened, level⟩ =>
        ⟨closed, fun s hs => opened s ((List.mem_inits s text).2 hs), level⟩,
      fun h => ⟨h.closed, fun s hs => h.opened s ((List.mem_inits s text).1 hs), h.level⟩⟩

/-! ## Texts -/

theorem outside_concat (quoted : Bool) (text : List Char) (ch : Char) :
    outside quoted (text ++ [ch]) = outside quoted text ++
      if ch ≠ '\'' ∧ Even (text.count '\'' + quoted.toNat) then [ch] else [] := by
  induction text generalizing quoted with
  | nil => cases quoted <;> by_cases hch : ch = '\'' <;> simp [outside, hch]
  | cons x text ih =>
    by_cases hx : x = '\''
    · have hparity : Even ((x :: text).count '\'' + quoted.toNat) ↔
          Even (text.count '\'' + (!quoted).toNat) := by
        subst hx
        cases quoted <;> simp [Nat.even_add]
      simp only [List.cons_append, outside, if_pos hx, ih, hparity]
    · cases quoted <;> simp [outside, hx, ih, List.count_cons_of_ne hx]

theorem Unended.of_prefix {s text : List Char} (h : Unended text) (hs : s <+: text) : Unended s :=
  fun u hu => h u (hu.trans hs)

/-- A text with one more character is ended by that character or not at all. -/
theorem unended_concat {text : List Char} {ch : Char} (h : Unended text)
    (hch : ch = '}' → ¬EndsAfter text) : Unended (text ++ [ch]) := by
  intro s hs
  rcases List.prefix_concat_iff.1 hs with hlast | hs
  · obtain ⟨rfl, hbrace⟩ := List.append_inj' hlast rfl
    exact hch (List.cons.inj hbrace).1.symm
  · exact h s hs

theorem FirstEnd.eq_of_prefix {rest text text' : List Char} (h : FirstEnd rest text)
    (h' : FirstEnd rest text') (hle : text ++ ['}'] <+: text' ++ ['}']) : text = text' := by
  rcases List.prefix_concat_iff.1 hle with heq | hle
  · exact List.append_cancel_right heq
  · exact absurd h.ends (h'.first text hle)

theorem FirstEnd.unique {rest text text' : List Char} (h : FirstEnd rest text)
    (h' : FirstEnd rest text') : text = text' := by
  rcases List.prefix_or_prefix_of_prefix h.brace h'.brace with hle | hle
  · exact h.eq_of_prefix h' hle
  · exact (h'.eq_of_prefix h hle).symm

/-- Behind an apostrophe that opens the last quotation every place is inside of it. -/
theorem not_even_of_prefix {s t text : List Char} (hs : Even (s.count '\'')) (ht : '\'' ∉ t)
    (hopens : s ++ ['\''] <+: text) (htext : text <+: s ++ '\'' :: t) :
    ¬Even (text.count '\'') := by
  obtain ⟨u, rfl⟩ := hopens
  have hu : u <+: t := by
    rw [List.append_assoc, List.prefix_append_right_inj] at htext
    exact (List.cons_prefix_cons.1 htext).2
  have hnone : u.count '\'' = 0 := List.count_eq_zero.2 fun hmem => ht (hu.subset hmem)
  simp [List.count_append, hnone, Nat.even_add_one, hs]

/-- A quotation is left open if no brace ends the style and the apostrophes do not pair up. -/
theorem leftOpen_iff {text : List Char} :
    LeftOpen text ↔ Unended text ∧ ¬Even (text.count '\'') := by
  constructor
  · rintro ⟨s, t, rfl, heven, hnone, hunended⟩
    have hopens : s ++ ['\''] <+: s ++ '\'' :: t := ⟨t, by simp⟩
    refine ⟨fun u hu hends => ?_, not_even_of_prefix heven hnone hopens (List.prefix_refl _)⟩
    rcases List.prefix_or_prefix_of_prefix hu hopens with hle | hle
    · rcases List.prefix_concat_iff.1 hle with heq | hle
      · exact absurd (List.append_inj' heq rfl).2 (by decide)
      · exact hunended u hle hends
    · rcases List.prefix_concat_iff.1 hle with heq | hle
      · exact absurd (List.append_inj' heq rfl).2 (by decide)
      · exact not_even_of_prefix heven hnone hle ((List.prefix_append u _).trans hu) hends.1
  · rintro ⟨hunended, hodd⟩
    have hmem : '\'' ∈ text.reverse := by
      rw [List.mem_reverse, ← List.count_pos_iff]
      exact Nat.pos_of_ne_zero fun hzero => hodd (by simp [hzero])
    obtain ⟨t, s, hsplit, hnone⟩ := List.eq_append_cons_of_mem hmem
    have htext : text = s.reverse ++ '\'' :: t.reverse := by
      rw [← List.reverse_reverse text, hsplit]
      simp
    have hcount : text.count '\'' = s.reverse.count '\'' + 1 := by
      have : t.reverse.count '\'' = 0 := List.count_eq_zero.2 (by simpa using hnone)
      rw [htext, List.count_append, List.count_cons_self, this]
    refine ⟨s.reverse, t.reverse, htext, ?_, by simpa using hnone, ?_⟩
    · rwa [hcount, Nat.even_add_one, not_not] at hodd
    · exact hunended.of_prefix ⟨'\'' :: t.reverse, htext.symm⟩

theorem FirstEnd.not_leftOpen {rest text : List Char} (h : FirstEnd rest text) :
    ¬LeftOpen rest :=
  fun hopen => (leftOpen_iff.1 hopen).1 text h.brace h.ends

/-! ## Matched texts -/

/-- No brace before the one that ends a style is closed without having been opened. -/
theorem FirstEnd.matched {rest text : List Char} (h : FirstEnd rest text) : Matched text := by
  refine ⟨h.ends.1, fun s hs => ?_, h.ends.2⟩
  induction s using List.reverseRecOn with
  | nil => simp [outside]
  | append_singleton s ch ih =>
    have ih := ih ((List.prefix_append s [ch]).trans hs)
    rw [outside_concat]
    split
    · next hout =>
      have heven : Even (s.count '\'') := by simpa using hout.2
      by_cases hclose : ch = '}'
      · -- The brace does not end the style, so another one is open.
        subst hclose
        have hopen : ¬EndsAfter s := h.first s hs
        have hne : (outside false s).count '{' ≠ (outside false s).count '}' :=
          fun heq => hopen ⟨heven, heq⟩
        grind
      · grind
    · simpa using ih

theorem Matched.firstEnd {text : List Char} (h : Matched text) (rest : List Char) :
    FirstEnd (text ++ '}' :: rest) text := by
  refine ⟨⟨rest, by simp⟩, ⟨h.closed, h.level⟩, fun s hs hends => ?_⟩
  have hopened := h.opened _ hs
  have heven : Even (s.count '\'' + false.toNat) := hends.1
  rw [outside_concat, if_pos ⟨by decide, heven⟩, List.count_append, List.count_append,
    hends.2] at hopened
  exact absurd hopened (by simp)

/-! ## Reading -/

/-- What the reader keeps is right: whether a quotation is open and how many braces are open after
a text in which no brace has ended the style. -/
structure Tracks (before : List Char) (quoted : Bool) (depth : Nat) : Prop where
  quotes : Even (before.count '\'') ↔ quoted = false
  braces : (outside false before).count '{' = depth + (outside false before).count '}'
  unended : Unended before

namespace Tracks

variable {before : List Char} {quoted : Bool} {depth : Nat}

theorem nil : Tracks [] false 0 := by
  refine ⟨by simp, by simp [outside], fun s hs => ?_⟩
  simp at hs

theorem endsAfter_iff (h : Tracks before quoted depth) :
    EndsAfter before ↔ quoted = false ∧ depth = 0 := by
  have hbraces := h.braces
  have hlevel : (outside false before).count '{' = (outside false before).count '}' ↔
      depth = 0 := by
    omega
  rw [EndsAfter, h.quotes, hlevel]

/-- One more character changes what it should: an apostrophe opens or closes a quotation, and
outside of quotations a brace opens or closes. -/
theorem next (h : Tracks before quoted depth) (ch : Char)
    (hgoes : ¬(ch = '}' ∧ quoted = false ∧ depth = 0)) :
    Tracks (before ++ [ch]) (if ch = '\'' then !quoted else quoted)
      (if quoted then depth else if ch = '{' then depth + 1 else if ch = '}' then depth - 1
        else depth) := by
  have hbraces := h.braces
  refine ⟨?_, ?_, unended_concat h.unended fun hch hends =>
    hgoes ⟨hch, h.endsAfter_iff.1 hends⟩⟩
  · by_cases hch : ch = '\''
    · simp [hch, Nat.even_add_one, h.quotes]
    · simp [hch, h.quotes]
  · have hout : (ch ≠ '\'' ∧ Even (before.count '\'' + false.toNat)) ↔
        ch ≠ '\'' ∧ quoted = false := and_congr_right fun _ => h.quotes
    rw [outside_concat]
    simp only [hout]
    cases quoted with
    | true => simpa using hbraces
    | false =>
      by_cases hquote : ch = '\''
      · simpa [hquote] using hbraces
      by_cases hopen : ch = '{'
      · grind
      by_cases hclose : ch = '}'
      · have hdepth : depth ≠ 0 := fun hzero => hgoes ⟨hclose, rfl, hzero⟩
        grind
      · simpa [hquote, hopen, hclose, List.count_cons_of_ne] using hbraces

end Tracks

/-- What a reader that is right about the text before it finds in the text after it. -/
theorem scanFrom_tracks {quote : Option Position} {depth : Nat} {before : List Char}
    (h : Tracks before quote.isSome depth) (rest : List Char) (p : Position) :
    match scanFrom quote depth rest p with
    | .error _ => LeftOpen (before ++ rest)
    | .ok (text, d) => Unended (before ++ text) ∧
        (EndsAfter (before ++ text) ∧ d.rest.head? = some '}' ∨
          Even ((before ++ text).count '\'') ∧ d.rest = []) := by
  induction rest generalizing quote depth before p with
  | nil =>
    cases quote with
    | none => simpa [scanFrom] using ⟨h.unended, h.quotes.2 rfl⟩
    | some start =>
      have hodd : ¬Even (before.count '\'') := fun heven => by cases h.quotes.1 heven
      simpa [scanFrom] using leftOpen_iff.2 ⟨h.unended, hodd⟩
  | cons ch rest ih =>
    -- In either state a character that does not end the style is read on its own.
    have step : ∀ {inner : Option Position} {depth : Nat},
        Tracks (before ++ [ch]) inner.isSome depth →
        match (scanFrom inner depth rest (p.advance ch) >>= fun read =>
          (.ok (ch :: read.1, read.2) : Except Span (List Char × Cursor))) with
        | .error _ => LeftOpen (before ++ ch :: rest)
        | .ok (text, d) => Unended (before ++ text) ∧
            (EndsAfter (before ++ text) ∧ d.rest.head? = some '}' ∨
              Even ((before ++ text).count '\'') ∧ d.rest = []) := by
      intro inner depth htracks
      have hrest := ih htracks (p.advance ch)
      cases hscan : scanFrom inner depth rest (p.advance ch) with
      | error span =>
        rw [hscan] at hrest
        rwa [List.append_assoc] at hrest
      | ok read =>
        rw [hscan] at hrest
        dsimp only at hrest
        rwa [List.append_assoc] at hrest
    cases quote with
    | some start =>
      rw [scanFrom]
      refine step ?_
      have hnext := h.next ch (by simp)
      by_cases hch : ch = '\'' <;> simpa [hch] using hnext
    | none =>
      rw [scanFrom]
      by_cases hends : ch = '}' ∧ depth = 0
      · have hends' : EndsAfter before := h.endsAfter_iff.2 ⟨rfl, hends.2⟩
        rw [if_pos hends]
        simpa [hends.1] using ⟨h.unended, hends'⟩
      · rw [if_neg hends]
        refine step ?_
        have hnext := h.next ch fun hgoes => hends ⟨hgoes.1, hgoes.2.2⟩
        by_cases hch : ch = '\'' <;> simpa [hch] using hnext

/-- What a reader finds from the start of a style. -/
theorem scan_cut (c : Cursor) :
    match scan c with
    | .error _ => LeftOpen c.rest
    | .ok (text, d) => ¬LeftOpen c.rest ∧ c.Reads text d ∧
        (FirstEnd c.rest text ∧ d.current? = some '}' ∨ Unended c.rest ∧ d.rest = []) := by
  have hfound := @scanFrom_tracks none 0 [] .nil c.rest c.position
  rw [← scan] at hfound
  cases hscan : scan c with
  | error span =>
    rw [hscan] at hfound
    exact hfound
  | ok read =>
    obtain ⟨text, d⟩ := read
    rw [hscan] at hfound
    have reads := scan_ok hscan
    obtain ⟨hunended, ⟨hends, hbrace⟩ | ⟨heven, hrest⟩⟩ := hfound
    · obtain ⟨tail, htail⟩ := List.head?_eq_some_iff.1 hbrace
      have hfirst : FirstEnd c.rest text := by
        refine ⟨⟨tail, ?_⟩, hends, hunended⟩
        rw [reads.1, htail]
        simp
      exact ⟨hfirst.not_leftOpen, reads, .inl ⟨hfirst, hbrace⟩⟩
    · have htext : c.rest = text := by rw [reads.1, hrest, List.append_nil]
      rw [htext]
      exact ⟨fun hopen => (leftOpen_iff.1 hopen).2 heven, reads, .inr ⟨hunended, hrest⟩⟩

/-- The text before the first brace that ends a style is the style. -/
theorem FirstEnd.scan_eq {c d : Cursor} {text : List Char} (h : FirstEnd c.rest text)
    (reads : c.Reads text d) : scan c = .ok (text, d) := by
  have hcut := scan_cut c
  cases hscan : scan c with
  | error span =>
    rw [hscan] at hcut
    exact absurd hcut h.not_leftOpen
  | ok read =>
    obtain ⟨text', d'⟩ := read
    rw [hscan] at hcut
    obtain ⟨-, reads', ⟨hfirst, -⟩ | ⟨hunended, -⟩⟩ := hcut
    · obtain rfl : text = text' := h.unique hfirst
      rw [reads.unique reads']
    · exact absurd h.ends (hunended text h.brace)

end Style

namespace Read

/-- A style is cut at the right brace.  Reading it fails exactly if a quotation is left open, and
for no other reason.  Otherwise it takes the text up to the first brace that ends the style and
stops in front of it, or it takes everything if there is no such brace.  The text before such a
brace is matched, and every matched text is read up to the brace after it. -/
theorem styleText_cut (c : Cursor) (events : List Event) :
    (match styleText ⟨c, events⟩ with
      | .error e _ => e.kind = .unclosedQuoteInArgumentStyle ∧ Style.LeftOpen c.rest
      | .ok text s => ¬Style.LeftOpen c.rest ∧ c.Reads text s.cursor ∧
          (Style.FirstEnd c.rest text ∧ Style.Matched text ∧ s.cursor.current? = some '}' ∨
            Style.Unended c.rest ∧ s.cursor.rest = [])) ∧
      ∀ (text rest : List Char) (p : Position), Style.Matched text →
        styleText ⟨⟨text ++ '}' :: rest, p⟩, events⟩ =
          .ok text ⟨⟨'}' :: rest, p.advanceAll text⟩, events⟩ := by
  constructor
  · have hcut := Style.scan_cut c
    cases hscan : Style.scan c with
    | error span =>
      rw [hscan] at hcut
      rw [run_styleText_error hscan]
      exact ⟨rfl, hcut⟩
    | ok read =>
      obtain ⟨text, d⟩ := read
      rw [hscan] at hcut
      rw [run_styleText hscan]
      obtain ⟨hclosed, reads, ⟨hfirst, hbrace⟩ | hend⟩ := hcut
      · exact ⟨hclosed, reads, .inl ⟨hfirst, hfirst.matched, hbrace⟩⟩
      · exact ⟨hclosed, reads, .inr hend⟩
  · intro text rest p hmatched
    refine run_styleText (Style.FirstEnd.scan_eq ?_ ⟨rfl, rfl⟩)
    exact hmatched.firstEnd rest

/-- Braces inside of quotations and quotations inside of braces, in front of the end of an
argument and of the branch around it. -/
theorem styleText_cut_quoted :
    Style.Matched "\x7b'\x7d\x7b'a\x7d''".toList ∧
      styleText ⟨⟨"\x7b'\x7d\x7b'a\x7d''\x7d b\x7d".toList, .start⟩, []⟩ =
        .ok "\x7b'\x7d\x7b'a\x7d''".toList ⟨⟨"\x7d b\x7d".toList, ⟨9, 1, 10⟩⟩, []⟩ := by
  have hmatched : Style.Matched "\x7b'\x7d\x7b'a\x7d''".toList := by decide
  exact ⟨hmatched, (styleText_cut (.ofString "") []).2 _ " b\x7d".toList .start hmatched⟩

end Read

end MessageFormat
