import MessageFormat.Proofs.Grammar.Refused

/-!
# Reading follows the grammar

Every action that reads a part of a message gives only what is written in front of it, and fails
only where `Refused` says that the text is at fault.  There is one lemma for each action, and the
last one, `Read.meets_message`, is the statement for whole messages: from any cursor, at any depth
and in any frame, what `Read.message` gives is `Written` and the errors it fails with are
`Refused`.

The induction is on the number of levels that may still be nested.  `Read.Follows` is what a level
assumes of the reader of the next one.  Inside a level the elements and the branches are counted
by numbers that are only bounds, and each of them is shown to be large enough.
-/

namespace MessageFormat

namespace Read

variable {options : Options} {depth : Nat} {frame : Frame} {c d : Cursor}

/-! ## Integers -/

/-- Every cursor starts a numeral, if only the empty one. -/
theorem exists_numeralWritten (c : Cursor) :
    ∃ sign digits d, NumeralWritten c sign digits d := by
  by_cases hplus : c.current? = some '+'
  · obtain ⟨digits, d, hrun⟩ := c.next.exists_run isAsciiDigit
    exact ⟨['+'], digits, d, .inr (.inl rfl), by simp, c.next, Cursor.reads_next hplus, hrun⟩
  by_cases hminus : c.current? = some '-'
  · obtain ⟨digits, d, hrun⟩ := c.next.exists_run isAsciiDigit
    exact ⟨['-'], digits, d, .inr (.inr rfl), by simp, c.next, Cursor.reads_next hminus, hrun⟩
  · obtain ⟨digits, d, hrun⟩ := c.exists_run isAsciiDigit
    exact ⟨[], digits, d, .inl rfl, fun _ => ⟨hplus, hminus⟩, c, .refl c, hrun⟩

theorem run_sign {sign : List Char} {events : List Event} (hsign : IsSign sign)
    (hnone : sign = [] → c.current? ≠ some '+' ∧ c.current? ≠ some '-')
    (hreads : c.Reads sign d) : Read.sign ⟨c, events⟩ = .ok sign ⟨d, events⟩ := by
  unfold Read.sign
  rcases hsign with rfl | rfl | rfl
  · obtain ⟨hplus, hminus⟩ := hnone rfl
    obtain rfl := hreads.eq_of_nil
    rw [run_bind (run_accept_false (Cursor.accept?_eq_none hplus))]
    exact run_bind (run_accept_false (Cursor.accept?_eq_none hminus))
  · exact run_bind (run_accept hreads)
  · have hplus : c.current? ≠ some '+' := by
      rw [hreads.current?_eq]
      decide
    rw [run_bind (run_accept_false (Cursor.accept?_eq_none hplus))]
    exact run_bind (run_accept hreads)

/-- Reading an integer takes the numeral in front of it in any case, and then looks at it. -/
theorem run_integer {sign digits : List Char} {events : List Event}
    (numeral : NumeralWritten c sign digits d) (missing tooLarge : Fault) :
    integer missing tooLarge ⟨c, events⟩ =
      if digits = [] then .error (faultAt missing c d) ⟨d, events⟩
      else if natOfDigits digits < wordSize 63 then
        .ok ⟨withSign (decide (sign = ['-'])) (natOfDigits digits), sign ++ digits,
          ⟨c.position, d.position⟩⟩ ⟨d, events⟩
      else .error (faultAt tooLarge c d) ⟨d, events⟩ := by
  obtain ⟨hsign, hnone, m, hreads, hrun⟩ := numeral
  have hposition : position ⟨c, events⟩ = .ok c.position ⟨c, events⟩ := rfl
  have hcursor : cursor ⟨d, events⟩ = .ok d ⟨d, events⟩ := rfl
  unfold integer
  rw [run_bind hposition, run_bind (run_sign hsign hnone hreads), run_bind (run_word hrun)]
  dsimp only
  rw [run_bind hcursor]
  by_cases hempty : digits = []
  · simp only [hempty, List.isEmpty_nil, if_true]
    rfl
  rw [if_neg (by simpa using hempty), if_neg hempty, natOfDigitsBelow?_eq (by decide), below?]
  by_cases hsmall : natOfDigits digits < wordSize 63
  · rw [if_pos hsmall, if_pos hsmall]
    rfl
  · rw [if_neg hsmall, if_neg hsmall]
    rfl

theorem meets_integer (missing tooLarge : Fault) :
    Meets (integer missing tooLarge) c
      (fun n d => ∃ sign digits, NumeralWritten c sign digits d ∧ digits ≠ [] ∧
        natOfDigits digits < wordSize 63 ∧
        n = ⟨withSign (decide (sign = ['-'])) (natOfDigits digits), sign ++ digits,
          ⟨c.position, d.position⟩⟩)
      (IntegerFault missing tooLarge c) := by
  intro events
  obtain ⟨sign, digits, d, numeral⟩ := exists_numeralWritten c
  rw [run_integer numeral]
  by_cases hempty : digits = []
  · subst hempty
    exact .missing numeral
  rw [if_neg hempty]
  by_cases hsmall : natOfDigits digits < wordSize 63
  · rw [if_pos hsmall]
    exact ⟨sign, digits, numeral, hempty, hsmall, rfl⟩
  · rw [if_neg hsmall]
    exact .tooLarge numeral (Nat.le_of_not_lt hsmall)

/-- A signed magnitude is an offset if it is small enough and a minus sign changes nothing. -/
theorem offset_range_iff {negative : Bool} {n : Nat} :
    (0 ≤ withSign negative n ∧ withSign negative n < (wordSize 32 : Nat)) ↔
      n < wordSize 32 ∧ (negative = true → n = 0) := by
  cases negative with
  | false => simp [withSign]
  | true =>
    have : 0 < wordSize 32 := Nat.pow_pos (by decide)
    simp only [withSign, if_true, forall_const]
    omega

theorem withSign_toNat {sign : List Char} {n : Nat} (h : sign = ['-'] → n = 0) :
    (withSign (decide (sign = ['-'])) n).toNat = n := by
  by_cases hs : sign = ['-']
  · simp [withSign, hs, h hs]
  · simp [withSign, hs]

theorem meets_offset {choice : Choice} {text : List Char}
    (first : c.Run isIdentifierChar text d) :
    Meets (offset choice (text, ⟨c.position, d.position⟩)) d
      (fun read f => ∃ m, OffsetWritten choice c read.1 m ∧
        m.Run isIdentifierChar read.2.1 f ∧ read.2.2 = ⟨m.position, f.position⟩)
      (fun e => choice.isPlural = true ∧ OffsetFault c e) := by
  unfold offset
  split
  · next hkeyword =>
    obtain ⟨hplural, rfl⟩ := hkeyword
    refine bind_accept (fun c₁ hcolon => ?_) fun hcolon => ?_
    · refine bind_skipBlanks fun blanks c₂ hblanks => ?_
      have reads : c.Reads ("offset:".toList ++ blanks) c₂ :=
        (first.reads.append hcolon).append hblanks.reads
      refine Meets.bind ((meets_integer _ _).imp (fun _ _ h => h) ?_) ?_
      · exact fun e he => ⟨hplural, .integer reads hblanks.all he⟩
      rintro n c₃ ⟨sign, digits, numeral, hdigits, -, rfl⟩
      obtain ⟨hsign, -, m, hreads, hrun⟩ := id numeral
      split
      · next hrange =>
        obtain ⟨hsmall, hminus⟩ := offset_range_iff.1 hrange
        refine bind_skipBlanks fun after c₄ hafter => bind_identifier fun next f hnext => ?_
        refine meets_pure ⟨c₄, ?_, hnext, rfl⟩
        rw [decide_eq_true_eq] at hminus
        rw [withSign_toNat hminus]
        refine .present hplural ⟨blanks, sign, digits, rfl, hblanks.all, hsign,
          ⟨hdigits, hrun.all⟩, rfl, hsmall, hminus⟩ hafter.all ?_ ?_
        · have := reads.append ((hreads.append hrun.reads).append hafter.reads)
          simpa [List.append_assoc] using this
        · rintro rfl
          rw [← hafter.reads.eq_of_nil]
          exact hrun.ends
      · next hrange =>
        refine meets_failAt ⟨hplural, .range reads hblanks.all numeral hdigits ?_⟩
        rw [offset_range_iff] at hrange
        simpa using hrange
    · refine meets_failHere ⟨hplural, .missing first ?_⟩
      exact Cursor.current?_ne_of_accept? hcolon
  · next hkeyword =>
    refine meets_pure ⟨c, .absent fun hplural f hrun => ?_, first, rfl⟩
    exact hkeyword ⟨hplural, (first.unique hrun).1⟩

/-! ## Branches -/

theorem meets_selector? {choice : Choice} {text : List Char}
    (first : c.Run isIdentifierChar text d) :
    Meets (selector? choice (text, ⟨c.position, d.position⟩)) d
      (fun read f => match read with
        | none => f = c
        | some (selector, span) => ∃ t, selector = String.ofList t ∧ IsSelector choice t ∧
            c.Reads t f ∧ d.Reaches f ∧ span = ⟨c.position, f.position⟩)
      (fun e => choice.isPlural = true ∧ ∃ m, c.Reads ['='] m ∧
        IntegerFault .missingSelectorDigits .selectorTooLarge m e) := by
  unfold selector?
  split
  · next hword =>
    exact meets_pure
      ⟨text, rfl, .inl ⟨by simpa using hword, first.all⟩, first.reads, .refl d, rfl⟩
  · next hword =>
    have htext : text = [] := by simpa using hword
    subst htext
    obtain rfl := first.reads.eq_of_nil
    apply bind_position
    split
    · next hplural =>
      refine bind_accept (fun m hequals => ?_) fun _ => meets_pure rfl
      refine Meets.bind ((meets_integer _ _).imp (fun _ _ h => h) ?_) ?_
      · exact fun e he => ⟨hplural, m, hequals, he⟩
      rintro n f ⟨sign, digits, ⟨hsign, -, m', hreads, hrun⟩, hdigits, hsmall, rfl⟩
      have reads : c.Reads ('=' :: (sign ++ digits)) f :=
        hequals.append (hreads.append hrun.reads)
      refine bind_cursor (meets_pure ⟨_, rfl, .inr ⟨hplural, ?_⟩, reads, reads.reaches, rfl⟩)
      exact ⟨sign, digits, rfl, hsign, ⟨hdigits, hrun.all⟩, hsmall⟩
    · exact meets_pure rfl

/-- The reader of the next level follows the grammar with one level less, or there is no further
level and no reader. -/
inductive Follows (options : Options) : Nat → Option Inner → Prop
  | none : Follows options 0 none
  | some {depth : Nat} {read : Inner}
      (meets : ∀ frame c, Meets (read frame) c
        (fun es d => Written options depth frame (.message es) c d)
        (Refused options ⟨depth, frame, c⟩)) :
      Follows options (depth + 1) (some read)

theorem bind_enter {α : Type} {inner : Option Inner} {start : Position} {f : Inner → Read α}
    {ok : α → Cursor → Prop} {bad : ParseError → Prop} (follows : Follows options depth inner)
    (limit : depth = 0 → bad ⟨.nestingLimit options.maxNestingDepth, ⟨start, c.position⟩⟩)
    (deeper : ∀ below read, depth = below + 1 →
      (∀ frame c, Meets (read frame) c
        (fun es d => Written options below frame (.message es) c d)
        (Refused options ⟨below, frame, c⟩)) → Meets (f read) c ok bad) :
    Meets (enter options inner start >>= f) c ok bad := by
  cases follows with
  | none => exact Meets.bind_fails (meets_failFrom (limit rfl))
  | some meets => exact (gives_pure _ c).bind (deeper _ _ rfl meets)

/-- A fault at a place is one of reading from there. -/
theorem refused_here {place : Place} {e : ParseError} (h : FaultAt options place e) :
    Refused options place e :=
  ⟨place, .refl, h⟩

/-- What is refused after a step is refused before it. -/
theorem refused_step {place next : Place} {e : ParseError} (step : place.Step options next)
    (h : Refused options next e) : Refused options place e := by
  obtain ⟨site, leads, fault⟩ := h
  exact ⟨site, leads.head step, fault⟩

theorem refused_choice {e : ParseError} (h : ChoiceFault options depth frame c e) :
    Refused options ⟨depth, frame, c⟩ e :=
  refused_here (.argument (.choice h))

theorem meets_branch {inner : Option Inner} {choice : Choice} {earlier : List Branch}
    {selector : List Char} {first m s : Cursor} (follows : Follows options depth inner)
    (begun : ChoiceBegun options depth frame c choice earlier first m)
    (selects : IsSelector choice selector) (reads : m.Reads selector s) :
    Meets (branch options inner frame choice earlier (String.ofList selector)
        ⟨m.position, s.position⟩) s
      (fun b f => b.selector ∉ earlier.map Branch.selector ∧ f.rest.length < s.rest.length ∧
        ∀ after g, IsBlank after → f.Reads after g →
          Written options depth frame (.branches choice [b]) m g)
      (Refused options ⟨depth, frame, c⟩) := by
  unfold branch
  split
  · next hagain =>
    refine meets_failAt (refused_choice (.duplicate begun selects reads ?_))
    simpa using hagain
  · next hnew =>
    refine bind_skipBlanks fun blanks c₁ hblanks => bind_position ?_
    have head : m.Reads (selector ++ blanks) c₁ := reads.append hblanks.reads
    have branchBegun : BranchBegun options depth frame c choice earlier selector c₁ :=
      ⟨first, m, blanks, begun, selects, hblanks.all, head⟩
    refine bind_accept (fun c₂ hbrace => ?_) fun hbrace => ?_
    · refine bind_enter follows (fun limit => ?_) fun below read hdepth meets => ?_
      · exact refused_choice (.nesting limit branchBegun hbrace)
      subst hdepth
      refine Meets.bind ((meets _ c₂).imp (fun _ _ h => h) fun e => ?_) fun es c₃ hbody => ?_
      · exact refused_step (.enterBranch branchBegun hbrace)
      refine bind_closeBrace (fun f hclose => ?_) fun hopen => ?_
      · refine bind_capture (meets_pure ⟨by simpa [Branch.selector] using hnew, ?_, ?_⟩)
        · have := hblanks.reads.reaches.length_le
          have := hbrace.length_lt
          have := (hbody.reaches.trans hclose.reaches).length_le
          omega
        · intro after g hafter hgap
          exact .branch selects hblanks.all head hbrace hbody hclose hafter hgap .noBranch
      · exact refused_choice (.unclosedBranch rfl branchBegun hbrace hbody hopen)
    · refine meets_failHere (refused_choice (.missingFragment branchBegun ?_))
      exact Cursor.current?_ne_of_accept? hbrace

theorem choiceBegun_snoc {choice : Choice} {earlier : List Branch} {b : Branch}
    {first m : Cursor} (begun : ChoiceBegun options depth frame c choice earlier first m)
    (branch : Written options depth frame (.branches choice [b]) m d) :
    ChoiceBegun options depth frame c choice (earlier ++ [b]) first d := by
  obtain ⟨name, n, c₁, c₂, head, comma, offset, branches⟩ := begun
  exact ⟨name, n, c₁, c₂, head, comma, offset, branches.branches_append branch⟩

theorem meets_branchesFrom {inner : Option Inner} {choice : Choice} {first : Cursor}
    (follows : Follows options depth inner) {n : Nat} {earlier : List Branch} {text : List Char}
    {m m' : Cursor} (begun : ChoiceBegun options depth frame c choice earlier first m)
    (distinct : (earlier.map Branch.selector).Nodup) (run : m.Run isIdentifierChar text m')
    (bound : m'.rest.length < n) :
    Meets (branchesFrom options inner frame choice n earlier
        (text, ⟨m.position, m'.position⟩)) m'
      (fun list f => ChoiceBegun options depth frame c choice list first f ∧
        (list.map Branch.selector).Nodup)
      (Refused options ⟨depth, frame, c⟩) := by
  induction n generalizing earlier text m m' with
  | zero => exact absurd bound (Nat.not_lt_zero _)
  | succ n ih =>
    rw [branchesFrom]
    refine Meets.bind ((meets_selector? run).imp (fun _ _ h => h) ?_) ?_
    · rintro e ⟨hplural, m₁, hequals, he⟩
      exact refused_choice (.selector hplural begun hequals he)
    rintro (_ | ⟨selector, span⟩) f hread
    · obtain rfl := hread
      exact meets_pure ⟨begun, distinct⟩
    · obtain ⟨t, rfl, selects, reads, hreaches, rfl⟩ := hread
      have hle := hreaches.length_le
      refine Meets.bind (meets_branch follows begun selects reads) ?_
      rintro b g ⟨hnew, hlt, written⟩
      refine bind_skipBlanks fun after g₁ hafter => bind_identifier fun next g₂ hnext => ?_
      refine ih (choiceBegun_snoc begun (written after g₁ hafter.all hafter.reads)) ?_ hnext ?_
      · rw [List.map_append, List.nodup_append]
        exact ⟨distinct, by simp, by simpa using hnew⟩
      · have := (hafter.reads.reaches.trans hnext.reads.reaches).length_le
        omega

theorem meets_branches {inner : Option Inner} {choice : Choice} {text : List Char}
    {first m : Cursor} (follows : Follows options depth inner)
    (begun : ChoiceBegun options depth frame c choice [] first first)
    (run : first.Run isIdentifierChar text m) :
    Meets (branches options inner frame choice (text, ⟨first.position, m.position⟩)) m
      (fun list f => ChoiceBegun options depth frame c choice list first f ∧ list ≠ [] ∧
        (list.map Branch.selector).Nodup ∧
        (options.requiresOther = true → ∃ b ∈ list, b.selector = "other"))
      (Refused options ⟨depth, frame, c⟩) := by
  unfold branches
  refine bind_cursor (Meets.bind (meets_branchesFrom follows begun (by simp) run
    (Nat.lt_succ_self _)) ?_)
  rintro list f ⟨begun, distinct⟩
  split
  · next hempty =>
    rw [List.isEmpty_iff] at hempty
    subst hempty
    exact meets_failHere (refused_choice (.missingSelector begun))
  · next hempty =>
    have nonempty : list ≠ [] := by simpa using hempty
    split
    · next hother =>
      rw [Bool.and_eq_true] at hother
      refine meets_failFrom (refused_choice (.missingOther begun nonempty hother.1 ?_))
      simpa using hother.2
    · next hother =>
      refine meets_pure ⟨begun, nonempty, distinct, fun hrequired => ?_⟩
      simpa [hrequired] using hother

theorem meets_choice {inner : Option Inner} (choice : Choice) {name : List Char}
    (follows : Follows options depth inner) (head : TypeWritten c name choice.word d) :
    Meets (Read.choice options inner frame choice (String.ofList name) c.position) d
      (fun e f => Written options depth frame (.element e) c f)
      (Refused options ⟨depth, frame, c⟩) := by
  unfold Read.choice
  refine bind_position (bind_skipBlanks fun before c₁ hbefore => ?_)
  refine bind_accept (fun c₂ hcomma => ?_) fun hcomma => ?_
  · refine bind_skipBlanks fun after c₃ hafter => bind_identifier fun text c₄ hrun => ?_
    have comma : CommaWritten d c₃ := ⟨before, after, hbefore.all, hafter.all,
      hbefore.reads.append (hcomma.append hafter.reads)⟩
    refine Meets.bind ((meets_offset hrun).imp (fun _ _ h => h) ?_) ?_
    · rintro e ⟨hplural, he⟩
      exact refused_choice (.offset hplural head comma he)
    rintro ⟨n, text, span⟩ c₅ ⟨first, offset, hfirst, rfl⟩
    refine Meets.bind (meets_branches follows ⟨name, n, d, c₃, head, comma, offset, .noBranch⟩
      hfirst) ?_
    rintro list m ⟨begun, nonempty, distinct, other⟩
    refine bind_closeBrace (fun f hclose => ?_) fun hopen => ?_
    · obtain ⟨-, -, -, -, -, -, -, branches⟩ := begun
      exact bind_capture
        (meets_pure (.choice head comma offset branches nonempty distinct other hclose))
    · exact refused_choice (.unclosed begun hopen)
  · refine meets_failAt (refused_choice (.missingOptions head hbefore ?_))
    exact Cursor.current?_ne_of_accept? hcomma

/-! ## Tags -/

theorem bind_tagName {α : Type} {f : String → Read α} {ok : α → Cursor → Prop}
    {bad : ParseError → Prop}
    (h : ∀ name d, c.Run isTagNameChar name d → Meets (f (String.ofList name)) d ok bad) :
    Meets (tagName >>= f) c ok bad :=
  Meets.bind (P := fun text d => ∃ name, text = String.ofList name ∧ c.Run isTagNameChar name d)
    (bind_word fun name d hname => meets_pure ⟨name, rfl, hname⟩)
    (by rintro _ d ⟨name, rfl, hname⟩; exact h name d hname)

theorem isTagNameChar_of_letter {ch : Char} (h : isAsciiLetter ch = true) :
    isTagNameChar ch = true := by
  change (decide (65 ≤ ch.val ∧ ch.val ≤ 90) ||
    decide (97 ≤ ch.val) && decide (ch.val ≤ 122)) = true at h
  simp only [Bool.or_eq_true, Bool.and_eq_true, decide_eq_true_eq, UInt32.le_iff_toNat_le] at h
  change 65 ≤ ch.toNat ∧ ch.toNat ≤ 90 ∨ 97 ≤ ch.toNat ∧ ch.toNat ≤ 122 at h
  simp only [isTagNameChar, inRanges, tagNameRanges, List.any_cons, List.any_nil, Bool.or_eq_true,
    Bool.and_eq_true, decide_eq_true_eq, Bool.false_eq_true, or_false]
  omega

/-- A run of tag name characters that starts with a letter is a tag name. -/
theorem isTagName_of_run {name : List Char} {ch : Char} (run : c.Run isTagNameChar name d)
    (hch : c.current? = some ch) (letter : isAsciiLetter ch = true) : IsTagName name := by
  refine ⟨⟨ch, ?_, letter⟩, run.all⟩
  cases name with
  | nil =>
    have hends := run.ends ch (by rw [← run.reads.eq_of_nil]; exact hch)
    rw [isTagNameChar_of_letter letter] at hends
    cases hends
  | cons x name =>
    have := run.reads.current?_eq
    rw [hch] at this
    exact this.symm

theorem meets_closingTag {name : List Char} {m : Cursor}
    (begun : TagBegun options depth frame c name m) :
    Meets (closingTag (String.ofList name) c.position) m (fun _ d => ClosingTagWritten m name d)
      (TagFault options depth frame c) := by
  unfold closingTag
  refine bind_position (bind_accept (fun s hopen => ?_) fun hopen => ?_)
  · refine bind_position (bind_cursor ?_)
    split
    · next hletter =>
      obtain ⟨ch, hch, letter⟩ := (Option.any_eq_true _ _).1 hletter
      refine bind_tagName fun closing d hrun => ?_
      split
      · next hsame =>
        rw [String.ofList_inj] at hsame
        subst hsame
        refine bind_skipBlanks fun blanks f hblanks => ?_
        have reads : m.Reads ('<' :: '/' :: closing ++ blanks) f :=
          (hopen.append hrun.reads).append hblanks.reads
        refine bind_accept (fun g hbracket => ?_) fun hbracket => ?_
        · exact meets_pure ⟨blanks, hblanks.all, reads.append hbracket⟩
        · refine meets_failFrom (.unclosedClosing begun hblanks.all reads ?_)
          exact Cursor.current?_ne_of_accept? hbracket
      · next hdiffer =>
        refine meets_failFrom
          (.mismatched begun hopen (isTagName_of_run hrun hch letter) hrun ?_)
        rintro rfl
        exact hdiffer rfl
    · next hletter => exact meets_failFrom (.missingName begun hopen (by simpa using hletter))
  · exact meets_failFrom (.unclosed begun hopen)

theorem meets_afterTagName {inner : Option Inner} {name : List Char}
    (follows : Follows options depth inner) (tags : options.ignoreTag = false)
    (tagName : IsTagName name) (head : c.Reads ('<' :: name) d) :
    Meets (afterTagName options inner frame c.position (String.ofList name)) d
      (fun e f => Written options depth frame (.element e) c f)
      (Refused options ⟨depth, frame, c⟩) := by
  unfold afterTagName
  refine bind_skipBlanks fun blanks c₁ hblanks => ?_
  have reads : c.Reads ('<' :: name ++ blanks) c₁ := head.append hblanks.reads
  refine bind_accept (fun f hslash => ?_) fun _ => ?_
  · exact bind_capture (meets_pure (.selfClosing tags tagName hblanks.all (reads.append hslash)))
  refine bind_accept (fun c₂ hbracket => ?_) fun hbracket => ?_
  · have opening : OpeningTagWritten c name c₂ :=
      ⟨blanks, tagName, hblanks.all, reads.append hbracket⟩
    refine bind_enter follows (fun limit => ?_) fun below read hdepth meets => ?_
    · exact refused_here (.tag (.nesting limit opening))
    subst hdepth
    refine Meets.bind ((meets _ c₂).imp (fun _ _ h => h) fun e => ?_) fun es m children => ?_
    · exact refused_step (.enterTag opening)
    refine Meets.bind ((meets_closingTag ⟨below, c₂, es, rfl, opening, children⟩).imp
      (fun _ _ h => h) fun e he => refused_here (.tag he)) fun _ f closing => ?_
    exact bind_capture (meets_pure (.tag tags opening children closing))
  · refine meets_failFrom (refused_here (.tag (.unclosedOpening tagName hblanks.all reads ?_)))
    exact Cursor.current?_ne_of_accept? hbracket

theorem meets_tag {inner : Option Inner} (follows : Follows options depth inner)
    (peek : Token.peek (frame.context options) c.rest = .tagStart) :
    Meets (tag options inner frame) c
      (fun e f => Written options depth frame (.element e) c f)
      (Refused options ⟨depth, frame, c⟩) := by
  have hpeek := Token.peek_cases (frame.context options) c.rest
  rw [peek] at hpeek
  obtain ⟨tags, ch, tail, hrest, letter⟩ := hpeek
  have hopen : c.Reads ['<'] c.next := Cursor.reads_next (by rw [Cursor.current?, hrest]; rfl)
  have hch : c.next.current? = some ch := by
    have hnext : '<' :: ch :: tail = '<' :: c.next.rest := hrest.symm.trans hopen.1
    rw [Cursor.current?, ← (List.cons.inj hnext).2]
    rfl
  unfold tag
  refine bind_position (bind_next (bind_tagName fun name d hrun => bind_cursor ?_))
  have tagName := isTagName_of_run hrun hch letter
  have head : c.Reads ('<' :: name) d := hopen.append hrun.reads
  split
  · exact meets_afterTagName follows tags tagName head
  · next x hx =>
    split
    · exact meets_afterTagName follows tags tagName head
    · next hinvalid =>
      refine bind_next (meets_failFrom (refused_here (.tag (.invalidName tagName ?_ ?_))))
      · simpa using hinvalid
      · exact head.append (Cursor.reads_next hx)

/-! ## Arguments -/

theorem meets_typedArgument {inner : Option Inner} {name : List Char}
    (follows : Follows options depth inner) (head : TypeWritten c name [] d) :
    Meets (typedArgument options inner frame (String.ofList name) c.position) d
      (fun e f => Written options depth frame (.element e) c f)
      (Refused options ⟨depth, frame, c⟩) := by
  unfold typedArgument
  refine bind_identifier fun word m hrun => ?_
  have typed : ∀ {text : String}, String.ofList word = text →
      TypeWritten c name text.toList m := by
    rintro _ rfl
    obtain ⟨m', blanks, hname, hblanks, reads⟩ := head
    refine ⟨m', blanks, hname, hblanks, ?_⟩
    simpa using reads.append hrun.reads
  dsimp only
  split
  · next hword =>
    have hempty : word = [] := by simpa using hword
    subst hempty
    obtain rfl := hrun.reads.eq_of_nil
    exact meets_failAt (refused_here (.argument (.missingType head hrun.ends)))
  · next hword =>
    refine Meets.bind ((meets_styled (computes_numberPattern options) options c).imp
      (fun _ _ h => h) fun e he => refused_here (.argument (.number (typed hword) he))) ?_
    rintro ⟨style, span⟩ f ⟨text, m', written, close, value, rfl⟩
    exact meets_pure (.number (typed hword) written close value)
  · next hword =>
    refine Meets.bind ((meets_styled (computes_dateTimePattern options) options c).imp
      (fun _ _ h => h)
      fun e he => refused_here (.argument (.dateTime (.inl rfl) (typed hword) he))) ?_
    rintro ⟨style, span⟩ f ⟨text, m', written, close, value, rfl⟩
    exact meets_pure (.date (typed hword) written close value)
  · next hword =>
    refine Meets.bind ((meets_styled (computes_dateTimePattern options) options c).imp
      (fun _ _ h => h)
      fun e he => refused_here (.argument (.dateTime (.inr rfl) (typed hword) he))) ?_
    rintro ⟨style, span⟩ f ⟨text, m', written, close, value, rfl⟩
    exact meets_pure (.time (typed hword) written close value)
  · next hword => exact meets_choice (.plural .cardinal) follows (typed hword)
  · next hword => exact meets_choice (.plural .ordinal) follows (typed hword)
  · next hword => exact meets_choice .select follows (typed hword)
  · next hempty hnumber hdate htime hplural hordinal hselect =>
    refine meets_failAt (refused_here (.argument (.invalidType head hrun ?_ ?_)))
    · rintro rfl
      exact hempty rfl
    · simp only [List.mem_cons, List.not_mem_nil, or_false, not_or]
      exact ⟨hnumber, hdate, htime, hplural, hordinal, hselect⟩

theorem meets_afterName {inner : Option Inner} {name before : List Char}
    (follows : Follows options depth inner) (isName : IsIdentifier name)
    (blank : IsBlank before) (head : c.Reads ('{' :: before ++ name) d) :
    Meets (afterName options inner frame (String.ofList name) c.position) d
      (fun e f => Written options depth frame (.element e) c f)
      (Refused options ⟨depth, frame, c⟩) := by
  unfold afterName
  refine bind_skipBlanks fun after m hafter => bind_cursor ?_
  have written : NameWritten c name m :=
    ⟨before, after, blank, hafter.all, isName, head.append hafter.reads⟩
  split
  · next hend =>
    rw [Cursor.current?_eq_none_iff] at hend
    exact meets_failFrom (refused_here (.argument (.unclosedName written hend)))
  · next ch hch =>
    have hnext := Cursor.reads_next hch
    apply bind_next
    split
    · next hbrace =>
      subst hbrace
      exact bind_capture (meets_pure (.argument written hnext))
    · next hbrace =>
      split
      · next hcomma =>
        subst hcomma
        refine bind_skipBlanks fun blanks f hblanks => bind_cursor ?_
        have typed : TypeWritten c name [] f :=
          ⟨m, blanks, written, hblanks.all, by simpa using hnext.append hblanks.reads⟩
        split
        · next hend =>
          rw [Cursor.isAtEnd_iff] at hend
          exact meets_failFrom (refused_here (.argument (.unclosedComma typed hend)))
        · exact meets_typedArgument follows typed
      · next hcomma =>
        exact meets_failFrom (refused_here (.argument (.malformed written hbrace hcomma hnext)))

theorem meets_argument {inner : Option Inner} (follows : Follows options depth inner)
    (opens : c.current? = some '{') :
    Meets (argument options inner frame) c
      (fun e f => Written options depth frame (.element e) c f)
      (Refused options ⟨depth, frame, c⟩) := by
  unfold argument
  refine bind_position (bind_next (bind_skipBlanks fun blanks m hblanks => bind_cursor ?_))
  have head : c.Reads ('{' :: blanks) m := (Cursor.reads_next opens).append hblanks.reads
  split
  · next hend =>
    rw [Cursor.current?_eq_none_iff] at hend
    exact meets_failFrom (refused_here (.argument (.unclosed hblanks.all head hend)))
  · next ch hch =>
    have hnext := Cursor.reads_next hch
    split
    · next hbrace =>
      subst hbrace
      refine bind_next (meets_failFrom (refused_here (.argument (.empty hblanks.all ?_))))
      exact head.append hnext
    · refine bind_identifier fun name f hname => ?_
      dsimp only
      split
      · next hempty =>
        rw [List.isEmpty_iff] at hempty
        subst hempty
        obtain rfl := hname.reads.eq_of_nil
        refine bind_next (meets_failFrom (refused_here (.argument
          (.invalidNameCharacter hblanks.all (hname.ends ch hch) ?_))))
        exact head.append hnext
      · next hempty =>
        exact meets_afterName follows ⟨by simpa using hempty, hname.all⟩ hblanks.all
          (head.append hname.reads)

/-! ## Messages -/

theorem meets_element? {inner : Option Inner} (follows : Follows options depth inner) :
    Meets (element? options inner frame) c
      (fun read d => match read with
        | none => d = c ∧ frame.Stops options c.rest
        | some e => Written options depth frame (.element e) c d)
      (Refused options ⟨depth, frame, c⟩) := by
  unfold element?
  apply bind_cursor
  have hcases := Token.peek_cases (frame.context options) c.rest
  have hcontext : (⟨frame.inPlural, options.ignoreTag⟩ : TextContext) = frame.context options :=
    rfl
  rw [hcontext]
  cases hpeek : Token.peek (frame.context options) c.rest with
  | endOfText =>
    refine meets_pure ⟨rfl, ?_⟩
    rw [Frame.Stops, hpeek]
    trivial
  | text =>
    refine Meets.bind (P := fun e d => Written options depth frame (.element e) c d) ?_
      fun e d he => meets_pure he
    refine bind_position (bind_moving (bind_capture (meets_pure ?_)))
    exact .literal hpeek rfl
  | argumentStart =>
    rw [hpeek] at hcases
    obtain ⟨tail, hrest⟩ := hcases
    refine Meets.bind (meets_argument follows ?_) fun e d he => meets_pure he
    rw [Cursor.current?, hrest]
    rfl
  | closeBrace =>
    rw [hpeek] at hcases
    obtain ⟨tail, hrest⟩ := hcases
    dsimp only
    split
    · next hinside =>
      refine meets_pure ⟨rfl, ?_⟩
      rw [Frame.Stops, hpeek]
      exact hinside
    · next houtside =>
      refine bind_position (bind_next (meets_failFrom (refused_here (.unmatchedBrace ?_ ?_))))
      · simpa using houtside
      · exact Cursor.reads_next (by rw [Cursor.current?, hrest]; rfl)
  | pound =>
    rw [hpeek] at hcases
    obtain ⟨hplural, tail, hrest⟩ := hcases
    refine Meets.bind (P := fun e d => Written options depth frame (.element e) c d) ?_
      fun e d he => meets_pure he
    refine bind_position (bind_next (bind_capture (meets_pure (.pound hplural ?_))))
    exact Cursor.reads_next (by rw [Cursor.current?, hrest]; rfl)
  | tagStart =>
    exact Meets.bind (meets_tag follows hpeek) fun e d he => meets_pure he
  | closingTagStart =>
    rw [hpeek] at hcases
    obtain ⟨-, tail, hrest⟩ := hcases
    dsimp only
    split
    · next hinside =>
      refine meets_pure ⟨rfl, ?_⟩
      rw [Frame.Stops, hpeek]
      exact hinside
    · next houtside =>
      have outside : frame.inTag = false := by simpa using houtside
      refine bind_position (bind_accept (fun c₁ hopen => ?_) fun hopen => ?_)
      · refine bind_tagName fun name m hname => ?_
        refine bind_accept (fun d hbracket => ?_) fun _ => ?_
        · exact meets_failFrom (refused_here (.unexpectedClosingTag outside
            (hopen.append hname.reads) hname.ends (.inl hbracket)))
        · exact meets_failFrom (refused_here (.unexpectedClosingTag outside
            (hopen.append hname.reads) hname.ends (.inr rfl)))
      · have hreads : c.Reads ['<', '/'] ⟨tail, c.position.advanceAll ['<', '/']⟩ := ⟨hrest, rfl⟩
        rw [hreads.accept?] at hopen
        cases hopen

theorem meets_elements {inner : Option Inner} (follows : Follows options depth inner) {n : Nat}
    (bound : c.rest.length ≤ n) :
    Meets (elements options inner frame n) c
      (fun es d => Written options depth frame (.message es) c d)
      (Refused options ⟨depth, frame, c⟩) := by
  induction n generalizing c with
  | zero =>
    have hrest : c.rest = [] := List.eq_nil_of_length_eq_zero (Nat.le_zero.1 bound)
    refine meets_pure (.nil ?_)
    rw [Frame.Stops, hrest]
    trivial
  | succ n ih =>
    rw [elements]
    refine Meets.bind (meets_element? follows) ?_
    rintro (_ | e) d hread
    · obtain ⟨rfl, stops⟩ := hread
      exact meets_pure (.nil stops)
    · have hlt := Written.length_lt hread
      refine Meets.bind ((ih (by omega)).imp (fun _ _ h => h) fun err => ?_) fun es f hes => ?_
      · exact refused_step (.pass hread)
      · exact meets_pure (.cons hread hes)

/-- Whole messages are read as they are written, and refused where they are at fault. -/
theorem meets_message (options : Options) (depth : Nat) (frame : Frame) (c : Cursor) :
    Meets (message options depth frame) c
      (fun es d => Written options depth frame (.message es) c d)
      (Refused options ⟨depth, frame, c⟩) := by
  induction depth generalizing frame c with
  | zero => exact bind_cursor (meets_elements .none (Nat.le_refl _))
  | succ depth ih => exact bind_cursor (meets_elements (.some ih) (Nat.le_refl _))

end Read

/-! ## Whole texts -/

/-- The place before the first character of a text. -/
def Place.start (options : Options) (text : String) : Place :=
  ⟨options.maxNestingDepth, {}, .ofString text⟩

/-- A text is read as a message if something about the message can be computed from the text. -/
theorem exists_parse_of_map {options : Options} {text : String} {α : Type} {g : Message → α}
    {v : α} (h : (parse options text).toOption.map g = some v) :
    ∃ m, parse options text = .ok m ∧ g m = v := by
  cases hparse : parse options text with
  | error e =>
    rw [hparse] at h
    cases h
  | ok m =>
    rw [hparse] at h
    exact ⟨m, rfl, Option.some.inj h⟩

/-- A text is read as a message if it is read as some number of elements. -/
theorem exists_parse_eq_ok (options : Options) (text : String) (n : Nat)
    (h : (parse options text).toOption.map (fun m => m.elements.length) = some n) :
    ∃ m, parse options text = .ok m ∧ m.elements.length = n :=
  exists_parse_of_map h

/-- What a text is read as is written in it, up to its end. -/
theorem written_of_parse {options : Options} {text : String} {m : Message}
    (h : parse options text = .ok m) :
    ∃ d, Written options options.maxNestingDepth {} (.message m.elements) (.ofString text) d ∧
      m.span = ⟨.start, d.position⟩ := by
  rw [parse, parseTraced] at h
  split at h
  · next elements s hrun =>
    cases h
    exact ⟨s.cursor, (Read.meets_message _ _ _ _).of_ok hrun, rfl⟩
  · cases h

/-- The error of a text is found at a place that reading leads to. -/
theorem refused_of_parse {options : Options} {text : String} {e : ParseError}
    (h : parse options text = .error e) : Refused options (.start options text) e := by
  rw [parse, parseTraced] at h
  split at h
  · cases h
  · next hrun =>
    cases h
    exact (Read.meets_message _ _ _ _).of_error hrun

end MessageFormat
