import MessageFormat.Proofs.Progress.Turns

/-!
# How deep reading goes

A message is read with the reader of the next level in hand.  The reader is only called behind the
place where the message begins: two readers that do the same there cannot be told apart
(`Read.same_level`).  So every call starts later in the text than the call around it, and calls are
not nested more deeply than there are bytes to start at.

`Read.Calls` says what a call is without a look at the code around it: reading calls the reader of
the next level from a cursor if it fails as soon as that reader fails there, with whatever error.
`Read.budgeted` reads messages with a limited number of nested calls and does something else when
they are used up.
-/

namespace MessageFormat

namespace Read

variable {α β : Type} {options : Options} {depth : Nat} {frame : Frame} {c start : Cursor}

/-! ## Behind a cursor -/

/-- Behind `start` there is no difference to be seen between the two actions. -/
def SameBehind (start : Cursor) (x y : Read α) : Prop := ∀ c, start.Passes c → Same x y c

namespace SameBehind

variable {x y : Read α} {f g : α → Read β}

theorem refl (x : Read α) : SameBehind start x x := fun c _ => .refl x c

theorem bind (hxy : SameBehind start x y) (hx : Moves x)
    (hfg : ∀ a, SameBehind start (f a) (g a)) : SameBehind start (x >>= f) (y >>= g) :=
  fun c hc => (hxy c hc).bind (hx c) fun a d hd => hfg a d (hc.reach hd)

/-- An action of both sequences, in front of two others. -/
theorem after (hx : Moves x) (hfg : ∀ a, SameBehind start (f a) (g a)) :
    SameBehind start (x >>= f) (x >>= g) :=
  (refl x).bind hx hfg

/-- The same action after two that are the same. -/
theorem followed (hxy : SameBehind start x y) (f : α → Read β) :
    SameBehind start (x >>= f) (y >>= f) :=
  fun c hc => (hxy c hc).followed f

end SameBehind

/-- What is read behind the next character. -/
theorem same_next {f g : Position → Unit → Read α} (hc : start.Passes c.next)
    (hfg : ∀ opening, SameBehind start (f opening ()) (g opening ())) :
    Same (position >>= fun opening => next >>= f opening)
      (position >>= fun opening => next >>= g opening) c :=
  fun events => hfg c.position c.next hc events

/-! ## The reader of the next level -/

/-- Two readers that do the same behind `start`, of which the first follows the grammar. -/
structure Alike (options : Options) (depth : Nat) (start : Cursor) (read read' : Inner) : Prop where
  follows : Follows options (depth + 1) (some read)
  same : ∀ frame, SameBehind start (read frame) (read' frame)

variable {read read' : Inner}

theorem same_branch {choice : Choice} {earlier : List Branch} {selector : String} {span : Span}
    (alike : Alike options depth start read read') :
    SameBehind start (branch options (some read) frame choice earlier selector span)
      (branch options (some read') frame choice earlier selector span) := by
  unfold branch
  split
  · exact .refl _
  refine .after moves_skipBlanks fun _ => .after moves_position fun opening => ?_
  refine .after moves_accept fun opened => ?_
  split
  · exact (alike.same _).followed _
  · exact .refl _

theorem moves_branch {inner : Option Inner} {choice : Choice} {earlier : List Branch}
    {selector : String} {span : Span} (follows : Follows options depth inner) :
    Moves (branch options inner frame choice earlier selector span) :=
  fun _ => (passes_branch follows).imp (fun _ _ h => h.reaches) fun _ h => h

theorem same_branchesFrom {choice : Choice} (alike : Alike options depth start read read') (n : Nat)
    (earlier : List Branch) (first : List Char × Span) :
    SameBehind start (branchesFrom options (some read) frame choice n earlier first)
      (branchesFrom options (some read') frame choice n earlier first) := by
  induction n generalizing earlier first with
  | zero => exact .refl _
  | succ n ih =>
    refine .after moves_selector? fun selected => ?_
    cases selected with
    | none => exact .refl _
    | some selected =>
      refine (same_branch alike).bind (moves_branch alike.follows) fun b => ?_
      exact .after moves_skipBlanks fun _ => .after moves_identifier fun next => ih _ next

theorem same_branches {choice : Choice} {first : List Char × Span}
    (alike : Alike options depth start read read') :
    SameBehind start (branches options (some read) frame choice first)
      (branches options (some read') frame choice first) :=
  .after moves_cursor fun _ => (same_branchesFrom alike _ [] first).followed _

theorem moves_offset {choice : Choice} {first : List Char × Span} :
    Moves (offset choice first) := by
  unfold offset
  split
  · refine moves_accept.bind fun colon => ?_
    cases colon with
    | false => exact moves_failHere
    | true =>
      refine moves_skipBlanks.bind fun _ => moves_integer.bind fun n => ?_
      split
      · exact moves_skipBlanks.bind fun _ => moves_identifier.bind fun word => moves_pure _
      · exact moves_failAt
  · exact moves_pure _

theorem same_choice (choice : Choice) {name : String} {opening : Position}
    (alike : Alike options depth start read read') :
    SameBehind start (Read.choice options (some read) frame choice name opening)
      (Read.choice options (some read') frame choice name opening) := by
  unfold Read.choice
  refine .after moves_position fun typeEnd => .after moves_skipBlanks fun _ => ?_
  refine .after moves_accept fun comma => ?_
  split
  · refine .after moves_skipBlanks fun _ => .after moves_identifier fun word => ?_
    exact .after moves_offset fun _ => (same_branches alike).followed _
  · exact .refl _

/-! ## Arguments and tags -/

theorem same_typedArgument {name : String} {opening : Position}
    (alike : Alike options depth start read read') :
    SameBehind start (typedArgument options (some read) frame name opening)
      (typedArgument options (some read') frame name opening) := by
  refine .after moves_identifier fun word => ?_
  obtain ⟨type, span⟩ := word
  dsimp only
  generalize String.ofList type = word
  split
  · exact .refl _
  · exact .refl _
  · exact .refl _
  · exact .refl _
  · exact same_choice (.plural .cardinal) alike
  · exact same_choice (.plural .ordinal) alike
  · exact same_choice .select alike
  · exact .refl _

theorem same_afterName {name : String} {opening : Position}
    (alike : Alike options depth start read read') :
    SameBehind start (afterName options (some read) frame name opening)
      (afterName options (some read') frame name opening) := by
  refine .after moves_skipBlanks fun _ => .after moves_cursor fun d => ?_
  cases d.current? with
  | none => exact .refl _
  | some ch =>
    refine .after moves_next fun _ => ?_
    split
    · exact .refl _
    split
    · refine .after moves_skipBlanks fun _ => .after moves_cursor fun d => ?_
      split
      · exact .refl _
      · exact same_typedArgument alike
    · exact .refl _

/-- Behind its first character an argument is read behind the place where it begins. -/
theorem same_argument (alike : Alike options depth start read read') (hc : start.Passes c.next) :
    Same (argument options (some read) frame) (argument options (some read') frame) c := by
  refine same_next hc fun opening => .after moves_skipBlanks fun _ => ?_
  refine .after moves_cursor fun d => ?_
  cases d.current? with
  | none => exact .refl _
  | some ch =>
    dsimp only
    split
    · exact .refl _
    refine .after moves_identifier fun word => ?_
    split
    · exact .refl _
    · exact same_afterName alike

theorem same_afterTagName {opening : Position} {name : String}
    (alike : Alike options depth start read read') :
    SameBehind start (afterTagName options (some read) frame opening name)
      (afterTagName options (some read') frame opening name) := by
  refine .after moves_skipBlanks fun _ => .after moves_accept fun closed => ?_
  split
  · exact .refl _
  refine .after moves_accept fun opened => ?_
  split
  · exact (alike.same _).followed _
  · exact .refl _

theorem moves_tagName : Moves tagName := moves_word.bind fun _ => moves_pure _

theorem same_tag (alike : Alike options depth start read read') (hc : start.Passes c.next) :
    Same (tag options (some read) frame) (tag options (some read') frame) c := by
  refine same_next hc fun opening => .after moves_tagName fun name => ?_
  refine .after moves_cursor fun d => ?_
  cases d.current? with
  | none => exact same_afterTagName alike
  | some ch =>
    dsimp only
    split
    · exact same_afterTagName alike
    · exact .refl _

/-! ## Messages -/

theorem same_element? (alike : Alike options depth start read read') (hc : start.Reaches c) :
    Same (element? options (some read) frame) (element? options (some read') frame) c := by
  refine .at_cursor ?_
  have hcases := Token.peek_cases ⟨frame.inPlural, options.ignoreTag⟩ c.rest
  cases hpeek : Token.peek ⟨frame.inPlural, options.ignoreTag⟩ c.rest with
  | endOfText | closeBrace | pound | closingTagStart | text => exact .refl _ c
  | argumentStart =>
    rw [hpeek] at hcases
    obtain ⟨tail, hrest⟩ := hcases
    have hopens : c.current? = some '{' := by rw [Cursor.current?, hrest]; rfl
    exact (same_argument alike (hc.passes (Cursor.passes_next hopens))).followed _
  | tagStart =>
    rw [hpeek] at hcases
    obtain ⟨-, ch, tail, hrest, -⟩ := hcases
    have hopens : c.current? = some '<' := by rw [Cursor.current?, hrest]; rfl
    exact (same_tag alike (hc.passes (Cursor.passes_next hopens))).followed _

theorem same_elements (alike : Alike options depth start read read') (hc : start.Reaches c)
    (n : Nat) :
    Same (elements options (some read) frame n) (elements options (some read') frame n) c := by
  induction n generalizing c with
  | zero => exact .refl _ c
  | succ n ih =>
    refine (same_element? alike hc).bind (passes_element? alike.follows) fun found d hd => ?_
    cases found with
    | none => exact .refl _ d
    | some e => exact (ih (hc.trans (hd e rfl).reaches)).followed _

/-- The reader of the next level is only called behind the place where the message begins. -/
theorem same_level (alike : Alike options depth c read read') :
    Same (level options (some read) frame) (level options (some read') frame) c :=
  same_elements alike (.refl c) c.rest.length

/-! ## Calls -/

/-- The reader, except that it fails with the error `e` in one frame and at one cursor. -/
def failingAt (read : Inner) (frame : Frame) (c : Cursor) (e : ParseError) : Inner :=
  fun frame' s => if frame' = frame ∧ s.cursor = c then .error e s else read frame' s

/-- Reading a message in `frame` from `c`, below which `depth + 1` levels may be nested, calls the
reader of the next level in `frame'` from `d`: whatever the call fails with, reading fails with. -/
def Calls (options : Options) (depth : Nat) (frame : Frame) (c : Cursor) (frame' : Frame)
    (d : Cursor) : Prop :=
  ∀ e, Meets (level options (some (failingAt (message options depth) frame' d e)) frame) c
    (fun _ _ => False) (· = e)

/-- Every call starts behind the place where the call around it has started. -/
theorem Calls.passes {frame' : Frame} {d : Cursor}
    (calls : Calls options depth frame c frame' d) : c.Passes d := by
  by_contra hnot
  -- Otherwise it would not be seen with which error the call fails.
  have hfails : ∀ e, Meets (level options (some (message options depth)) frame) c
      (fun _ _ => False) (· = e) := by
    intro e
    refine Same.meets (same_level ⟨follows_below options (depth + 1), ?_⟩) (calls e)
    intro frame'' m hm events
    rw [failingAt, if_neg]
    rintro ⟨-, rfl⟩
    exact hnot hm
  have hbrace := hfails ⟨.unmatchedBrace, c.here⟩ []
  have hempty := hfails ⟨.emptyArgument, c.here⟩ []
  cases hrun : level options (some (message options depth)) frame ⟨c, []⟩ with
  | ok es s =>
    rw [hrun] at hbrace
    exact hbrace
  | error e s =>
    rw [hrun] at hbrace hempty
    cases hbrace.symm.trans hempty

/-- A message that begins with an opening tag calls the reader of the next level behind it. -/
theorem calls_tag {name : List Char} {d : Cursor} (tags : options.ignoreTag = false)
    (opening : OpeningTagWritten c name d) : Calls options depth frame c frame.tag d := by
  intro e
  have hlt := opening.length_lt
  obtain ⟨n, hn⟩ : ∃ n, c.rest.length = n + 1 := Nat.exists_eq_add_one.2 (by omega)
  obtain ⟨blanks, tagName, blank, reads⟩ := opening
  obtain ⟨m, head, bracket⟩ := reads.split
  have hslash : m.accept? ['/', '>'] = none :=
    Cursor.accept?_eq_none (by rw [bracket.current?_eq]; decide)
  unfold level
  apply bind_cursor
  rw [hn, elements, element?]
  apply Meets.bind_fails
  apply bind_cursor
  rw [peek_of_tag tags tagName head]
  apply Meets.bind_fails
  refine meets_tag_of_name tagName blank head bracket (.inr rfl) fun s hrun => ?_
  refine (gives_skipBlanks hrun).bind ((gives_accept_false hslash).bind ?_)
  refine (gives_accept bracket).bind ((gives_pure _ d).bind (Meets.bind_fails ?_))
  intro events
  rw [failingAt, if_pos ⟨rfl, rfl⟩]

/-- `n` calls are nested in one another, the first of which reads a message in `frame` from `c`. -/
inductive Nested (options : Options) : (depth : Nat) → Frame → Cursor → (n : Nat) → Prop
  | one {depth : Nat} {frame : Frame} {c : Cursor} : Nested options depth frame c 1
  | more {depth n : Nat} {frame frame' : Frame} {c d : Cursor}
      (calls : Calls options depth frame c frame' d) (nested : Nested options depth frame' d n) :
      Nested options (depth + 1) frame c (n + 1)

theorem Nested.le {n : Nat} (h : Nested options depth frame c n) :
    n ≤ 1 + min depth (byteSize c.rest) := by
  induction h with
  | one => omega
  | more calls _ ih =>
    have hlt := calls.passes.byteSize_lt
    omega

/-- Reads a message with a budget for nested calls, this one included.  `exhausted` takes the place
of a call that the budget does not cover. -/
def budgeted (options : Options) (exhausted : Inner) : (budget depth : Nat) → Inner
  | 0, _ => exhausted
  | _ + 1, 0 => level options none
  | budget + 1, depth + 1 => level options (some (budgeted options exhausted budget depth))

/-- A budget for more calls than there are levels allowed or bytes left is not exhausted. -/
theorem same_budgeted {exhausted : Inner} {budget : Nat}
    (h : min depth (byteSize c.rest) < budget) :
    Same (message options depth frame) (budgeted options exhausted budget depth frame) c := by
  induction budget generalizing depth frame c with
  | zero => exact absurd h (Nat.not_lt_zero _)
  | succ budget ih =>
    cases depth with
    | zero => exact .refl _ c
    | succ depth =>
      refine same_level ⟨follows_below options (depth + 1), fun frame' d hd => ih ?_⟩
      have hlt := hd.byteSize_lt
      omega

end Read

/-! ## Results -/

open Read

/-- Reading a source with some options makes progress.  Each of the four loops of the reader gets
ahead with every turn that goes on.  Each call for a message inside of another one starts later than
the call around it, and so calls are not nested more deeply than the source is long. -/
structure Progress (options : Options) (source : String) : Prop where
  /-- The elements of a message. -/
  elements : ∀ depth frame, Loops source (elementTurn options (below options depth) frame) []
    (message options depth frame)
  /-- The branches of a plural or select argument. -/
  branches : ∀ depth frame choice (first : List Char × Span),
    Loops source (branchTurn options (below options depth) frame choice first.2.start) ([], first)
      (Read.branches options (below options depth) frame choice first)
  /-- The text of a style. -/
  style : Loops source styleTurn ([], 0) styleText
  /-- A run of literal text. -/
  literal : ∀ context, Loops source (literalTurn context) [] (moving (Literal.scan context))
  /-- The calls for the messages inside of a message. -/
  calls : ∀ depth frame frame' c d, c.In source → Calls options depth frame c frame' d →
    c.Onward source d
  /-- What the reader of the next level does at no larger offset makes no difference. -/
  later : ∀ depth frame c read, c.In source →
    (∀ frame' d, d.In source → c.Onward source d →
      Same (message options depth frame') (read frame') d) →
    Same (message options (depth + 1) frame) (level options (some read) frame) c
  /-- The number of calls that are nested in one another. -/
  nested : ∀ n, Nested options options.maxNestingDepth {} (.ofString source) n →
    n ≤ 1 + min options.maxNestingDepth source.utf8ByteSize
  /-- A budget for nested calls that covers this number. -/
  budget : ∀ exhausted budget, 1 + min options.maxNestingDepth source.utf8ByteSize ≤ budget →
    Same (message options options.maxNestingDepth {})
      (budgeted options exhausted budget options.maxNestingDepth {}) (.ofString source)

/-- Reading makes progress and ends, for every text and with all options. -/
theorem parse_progress (options : Options) (source : String) : Progress options source where
  elements := loops_message source options
  branches depth frame choice first :=
    loops_branches source choice first (follows_below options depth)
  style := loops_styleText source
  literal := loops_literal source
  calls _ _ _ _ _ hc calls := calls.passes.onward hc
  later depth frame c read hc same :=
    same_level ⟨follows_below options (depth + 1), fun frame' d hd =>
      same frame' d (hc.reaches hd.reaches) (hd.onward hc)⟩
  nested n h := by
    have hle := h.le
    rwa [Cursor.ofString, byteSize_toList] at hle
  budget exhausted budget h := by
    refine same_budgeted ?_
    rw [Cursor.ofString, byteSize_toList]
    omega

/-- Two tags, one inside of the other, are three calls, as many as the limit allows. -/
theorem parse_progress_tags :
    Nested { maxNestingDepth := 2 } 2 {} (.ofString "<b><i></i></b>") 3 ∧
      3 ≤ 1 + min 2 "<b><i></i></b>".utf8ByteSize := by
  have outer : OpeningTagWritten (.ofString "<b><i></i></b>") "b".toList
      ⟨"<i></i></b>".toList, ⟨3, 1, 4⟩⟩ := ⟨[], by decide, by decide, by decide, by decide⟩
  have inner : OpeningTagWritten ⟨"<i></i></b>".toList, ⟨3, 1, 4⟩⟩ "i".toList
      ⟨"</i></b>".toList, ⟨6, 1, 7⟩⟩ := ⟨[], by decide, by decide, by decide, by decide⟩
  have nested : Nested { maxNestingDepth := 2 } 2 {} (.ofString "<b><i></i></b>") 3 :=
    .more (calls_tag rfl outer) (.more (calls_tag rfl inner) .one)
  exact ⟨nested, (parse_progress { maxNestingDepth := 2 } "<b><i></i></b>").nested 3 nested⟩

end MessageFormat
