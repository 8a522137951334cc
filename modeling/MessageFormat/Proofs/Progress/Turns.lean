import MessageFormat.Proofs.Positions
import MessageFormat.Proofs.Progress.Loops
import MessageFormat.Proofs.Rendering.ReadBack

/-!
# The loops of the reader

Four parts of a message are read in a loop: its elements, the branches of an argument, the text of a
style and a run of literal text.  Here each of the four actions is shown to be the loop of its turn,
in the sense of `Read.Loops`.  A turn reads an element, a branch with the word after it, or one
character, quotations being taken as a whole.

The turns of the first two loops read messages in turn.  That these do not go back follows from the
grammar, and so the reader of the next level is only asked to follow it (`Read.Follows`).
-/

namespace MessageFormat

/-! ## Literal text -/

namespace Literal

/-- Reads a quotation, from behind its first character up to its end. -/
def quotation : List Char → Position → List Char × Cursor
  | [], p => ([], ⟨[], p⟩)
  | '\'' :: '\'' :: rest, p => keep '\'' (quotation rest ((p.advance '\'').advance '\''))
  | '\'' :: rest, p => ([], ⟨rest, p.advance '\''⟩)
  | ch :: rest, p => keep ch (quotation rest (p.advance ch))

/-- One turn in reading literal text: two apostrophes, a quotation or one character. -/
def turn (context : TextContext) : Cursor → Option (List Char × Cursor)
  | ⟨[], _⟩ => none
  | ⟨'\'' :: '\'' :: rest, p⟩ => some (['\''], ⟨rest, (p.advance '\'').advance '\''⟩)
  | ⟨'\'' :: ch :: rest, p⟩ =>
    if isQuotable context ch then
      some (keep ch (quotation rest ((p.advance '\'').advance ch)))
    else some (['\''], ⟨ch :: rest, p.advance '\''⟩)
  | ⟨ch :: rest, p⟩ => if goesOn context ch rest then some ([ch], ⟨rest, p.advance ch⟩) else none

theorem quotation_reaches (rest : List Char) (p : Position) :
    Cursor.Reaches ⟨rest, p⟩ (quotation rest p).2 := by
  fun_induction quotation rest p with
  | case1 p => exact .refl _
  | case2 rest p ih => exact .trans ⟨['\'', '\''], rfl, rfl⟩ ih
  | case3 rest p _ => exact ⟨['\''], rfl, rfl⟩
  | case4 ch rest p _ _ ih => exact .trans ⟨[ch], rfl, rfl⟩ ih

/-- Behind a quotation reading goes on outside of it. -/
theorem scanFrom_quotation (context : TextContext) (rest : List Char) (p : Position) :
    scanFrom context true rest p =
      ((quotation rest p).1 ++ (scan context (quotation rest p).2).1,
        (scan context (quotation rest p).2).2) := by
  fun_induction quotation rest p with
  | case1 p => rfl
  | case2 rest p ih => simp [scanFrom, ih, keep]
  | case3 rest p hlone =>
    rw [scanFrom.eq_3 _ _ _ hlone]
    rfl
  | case4 ch rest p htwo hone ih =>
    rw [scanFrom.eq_4 _ _ _ _ htwo hone, ih]
    rfl

theorem turn_passes {context : TextContext} {c d : Cursor} {text : List Char}
    (h : turn context c = some (text, d)) : c.Passes d := by
  revert h
  fun_cases turn context c with
  | case1 => exact nofun
  | case2 rest p =>
    rintro ⟨⟩
    exact (Cursor.passes_next rfl).reach ⟨['\''], rfl, rfl⟩
  | case3 ch rest p _ _ =>
    rintro ⟨⟩
    exact (Cursor.passes_next rfl).reach (.trans ⟨[ch], rfl, rfl⟩ (quotation_reaches _ _))
  | case4 ch rest p _ _ =>
    rintro ⟨⟩
    exact Cursor.passes_next rfl
  | case5 ch rest p _ _ _ =>
    rintro ⟨⟩
    exact Cursor.passes_next rfl
  | case6 => exact nofun

/-- Literal text is read turn by turn. -/
theorem scan_eq_turn (context : TextContext) (c : Cursor) :
    scan context c =
      match turn context c with
      | none => ([], c)
      | some (text, d) => (text ++ (scan context d).1, (scan context d).2) := by
  fun_cases turn context c with
  | case1 => rfl
  | case2 rest p => rfl
  | case3 ch rest p hne hquotable =>
    rw [scan, scanFrom.eq_6 _ _ _ _ hne, if_pos hquotable, scanFrom_quotation]
    rfl
  | case4 ch rest p hne hplain =>
    rw [scan, scanFrom.eq_6 _ _ _ _ hne, if_neg hplain]
    rfl
  | case5 ch rest p htwo hone hgoes =>
    rw [scan, scanFrom.eq_7 _ _ _ _ htwo hone, if_pos hgoes]
    rfl
  | case6 ch rest p htwo hone hgoes => rw [scan, scanFrom.eq_7 _ _ _ _ htwo hone, if_neg hgoes]

end Literal

namespace Read

/-- One turn in reading literal text, with the text so far. -/
def literalTurn (context : TextContext) (text : List Char) : Read (List Char ⊕ List Char) := do
  match Literal.turn context (← cursor) with
  | none => return .inr text
  | some (more, c) => moving fun _ => (.inl (text ++ more), c)

theorem advances_literalTurn (context : TextContext) : Advances (literalTurn context) := by
  intro text c
  apply bind_cursor
  cases h : Literal.turn context c with
  | none => exact meets_pure (by simp)
  | some read => exact fun _ _ _ => Literal.turn_passes h

/-- A run of literal text is read in a loop. -/
theorem loops_literal (source : String) (context : TextContext) :
    Loops source (literalTurn context) [] (moving (Literal.scan context)) := by
  -- No bound is needed here, and with no text before it the loop is the scan itself.
  let loop (_ : Nat) (text : List Char) : Read (List Char) :=
    moving fun c => (text ++ (Literal.scan context c).1, (Literal.scan context c).2)
  refine .of_unfolds loop ?_ (advances_literalTurn context) (fun _ _ => rfl) source
  intro n text c
  rw [literalTurn, bind_assoc]
  refine .of_cursor fun events => ?_
  show outcome (.ok (text ++ (Literal.scan context c).1) ⟨(Literal.scan context c).2, events⟩) = _
  rw [Literal.scan_eq_turn]
  cases Literal.turn context c with
  | none =>
    show outcome (.ok (text ++ []) ⟨c, events⟩) = outcome (.ok text ⟨c, events⟩)
    rw [List.append_nil]
  | some read =>
    obtain ⟨more, d⟩ := read
    show _ = outcome (.ok (text ++ more ++ (Literal.scan context d).1)
      ⟨(Literal.scan context d).2, events⟩)
    rw [List.append_assoc]

end Read

/-! ## Styles -/

namespace Style

/-- One turn in reading style text inside of `depth` open braces: a quotation or one character. -/
def turn (depth : Nat) : Cursor → Except Span (Option (List Char × Nat × Cursor))
  | ⟨[], _⟩ => .ok none
  | ⟨ch :: rest, p⟩ =>
    if ch = '\'' then
      match Cursor.takeWhile ⟨rest, p.advance ch⟩ (· != '\'') with
      | (_, ⟨[], q⟩) => .error ⟨p.advance ch, q⟩
      | (quoted, ⟨mark :: rest, q⟩) =>
        .ok (some (ch :: quoted ++ [mark], depth, ⟨rest, q.advance mark⟩))
    else if ch = '}' ∧ depth = 0 then .ok none
    else
      let depth := if ch = '{' then depth + 1 else if ch = '}' then depth - 1 else depth
      .ok (some ([ch], depth, ⟨rest, p.advance ch⟩))

theorem turn_passes {depth depth' : Nat} {c d : Cursor} {text : List Char}
    (h : turn depth c = .ok (some (text, depth', d))) : c.Passes d := by
  revert h
  fun_cases turn depth c with
  | case1 => exact nofun
  | case2 => exact nofun
  | case3 rest p quoted mark after q hquotation =>
    rintro ⟨⟩
    have hquoted := (Cursor.takeWhile_run (· != '\'') ⟨rest, p.advance '\''⟩).reads.reaches
    rw [hquotation] at hquoted
    exact (Cursor.passes_next rfl).reach (hquoted.trans ⟨[mark], rfl, rfl⟩)
  | case4 => exact nofun
  | case5 ch rest p _ _ _ =>
    intro h
    simp only [Except.ok.injEq, Option.some.injEq, Prod.mk.injEq] at h
    rw [← h.2.2]
    exact Cursor.passes_next rfl

/-- A quotation that is not closed goes on to the end of the text. -/
theorem scanFrom_unclosed {quoted : List Char} {start p : Position} {depth : Nat}
    (h : '\'' ∉ quoted) :
    scanFrom (some start) depth quoted p = .error ⟨start, p.advanceAll quoted⟩ := by
  induction quoted generalizing p with
  | nil => rfl
  | cons ch quoted ih =>
    rw [List.mem_cons, not_or] at h
    rw [scanFrom, if_neg (Ne.symm h.1), ih h.2]
    rfl

/-- What is taken behind an apostrophe is a quotation, and it is closed unless the text ends. -/
theorem run_quotation {rest quoted : List Char} {p : Position} {d : Cursor}
    (h : Cursor.takeWhile ⟨rest, p⟩ (· != '\'') = (quoted, d)) :
    '\'' ∉ quoted ∧ rest = quoted ++ d.rest ∧ d.position = p.advanceAll quoted ∧
      ∀ mark after, d.rest = mark :: after → mark = '\'' := by
  have hrun := Cursor.takeWhile_run (· != '\'') ⟨rest, p⟩
  rw [h] at hrun
  refine ⟨fun hmem => ?_, hrun.reads.1, hrun.reads.2, fun mark after hrest => ?_⟩
  · simpa using hrun.all _ hmem
  · have hmark := hrun.ends mark (by rw [Cursor.current?, hrest]; rfl)
    simpa using hmark

/-- Style text is read turn by turn. -/
theorem scanFrom_eq_turn (depth : Nat) (c : Cursor) :
    scanFrom none depth c.rest c.position =
      match turn depth c with
      | .error span => .error span
      | .ok none => .ok ([], c)
      | .ok (some (text, depth, d)) =>
        (scanFrom none depth d.rest d.position).map fun (more, e) => (text ++ more, e) := by
  fun_cases turn depth c with
  | case1 => rfl
  | case2 rest p quoted q hquotation =>
    obtain ⟨hquoted, rfl, rfl, -⟩ := run_quotation hquotation
    rw [List.append_nil, scanFrom, if_neg (by simp)]
    simp only [if_true, Char.reduceEq, if_false]
    rw [scanFrom_unclosed hquoted]
    rfl
  | case3 rest p quoted mark after q hquotation =>
    obtain ⟨hquoted, rfl, rfl, hmark⟩ := run_quotation hquotation
    obtain rfl := hmark mark after rfl
    have hbalanced : Balanced ('\'' :: quoted ++ ['\'']) := .quotation hquoted .nil
    have hclosed := scanFrom_balanced hbalanced after p depth
    simpa [Position.advanceAll_append] using hclosed
  | case4 ch rest p hquote hends => rw [scanFrom, if_pos hends]
  | case5 ch rest p hquote hends within =>
    rw [scanFrom, if_neg hends, if_neg hquote]
    cases scanFrom none within rest (p.advance ch) <;> rfl

end Style

namespace Read

/-- One turn in reading style text, with the text so far and the number of open braces. -/
def styleTurn : List Char × Nat → Read ((List Char × Nat) ⊕ List Char)
  | (text, depth) => do
    match Style.turn depth (← cursor) with
    | .error span => failAt span .unclosedQuote
    | .ok none => return .inr text
    | .ok (some (more, depth, c)) => moving fun _ => (.inl (text ++ more, depth), c)

theorem advances_styleTurn : Advances styleTurn := by
  rintro ⟨text, depth⟩ c
  apply bind_cursor
  cases h : Style.turn depth c with
  | error span => exact meets_failAt trivial
  | ok read =>
    cases read with
    | none => exact meets_pure (by simp)
    | some read => exact fun _ _ _ => Style.turn_passes h

/-- Reads the rest of style text, with the text so far and the number of open braces. -/
def styleRest : List Char × Nat → Read (List Char)
  | (text, depth) => do
    let c ← cursor
    match Style.scanFrom none depth c.rest c.position with
    | .ok (more, c) => moving fun _ => (text ++ more, c)
    | .error span => failAt span .unclosedQuote

theorem outcome_styleRest (text : List Char) (depth : Nat) (c : Cursor) (events : List Event) :
    outcome (styleRest (text, depth) ⟨c, events⟩) =
      match Style.scanFrom none depth c.rest c.position with
      | .ok (more, d) => .ok (text ++ more, ⟨d, events⟩)
      | .error span => .error (⟨.unclosedQuote, span⟩, events) := by
  have hcursor : cursor ⟨c, events⟩ = .ok c ⟨c, events⟩ := rfl
  rw [styleRest, run_bind hcursor]
  cases Style.scanFrom none depth c.rest c.position <;> rfl

/-- Style text is read in a loop. -/
theorem loops_styleText (source : String) : Loops source styleTurn ([], 0) styleText := by
  refine .of_unfolds (fun _ => styleRest) ?_ advances_styleTurn (fun _ _ => rfl) source
  rintro n ⟨text, depth⟩ c
  rw [styleTurn, bind_assoc]
  refine .of_cursor fun events => ?_
  rw [outcome_styleRest, Style.scanFrom_eq_turn]
  cases Style.turn depth c with
  -- A quotation that is left open is reported where it stands, from wherever reading has begun.
  | error span => rfl
  | ok read =>
    cases read with
    | none =>
      show Except.ok (text ++ [], _) = Except.ok (text, _)
      rw [List.append_nil]
    | some read =>
      obtain ⟨more, depth', d⟩ := read
      show _ = outcome (styleRest (text ++ more, depth') ⟨d, events⟩)
      rw [outcome_styleRest]
      dsimp only
      cases Style.scanFrom none depth' d.rest d.position with
      | error span => rfl
      | ok read => simp [Except.map]

end Read

/-! ## Branches -/

namespace Read

variable {options : Options} {depth : Nat} {frame : Frame} {inner : Option Inner} {c : Cursor}

theorem Follows.moves {read : Inner} (follows : Follows options depth (Option.some read)) :
    Moves (read frame) := by
  cases follows with
  | some meets => exact fun c => (meets frame c).imp (fun _ _ h => h.reaches) fun _ _ => trivial

theorem moves_integer {missing tooLarge : Fault} : Moves (integer missing tooLarge) := by
  refine fun c => (meets_integer missing tooLarge).imp ?_ fun _ _ => trivial
  rintro n d ⟨sign, digits, numeral, -⟩
  exact numeral.reaches

theorem moves_selector? {choice : Choice} {word : List Char × Span} :
    Moves (selector? choice word) := by
  unfold selector?
  split
  · exact moves_pure _
  · refine moves_position.bind fun start => ?_
    split
    · refine moves_accept.bind fun equals => ?_
      cases equals with
      | false => exact moves_pure none
      | true => exact moves_integer.bind fun n => moves_cursor.bind fun c => moves_pure _
    · exact moves_pure none

/-- A branch has at least its braces. -/
theorem passes_branch {choice : Choice} {earlier : List Branch} {selector : String} {span : Span}
    (follows : Follows options depth inner) :
    Meets (branch options inner frame choice earlier selector span) c (fun _ d => c.Passes d)
      fun _ => True := by
  unfold branch
  split
  · exact meets_failAt trivial
  · refine bind_skipBlanks fun blanks c₁ hblanks => bind_position ?_
    refine bind_accept (fun c₂ hbrace => ?_) fun _ => meets_failHere trivial
    cases inner with
    | none => exact Meets.bind_fails (meets_failFrom trivial)
    | some read =>
      refine (gives_pure read c₂).bind (Meets.bind (follows.moves c₂) fun body c₃ hbody => ?_)
      refine Meets.bind (moves_closeBrace c₃) fun _ d hclose => bind_capture (meets_pure ?_)
      exact hblanks.reads.reaches.passes (hbrace.passes.reach (hbody.trans hclose))

/-- What is asked of all branches together, behind the last of them. -/
def allBranches (options : Options) (choice : Choice) (start : Position) (list : List Branch) :
    Read (List Branch) :=
  if list.isEmpty then failHere (.missingSelector choice.family)
  else if options.requiresOther && !list.any (fun b => b.selector == "other") then
    failFrom start .missingOther
  else return list

/-- One turn in reading branches, with the branches so far and the word that was read behind them.
A turn that ends the loop looks at all branches together. -/
def branchTurn (options : Options) (inner : Option Inner) (frame : Frame) (choice : Choice)
    (start : Position) : List Branch × (List Char × Span) →
      Read ((List Branch × (List Char × Span)) ⊕ List Branch)
  | (earlier, word) => do
    match ← selector? choice word with
    | none => return .inr (← allBranches options choice start earlier)
    | some (selector, span) =>
      let b ← branch options inner frame choice earlier selector span
      skipBlanks
      return .inl (earlier ++ [b], ← identifier)

theorem advances_branchTurn {choice : Choice} {start : Position}
    (follows : Follows options depth inner) :
    Advances (branchTurn options inner frame choice start) := by
  rintro ⟨earlier, word⟩ c
  refine Meets.bind (moves_selector? c) fun selected c₁ hselected => ?_
  cases selected with
  | none => exact meets_bind_any fun _ _ => meets_pure (by simp)
  | some selected =>
    refine Meets.bind (passes_branch follows) fun b c₂ hbranch => ?_
    refine Meets.bind (moves_skipBlanks c₂) fun _ c₃ hblanks => ?_
    refine Meets.bind (moves_identifier c₃) fun next d hnext => meets_pure fun _ _ => ?_
    exact hselected.passes (hbranch.reach (hblanks.trans hnext))

/-- The branches of an argument are read in a loop. -/
theorem loops_branches (source : String) (choice : Choice) (first : List Char × Span)
    (follows : Follows options depth inner) :
    Loops source (branchTurn options inner frame choice first.2.start) ([], first)
      (branches options inner frame choice first) := by
  let loop (n : Nat) (state : List Branch × (List Char × Span)) : Read (List Branch) :=
    branchesFrom options inner frame choice n state.1 state.2 >>=
      allBranches options choice first.2.start
  refine .of_unfolds loop ?_ (advances_branchTurn follows) (fun _ _ => rfl) source
  rintro n ⟨earlier, word⟩
  simp only [loop, branchesFrom, branchTurn]
  intro c
  rw [bind_assoc, bind_assoc]
  refine (Same.refl _ c).bind (moves_selector? c) fun selected d _ => ?_
  cases selected with
  | none => simp [proceed, Same.refl]
  | some selected => simp [proceed, Same.refl]

/-! ## Messages -/

theorem follows_below (options : Options) (depth : Nat) :
    Follows options depth (below options depth) := by
  cases depth with
  | zero => exact .none
  | succ depth => exact .some (meets_message options depth)

/-- One turn in reading a message, with the elements so far. -/
def elementTurn (options : Options) (inner : Option Inner) (frame : Frame) (list : List Element) :
    Read (List Element ⊕ List Element) := do
  match ← element? options inner frame with
  | none => return .inr list
  | some e => return .inl (list ++ [e])

/-- An element has at least one character. -/
theorem passes_element? (follows : Follows options depth inner) :
    Meets (element? options inner frame) c (fun read d => ∀ e, read = some e → c.Passes d)
      fun _ => True := by
  refine (meets_element? follows).imp ?_ fun _ _ => trivial
  rintro _ d hread e rfl
  exact ⟨Written.reaches hread, Written.length_lt hread⟩

theorem advances_elementTurn (follows : Follows options depth inner) :
    Advances (elementTurn options inner frame) := by
  intro list c
  refine Meets.bind (passes_element? follows) fun read d hread => ?_
  cases read with
  | none => exact meets_pure (by simp)
  | some e => exact meets_pure fun _ _ => hread e rfl

/-- At the end of the text there is no further element, so as many turns as there are characters
are enough. -/
theorem same_elements_succ (follows : Follows options depth inner) {n : Nat}
    (hn : c.rest.length ≤ n) :
    Same (elements options inner frame n) (elements options inner frame (n + 1)) c := by
  induction n generalizing c with
  | zero =>
    obtain ⟨rest, p⟩ := c
    obtain rfl : rest = [] := List.length_eq_zero_iff.1 (Nat.le_zero.1 hn)
    exact fun _ => rfl
  | succ n ih =>
    rw [elements, elements]
    refine (Same.refl _ c).bind (passes_element? follows) fun read d hread => ?_
    cases read with
    | none => exact .refl _ d
    | some e =>
      have hlt := (hread e rfl).shorter
      exact (ih (by omega)).followed _

/-- The elements of a message are read in a loop. -/
theorem loops_message (source : String) (options : Options) (depth : Nat) (frame : Frame) :
    Loops source (elementTurn options (below options depth) frame) []
      (message options depth frame) := by
  have follows := follows_below options depth
  let loop (n : Nat) (list : List Element) : Read (List Element) :=
    (list ++ ·) <$> elements options (below options depth) frame n
  refine .of_unfolds loop ?_ (advances_elementTurn follows) (fun c => ?_) source
  · intro n list c
    simp only [loop, elements, elementTurn]
    rw [map_bind, bind_assoc]
    refine (Same.refl _ c).bind (passes_element? follows) fun read d _ => ?_
    cases read with
    | none => simp [proceed, Same.refl]
    | some e => simp [proceed, Same.refl]
  · have hloop : loop (c.rest.length + 1) [] =
        elements options (below options depth) frame (c.rest.length + 1) := id_map _
    rw [message_eq_level, hloop]
    exact same_elements_succ follows (Nat.le_refl _)

end Read

end MessageFormat
