import MessageFormat.Parse.Reader
import MessageFormat.Proofs.Cursor

/-!
# What a reading action does

`Read.Meets x c ok bad` is what is to be known of the action `x` when it is run from the cursor
`c`: if it gives a value then `ok` holds of the value and of the cursor where it ends, and if it
fails then `bad` holds of the error.  The events are left out of it, because no action looks at
them.

There is one rule for each action of `Parse.Reader`, in the form in which the action stands in a
sequence.  Applying them one after the other runs an action on a text of which only the shape is
known.  A rule for an action with two outcomes asks for both of them, and there is a second rule
for the case that the outcome is known.

`Read.Gives x c a d` is the case in which nothing is left open: the action gives `a` and ends at
`d`.  An action that reports no events leaves those of the reader alone, and where that matters
there is a lemma for the whole run.
-/

namespace MessageFormat

namespace Read

variable {α β : Type} {c d : Cursor} {bad : ParseError → Prop}

/-- If the action gives a value, `ok` holds of it and of the cursor reached; if it fails, `bad`
holds of the error. -/
def Meets (x : Read α) (c : Cursor) (ok : α → Cursor → Prop) (bad : ParseError → Prop) : Prop :=
  ∀ events, match x ⟨c, events⟩ with
    | .ok a s => ok a s.cursor
    | .error e _ => bad e

/-- From `c` the action gives `a` and ends at `d`. -/
def Gives (x : Read α) (c : Cursor) (a : α) (d : Cursor) : Prop :=
  Meets x c (fun b e => b = a ∧ e = d) fun _ => False

/-! ## Sequences -/

theorem Meets.bind {x : Read α} {f : α → Read β} {P : α → Cursor → Prop}
    {ok : β → Cursor → Prop} (hx : Meets x c P bad)
    (hf : ∀ a d, P a d → Meets (f a) d ok bad) : Meets (x >>= f) c ok bad := by
  intro events
  have hx := hx events
  change match EStateM.bind x f ⟨c, events⟩ with
    | .ok a s => ok a s.cursor
    | .error e _ => bad e
  rw [EStateM.bind]
  cases h : x ⟨c, events⟩ with
  | ok a s =>
    rw [h] at hx
    exact hf a s.cursor hx s.events
  | error e s =>
    rw [h] at hx
    exact hx

theorem Meets.imp {x : Read α} {ok ok' : α → Cursor → Prop} {bad' : ParseError → Prop}
    (hx : Meets x c ok bad) (hok : ∀ a d, ok a d → ok' a d) (hbad : ∀ e, bad e → bad' e) :
    Meets x c ok' bad' := by
  intro events
  have hx := hx events
  cases h : x ⟨c, events⟩ with
  | ok a s =>
    rw [h] at hx
    exact hok a s.cursor hx
  | error e s =>
    rw [h] at hx
    exact hbad e hx

/-- An action that gives no value, in a sequence. -/
theorem Meets.bind_fails {x : Read α} {f : α → Read β} {ok : β → Cursor → Prop}
    (hx : Meets x c (fun _ _ => False) bad) : Meets (x >>= f) c ok bad :=
  hx.bind fun _ _ h => h.elim

/-- An action whose value and end are known, in a sequence. -/
theorem Gives.bind {x : Read α} {f : α → Read β} {a : α} {ok : β → Cursor → Prop}
    (hx : Gives x c a d) (hf : Meets (f a) d ok bad) : Meets (x >>= f) c ok bad := by
  refine Meets.bind (hx.imp (fun _ _ h => h) (fun _ h => h.elim)) ?_
  rintro _ _ ⟨rfl, rfl⟩
  exact hf

theorem meets_pure {a : α} {ok : α → Cursor → Prop} (h : ok a c) :
    Meets (pure a : Read α) c ok bad :=
  fun _ => h

theorem gives_pure (a : α) (c : Cursor) : Gives (pure a : Read α) c a c :=
  meets_pure ⟨rfl, rfl⟩

/-- What is known of a run holds of the run. -/
theorem Meets.of_ok {x : Read α} {ok : α → Cursor → Prop} (h : Meets x c ok bad)
    {events : List Event} {a : α} {s : Reader} (hx : x ⟨c, events⟩ = .ok a s) :
    ok a s.cursor := by
  have := h events
  rw [hx] at this
  exact this

theorem Meets.of_error {x : Read α} {ok : α → Cursor → Prop} (h : Meets x c ok bad)
    {events : List Event} {e : ParseError} {s : Reader} (hx : x ⟨c, events⟩ = .error e s) :
    bad e := by
  have := h events
  rw [hx] at this
  exact this

/-! ## Whole runs -/

theorem run_bind {x : Read α} {f : α → Read β} {a : α} {s t : Reader} (h : x s = .ok a t) :
    (x >>= f) s = f a t := by
  change EStateM.bind x f s = f a t
  rw [EStateM.bind, h]

theorem run_bind_error {x : Read α} {f : α → Read β} {e : ParseError} {s t : Reader}
    (h : x s = .error e t) : (x >>= f) s = .error e t := by
  change EStateM.bind x f s = .error e t
  rw [EStateM.bind, h]

theorem Gives.of_run {x : Read α} {a : α}
    (h : ∀ events, x ⟨c, events⟩ = .ok a ⟨d, events⟩) : Gives x c a d := by
  intro events
  rw [h]
  exact ⟨rfl, rfl⟩

/-! ## Looking -/

variable {ok : α → Cursor → Prop}

theorem bind_cursor {f : Cursor → Read α} (h : Meets (f c) c ok bad) :
    Meets (cursor >>= f) c ok bad :=
  h

theorem bind_position {f : Position → Read α} (h : Meets (f c.position) c ok bad) :
    Meets (position >>= f) c ok bad :=
  h

theorem bind_capture {options : Options} {start : Position} {f : Option Span → Read α}
    (h : Meets (f (if options.captureSpans then some ⟨start, c.position⟩ else none)) c ok bad) :
    Meets (capture options start >>= f) c ok bad :=
  h

theorem bind_report {event : Event} {f : Unit → Read α} (h : Meets (f ()) c ok bad) :
    Meets (report event >>= f) c ok bad :=
  fun events => h (events ++ [event])

/-! ## Moving -/

theorem bind_moving {γ : Type} {move : Cursor → γ × Cursor} {f : γ → Read α}
    (h : Meets (f (move c).1) (move c).2 ok bad) : Meets (moving move >>= f) c ok bad :=
  h

theorem bind_next {f : Unit → Read α} (h : Meets (f ()) c.next ok bad) :
    Meets (next >>= f) c ok bad :=
  h

theorem run_skipBlanks {blanks : List Char} {events : List Event}
    (h : c.Run isPatternWhiteSpace blanks d) :
    skipBlanks ⟨c, events⟩ = .ok () ⟨d, events⟩ := by
  simp [skipBlanks, moving, h.skipBlanks_eq]

theorem gives_skipBlanks {blanks : List Char} (h : c.Run isPatternWhiteSpace blanks d) :
    Gives skipBlanks c () d :=
  .of_run fun _ => run_skipBlanks h

theorem bind_skipBlanks {f : Unit → Read α}
    (h : ∀ blanks d, c.Run isPatternWhiteSpace blanks d → Meets (f ()) d ok bad) :
    Meets (skipBlanks >>= f) c ok bad := by
  obtain ⟨blanks, d, hrun⟩ := c.exists_run isPatternWhiteSpace
  exact (gives_skipBlanks hrun).bind (h blanks d hrun)

theorem run_accept {text : List Char} {events : List Event} (h : c.Reads text d) :
    accept text ⟨c, events⟩ = .ok true ⟨d, events⟩ := by
  simp [accept, moving, h.accept?]

theorem run_accept_false {text : List Char} {events : List Event} (h : c.accept? text = none) :
    accept text ⟨c, events⟩ = .ok false ⟨c, events⟩ := by
  simp [accept, moving, h]

theorem gives_accept {text : List Char} (h : c.Reads text d) :
    Gives (accept text) c true d :=
  .of_run fun _ => run_accept h

theorem gives_accept_false {text : List Char} (h : c.accept? text = none) :
    Gives (accept text) c false c :=
  .of_run fun _ => run_accept_false h

theorem bind_accept {text : List Char} {f : Bool → Read α}
    (yes : ∀ d, c.Reads text d → Meets (f true) d ok bad)
    (no : c.accept? text = none → Meets (f false) c ok bad) :
    Meets (accept text >>= f) c ok bad := by
  cases h : c.accept? text with
  | none => exact (gives_accept_false h).bind (no h)
  | some d =>
    have hd := Cursor.accept?_eq_some_iff.1 h
    exact (gives_accept hd).bind (yes d hd)

theorem run_word {test : Char → Bool} {text : List Char} {events : List Event}
    (h : c.Run test text d) :
    word (fun c => c.takeWhile test) ⟨c, events⟩ =
      .ok (text, ⟨c.position, d.position⟩) ⟨d, events⟩ := by
  simp [word, moving, h.takeWhile_eq, Cursor.spanFrom]

theorem gives_word {test : Char → Bool} {text : List Char} (h : c.Run test text d) :
    Gives (word fun c => c.takeWhile test) c (text, ⟨c.position, d.position⟩) d :=
  .of_run fun _ => run_word h

theorem bind_word {test : Char → Bool} {f : List Char × Span → Read α}
    (h : ∀ text d, c.Run test text d →
      Meets (f (text, ⟨c.position, d.position⟩)) d ok bad) :
    Meets (word (fun c => c.takeWhile test) >>= f) c ok bad := by
  obtain ⟨text, d, hrun⟩ := c.exists_run test
  exact (gives_word hrun).bind (h text d hrun)

theorem run_identifier {text : List Char} {events : List Event}
    (h : c.Run isIdentifierChar text d) :
    identifier ⟨c, events⟩ = .ok (text, ⟨c.position, d.position⟩) ⟨d, events⟩ :=
  run_word h

theorem gives_identifier {text : List Char} (h : c.Run isIdentifierChar text d) :
    Gives identifier c (text, ⟨c.position, d.position⟩) d :=
  gives_word h

theorem bind_identifier {f : List Char × Span → Read α}
    (h : ∀ text d, c.Run isIdentifierChar text d →
      Meets (f (text, ⟨c.position, d.position⟩)) d ok bad) :
    Meets (identifier >>= f) c ok bad :=
  bind_word h

/-! ## Failing -/

theorem meets_failAt {span : Span} {fault : Fault} (h : bad ⟨fault, span⟩) :
    Meets (failAt span fault : Read α) c ok bad :=
  fun _ => h

theorem meets_failFrom {start : Position} {fault : Fault}
    (h : bad ⟨fault, ⟨start, c.position⟩⟩) : Meets (failFrom start fault : Read α) c ok bad :=
  fun _ => h

theorem meets_failHere {fault : Fault} (h : bad ⟨fault, ⟨c.position, c.position⟩⟩) :
    Meets (failHere fault : Read α) c ok bad :=
  fun _ => h

/-! ## The closing brace -/

theorem bind_closeBrace {opening : Position} {f : Unit → Read α}
    (yes : ∀ d, c.Reads ['}'] d → Meets (f ()) d ok bad)
    (no : c.current? ≠ some '}' → bad ⟨.unclosedArgument, ⟨opening, c.position⟩⟩) :
    Meets (closeBrace opening >>= f) c ok bad := by
  refine Meets.bind (P := fun _ d => c.Reads ['}'] d) ?_ fun _ => yes
  refine bind_accept (fun d hd => meets_pure hd) fun h => meets_failFrom ?_
  exact no (Cursor.current?_ne_of_accept? h)

theorem gives_closeBrace {opening : Position} (h : c.Reads ['}'] d) :
    Gives (closeBrace opening) c () d :=
  (gives_accept h).bind (gives_pure () d)

end Read

end MessageFormat
