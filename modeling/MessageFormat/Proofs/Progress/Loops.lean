import MessageFormat.Proofs.Comparison.Runs
import MessageFormat.Proofs.Tiling

/-!
# Loops that move on

A loop is given by its turn: from a state it either goes on in a new state or ends with a result.
`Read.turns` runs a bounded number of turns and does something else when they are used up.  An
action is the loop of a turn (`Read.Loops`) if every turn that goes on has read at least one
character, and if the action is what the turns give under every bound that exceeds the number of
characters left.  What is done when the turns are used up is arbitrary there, so the bound is never
what ends the loop.

The actions of `Parse` recur on a number, or on the characters that are left.  Either way there is
an equation between one step and the next, `Read.Unfolds`, and that is all that has to be shown of
them: any two things that unfold in the same way are the same from every cursor with fewer
characters left than both are bounded by.
-/

namespace MessageFormat

/-! ## Moving on -/

namespace Cursor

/-- At least one character leads from `c` to `d`. -/
structure Passes (c d : Cursor) : Prop where
  reaches : c.Reaches d
  shorter : d.rest.length < c.rest.length

/-- The offset of `d` is larger than that of `c`, and not beyond the end of the source. -/
def Onward (source : String) (c d : Cursor) : Prop :=
  c.position.offset < d.position.offset ∧ d.position.offset ≤ source.utf8ByteSize

variable {c d e : Cursor}

theorem Reads.passes {ch : Char} {text : List Char} (h : c.Reads (ch :: text) d) : c.Passes d :=
  ⟨h.reaches, h.length_lt⟩

theorem Reaches.passes (h : c.Reaches d) (hde : d.Passes e) : c.Passes e :=
  ⟨h.trans hde.reaches, Nat.lt_of_lt_of_le hde.shorter h.length_le⟩

theorem Passes.reach (h : c.Passes d) (hde : d.Reaches e) : c.Passes e :=
  ⟨h.reaches.trans hde, Nat.lt_of_le_of_lt hde.length_le h.shorter⟩

theorem passes_next {ch : Char} (h : c.current? = some ch) : c.Passes c.next :=
  (reads_next h).passes

theorem Passes.byteSize_lt (h : c.Passes d) : byteSize d.rest < byteSize c.rest := by
  obtain ⟨⟨text, reads⟩, shorter⟩ := h
  cases text with
  | nil => simp [reads.1] at shorter
  | cons ch text =>
    have := byteSize_cons_pos ch text
    rw [reads.1, byteSize_append]
    omega

theorem Passes.onward (h : c.Passes d) {source : String} (hc : c.In source) :
    c.Onward source d :=
  ⟨hc.offset_lt h.reaches h.shorter, (hc.reaches h.reaches).countedIn.offset_le⟩

end Cursor

namespace Read

variable {α β σ : Type} {c : Cursor}

/-! ## Actions that do not go back -/

/-- Wherever the action ends, it has come there by reading. -/
def Moves (x : Read α) : Prop := ∀ c, Meets x c (fun _ d => c.Reaches d) fun _ => True

theorem moves_pure (a : α) : Moves (pure a : Read α) := fun c => meets_pure (.refl c)

theorem Moves.bind {x : Read α} {f : α → Read β} (hx : Moves x) (hf : ∀ a, Moves (f a)) :
    Moves (x >>= f) :=
  fun c => (hx c).bind fun a d hd => (hf a d).imp (fun _ _ he => hd.trans he) fun _ h => h

theorem moves_failAt {span : Span} {fault : Fault} : Moves (failAt span fault : Read α) :=
  fun _ => meets_failAt trivial

theorem moves_failFrom {start : Position} {fault : Fault} :
    Moves (failFrom start fault : Read α) :=
  fun _ => meets_failFrom trivial

theorem moves_failHere {fault : Fault} : Moves (failHere fault : Read α) :=
  fun _ => meets_failHere trivial

theorem moves_cursor : Moves cursor := fun c => bind_cursor (meets_pure (.refl c))

theorem moves_position : Moves position := fun c => bind_position (meets_pure (.refl c))

theorem moves_moving {move : Cursor → α × Cursor} (h : ∀ c : Cursor, c.Reaches (move c).2) :
    Moves (moving move) :=
  fun c _ => h c

theorem moves_next : Moves next := by
  refine moves_moving fun c => ?_
  cases h : c.current? with
  | none =>
    obtain ⟨rest, p⟩ := c
    cases Cursor.current?_eq_none_iff.1 h
    exact .refl _
  | some ch => exact (Cursor.reads_next h).reaches

theorem moves_skipBlanks : Moves skipBlanks :=
  moves_moving fun c => (Cursor.takeWhile_run isPatternWhiteSpace c).reads.reaches

theorem moves_accept {text : List Char} : Moves (accept text) :=
  fun _ => bind_accept (f := pure) (fun _ hd => meets_pure hd.reaches)
    fun _ => meets_pure (.refl _)

theorem moves_word {test : Char → Bool} : Moves (word fun c => c.takeWhile test) :=
  moves_moving fun c => (Cursor.takeWhile_run test c).reads.reaches

theorem moves_identifier : Moves identifier := moves_word

theorem moves_closeBrace {opening : Position} : Moves (closeBrace opening) := by
  refine moves_accept.bind fun closed => ?_
  cases closed with
  | false => exact moves_failFrom
  | true => exact moves_pure ()

/-! ## Actions that are the same from a cursor -/

/-- What there is to see of a run: the value and the reader, or the error and the events.  Nothing
looks at the cursor of a run that has failed. -/
def outcome : EStateM.Result ParseError Reader α → Except (ParseError × List Event) (α × Reader)
  | .ok a s => .ok (a, s)
  | .error e s => .error (e, s.events)

theorem outcome_eq {r r' : EStateM.Result ParseError Reader α} (h : outcome r = outcome r') :
    (∃ a s, r = .ok a s ∧ r' = .ok a s) ∨
      ∃ e s s', r = .error e s ∧ r' = .error e s' ∧ s.events = s'.events := by
  cases r with
  | ok a s =>
    cases r' with
    | ok a' s' =>
      rw [outcome, outcome, Except.ok.injEq, Prod.mk.injEq] at h
      obtain ⟨rfl, rfl⟩ := h
      exact .inl ⟨a, s, rfl, rfl⟩
    | error e s' => cases h
  | error e s =>
    cases r' with
    | ok a s' => cases h
    | error e' s' =>
      rw [outcome, outcome, Except.error.injEq, Prod.mk.injEq] at h
      obtain ⟨rfl, hevents⟩ := h
      exact .inr ⟨e, s, s', rfl, rfl, hevents⟩

/-- From `c` there is no difference to be seen between the two actions. -/
def Same (x y : Read α) (c : Cursor) : Prop :=
  ∀ events, outcome (x ⟨c, events⟩) = outcome (y ⟨c, events⟩)

namespace Same

variable {x y z : Read α}

theorem refl (x : Read α) (c : Cursor) : Same x x c := fun _ => rfl

theorem symm (h : Same x y c) : Same y x c := fun events => (h events).symm

theorem trans (hxy : Same x y c) (hyz : Same y z c) : Same x z c :=
  fun events => (hxy events).trans (hyz events)

/-- Sequences are the same if their first parts are, and their second parts wherever the first
ones may end. -/
theorem bind {f g : α → Read β} {P : α → Cursor → Prop} (hxy : Same x y c)
    (hx : Meets x c P fun _ => True) (hfg : ∀ a d, P a d → Same (f a) (g a) d) :
    Same (x >>= f) (y >>= g) c := by
  intro events
  rcases outcome_eq (hxy events) with ⟨a, s, h, h'⟩ | ⟨e, s, s', h, h', hevents⟩
  · rw [run_bind h, run_bind h']
    exact hfg a s.cursor (hx.of_ok h) s.events
  · rw [run_bind_error h, run_bind_error h', outcome, outcome, hevents]

/-- The same action after two that are the same. -/
theorem followed (hxy : Same x y c) (f : α → Read β) : Same (x >>= f) (y >>= f) c :=
  hxy.bind (P := fun _ _ => True) (meets_any fun _ _ => trivial) fun a d _ => .refl (f a) d

/-- What is known of one of two actions that are the same is known of the other. -/
theorem meets {ok : α → Cursor → Prop} {bad : ParseError → Prop} (hxy : Same x y c)
    (hy : Meets y c ok bad) : Meets x c ok bad := by
  intro events
  rcases outcome_eq (hxy events) with ⟨a, s, h, h'⟩ | ⟨e, s, s', h, h', -⟩
  · rw [h]
    exact hy.of_ok h'
  · rw [h]
    exact hy.of_error h'

theorem of_cursor {f : Cursor → Read α} (h : Same x (f c) c) : Same x (cursor >>= f) c := h

theorem at_cursor {f g : Cursor → Read α} (h : Same (f c) (g c) c) :
    Same (cursor >>= f) (cursor >>= g) c :=
  h

end Same

/-! ## Turns -/

/-- What follows a turn: the loop in the new state, or its result. -/
def proceed (loop : σ → Read β) : σ ⊕ β → Read β
  | .inl s => loop s
  | .inr b => pure b

/-- Takes at most `n` turns.  `exhausted` is what is done when there are none left. -/
def turns (turn : σ → Read (σ ⊕ β)) (exhausted : σ → Read β) : (n : Nat) → σ → Read β
  | 0, s => exhausted s
  | n + 1, s => turn s >>= proceed (turns turn exhausted n)

/-- A bounded loop takes one turn and goes on with one turn less. -/
def Unfolds (turn : σ → Read (σ ⊕ β)) (loop : Nat → σ → Read β) : Prop :=
  ∀ n s c, Same (loop (n + 1) s) (turn s >>= proceed (loop n)) c

/-- Every turn that goes on has read at least one character. -/
def Advances (turn : σ → Read (σ ⊕ β)) : Prop :=
  ∀ s c, Meets (turn s) c (fun next d => ∀ s', next = .inl s' → c.Passes d) fun _ => True

variable {turn : σ → Read (σ ⊕ β)}

/-- Bounds do not matter if they are larger than the number of characters left. -/
theorem Unfolds.same {loop loop' : Nat → σ → Read β} (h : Unfolds turn loop)
    (h' : Unfolds turn loop') (advances : Advances turn) {n m : Nat} (s : σ)
    (hn : c.rest.length < n) (hm : c.rest.length < m) : Same (loop n s) (loop' m s) c := by
  induction n generalizing m s c with
  | zero => exact absurd hn (Nat.not_lt_zero _)
  | succ n ih =>
    obtain ⟨m, rfl⟩ : ∃ k, m = k + 1 := Nat.exists_eq_add_one.2 (by omega)
    refine (h n s c).trans (.trans ?_ (h' m s c).symm)
    refine (Same.refl _ c).bind (advances s c) ?_
    rintro (s' | b) d hd
    -- A turn that goes on uses up one of either bound, and at least one character.
    · have hlt := (hd s' rfl).shorter
      exact ih s' (by omega) (by omega)
    · exact .refl _ d

/-- The action is the loop of the turn that begins in the state `start`.  In the source, a turn
that goes on increases the offset and stays inside, and a bound on the number of turns that exceeds
the number of characters left changes nothing. -/
structure Loops (source : String) (turn : σ → Read (σ ⊕ β)) (start : σ) (action : Read β) :
    Prop where
  onward : ∀ s c, c.In source →
    Meets (turn s) c (fun next d => ∀ s', next = .inl s' → c.Onward source d) fun _ => True
  ends : ∀ exhausted n c, c.rest.length < n → Same action (turns turn exhausted n start) c

theorem Loops.of_unfolds (loop : Nat → σ → Read β) {start : σ} {action : Read β}
    (unfolds : Unfolds turn loop) (advances : Advances turn)
    (bounded : ∀ c, Same action (loop (c.rest.length + 1) start) c) (source : String) :
    Loops source turn start action where
  onward s c hc := (advances s c).imp (fun _ _ h s' hs => (h s' hs).onward hc) fun _ h => h
  ends _ _ c hn :=
    (bounded c).trans (unfolds.same (fun _ _ => .refl _) advances start (Nat.lt_succ_self _) hn)

end Read

end MessageFormat
