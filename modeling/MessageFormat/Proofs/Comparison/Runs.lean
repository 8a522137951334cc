import MessageFormat.Proofs.Comparison.Relabelling
import MessageFormat.Proofs.Reading

/-!
# Two runs from one state

Two actions are compared by running both from the same state.  `Read.Agree` says that the second
one does what the first one does, up to the leaves of what it gives: the values are the same but
for a relabelling, the runs end in the same state, and an error of the first is the error of the
second.  There is one way out.  The second run may fail where the first one goes on, and a
`Verdict` says with which errors.

An error of that kind is either `stray`, and then nothing is said about the text, or it is the
refusal of a skeleton that the first run keeps.  In the second case the first run tells which
skeleton it is.  If it gives a value, the one refused is the first in the value that is not
accepted (`Verdict.Lost`), and if both runs give a value, all of them are accepted
(`Verdict.Kept`).
-/

namespace MessageFormat

/-- Where a second run may fail and the first one goes on. -/
structure Verdict where
  /-- Errors that the second run may have at any place. -/
  stray : ParseError → Prop
  /-- Skeletons that the second run accepts. -/
  accepts : Skeleton → Prop
  /-- Skeletons that the second run refuses, with the error it has then. -/
  refuses : Skeleton → ParseError → Prop

namespace Verdict

variable {v : Verdict} {l l' : List Skeleton} {e : ParseError}

/-- The second run accepts all skeletons of the list. -/
def Kept (v : Verdict) (l : List Skeleton) : Prop := ∀ s ∈ l, v.accepts s

/-- The error is stray, or that of the first skeleton in the list that is refused. -/
def Lost (v : Verdict) (l : List Skeleton) (e : ParseError) : Prop :=
  v.stray e ∨ ∃ before s after, l = before ++ s :: after ∧ v.Kept before ∧ v.refuses s e

theorem kept_nil : v.Kept [] := by
  intro s hs
  cases hs

theorem kept_singleton {s : Skeleton} (h : v.accepts s) : v.Kept [s] := by
  intro t ht
  rw [List.mem_singleton] at ht
  rwa [ht]

theorem Kept.append (hl : v.Kept l) (hl' : v.Kept l') : v.Kept (l ++ l') := by
  intro s hs
  rcases List.mem_append.1 hs with hs | hs
  · exact hl s hs
  · exact hl' s hs

/-- What comes later does not change which skeleton is refused first. -/
theorem Lost.append_left (h : v.Lost l e) (l' : List Skeleton) : v.Lost (l ++ l') e := by
  rcases h with h | ⟨before, s, after, rfl, hbefore, hs⟩
  · exact .inl h
  · exact .inr ⟨before, s, after ++ l', by simp, hbefore, hs⟩

theorem Lost.append_right (h : v.Lost l' e) (hl : v.Kept l) : v.Lost (l ++ l') e := by
  rcases h with h | ⟨before, s, after, rfl, hbefore, hs⟩
  · exact .inl h
  · exact .inr ⟨l ++ before, s, after, by simp, hl.append hbefore, hs⟩

theorem lost_singleton {s : Skeleton} (h : v.refuses s e) : v.Lost [s] e :=
  .inr ⟨[], s, [], rfl, kept_nil, h⟩

end Verdict

namespace Read

variable {v : Verdict} {α β γ δ : Type}

/-- The results of two runs from one state.  The second is the relabelled value in the same state,
or the same error.  Or else it is an error that the verdict allows, given the skeletons in the
value of the first run. -/
def Related (v : Verdict) (skeletons : α → List Skeleton) (relabel : α → β) :
    EStateM.Result ParseError Reader α → EStateM.Result ParseError Reader β → Prop
  | .ok a s, .ok b t => t = s ∧ b = relabel a ∧ v.Kept (skeletons a)
  | .ok a _, .error e _ => v.Lost (skeletons a) e
  | .error e _, .error e' _ => e' = e ∨ ∃ l, v.Lost l e'
  | .error _ _, .ok _ _ => False

/-- From every state the second action does what the first one does, but for what the verdict
allows. -/
def Agree (v : Verdict) (x : Read α) (y : Read β) (skeletons : α → List Skeleton)
    (relabel : α → β) : Prop :=
  ∀ s, Related v skeletons relabel (x s) (y s)

variable {skeletons : α → List Skeleton} {relabel : α → β}

/-! ## What an action gives, if it gives anything -/

theorem meets_any {x : Read α} {c : Cursor} {ok : α → Cursor → Prop} (h : ∀ a d, ok a d) :
    Meets x c ok fun _ => True := by
  intro events
  cases x ⟨c, events⟩ with
  | ok a s => exact h a s.cursor
  | error e s => trivial

/-- What holds of the value of every second part holds of the value of the whole. -/
theorem meets_bind_any {x : Read α} {f : α → Read β} {c : Cursor} {ok : β → Cursor → Prop}
    (h : ∀ a d, Meets (f a) d ok fun _ => True) : Meets (x >>= f) c ok fun _ => True :=
  Meets.bind (P := fun _ _ => True) (meets_any fun _ _ => trivial) fun a d _ => h a d

/-! ## Rules -/

theorem agree_pure {a : α} {b : β} (hb : b = relabel a) (kept : v.Kept (skeletons a)) :
    Agree v (pure a) (pure b) skeletons relabel :=
  fun _ => ⟨rfl, hb, kept⟩

theorem agree_failAt {span : Span} {fault : Fault} :
    Agree v (failAt span fault) (failAt span fault) skeletons relabel :=
  fun _ => .inl rfl

theorem agree_failFrom {start : Position} {fault : Fault} :
    Agree v (failFrom start fault) (failFrom start fault) skeletons relabel :=
  fun _ => .inl rfl

theorem agree_failHere {fault : Fault} :
    Agree v (failHere fault) (failHere fault) skeletons relabel :=
  fun _ => .inl rfl

/-- An action agrees with itself if all skeletons are accepted and nothing is relabelled. -/
theorem agree_refl {x : Read α} {relabel : α → α} (h : ∀ a, relabel a = a)
    (kept : ∀ a, v.Kept (skeletons a)) : Agree v x x skeletons relabel := by
  intro s
  cases x s with
  | ok a s' => exact ⟨rfl, (h a).symm, kept a⟩
  | error e s' => exact .inl rfl

/-- A second run that fails with a stray error agrees with anything. -/
theorem agree_of_stray {x : Read α} {y : Read β}
    (h : ∀ s, ∃ e t, y s = .error e t ∧ v.stray e) : Agree v x y skeletons relabel := by
  intro s
  obtain ⟨e, t, hy, hstray⟩ := h s
  rw [hy]
  cases x s with
  | ok a s' => exact .inl hstray
  | error e' s' => exact .inr ⟨[], .inl hstray⟩

/-- Both runs begin with the same action. -/
theorem agree_bind_same {x : Read γ} {f : γ → Read α} {g : γ → Read β}
    (h : ∀ a, Agree v (f a) (g a) skeletons relabel) :
    Agree v (x >>= f) (x >>= g) skeletons relabel := by
  intro s
  change Related v skeletons relabel (EStateM.bind x f s) (EStateM.bind x g s)
  rw [EStateM.bind, EStateM.bind]
  cases x s with
  | ok a s' => exact h a s'
  | error e s' => exact .inl rfl

/-- Both runs begin with actions that agree.  If the second one fails at once, the first goes on,
and what it gives in the end must still show the skeleton that was refused. -/
theorem Agree.bind {x : Read γ} {y : Read δ} {f : γ → Read α} {g : δ → Read β}
    {skeletons₁ : γ → List Skeleton} {relabel₁ : γ → δ} (hx : Agree v x y skeletons₁ relabel₁)
    (hf : ∀ a, v.Kept (skeletons₁ a) → Agree v (f a) (g (relabel₁ a)) skeletons relabel)
    (hlost : ∀ a e, v.Lost (skeletons₁ a) e →
      ∀ c, Meets (f a) c (fun z _ => v.Lost (skeletons z) e) fun _ => True) :
    Agree v (x >>= f) (y >>= g) skeletons relabel := by
  intro s
  have hs := hx s
  change Related v skeletons relabel (EStateM.bind x f s) (EStateM.bind y g s)
  rw [EStateM.bind, EStateM.bind]
  cases hxs : x s with
  | ok a s' =>
    cases hys : y s with
    | ok b t =>
      rw [hxs, hys] at hs
      obtain ⟨rfl, rfl, kept⟩ := hs
      exact hf a kept t
    | error e t =>
      rw [hxs, hys] at hs
      dsimp only
      cases hfs : f a s' with
      | ok z s'' => exact (hlost a e hs s'.cursor).of_ok hfs
      | error e' s'' => exact .inr ⟨_, hs⟩
  | error e s' =>
    cases hys : y s with
    | ok b t =>
      rw [hxs, hys] at hs
      exact hs.elim
    | error e' t =>
      rw [hxs, hys] at hs
      exact hs

end Read

end MessageFormat
