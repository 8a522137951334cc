import MessageFormat.NumberFormat.Application

/-!
# Skeletons applied in place

Whether a token is refused depends on the token alone, although it is applied to a format and may
write to it first.  `Performs` compares the two: to apply a token is to make the update that it
means, or to fail with the fault that it is refused for, whatever the format and whatever is left of
it (`Token.performs_apply`).  So tokens applied one after the other leave behind the format that
they stand for (`applied_eq_interpret`).
-/

namespace MessageFormat.NumberSkeleton

/-- The work makes the update, or fails with the fault. -/
def Performs (w : Work) (x : Except Fault Update) : Prop :=
  ∀ f, match x with
    | .ok update => w.run f = .ok () (update f)
    | .error fault => ∃ g, w.run f = .error fault g

variable {α : Type}

theorem performs_modify (update : Update) : Performs (modify update) (.ok update) :=
  fun _ => rfl

theorem performs_throw (fault : Fault) : Performs (throw fault) (.error fault) :=
  fun f => ⟨f, rfl⟩

/-- What is read off the token alone comes first in both. -/
theorem performs_bind (x : Except Fault α) {k : α → Work} {g : α → Except Fault Update}
    (h : ∀ a, Performs (k a) (g a)) : Performs (MonadExcept.ofExcept x >>= k) (x >>= g) := by
  cases x with
  | error fault => exact performs_throw fault
  | ok a => exact h a

/-- Work after other work makes its update after the other's. -/
theorem Performs.andThen {w v : Work} {x y : Except Fault Update} (hw : Performs w x)
    (hv : Performs v y) :
    Performs (w >>= fun _ => v) (x >>= fun first => y.map (· ∘ first)) := by
  intro f
  have hfirst := hw f
  cases x with
  | error fault =>
    obtain ⟨g, hfirst⟩ := hfirst
    refine ⟨g, ?_⟩
    rw [EStateM.run_bind, hfirst]
  | ok first =>
    have hrun : (w >>= fun _ => v).run f = v.run (first f) := by
      rw [EStateM.run_bind, hfirst]
    have hsecond := hv (first f)
    cases y with
    | error fault =>
      obtain ⟨g, hsecond⟩ := hsecond
      exact ⟨g, hrun.trans hsecond⟩
    | ok second => exact hrun.trans hsecond

namespace Token

theorem performs_write (t : Token) (update : Update) :
    Performs (t.write update) (t.plain update) := by
  unfold write plain refuseOptions
  split
  · exact performs_modify update
  · exact performs_throw _

/-- The signs are the ones that are read all at once, and the first that is none is refused. -/
theorem performs_applySigns (stem : String) (options : List String) :
    Performs (applySigns stem options) ((signsOf stem options).map fun signs f =>
      signs.foldl (fun f sign => sign.update f) f) := by
  induction options with
  | nil => exact fun _ => rfl
  | cons option options ih =>
    rw [applySigns, signsOf, List.mapM_cons, ← signsOf]
    cases Sign.ofStem? option with
    | none => exact performs_throw _
    | some sign =>
      have h := (performs_modify sign.update).andThen ih
      generalize signsOf stem options = signs at h ⊢
      cases signs <;> exact h

theorem performs_applyExponential (t : Token) (shape : NumberShape) :
    Performs (t.applyExponential shape)
      (signsOf t.stem t.options >>= fun signs => return exponential shape signs) := by
  have h := (performs_modify fun f => { f with shape := some shape }).andThen
    (performs_applySigns t.stem t.options)
  generalize signsOf t.stem t.options = signs at h ⊢
  cases signs <;> exact h

theorem performs_applyFractionOption (stem option : String) :
    Performs (applyFractionOption stem option) (fractionOption stem option) := by
  unfold applyFractionOption fractionOption
  by_cases hword : option = "w"
  · rw [if_pos hword, if_pos hword]
    exact performs_modify _
  rw [if_neg hword, if_neg hword]
  cases SignificantPrecision.ofPattern? option.toList with
  | none => exact performs_throw _
  | some precision => exact performs_modify _

theorem performs_applyFraction (t : Token) (pattern : List Char) :
    Performs (t.applyFraction pattern) (fractionMeaning t pattern) := by
  obtain ⟨stem, options⟩ := t
  unfold applyFraction fractionMeaning
  cases FractionPrecision.ofPattern? pattern with
  | none => exact performs_throw _
  | some precision =>
    match options with
    | [] => exact performs_modify _
    | [option] =>
      have h := (performs_modify precision.update).andThen
        (performs_applyFractionOption stem option)
      dsimp only
      generalize fractionOption stem option = update at h ⊢
      cases update <;> exact h
    | _ :: _ :: _ => exact performs_throw _

theorem performs_applyExponent (t : Token) (pattern : List Char) :
    Performs (t.applyExponent pattern)
      (match exponentUpdate? pattern with
      | some update => t.plain update
      | none =>
        if t.options.isEmpty then .error (.malformedExponent t.stem)
        else .error (.unexpectedOption t.stem)) := by
  unfold applyExponent refuseOptions plain
  by_cases hoptions : t.options.isEmpty = true
  · simp only [if_pos hoptions]
    cases exponentUpdate? pattern with
    | none => exact performs_throw _
    | some update => exact performs_modify _
  · simp only [if_neg hoptions]
    cases exponentUpdate? pattern with
    | none => exact performs_throw _
    | some update => exact performs_throw _

theorem performs_applyPattern (t : Token) : Performs t.applyPattern (patternMeaning t) := by
  unfold applyPattern patternMeaning
  dsimp only
  by_cases hzeros : Text.isRunOf '0' t.stem.toList = true
  · rw [if_pos hzeros, if_pos hzeros]
    exact t.performs_write _
  rw [if_neg hzeros, if_neg hzeros]
  cases Text.after? ['.'] t.stem.toList with
  | some pattern => exact t.performs_applyFraction pattern
  | none =>
    cases SignificantPrecision.ofPattern? t.stem.toList with
    | some precision => exact t.performs_write _
    | none =>
      cases Sign.ofStem? t.stem with
      | some sign => exact t.performs_write _
      | none =>
        cases Text.after? ['E'] t.stem.toList with
        | none => exact performs_throw _
        | some pattern => exact t.performs_applyExponent pattern

/-- To apply a token is to make the update it means, and it is refused for the same fault. -/
theorem performs_apply (t : Token) : Performs t.apply t.meaning := by
  obtain ⟨stem, options⟩ := t
  unfold apply
  dsimp only
  split
  any_goals exact performs_write _ _
  · exact performs_bind _ fun _ => performs_modify _
  · exact performs_bind _ fun _ => performs_modify _
  · exact performs_bind _ fun _ => performs_modify _
  · exact performs_applyExponential _ _
  · exact performs_applyExponential _ _
  · exact performs_bind _ fun _ => performs_bind _ fun _ => performs_modify _
  · exact performs_bind _ fun _ => performs_bind _ fun _ => performs_modify _
  · have hmeaning : meaning ⟨stem, options⟩ = patternMeaning ⟨stem, options⟩ := by
      unfold meaning
      split
      any_goals contradiction
      rfl
    rw [hmeaning]
    exact performs_applyPattern _

end Token

/-- Tokens that all have a meaning write what they mean, one after the other, and otherwise the
first that has none is refused. -/
theorem performs_applyAll (tokens : List Token) :
    Performs (applyAll tokens) ((tokens.mapM Token.meaning).map fun updates f =>
      updates.foldl (fun f update => update f) f) := by
  induction tokens with
  | nil => exact fun _ => rfl
  | cons t tokens ih =>
    have h := t.performs_apply.andThen ih
    rw [List.mapM_cons]
    generalize t.meaning = update at h ⊢
    generalize tokens.mapM Token.meaning = updates at h ⊢
    cases update <;> cases updates <;> exact h

/-- Tokens applied in place leave behind the format that they stand for, and the first that is
refused is the same. -/
theorem applied_eq_interpret (tokens : List Token) : applied tokens = interpret tokens := by
  have h := performs_applyAll tokens {}
  rw [applied, interpret]
  generalize tokens.mapM Token.meaning = updates at h ⊢
  cases updates with
  | error fault =>
    obtain ⟨g, h⟩ := h
    rw [h]
    rfl
  | ok updates =>
    dsimp only [Except.map] at h
    rw [h]
    rfl

end MessageFormat.NumberSkeleton
