import Mathlib.Data.List.Forall2
import MessageFormat.NumberFormat.Meaning

/-!
# Why a number skeleton is refused

A number skeleton is refused for having no words, for a word with an empty option, or because of
one of its tokens.  In the last case the refusal names the stem of that token or one of its options
(`Token.refusedIn_meaning`).  So the refusal says by itself in which of the three steps it arose,
and a skeleton that has a word is never refused as empty (`tokenize_ne_empty`,
`interpret_ne_empty`).
-/

namespace MessageFormat.NumberSkeleton

/-! ## Lists of outcomes -/

section Outcomes

variable {ε α β : Type} {f : α → Except ε β}

/-- All members of a list succeed, each with its own result. -/
theorem mapM_eq_ok_iff {l : List α} {bs : List β} :
    l.mapM f = .ok bs ↔ List.Forall₂ (fun a b => f a = .ok b) l bs := by
  induction l generalizing bs with
  | nil =>
    rw [List.forall₂_nil_left_iff]
    constructor
    · intro h
      cases h
      rfl
    · rintro rfl
      rfl
  | cons a l ih =>
    rw [List.mapM_cons, List.forall₂_cons_left_iff]
    constructor
    · intro h
      cases ha : f a with
      | error e =>
        rw [ha] at h
        cases h
      | ok b =>
        cases hl : l.mapM f with
        | error e =>
          rw [ha, hl] at h
          cases h
        | ok bs' =>
          rw [ha, hl] at h
          cases h
          exact ⟨b, bs', rfl, ih.1 hl, rfl⟩
    · rintro ⟨b, bs', ha, hl, rfl⟩
      rw [ha, ih.2 hl]
      rfl

/-- A list fails with the failure of the first of its members that fails. -/
theorem mapM_eq_error_iff {l : List α} {e : ε} :
    l.mapM f = .error e ↔ ∃ before a after, l = before ++ a :: after ∧
      (∀ a ∈ before, ∃ b, f a = .ok b) ∧ f a = .error e := by
  constructor
  · intro h
    induction l with
    | nil => cases h
    | cons a l ih =>
      rw [List.mapM_cons] at h
      cases ha : f a with
      | error e' =>
        rw [ha] at h
        cases h
        exact ⟨[], a, l, rfl, by simp, ha⟩
      | ok b =>
        cases hl : l.mapM f with
        | error e' =>
          rw [ha, hl] at h
          cases h
          obtain ⟨before, a', after, rfl, hbefore, ha'⟩ := ih hl
          exact ⟨a :: before, a', after, rfl, List.forall_mem_cons.2 ⟨⟨b, ha⟩, hbefore⟩, ha'⟩
        | ok bs =>
          rw [ha, hl] at h
          cases h
  · rintro ⟨before, a, after, rfl, hbefore, ha⟩
    induction before with
    | nil =>
      rw [List.nil_append, List.mapM_cons, ha]
      rfl
    | cons a' before ih =>
      rw [List.forall_mem_cons] at hbefore
      obtain ⟨⟨b, hb⟩, hbefore⟩ := hbefore
      rw [List.cons_append, List.mapM_cons, hb, ih hbefore]
      rfl

/-- A list fails with the failure of one of its members. -/
theorem exists_error_of_mapM {l : List α} {e : ε} (h : l.mapM f = .error e) :
    ∃ a ∈ l, f a = .error e := by
  obtain ⟨before, a, after, rfl, -, ha⟩ := mapM_eq_error_iff.1 h
  exact ⟨a, List.mem_append_right before List.mem_cons_self, ha⟩

end Outcomes

/-! ## Words -/

theorem wordsOf_ne_nil {ch : Char} {rest : List Char} (h : isWhiteSpace ch = false) :
    wordsOf (ch :: rest) ≠ [] := by
  obtain ⟨piece, pieces, hsplit⟩ :=
    List.exists_cons_of_ne_nil (List.splitOnP_ne_nil isWhiteSpace rest)
  rw [wordsOf, List.splitOnP_cons_eq_if_modifyHead, hsplit]
  simp [h]

theorem tokenOf_ne_empty (word : List Char) : tokenOf word ≠ .error .empty := by
  unfold tokenOf
  intro h
  split at h
  · cases h
  · split at h
    · cases h
    · cases h

/-- A skeleton that has a word is not empty. -/
theorem tokenize_ne_empty {skeleton : String} (h : wordsOf skeleton.toList ≠ []) :
    tokenize skeleton ≠ .error .empty := by
  intro hempty
  rw [tokenize] at hempty
  cases hwords : (wordsOf skeleton.toList).mapM tokenOf with
  | error fault =>
    rw [hwords] at hempty
    cases hempty
    obtain ⟨word, -, hword⟩ := exists_error_of_mapM hwords
    exact tokenOf_ne_empty word hword
  | ok tokens =>
    rw [hwords] at hempty
    cases tokens with
    | nil => exact h (List.forall₂_nil_right_iff.1 (mapM_eq_ok_iff.1 hwords))
    | cons token tokens => cases hempty

/-! ## Tokens -/

/-- The refusal names the stem of the token or one of its options. -/
def Fault.Concerns (t : Token) : Fault → Prop
  | .empty | .emptyOption _ => False
  | .unknownStem stem | .missingOption stem | .unexpectedOption stem | .tooManyOptions stem
  | .malformedExponent stem => stem = t.stem
  | .invalidOption stem option => stem = t.stem ∧ option ∈ t.options
  | .unsupportedIntegerWidth option => option ∈ t.options

namespace Token

/-- What is refused is refused because of the token. -/
def RefusedIn {α : Type} (t : Token) (x : Except Fault α) : Prop :=
  ∀ fault, x = .error fault → fault.Concerns t

variable {t : Token} {α β : Type}

theorem refusedIn_ok (a : α) : t.RefusedIn (.ok a : Except Fault α) := by
  intro fault h
  cases h

theorem refusedIn_error {fault : Fault} (h : fault.Concerns t) :
    t.RefusedIn (.error fault : Except Fault α) := by
  intro fault' h'
  cases h'
  exact h

theorem RefusedIn.bind {x : Except Fault α} {f : α → Except Fault β} (hx : t.RefusedIn x)
    (hf : ∀ a, x = .ok a → t.RefusedIn (f a)) : t.RefusedIn (x >>= f) := by
  cases x with
  | error fault => exact refusedIn_error (hx fault rfl)
  | ok a => exact hf a rfl

theorem refusedIn_plain (update : Update) : t.RefusedIn (t.plain update) := by
  unfold plain
  split
  · exact refusedIn_ok _
  · exact refusedIn_error rfl

theorem mem_of_onlyOption {option : String} (h : t.onlyOption = .ok option) :
    option ∈ t.options := by
  unfold onlyOption at h
  split at h
  · cases h
  · next only hoptions =>
    cases h
    rw [hoptions]
    exact List.mem_singleton_self _
  · cases h

theorem refusedIn_onlyOption : t.RefusedIn t.onlyOption := by
  unfold onlyOption
  split
  · exact refusedIn_error rfl
  · exact refusedIn_ok _
  · exact refusedIn_error rfl

/-- A step that looks at the only option of the token. -/
theorem refusedIn_bind_onlyOption {f : String → Except Fault α}
    (hf : ∀ option ∈ t.options, t.RefusedIn (f option)) : t.RefusedIn (t.onlyOption >>= f) :=
  refusedIn_onlyOption.bind fun option h => hf option (mem_of_onlyOption h)

theorem refusedIn_signsOf : t.RefusedIn (signsOf t.stem t.options) := by
  intro fault h
  obtain ⟨option, hmem, hoption⟩ := exists_error_of_mapM h
  split at hoption
  · cases hoption
  · cases hoption
    exact ⟨rfl, hmem⟩

theorem refusedIn_scaleFactor {option : String} (h : option ∈ t.options) :
    t.RefusedIn (scaleFactor t.stem option) := by
  unfold scaleFactor
  split
  · split
    · exact refusedIn_ok _
    · exact refusedIn_error ⟨rfl, h⟩
  · exact refusedIn_error ⟨rfl, h⟩

theorem refusedIn_integerWidth {option : String} (h : option ∈ t.options) :
    t.RefusedIn (integerWidth t.stem option) := by
  unfold integerWidth
  dsimp only
  split
  · split
    · exact refusedIn_ok _
    · exact refusedIn_error ⟨rfl, h⟩
  · split
    · exact refusedIn_error h
    · exact refusedIn_error ⟨rfl, h⟩

theorem refusedIn_fractionMeaning (pattern : List Char) :
    t.RefusedIn (fractionMeaning t pattern) := by
  unfold fractionMeaning
  split
  · exact refusedIn_error rfl
  split
  · exact refusedIn_ok _
  · next option hoptions =>
    refine RefusedIn.bind ?_ fun _ _ => refusedIn_ok _
    unfold fractionOption
    split
    · exact refusedIn_ok _
    split
    · exact refusedIn_ok _
    · exact refusedIn_error ⟨rfl, hoptions ▸ List.mem_singleton_self option⟩
  · exact refusedIn_error rfl

theorem refusedIn_patternMeaning : t.RefusedIn (patternMeaning t) := by
  unfold patternMeaning
  dsimp only
  split
  · exact refusedIn_plain _
  split
  · exact refusedIn_fractionMeaning _
  split
  · exact refusedIn_plain _
  split
  · exact refusedIn_plain _
  split
  · exact refusedIn_error rfl
  split
  · exact refusedIn_plain _
  split
  · exact refusedIn_error rfl
  · exact refusedIn_error rfl

/-- Every refusal of a token names its stem or one of its options. -/
theorem refusedIn_meaning (t : Token) : t.RefusedIn t.meaning := by
  unfold meaning
  split
  any_goals exact refusedIn_plain _
  -- What is left are the words that take options, in order a currency, the two words for a unit,
  -- the two shapes with an exponent, a scale and an integer width, and then the patterns.
  · exact refusedIn_bind_onlyOption fun _ _ => refusedIn_ok _
  · exact refusedIn_bind_onlyOption fun _ _ => refusedIn_ok _
  · exact refusedIn_bind_onlyOption fun _ _ => refusedIn_ok _
  · exact refusedIn_signsOf.bind fun _ _ => refusedIn_ok _
  · exact refusedIn_signsOf.bind fun _ _ => refusedIn_ok _
  · exact refusedIn_bind_onlyOption fun _ hmem =>
      (refusedIn_scaleFactor hmem).bind fun _ _ => refusedIn_ok _
  · exact refusedIn_bind_onlyOption fun _ hmem =>
      (refusedIn_integerWidth hmem).bind fun _ _ => refusedIn_ok _
  · exact refusedIn_patternMeaning

end Token

/-! ## Skeletons -/

theorem interpret_singleton_eq_ok_iff {t : Token} {f : NumberFormat} :
    interpret [t] = .ok f ↔ ∃ update, t.meaning = .ok update ∧ f = update {} := by
  rw [interpret, List.mapM_cons]
  cases t.meaning with
  | error fault => simp [bind, Except.bind]
  | ok update => simp [bind, Except.bind, pure, Except.pure, eq_comm]

theorem interpret_singleton_eq_error_iff {t : Token} {fault : Fault} :
    interpret [t] = .error fault ↔ t.meaning = .error fault := by
  rw [interpret, List.mapM_cons]
  cases t.meaning with
  | error fault' => simp [bind, Except.bind]
  | ok update => simp [bind, Except.bind, pure, Except.pure]

theorem interpret_ne_empty (tokens : List Token) : interpret tokens ≠ .error .empty := by
  intro h
  rw [interpret] at h
  cases hupdates : tokens.mapM Token.meaning with
  | error fault =>
    rw [hupdates] at h
    cases h
    obtain ⟨t, -, ht⟩ := exists_error_of_mapM hupdates
    exact t.refusedIn_meaning .empty ht
  | ok updates =>
    rw [hupdates] at h
    cases h

theorem parse_ne_empty {skeleton : String} (h : wordsOf skeleton.toList ≠ []) :
    parse skeleton ≠ .error .empty := by
  intro hempty
  rw [parse] at hempty
  cases htokens : tokenize skeleton with
  | error fault =>
    rw [htokens] at hempty
    cases hempty
    exact tokenize_ne_empty h htokens
  | ok tokens =>
    rw [htokens] at hempty
    exact interpret_ne_empty tokens hempty

end MessageFormat.NumberSkeleton
