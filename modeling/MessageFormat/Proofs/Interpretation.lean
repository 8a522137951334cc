import MessageFormat.Proofs.Erasure

/-!
# Interpreting skeletons

Skeletons can be kept as they are or interpreted.  Here the two ways to read a text are compared.
Interpreting adds the formats to the tree and changes nothing else.  It fails on a tree exactly if
one of its skeletons stands for no format, and then the error is about the first of them in the
order of the source: it has its kind, its cause and its place.

The place of a skeleton is known from the tree only if spans are kept.  If they are not, it is the
place that the same skeleton has in the tree with spans.
-/

namespace MessageFormat

/-- The skeleton has no format yet. -/
def Skeleton.Uninterpreted : Skeleton → Prop
  | .number pattern => pattern.format = {}
  | .dateTime pattern => pattern.format = {}

/-- Gives every skeleton the format that it stands for. -/
def Relabelling.interpret : Relabelling where
  number p := { p with format := (NumberSkeleton.interpret p.tokens).toOption.getD {} }
  dateTime p := { p with format := (DateTimeSkeleton.parse p.pattern).toOption.getD {} }

/-- The class of the error for a refused skeleton. -/
def SkeletonFault.kind : SkeletonFault → ErrorKind
  | .number _ => .invalidNumberSkeleton
  | .dateTime _ => .invalidDateTimeSkeleton

/-- The error is the refusal of the skeleton, reported where the skeleton stands. -/
def Skeleton.RefusedWith (options : Options) (s : Skeleton) (e : ParseError) : Prop :=
  ∃ cause, s.refusal? = some cause ∧ e.fault.cause? = some cause ∧
    s.span = Read.patternSpan options e.span

/-! ## The two comparisons -/

open Read in
/-- Reading without and with interpretation. -/
def Comparison.interpreting (options : Options) : Comparison where
  left := { options with interpretSkeletons := false }
  right := { options with interpretSkeletons := true }
  relabel := .interpret
  stray _ := False
  accepts s := s.refusal? = none
  refuses s e := s.RefusedWith options e
  ignoreTag := rfl
  spans _ := rfl
  number skeleton span := by
    unfold numberPattern
    split
    · exact agree_failAt
    refine agree_bind_same fun _ => ?_
    cases NumberSkeleton.tokenize (String.ofList skeleton) with
    | error cause => exact agree_failAt
    | ok tokens =>
      simp only [if_true, Bool.false_eq_true, if_false]
      cases hformat : NumberSkeleton.interpret tokens with
      | error cause =>
        refine fun _ => Verdict.lost_singleton ⟨.number cause, ?_, rfl, rfl⟩
        simp [Skeleton.refusal?, hformat]
      | ok format =>
        refine agree_pure ?_ (Verdict.kept_singleton ?_)
        · simp [Relabelling.interpret, hformat, Except.toOption, patternSpan]
        · simp [Skeleton.refusal?, hformat]
  dateTime skeleton span := by
    unfold dateTimePattern
    split
    · exact agree_failAt
    refine agree_bind_same fun _ => ?_
    simp only [if_true, Bool.false_eq_true, if_false]
    cases hformat : DateTimeSkeleton.parse (String.ofList skeleton) with
    | error cause =>
      refine fun _ => Verdict.lost_singleton ⟨.dateTime cause, ?_, rfl, rfl⟩
      simp [Skeleton.refusal?, hformat]
    | ok format =>
      refine agree_pure ?_ (Verdict.kept_singleton ?_)
      · simp [Relabelling.interpret, hformat, Except.toOption, patternSpan]
      · simp [Skeleton.refusal?, hformat]
  other := .inl rfl
  nesting := .inl rfl

open Read in
/-- Reading without interpretation, compared with itself. -/
def Comparison.uninterpreted (options : Options) (h : options.interpretSkeletons = false) :
    Comparison where
  left := options
  right := options
  relabel := {}
  stray _ := False
  accepts s := s.Uninterpreted
  refuses _ _ := False
  ignoreTag := rfl
  spans _ := rfl
  number skeleton span := by
    unfold numberPattern
    rw [h]
    split
    · exact agree_failAt
    refine agree_bind_same fun _ => ?_
    cases NumberSkeleton.tokenize (String.ofList skeleton) with
    | error cause => exact agree_failAt
    | ok tokens => exact agree_pure rfl (Verdict.kept_singleton rfl)
  dateTime skeleton span := by
    unfold dateTimePattern
    rw [h]
    split
    · exact agree_failAt
    refine agree_bind_same fun _ => ?_
    exact agree_pure rfl (Verdict.kept_singleton rfl)
  other := .inl rfl
  nesting := .inl rfl

/-- Without interpretation no skeleton has a format. -/
theorem uninterpreted_of_parse {options : Options} (h : options.interpretSkeletons = false)
    {text : String} {m : Message} (hparse : parse options text = .ok m) :
    ∀ s ∈ m.skeletons, s.Uninterpreted := by
  rcases (Comparison.uninterpreted options h).parse_of_ok hparse with ⟨-, kept⟩ | ⟨e, herror, -⟩
  · exact kept
  · rw [show (Comparison.uninterpreted options h).right = options from rfl, hparse] at herror
    cases herror

/-! ## The first refusal -/

theorem kind_of_cause? {fault : Fault} {cause : SkeletonFault} (h : fault.cause? = some cause) :
    fault.kind = cause.kind := by
  cases fault with
  | invalidNumberSkeleton skeleton reason =>
    cases h
    rfl
  | invalidDateTimeSkeleton skeleton reason =>
    cases h
    rfl
  | _ => cases h

/-- The skeleton that an interpreting run fails on is the first one that is refused. -/
theorem Comparison.refused_of_lost {options : Options} {l : List Skeleton} {e : ParseError}
    (h : (Comparison.interpreting options).Lost l e) :
    ∃ s cause, (l.find? fun s => s.refusal?.isSome) = some s ∧
      l.findSome? Skeleton.refusal? = some cause ∧ e.fault.cause? = some cause ∧
      s.span = Read.patternSpan options e.span := by
  rcases h with hfalse | ⟨before, s, after, rfl, kept, cause, hs, hcause, hspan⟩
  · exact hfalse.elim
  have kept : ∀ t ∈ before, t.refusal? = none := kept
  have hfind : (before.find? fun t => t.refusal?.isSome) = none := by
    rw [List.find?_eq_none]
    intro t ht
    simp [kept t ht]
  have hfindSome : before.findSome? Skeleton.refusal? = none :=
    List.findSome?_eq_none_iff.2 kept
  refine ⟨s, cause, ?_, ?_, hcause, hspan⟩
  · rw [List.find?_append, hfind]
    simp [hs]
  · rw [List.findSome?_append, hfindSome]
    simp [hs]

/-- Spans have no part in which skeletons are refused. -/
theorem findSome?_refusal?_spans (keep : Bool) (es : List Element) :
    (Element.skeletonsList (Element.relabelList (.spans keep) es)).findSome? Skeleton.refusal? =
      (Element.skeletonsList es).findSome? Skeleton.refusal? := by
  rw [Element.skeletonsList_relabel, List.findSome?_map]
  congr 1
  funext s
  cases s <;> rfl

/-! ## Whole texts -/

variable {options : Options} {text : String}

/-- A text that cannot be read without interpretation cannot be read with it. -/
theorem parse_interpreted_of_error {e : ParseError}
    (h : parse { options with interpretSkeletons := false } text = .error e) :
    ∃ e', parse { options with interpretSkeletons := true } text = .error e' ∧
      (e' = e ∨ e'.kind = .invalidNumberSkeleton ∨ e'.kind = .invalidDateTimeSkeleton) := by
  rcases (Comparison.interpreting options).parse_of_error h with hright | ⟨e', l, hright, lost⟩
  · exact ⟨e, hright, .inl rfl⟩
  · obtain ⟨s, cause, -, -, hcause, -⟩ := Comparison.refused_of_lost lost
    have hkind : e'.kind = cause.kind := kind_of_cause? hcause
    refine ⟨e', hright, .inr ?_⟩
    cases cause with
    | number reason => exact .inl hkind
    | dateTime reason => exact .inr hkind

/-- A tree without refused skeletons is interpreted. -/
theorem parse_interpreted_of_accepted {m : Message}
    (h : parse { options with interpretSkeletons := false } text = .ok m)
    (accepted : m.skeletons.findSome? Skeleton.refusal? = none) :
    parse { options with interpretSkeletons := true } text =
      .ok ⟨Element.relabelList .interpret m.elements, m.span⟩ := by
  rcases (Comparison.interpreting options).parse_of_ok h with ⟨hright, -⟩ | ⟨e, -, lost⟩
  · exact hright
  · obtain ⟨s, cause, -, hsome, -⟩ := Comparison.refused_of_lost lost
    rw [accepted] at hsome
    cases hsome

/-- A tree with refused skeletons is refused because of the first of them. -/
theorem parse_interpreted_of_refused {m : Message} {cause : SkeletonFault}
    (h : parse { options with interpretSkeletons := false } text = .ok m)
    (refused : m.skeletons.findSome? Skeleton.refusal? = some cause) :
    ∃ e s, parse { options with interpretSkeletons := true } text = .error e ∧
      e.fault.cause? = some cause ∧
      (m.skeletons.find? fun s => s.refusal?.isSome) = some s ∧
      s.span = Read.patternSpan options e.span := by
  rcases (Comparison.interpreting options).parse_of_ok h with ⟨-, kept⟩ | ⟨e, hright, lost⟩
  · have hnone : m.skeletons.findSome? Skeleton.refusal? = none :=
      List.findSome?_eq_none_iff.2 kept
    rw [hnone] at refused
    cases refused
  · obtain ⟨s, found, hfind, hsome, hcause, hspan⟩ := Comparison.refused_of_lost lost
    rw [hsome] at refused
    cases refused
    exact ⟨e, s, hright, hcause, hfind, hspan⟩

/-- Interpreting skeletons gives the tree with all formats, or the refusal of the first skeleton
that has none; other errors stay as they are. -/
theorem parse_interpretation (options : Options) (text : String) :
    match parse { options with interpretSkeletons := false } text with
    | .error e => ∃ e', parse { options with interpretSkeletons := true } text = .error e' ∧
        (e' = e ∨ e'.kind = .invalidNumberSkeleton ∨ e'.kind = .invalidDateTimeSkeleton)
    | .ok m => (∀ s ∈ m.skeletons, s.Uninterpreted) ∧
        match m.skeletons.findSome? Skeleton.refusal? with
        | none => parse { options with interpretSkeletons := true } text =
            .ok ⟨Element.relabelList .interpret m.elements, m.span⟩
        | some cause => ∃ e spanned,
            parse { options with interpretSkeletons := true } text = .error e ∧
            e.kind = cause.kind ∧ e.fault.cause? = some cause ∧
            parse { options with interpretSkeletons := false, captureSpans := true } text =
              .ok spanned ∧
            m.elements = Element.relabelList (.spans options.captureSpans) spanned.elements ∧
            (spanned.skeletons.find? fun s => s.refusal?.isSome).bind Skeleton.span =
              some e.span := by
  cases hoff : parse { options with interpretSkeletons := false } text with
  | error e => exact parse_interpreted_of_error hoff
  | ok m =>
    refine ⟨uninterpreted_of_parse rfl hoff, ?_⟩
    obtain ⟨spanned, hspanned, helements⟩ := exists_spanned_of_parse hoff
    have hrefusals : m.skeletons.findSome? Skeleton.refusal? =
        spanned.skeletons.findSome? Skeleton.refusal? := by
      rw [Message.skeletons, helements]
      exact findSome?_refusal?_spans _ _
    cases hfirst : m.skeletons.findSome? Skeleton.refusal? with
    | none => exact parse_interpreted_of_accepted hoff hfirst
    | some cause =>
      obtain ⟨e, s, herror, hcause, hfind, hspan⟩ :=
        @parse_interpreted_of_refused { options with captureSpans := true } text spanned cause
          hspanned (hrefusals.symm.trans hfirst)
      have herror' : parse { options with interpretSkeletons := true } text = .error e :=
        parse_eq_error_of_spanned herror
      refine ⟨e, spanned, herror', kind_of_cause? hcause, hcause, hspanned, helements, ?_⟩
      rw [hfind]
      exact hspan

end MessageFormat
