import MessageFormat.Proofs.Comparison.Messages
import MessageFormat.Proofs.Positions

/-!
# Spans are labels

Whether spans are kept has no influence on how a text is read.  The reading that keeps them is
compared with the one the options ask for: the errors are the same, and the tree is the same but
for the spans that are not asked for.

If none are asked for, the result is that of the reading with spans after `Message.withoutSpans`,
which takes out all spans but that of the message itself.
-/

namespace MessageFormat

/-- Leaves all spans in place, or takes all of them out. -/
def Relabelling.spans (keep : Bool) : Relabelling where
  span s := if keep then s else none
  number p := { p with span := if keep then p.span else none }
  dateTime p := { p with span := if keep then p.span else none }

open Read in
/-- Reading with spans, and reading as the options say. -/
def Comparison.spanned (options : Options) : Comparison where
  left := { options with captureSpans := true }
  right := options
  relabel := .spans options.captureSpans
  stray _ := False
  accepts _ := True
  refuses _ _ := False
  ignoreTag := rfl
  spans _ := rfl
  number skeleton span := by
    unfold numberPattern
    split
    · exact agree_failAt
    refine agree_bind_same fun _ => ?_
    cases NumberSkeleton.tokenize (String.ofList skeleton) with
    | error cause => exact agree_failAt
    | ok tokens =>
      dsimp only
      split
      · cases NumberSkeleton.interpret tokens with
        | error cause => exact agree_failAt
        | ok format => exact agree_pure rfl fun _ _ => trivial
      · exact agree_pure rfl fun _ _ => trivial
  dateTime skeleton span := by
    unfold dateTimePattern
    split
    · exact agree_failAt
    refine agree_bind_same fun _ => ?_
    split
    · cases DateTimeSkeleton.parse (String.ofList skeleton) with
      | error cause => exact agree_failAt
      | ok format => exact agree_pure rfl fun _ _ => trivial
    · exact agree_pure rfl fun _ _ => trivial
  other := .inl rfl
  nesting := .inl rfl

theorem Comparison.not_lost_spanned {options : Options} {l : List Skeleton} {e : ParseError} :
    ¬(Comparison.spanned options).Lost l e := by
  rintro (hfalse | ⟨_, _, _, _, _, hfalse⟩)
  · exact hfalse
  · exact hfalse

variable {options : Options} {text : String}

/-- The tree of a text is the one with spans, without those that are not asked for. -/
theorem parse_eq_ok_of_spanned {m : Message}
    (h : parse { options with captureSpans := true } text = .ok m) :
    parse options text =
      .ok ⟨Element.relabelList (.spans options.captureSpans) m.elements, m.span⟩ := by
  rcases (Comparison.spanned options).parse_of_ok h with ⟨hright, -⟩ | ⟨e, -, lost⟩
  · exact hright
  · exact (Comparison.not_lost_spanned lost).elim

/-- The error of a text does not depend on whether spans are kept. -/
theorem parse_eq_error_of_spanned {e : ParseError}
    (h : parse { options with captureSpans := true } text = .error e) :
    parse options text = .error e := by
  rcases (Comparison.spanned options).parse_of_error h with hright | ⟨e', l, -, lost⟩
  · exact hright
  · exact (Comparison.not_lost_spanned lost).elim

/-- Every tree is that of a reading with spans, without those that are not asked for. -/
theorem exists_spanned_of_parse {m : Message} (h : parse options text = .ok m) :
    ∃ spanned, parse { options with captureSpans := true } text = .ok spanned ∧
      m.elements = Element.relabelList (.spans options.captureSpans) spanned.elements := by
  cases hspanned : parse { options with captureSpans := true } text with
  | error e =>
    rw [parse_eq_error_of_spanned hspanned] at h
    cases h
  | ok spanned =>
    rw [parse_eq_ok_of_spanned hspanned] at h
    cases h
    exact ⟨spanned, rfl, rfl⟩

/-! ## Without any spans -/

theorem ArgumentStyle.spans_relabel {σ : Type} {span : σ → Option Span} {change : σ → σ}
    (h : ∀ value, span (change value) = none) (style : Option (ArgumentStyle σ)) :
    spans span (style.map (·.relabel change)) = [] := by
  rcases style with _ | (text | value)
  · rfl
  · rfl
  · simp [spans, relabel, h]

mutual

theorem Element.spans_withoutSpans : (e : Element) → (e.relabel (.spans false)).spans = []
  | .literal .. | .argument .. | .pound .. => by
    simp [Element.relabel, Element.spans, Relabelling.spans]
  | .number _ style _ => by
    simp only [Element.relabel, Element.spans]
    exact List.append_eq_nil_iff.2 ⟨ArgumentStyle.spans_relabel (fun _ => rfl) style, rfl⟩
  | .date _ style _ | .time _ style _ => by
    simp only [Element.relabel, Element.spans]
    exact List.append_eq_nil_iff.2 ⟨ArgumentStyle.spans_relabel (fun _ => rfl) style, rfl⟩
  | .select _ branches _ | .plural _ _ _ branches _ => by
    simp only [Element.relabel, Element.spans, Branch.spansList_withoutSpans branches]
    rfl
  | .tag _ children _ => by
    simp only [Element.relabel, Element.spans, Element.spansList_withoutSpans children]
    rfl

theorem Element.spansList_withoutSpans :
    (es : List Element) → Element.spansList (Element.relabelList (.spans false) es) = []
  | [] => by simp [Element.relabelList, Element.spansList]
  | e :: es => by
    simp [Element.relabelList, Element.spansList, Element.spans_withoutSpans e,
      Element.spansList_withoutSpans es]

theorem Branch.spansList_withoutSpans :
    (list : List Branch) → Branch.spansList (Branch.relabelList (.spans false) list) = []
  | [] => by simp [Branch.relabelList, Branch.spansList]
  | .mk _ body _ :: list => by
    simp only [Branch.relabelList, Branch.spansList, Element.spansList_withoutSpans body,
      Branch.spansList_withoutSpans list]
    rfl

end

/-- The message without the spans of its elements, branches and skeletons. -/
def Message.withoutSpans (m : Message) : Message :=
  ⟨Element.relabelList (.spans false) m.elements, m.span⟩

/-- Reading without spans is reading with them and taking them out: the same texts are read, the
trees differ in nothing but the spans, of which that of the message is the only one left, and the
errors are the same. -/
theorem parse_withoutSpans (options : Options) (text : String) :
    parse { options with captureSpans := false } text =
        (parse { options with captureSpans := true } text).map Message.withoutSpans ∧
      ∀ m : Message, m.withoutSpans.spans = [m.span] := by
  constructor
  · let bare : Options := { options with captureSpans := false }
    cases hspanned : parse { options with captureSpans := true } text with
    | error e => exact @parse_eq_error_of_spanned bare text e hspanned
    | ok m => exact @parse_eq_ok_of_spanned bare text m hspanned
  · intro m
    rw [Message.spans, Message.withoutSpans, Element.spansList_withoutSpans]

end MessageFormat
