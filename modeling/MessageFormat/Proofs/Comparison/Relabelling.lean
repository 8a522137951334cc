import MessageFormat.Fault
import MessageFormat.Parse.Choice

/-!
# The leaves of a tree

Some options change nothing about the shape of a message: they decide whether spans are kept and
whether skeletons are interpreted.  What they change are the leaves of the tree, and a
`Relabelling` is such a change.  `Element.relabel` carries it out everywhere in a tree.

The skeletons of a tree, in the order in which they stand in the source, are
`Element.skeletonsList`.  A skeleton whose interpretation is refused has a `Skeleton.refusal?`.
-/

namespace MessageFormat

/-- A change of the spans and the skeletons of a tree. -/
structure Relabelling where
  span : Option Span → Option Span := id
  number : NumberPattern → NumberPattern := id
  dateTime : DateTimePattern → DateTimePattern := id

/-- The style with its skeleton changed, if it has one. -/
def ArgumentStyle.relabel {σ : Type} (change : σ → σ) : ArgumentStyle σ → ArgumentStyle σ
  | .simple text => .simple text
  | .skeleton value => .skeleton (change value)

mutual

/-- The element with all leaves changed. -/
def Element.relabel (r : Relabelling) : Element → Element
  | .literal text span => .literal text (r.span span)
  | .argument name span => .argument name (r.span span)
  | .number name style span => .number name (style.map (·.relabel r.number)) (r.span span)
  | .date name style span => .date name (style.map (·.relabel r.dateTime)) (r.span span)
  | .time name style span => .time name (style.map (·.relabel r.dateTime)) (r.span span)
  | .select name branches span => .select name (Branch.relabelList r branches) (r.span span)
  | .plural name kind offset branches span =>
    .plural name kind offset (Branch.relabelList r branches) (r.span span)
  | .pound span => .pound (r.span span)
  | .tag name children span => .tag name (Element.relabelList r children) (r.span span)

/-- The elements of a list with all leaves changed. -/
def Element.relabelList (r : Relabelling) : List Element → List Element
  | [] => []
  | e :: es => e.relabel r :: Element.relabelList r es

/-- The branches of a list with all leaves changed. -/
def Branch.relabelList (r : Relabelling) : List Branch → List Branch
  | [] => []
  | .mk selector body span :: branches =>
    .mk selector (Element.relabelList r body) (r.span span) :: Branch.relabelList r branches

end

/-- The branch with all leaves changed. -/
def Branch.relabel (r : Relabelling) (b : Branch) : Branch :=
  .mk b.selector (Element.relabelList r b.body) (r.span b.span)

namespace Branch

variable {r : Relabelling}

theorem relabelList_append (l l' : List Branch) :
    relabelList r (l ++ l') = relabelList r l ++ relabelList r l' := by
  induction l with
  | nil => simp [relabelList]
  | cons b l ih =>
    obtain ⟨selector, body, span⟩ := b
    simp [relabelList, ih]

theorem relabelList_singleton (b : Branch) : relabelList r [b] = [b.relabel r] := by
  obtain ⟨selector, body, span⟩ := b
  simp only [relabelList]
  rfl

/-- Selectors are no leaves. -/
theorem map_selector_relabelList (l : List Branch) :
    (relabelList r l).map selector = l.map selector := by
  induction l with
  | nil => simp [relabelList]
  | cons b l ih =>
    obtain ⟨selector, body, span⟩ := b
    simp only [relabelList, List.map_cons, ih]
    rfl

theorem any_selector_relabelList (test : String → Bool) (l : List Branch) :
    ((relabelList r l).any fun b => test b.selector) = l.any fun b => test b.selector := by
  have hany : ∀ l' : List Branch,
      (l'.any fun b => test b.selector) = (l'.map selector).any test := by
    intro l'
    rw [List.any_map]
    rfl
  rw [hany, hany, map_selector_relabelList]

theorem isEmpty_relabelList (l : List Branch) : (relabelList r l).isEmpty = l.isEmpty := by
  cases l with
  | nil => simp [relabelList]
  | cons b l =>
    obtain ⟨selector, body, span⟩ := b
    simp [relabelList]

end Branch

theorem Choice.relabel_element {r : Relabelling} (choice : Choice) (name : String) (offset : Nat)
    (branches : List Branch) (span : Option Span) :
    (choice.element name offset branches span).relabel r =
      choice.element name offset (Branch.relabelList r branches) (r.span span) := by
  cases choice <;> simp [Choice.element, Element.relabel]

/-! ## Changing nothing -/

theorem ArgumentStyle.relabel_id {σ : Type} (style : Option (ArgumentStyle σ)) :
    style.map (·.relabel id) = style := by
  rcases style with _ | (text | value)
  · rfl
  · rfl
  · rfl

mutual

theorem Element.relabel_id : (e : Element) → e.relabel {} = e
  | .literal .. | .argument .. | .pound .. => by simp [Element.relabel]
  | .number .. | .date .. | .time .. => by simp [Element.relabel, ArgumentStyle.relabel_id]
  | .select _ branches _ | .plural _ _ _ branches _ => by
    simp [Element.relabel, Branch.relabelList_id branches]
  | .tag _ children _ => by simp [Element.relabel, Element.relabelList_id children]

theorem Element.relabelList_id : (es : List Element) → Element.relabelList {} es = es
  | [] => by simp [Element.relabelList]
  | e :: es => by simp [Element.relabelList, Element.relabel_id e, Element.relabelList_id es]

theorem Branch.relabelList_id : (list : List Branch) → Branch.relabelList {} list = list
  | [] => by simp [Branch.relabelList]
  | .mk _ body _ :: list => by
    simp [Branch.relabelList, Element.relabelList_id body, Branch.relabelList_id list]

end

/-! ## Skeletons -/

/-- The skeleton of a number, date or time argument. -/
inductive Skeleton where
  | number (pattern : NumberPattern)
  | dateTime (pattern : DateTimePattern)
deriving DecidableEq

namespace Skeleton

/-- Where a skeleton stands, if spans were kept. -/
def span : Skeleton → Option Span
  | .number pattern => pattern.span
  | .dateTime pattern => pattern.span

/-- Why a skeleton stands for no format, if it does not. -/
def refusal? : Skeleton → Option SkeletonFault
  | .number pattern =>
    match NumberSkeleton.interpret pattern.tokens with
    | .error cause => some (.number cause)
    | .ok _ => none
  | .dateTime pattern =>
    match DateTimeSkeleton.parse pattern.pattern with
    | .error cause => some (.dateTime cause)
    | .ok _ => none

/-- The skeleton with its leaves changed. -/
def relabel (r : Relabelling) : Skeleton → Skeleton
  | .number pattern => .number (r.number pattern)
  | .dateTime pattern => .dateTime (r.dateTime pattern)

end Skeleton

/-- The skeleton of a style, if it has one. -/
def ArgumentStyle.skeletons {σ : Type} (make : σ → Skeleton) :
    Option (ArgumentStyle σ) → List Skeleton
  | some (.skeleton value) => [make value]
  | some (.simple _) => []
  | none => []

mutual

/-- The skeletons in an element, in the order of the source. -/
def Element.skeletons : Element → List Skeleton
  | .number _ style _ => ArgumentStyle.skeletons .number style
  | .date _ style _ => ArgumentStyle.skeletons .dateTime style
  | .time _ style _ => ArgumentStyle.skeletons .dateTime style
  | .select _ branches _ => Branch.skeletonsList branches
  | .plural _ _ _ branches _ => Branch.skeletonsList branches
  | .tag _ children _ => Element.skeletonsList children
  | .literal _ _ => []
  | .argument _ _ => []
  | .pound _ => []

/-- The skeletons in a list of elements, in the order of the source. -/
def Element.skeletonsList : List Element → List Skeleton
  | [] => []
  | e :: es => e.skeletons ++ Element.skeletonsList es

/-- The skeletons in a list of branches, in the order of the source. -/
def Branch.skeletonsList : List Branch → List Skeleton
  | [] => []
  | .mk _ body _ :: branches => Element.skeletonsList body ++ Branch.skeletonsList branches

end

/-- The skeletons in a branch. -/
def Branch.skeletons (b : Branch) : List Skeleton := Element.skeletonsList b.body

/-- The skeletons of a message, in the order of the source. -/
def Message.skeletons (m : Message) : List Skeleton := Element.skeletonsList m.elements

theorem Branch.skeletonsList_append (l l' : List Branch) :
    skeletonsList (l ++ l') = skeletonsList l ++ skeletonsList l' := by
  induction l with
  | nil => simp [skeletonsList]
  | cons b l ih =>
    obtain ⟨selector, body, span⟩ := b
    simp [skeletonsList, ih]

theorem Branch.skeletonsList_singleton (b : Branch) : skeletonsList [b] = b.skeletons := by
  obtain ⟨selector, body, span⟩ := b
  simp only [skeletonsList, List.append_nil]
  rfl

theorem Choice.skeletons_element (choice : Choice) (name : String) (offset : Nat)
    (branches : List Branch) (span : Option Span) :
    (choice.element name offset branches span).skeletons = Branch.skeletonsList branches := by
  cases choice <;> simp [Choice.element, Element.skeletons]

theorem ArgumentStyle.skeletons_relabel {σ : Type} {make : σ → Skeleton} {change : σ → σ}
    {r : Relabelling} (hmake : ∀ value, make (change value) = (make value).relabel r)
    (style : Option (ArgumentStyle σ)) :
    skeletons make (style.map (·.relabel change)) =
      (skeletons make style).map (Skeleton.relabel r) := by
  rcases style with _ | (text | value)
  · rfl
  · rfl
  · simp [skeletons, relabel, hmake]

mutual

theorem Element.skeletons_relabel (r : Relabelling) :
    (e : Element) → (e.relabel r).skeletons = e.skeletons.map (Skeleton.relabel r)
  | .literal .. | .argument .. | .pound .. => by simp [Element.relabel, Element.skeletons]
  | .number _ style _ => by
    simp only [Element.relabel, Element.skeletons]
    exact ArgumentStyle.skeletons_relabel (by intro _; rfl) style
  | .date _ style _ | .time _ style _ => by
    simp only [Element.relabel, Element.skeletons]
    exact ArgumentStyle.skeletons_relabel (by intro _; rfl) style
  | .select _ branches _ | .plural _ _ _ branches _ => by
    simp [Element.relabel, Element.skeletons, Branch.skeletonsList_relabel r branches]
  | .tag _ children _ => by
    simp [Element.relabel, Element.skeletons, Element.skeletonsList_relabel r children]

theorem Element.skeletonsList_relabel (r : Relabelling) : (es : List Element) →
    Element.skeletonsList (Element.relabelList r es) =
      (Element.skeletonsList es).map (Skeleton.relabel r)
  | [] => by simp [Element.relabelList, Element.skeletonsList]
  | e :: es => by
    simp [Element.relabelList, Element.skeletonsList, Element.skeletons_relabel r e,
      Element.skeletonsList_relabel r es]

theorem Branch.skeletonsList_relabel (r : Relabelling) : (list : List Branch) →
    Branch.skeletonsList (Branch.relabelList r list) =
      (Branch.skeletonsList list).map (Skeleton.relabel r)
  | [] => by simp [Branch.relabelList, Branch.skeletonsList]
  | .mk _ body _ :: list => by
    simp [Branch.relabelList, Branch.skeletonsList, Element.skeletonsList_relabel r body,
      Branch.skeletonsList_relabel r list]

end

end MessageFormat
