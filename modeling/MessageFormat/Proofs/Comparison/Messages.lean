import MessageFormat.Parse.Message
import MessageFormat.Proofs.Comparison.Runs

/-!
# Reading one text with two sets of options

A `Comparison` is a pair of options that cut every text into the same pieces.  What they may
differ in is listed in its fields: how the leaves of the tree are labelled, which skeletons are
accepted, whether a branch `other` is required, and how deep messages may be nested.  For each of
them the comparison says how the two runs are related at the one place where the option is used.

From that it follows once and for all how the two readings of a whole text are related.  There is
one lemma for each action that reads a part of a message.  The statements for whole texts are
`Comparison.parse_of_ok` and `Comparison.parse_of_error`, by the result of the first reading.
-/

namespace MessageFormat

/-- Two sets of options and how reading with them differs. -/
structure Comparison extends Verdict where
  left : Options
  right : Options
  relabel : Relabelling
  ignoreTag : left.ignoreTag = right.ignoreTag
  spans (span : Span) : relabel.span (if left.captureSpans then some span else none) =
    if right.captureSpans then some span else none
  number (skeleton : List Char) (span : Span) :
    Read.Agree toVerdict (Read.numberPattern left skeleton span)
      (Read.numberPattern right skeleton span) (fun p => [.number p]) relabel.number
  dateTime (skeleton : List Char) (span : Span) :
    Read.Agree toVerdict (Read.dateTimePattern left skeleton span)
      (Read.dateTimePattern right skeleton span) (fun p => [.dateTime p]) relabel.dateTime
  other : left.requiresOther = right.requiresOther ∨
    left.requiresOther = false ∧ ∀ span, stray ⟨.missingOther, span⟩
  nesting : left.maxNestingDepth = right.maxNestingDepth ∨
    right.maxNestingDepth ≤ left.maxNestingDepth ∧ ∀ n span, stray ⟨.nestingLimit n, span⟩

namespace Comparison

open Read

variable {α β : Type} {k : Comparison} {skeletons : α → List Skeleton} {relabel : α → β}
  {inner inner' : Option Inner} {frame : Frame}

/-- The readers of the next level agree, or the second one has reached its limit. -/
inductive Inners (k : Comparison) : Option Inner → Option Inner → Prop
  | some {read read' : Inner}
      (agree : ∀ frame, Agree k.toVerdict (read frame) (read' frame) Element.skeletonsList
        (Element.relabelList k.relabel)) :
      Inners k (some read) (some read')
  | none (limit : k.left.maxNestingDepth = k.right.maxNestingDepth) : Inners k none none
  | stray {inner : Option Inner} (stray : ∀ n span, k.stray ⟨.nestingLimit n, span⟩) :
      Inners k inner none

/-! ## Spans and levels -/

theorem agree_capture {start : Position} {f : Option Span → Read α} {g : Option Span → Read β}
    (h : ∀ span, Agree k.toVerdict (f span) (g (k.relabel.span span)) skeletons relabel) :
    Agree k.toVerdict (capture k.left start >>= f) (capture k.right start >>= g) skeletons
      relabel := by
  intro s
  have hs := h (if k.left.captureSpans then some (s.cursor.spanFrom start) else none) s
  rw [k.spans] at hs
  exact hs

theorem agree_enter {start : Position} {f g : Inner → Read α} {relabel : α → α}
    (inners : k.Inners inner inner')
    (h : ∀ read read', (∀ frame, Agree k.toVerdict (read frame) (read' frame)
        Element.skeletonsList (Element.relabelList k.relabel)) →
      Agree k.toVerdict (f read) (g read') skeletons relabel) :
    Agree k.toVerdict (enter k.left inner start >>= f) (enter k.right inner' start >>= g)
      skeletons relabel := by
  cases inners with
  | some agree => exact h _ _ agree
  | none limit =>
    rw [enter, enter, limit]
    exact fun _ => .inl rfl
  | stray stray => exact agree_of_stray fun s => ⟨_, s, rfl, stray _ _⟩

/-! ## Styles -/

theorem agree_argumentStyle {σ : Type} {pattern pattern' : List Char → Span → Read σ}
    {make : σ → Skeleton} {change : σ → σ}
    (h : ∀ skeleton span, Agree k.toVerdict (pattern skeleton span) (pattern' skeleton span)
      (fun p => [make p]) change) (style : Option (List Char × Span)) :
    Agree k.toVerdict (argumentStyle pattern style) (argumentStyle pattern' style)
      (ArgumentStyle.skeletons make) (Option.map (ArgumentStyle.relabel change)) := by
  cases style with
  | none => exact agree_pure rfl Verdict.kept_nil
  | some style =>
    obtain ⟨text, span⟩ := style
    simp only [argumentStyle]
    cases Text.after? [':', ':'] text with
    | none => exact agree_pure rfl Verdict.kept_nil
    | some skeleton =>
      refine (h _ span).bind (fun p kept => agree_pure rfl kept) ?_
      exact fun p e lost c => meets_pure lost

theorem agree_styled {σ : Type} {pattern pattern' : List Char → Span → Read σ}
    {make : σ → Skeleton} {change : σ → σ} {opening : Position}
    (build : Option (ArgumentStyle σ) → Option Span → Element)
    (h : ∀ skeleton span, Agree k.toVerdict (pattern skeleton span) (pattern' skeleton span)
      (fun p => [make p]) change)
    (hskeletons : ∀ style span,
      (build style span).skeletons = ArgumentStyle.skeletons make style)
    (hrelabel : ∀ style span, (build style span).relabel k.relabel =
      build (style.map (ArgumentStyle.relabel change)) (k.relabel.span span)) :
    Agree k.toVerdict
      (styled k.left opening pattern >>= fun (style, span) => pure (build style span))
      (styled k.right opening pattern' >>= fun (style, span) => pure (build style span))
      Element.skeletons (Element.relabel k.relabel) := by
  have hstyled : Agree k.toVerdict (styled k.left opening pattern)
      (styled k.right opening pattern') (fun read => ArgumentStyle.skeletons make read.1)
      (Prod.map (Option.map (ArgumentStyle.relabel change)) k.relabel.span) := by
    refine agree_bind_same fun style => agree_bind_same fun _ => agree_capture fun span => ?_
    refine (agree_argumentStyle h style).bind (fun value kept => agree_pure rfl kept) ?_
    exact fun value e lost c => meets_pure lost
  refine hstyled.bind ?_ ?_
  · rintro ⟨style, span⟩ kept
    refine agree_pure (hrelabel style span).symm ?_
    rw [hskeletons]
    exact kept
  · rintro ⟨style, span⟩ e lost c
    refine meets_pure ?_
    rw [hskeletons]
    exact lost

/-! ## Branches -/

theorem agree_branch {choice : Choice} {earlier : List Branch} {selector : String} {span : Span}
    (inners : k.Inners inner inner') :
    Agree k.toVerdict (branch k.left inner frame choice earlier selector span)
      (branch k.right inner' frame choice (Branch.relabelList k.relabel earlier) selector span)
      Branch.skeletons (Branch.relabel k.relabel) := by
  have hany := Branch.any_selector_relabelList (r := k.relabel) (fun t => t == selector) earlier
  unfold branch
  rw [hany]
  split
  · exact agree_failAt
  refine agree_bind_same fun _ => agree_bind_same fun start => agree_bind_same fun opened => ?_
  split
  · refine agree_enter inners fun read read' agree => ?_
    refine (agree _).bind (fun body kept => ?_) fun body e lost c => ?_
    · exact agree_bind_same fun _ => agree_capture fun span => agree_pure rfl kept
    · exact meets_bind_any fun _ _ => meets_bind_any fun _ _ => meets_pure lost
  · exact agree_failHere

/-- Reading on only adds branches. -/
theorem meets_branchesFrom_extends {options : Options} {choice : Choice} (n : Nat)
    (earlier : List Branch) (first : List Char × Span) (c : Cursor) :
    Meets (branchesFrom options inner frame choice n earlier first) c
      (fun list _ => ∃ more, list = earlier ++ more) fun _ => True := by
  induction n generalizing earlier first c with
  | zero => exact meets_pure ⟨[], by simp⟩
  | succ n ih =>
    rw [branchesFrom]
    refine meets_bind_any fun selected d => ?_
    cases selected with
    | none => exact meets_pure ⟨[], by simp⟩
    | some selected =>
      refine meets_bind_any fun b _ => meets_bind_any fun _ _ => meets_bind_any fun next f => ?_
      refine (ih (earlier ++ [b]) next f).imp ?_ fun _ h => h
      rintro list _ ⟨more, rfl⟩
      exact ⟨b :: more, by simp⟩

theorem agree_branchesFrom {choice : Choice} (inners : k.Inners inner inner') (n : Nat)
    (earlier : List Branch) (first : List Char × Span)
    (kept : k.Kept (Branch.skeletonsList earlier)) :
    Agree k.toVerdict (branchesFrom k.left inner frame choice n earlier first)
      (branchesFrom k.right inner' frame choice n (Branch.relabelList k.relabel earlier) first)
      Branch.skeletonsList (Branch.relabelList k.relabel) := by
  induction n generalizing earlier first with
  | zero => exact agree_pure rfl kept
  | succ n ih =>
    rw [branchesFrom, branchesFrom]
    refine agree_bind_same fun selected => ?_
    cases selected with
    | none => exact agree_pure rfl kept
    | some selected =>
      obtain ⟨selector, span⟩ := selected
      -- The skeletons of the branches so far, with those of the branch that is read now.
      have hsnoc : ∀ b, Branch.skeletonsList (earlier ++ [b]) =
          Branch.skeletonsList earlier ++ b.skeletons := by
        intro b
        rw [Branch.skeletonsList_append, Branch.skeletonsList_singleton]
      refine (agree_branch inners).bind (fun b keptb => ?_) fun b e lost c => ?_
      · refine agree_bind_same fun _ => agree_bind_same fun next => ?_
        have keptAll : k.Kept (Branch.skeletonsList (earlier ++ [b])) := by
          rw [hsnoc]
          exact kept.append keptb
        have hagree := ih (earlier ++ [b]) next keptAll
        rw [Branch.relabelList_append, Branch.relabelList_singleton] at hagree
        exact hagree
      · refine meets_bind_any fun _ _ => meets_bind_any fun next d => ?_
        refine (meets_branchesFrom_extends n (earlier ++ [b]) next d).imp ?_ fun _ h => h
        rintro list _ ⟨more, rfl⟩
        rw [Branch.skeletonsList_append, hsnoc]
        exact (lost.append_right kept).append_left _

theorem agree_branches {choice : Choice} {first : List Char × Span}
    (inners : k.Inners inner inner') :
    Agree k.toVerdict (branches k.left inner frame choice first)
      (branches k.right inner' frame choice first)
      Branch.skeletonsList (Branch.relabelList k.relabel) := by
  unfold branches
  refine agree_bind_same fun c => ?_
  have hfrom : Agree k.toVerdict
      (branchesFrom k.left inner frame choice (c.rest.length + 1) [] first)
      (branchesFrom k.right inner' frame choice (c.rest.length + 1) [] first)
      Branch.skeletonsList (Branch.relabelList k.relabel) :=
    agree_branchesFrom inners _ [] first Verdict.kept_nil
  refine hfrom.bind (fun list kept => ?_) fun list e lost c => ?_
  · have hany := Branch.any_selector_relabelList (r := k.relabel) (fun t => t == "other") list
    rw [Branch.isEmpty_relabelList, hany]
    split
    · exact agree_failHere
    rcases k.other with hother | ⟨hleft, hstray⟩
    · rw [hother]
      split
      · exact agree_failFrom
      · exact agree_pure rfl kept
    · -- Only the second run may ask for the branch, and then its error is stray.
      rw [hleft, if_neg (by simp)]
      split
      · exact agree_of_stray fun s => ⟨_, s, rfl, hstray _⟩
      · exact agree_pure rfl kept
  · split
    · exact meets_failHere trivial
    · split
      · exact meets_failFrom trivial
      · exact meets_pure lost

theorem agree_choice (choice : Choice) {name : String} {opening : Position}
    (inners : k.Inners inner inner') :
    Agree k.toVerdict (Read.choice k.left inner frame choice name opening)
      (Read.choice k.right inner' frame choice name opening)
      Element.skeletons (Element.relabel k.relabel) := by
  unfold Read.choice
  refine agree_bind_same fun typeEnd => agree_bind_same fun _ => agree_bind_same fun comma => ?_
  split
  · refine agree_bind_same fun _ => agree_bind_same fun word => agree_bind_same fun start => ?_
    obtain ⟨offset, first⟩ := start
    refine (agree_branches inners).bind (fun list kept => ?_) fun list e lost c => ?_
    · refine agree_bind_same fun _ => agree_capture fun span => ?_
      refine agree_pure (choice.relabel_element ..).symm ?_
      rw [choice.skeletons_element]
      exact kept
    · refine meets_bind_any fun _ _ => meets_bind_any fun _ _ => meets_pure ?_
      rw [choice.skeletons_element]
      exact lost
  · exact agree_failAt

/-! ## Tags -/

theorem agree_afterTagName {start : Position} {name : String} (inners : k.Inners inner inner') :
    Agree k.toVerdict (afterTagName k.left inner frame start name)
      (afterTagName k.right inner' frame start name)
      Element.skeletons (Element.relabel k.relabel) := by
  unfold afterTagName
  refine agree_bind_same fun _ => agree_bind_same fun closed => ?_
  split
  · refine agree_capture fun span => agree_pure ?_ ?_
    · simp [Element.relabel]
    · simpa [Element.skeletons] using Verdict.kept_nil
  refine agree_bind_same fun opened => ?_
  split
  · refine agree_enter inners fun read read' agree => ?_
    refine (agree _).bind (fun children kept => ?_) fun children e lost c => ?_
    · refine agree_bind_same fun _ => agree_capture fun span => agree_pure ?_ ?_
      · simp [Element.relabel]
      · simpa [Element.skeletons] using kept
    · refine meets_bind_any fun _ _ => meets_bind_any fun _ _ => meets_pure ?_
      simpa [Element.skeletons] using lost
  · exact agree_failFrom

theorem agree_tag (inners : k.Inners inner inner') :
    Agree k.toVerdict (tag k.left inner frame) (tag k.right inner' frame)
      Element.skeletons (Element.relabel k.relabel) := by
  unfold tag
  refine agree_bind_same fun start => agree_bind_same fun _ => agree_bind_same fun name => ?_
  refine agree_bind_same fun c => ?_
  cases c.current? with
  | none => exact agree_afterTagName inners
  | some ch =>
    dsimp only
    split
    · exact agree_afterTagName inners
    · exact agree_bind_same fun _ => agree_failFrom

/-! ## Arguments -/

theorem agree_typedArgument {name : String} {opening : Position}
    (inners : k.Inners inner inner') :
    Agree k.toVerdict (typedArgument k.left inner frame name opening)
      (typedArgument k.right inner' frame name opening)
      Element.skeletons (Element.relabel k.relabel) := by
  unfold typedArgument
  refine agree_bind_same fun read => ?_
  obtain ⟨type, span⟩ := read
  dsimp only
  generalize String.ofList type = word
  split
  · exact agree_failAt
  · exact agree_styled (.number name) k.number (fun _ _ => by simp [Element.skeletons])
      fun _ _ => by simp [Element.relabel]
  · exact agree_styled (.date name) k.dateTime (fun _ _ => by simp [Element.skeletons])
      fun _ _ => by simp [Element.relabel]
  · exact agree_styled (.time name) k.dateTime (fun _ _ => by simp [Element.skeletons])
      fun _ _ => by simp [Element.relabel]
  · exact agree_choice _ inners
  · exact agree_choice _ inners
  · exact agree_choice _ inners
  · exact agree_failAt

theorem agree_afterName {name : String} {opening : Position} (inners : k.Inners inner inner') :
    Agree k.toVerdict (afterName k.left inner frame name opening)
      (afterName k.right inner' frame name opening)
      Element.skeletons (Element.relabel k.relabel) := by
  unfold afterName
  refine agree_bind_same fun _ => agree_bind_same fun c => ?_
  cases c.current? with
  | none => exact agree_failFrom
  | some ch =>
    refine agree_bind_same fun _ => ?_
    split
    · refine agree_capture fun span => agree_pure ?_ ?_
      · simp [Element.relabel]
      · simpa [Element.skeletons] using Verdict.kept_nil
    split
    · refine agree_bind_same fun _ => agree_bind_same fun d => ?_
      split
      · exact agree_failFrom
      · exact agree_typedArgument inners
    · exact agree_failFrom

theorem agree_argument (inners : k.Inners inner inner') :
    Agree k.toVerdict (argument k.left inner frame) (argument k.right inner' frame)
      Element.skeletons (Element.relabel k.relabel) := by
  unfold argument
  refine agree_bind_same fun opening => agree_bind_same fun _ => agree_bind_same fun _ => ?_
  refine agree_bind_same fun c => ?_
  cases c.current? with
  | none => exact agree_failFrom
  | some ch =>
    dsimp only
    split
    · exact agree_bind_same fun _ => agree_failFrom
    refine agree_bind_same fun read => ?_
    obtain ⟨name, span⟩ := read
    dsimp only
    split
    · exact agree_bind_same fun _ => agree_failFrom
    · exact agree_afterName inners

/-! ## Messages -/

/-- The skeletons of an element that may be missing. -/
def optionSkeletons (e : Option Element) : List Skeleton := (e.map Element.skeletons).getD []

/-- An element that is read where one is looked for. -/
theorem agree_some {x y : Read Element}
    (h : Agree k.toVerdict x y Element.skeletons (Element.relabel k.relabel)) :
    Agree k.toVerdict (x >>= fun e => pure (some e)) (y >>= fun e => pure (some e))
      optionSkeletons (Option.map (Element.relabel k.relabel)) :=
  h.bind (fun _ kept => agree_pure rfl kept) fun _ _ lost _ => meets_pure lost

theorem agree_literal {context : TextContext} :
    Agree k.toVerdict (literal k.left context) (literal k.right context) Element.skeletons
      (Element.relabel k.relabel) := by
  unfold literal
  refine agree_bind_same fun start => agree_bind_same fun text => agree_capture fun span => ?_
  refine agree_pure (by simp [Element.relabel]) ?_
  simpa [Element.skeletons] using Verdict.kept_nil

theorem agree_pound :
    Agree k.toVerdict (pound k.left) (pound k.right) Element.skeletons
      (Element.relabel k.relabel) := by
  unfold pound
  refine agree_bind_same fun start => agree_bind_same fun _ => agree_capture fun span => ?_
  refine agree_pure (by simp [Element.relabel]) ?_
  simpa [Element.skeletons] using Verdict.kept_nil

theorem agree_element? (inners : k.Inners inner inner') :
    Agree k.toVerdict (element? k.left inner frame) (element? k.right inner' frame)
      optionSkeletons (Option.map (Element.relabel k.relabel)) := by
  have stops : Agree k.toVerdict (pure none) (pure none) optionSkeletons
      (Option.map (Element.relabel k.relabel)) := agree_pure rfl Verdict.kept_nil
  unfold element?
  rw [k.ignoreTag]
  refine agree_bind_same fun c => ?_
  cases Token.peek ⟨frame.inPlural, k.right.ignoreTag⟩ c.rest with
  | endOfText => exact stops
  | argumentStart => exact agree_some (agree_argument inners)
  | pound => exact agree_some agree_pound
  | tagStart => exact agree_some (agree_tag inners)
  | text => exact agree_some agree_literal
  | closeBrace =>
    dsimp only
    split
    · exact stops
    · exact agree_bind_same fun _ => agree_bind_same fun _ => agree_failFrom
  | closingTagStart =>
    dsimp only
    split
    · exact stops
    · refine agree_bind_same fun _ => agree_bind_same fun _ => agree_bind_same fun _ => ?_
      exact agree_bind_same fun _ => agree_failFrom

theorem agree_elements (inners : k.Inners inner inner') (n : Nat) :
    Agree k.toVerdict (elements k.left inner frame n) (elements k.right inner' frame n)
      Element.skeletonsList (Element.relabelList k.relabel) := by
  have stops : Agree k.toVerdict (pure []) (pure []) Element.skeletonsList
      (Element.relabelList k.relabel) := agree_pure rfl Verdict.kept_nil
  induction n with
  | zero => exact stops
  | succ n ih =>
    rw [elements, elements]
    refine (agree_element? inners).bind (fun read kept => ?_) fun read e lost c => ?_
    · cases read with
      | none => exact stops
      | some e =>
        refine ih.bind (fun es keptTail => ?_) fun es err lost c => meets_pure ?_
        · exact agree_pure rfl (kept.append keptTail)
        · exact lost.append_right kept
    · cases read with
      | none => exact meets_pure lost
      | some e => exact meets_bind_any fun es _ => meets_pure (lost.append_left _)

/-- Messages are read alike as long as the second run has not reached its limit. -/
theorem agree_message {depth depth' : Nat} (h : depth' ≤ depth)
    (limit : k.left.maxNestingDepth = k.right.maxNestingDepth ∧ depth' = depth ∨
      ∀ n span, k.stray ⟨.nestingLimit n, span⟩) (frame : Frame) :
    Agree k.toVerdict (message k.left depth frame) (message k.right depth' frame)
      Element.skeletonsList (Element.relabelList k.relabel) := by
  induction depth generalizing depth' frame with
  | zero =>
    obtain rfl : depth' = 0 := by omega
    have inners : k.Inners none none := by
      rcases limit with ⟨hlimit, -⟩ | hstray
      · exact .none hlimit
      · exact .stray hstray
    exact agree_bind_same fun c => agree_elements inners _
  | succ depth ih =>
    cases depth' with
    | zero =>
      have inners : k.Inners (some (message k.left depth)) none := by
        rcases limit with ⟨-, hdepth⟩ | hstray
        · omega
        · exact .stray hstray
      exact agree_bind_same fun c => agree_elements inners _
    | succ depth' =>
      have inners : k.Inners (some (message k.left depth)) (some (message k.right depth')) := by
        refine .some fun frame => ih (by omega) ?_ frame
        exact limit.imp_left fun hlimit => ⟨hlimit.1, by omega⟩
      exact agree_bind_same fun c => agree_elements inners _

/-- How the two readings of a text are related. -/
theorem parse_related (k : Comparison) (text : String) :
    match parse k.left text, parse k.right text with
    | .ok m, .ok m' => m' = ⟨Element.relabelList k.relabel m.elements, m.span⟩ ∧ k.Kept m.skeletons
    | .ok m, .error e => k.Lost m.skeletons e
    | .error e, .error e' => e' = e ∨ ∃ l, k.Lost l e'
    | .error _, .ok _ => False := by
  have hagree : Agree k.toVerdict (message k.left k.left.maxNestingDepth {})
      (message k.right k.right.maxNestingDepth {}) Element.skeletonsList
      (Element.relabelList k.relabel) := by
    rcases k.nesting with hlimit | ⟨hle, hstray⟩
    · exact agree_message (by omega) (.inl ⟨hlimit, hlimit.symm⟩) {}
    · exact agree_message hle (.inr hstray) {}
  have hrun := hagree ⟨.ofString text, []⟩
  simp only [parse, parseTraced, EStateM.run]
  cases hleft : message k.left k.left.maxNestingDepth {} ⟨.ofString text, []⟩ with
  | ok es s =>
    cases hright : message k.right k.right.maxNestingDepth {} ⟨.ofString text, []⟩ with
    | ok es' t =>
      rw [hleft, hright] at hrun
      obtain ⟨rfl, rfl, kept⟩ := hrun
      exact ⟨rfl, kept⟩
    | error e t =>
      rw [hleft, hright] at hrun
      exact hrun
  | error e s =>
    cases hright : message k.right k.right.maxNestingDepth {} ⟨.ofString text, []⟩ with
    | ok es' t =>
      rw [hleft, hright] at hrun
      exact hrun
    | error e' t =>
      rw [hleft, hright] at hrun
      exact hrun

/-- If the first reading gives a tree, the second gives the relabelled one or is lost. -/
theorem parse_of_ok {text : String} {m : Message} (h : parse k.left text = .ok m) :
    parse k.right text = .ok ⟨Element.relabelList k.relabel m.elements, m.span⟩ ∧
        k.Kept m.skeletons ∨
      ∃ e, parse k.right text = .error e ∧ k.Lost m.skeletons e := by
  have hrelated := k.parse_related text
  rw [h] at hrelated
  cases hright : parse k.right text with
  | ok m' =>
    rw [hright] at hrelated
    obtain ⟨rfl, kept⟩ := hrelated
    exact .inl ⟨rfl, kept⟩
  | error e =>
    rw [hright] at hrelated
    exact .inr ⟨e, rfl, hrelated⟩

/-- If the first reading fails, the second fails alike or is lost. -/
theorem parse_of_error {text : String} {e : ParseError} (h : parse k.left text = .error e) :
    parse k.right text = .error e ∨ ∃ e' l, parse k.right text = .error e' ∧ k.Lost l e' := by
  have hrelated := k.parse_related text
  rw [h] at hrelated
  cases hright : parse k.right text with
  | ok m' =>
    rw [hright] at hrelated
    exact hrelated.elim
  | error e' =>
    rw [hright] at hrelated
    rcases hrelated with rfl | ⟨l, lost⟩
    · exact .inl rfl
    · exact .inr ⟨e', l, rfl, lost⟩

end Comparison

end MessageFormat
