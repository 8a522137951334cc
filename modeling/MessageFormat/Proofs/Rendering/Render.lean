import MessageFormat.Proofs.Rendering.ReadBack

/-!
# A rendering for every tree

`Element.renderList` writes a tree as a text, with one blank where a list of words is easier to
read with one.  Together with `Renders` it gives the round trip in its strongest form: a tree that
is well formed and plain has a rendering, and whichever rendering of it is read, the tree comes
back.
-/

namespace MessageFormat

/-- A style with its comma. -/
def ArgumentStyle.render {σ : Type} : Option (ArgumentStyle σ) → List Char
  | some (.simple text) => ", ".toList ++ text.toList
  | _ => []

/-- An argument up to its type word. -/
def renderHead (name : String) (word : List Char) : List Char :=
  '{' :: name.toList ++ (", ".toList ++ word)

mutual

/-- An element as text. -/
def Element.render (options : Options) (inPlural : Bool) : Element → List Char
  | .literal text _ => Literal.escape ⟨inPlural, options.ignoreTag⟩ text.toList
  | .argument name _ => '{' :: name.toList ++ ['}']
  | .number name style _ =>
    renderHead name "number".toList ++ (ArgumentStyle.render style ++ ['}'])
  | .date name style _ => renderHead name "date".toList ++ (ArgumentStyle.render style ++ ['}'])
  | .time name style _ => renderHead name "time".toList ++ (ArgumentStyle.render style ++ ['}'])
  | .select name branches _ =>
    renderHead name Choice.select.word ++
      (", ".toList ++ (Branch.renderList options false branches ++ ['}']))
  | .plural name kind n branches _ =>
    renderHead name (Choice.plural kind).word ++ (", ".toList ++
      ("offset:".toList ++ n.repr.toList ++ [' '] ++
        (Branch.renderList options true branches ++ ['}'])))
  | .pound _ => ['#']
  | .tag name children _ =>
    '<' :: name.toList ++ ['>'] ++
      (Element.renderList options inPlural children ++ ('<' :: '/' :: name.toList ++ ['>']))

/-- Elements as text. -/
def Element.renderList (options : Options) (inPlural : Bool) : List Element → List Char
  | [] => []
  | e :: es => e.render options inPlural ++ Element.renderList options inPlural es

/-- Branches as text. -/
def Branch.renderList (options : Options) (inPlural : Bool) : List Branch → List Char
  | [] => []
  | .mk selector body _ :: branches =>
    selector.toList ++ [' '] ++ (['{'] ++ (Element.renderList options inPlural body ++
      (['}'] ++ ([' '] ++ Branch.renderList options inPlural branches))))

end

/-! ## What is rendered is a rendering -/

theorem isBlank_space : IsBlank [' '] := by decide

theorem commaRenders_comma : CommaRenders ", ".toList :=
  ⟨[], [' '], isBlank_nil, isBlank_space, rfl⟩

theorem nameRenders_name (name : String) : NameRenders name ('{' :: name.toList) :=
  ⟨[], [], isBlank_nil, isBlank_nil, by simp⟩

theorem typeRenders_renderHead (name : String) (word : List Char) :
    TypeRenders name word (renderHead name word) :=
  ⟨_, [' '], nameRenders_name name, isBlank_space, rfl⟩

theorem styleRenders_render {σ : Type} {style : Option (ArgumentStyle σ)}
    (plain : ArgumentStyle.Plain style) : StyleRenders style (ArgumentStyle.render style) := by
  match style, plain with
  | none, _ => exact isBlank_nil
  | some (.simple text), _ =>
    exact ⟨_, [], commaRenders_comma, by simp, by simp [ArgumentStyle.render]⟩
  | some (.skeleton _), plain => exact plain.elim

theorem isOffset_repr {n : Nat} (h : n < wordSize 32) :
    IsOffset ("offset:".toList ++ n.repr.toList) n := by
  refine ⟨[], [], n.repr.toList, by simp, isBlank_nil, .inl rfl, ⟨?_, ?_⟩, ?_, h, by simp⟩
  · rw [Nat.toList_repr]
    exact Nat.toDigits_ne_nil
  · intro ch hch
    rw [Nat.toList_repr] at hch
    exact Nat.isDigit_of_mem_toDigits (by decide) (by decide) hch
  · rw [Nat.toList_repr]
    exact Nat.ofDigitChars_ten_toDigits.symm

mutual

theorem Element.renders_render (options : Options) (inPlural : Bool) :
    (e : Element) → e.WellFormed options inPlural → e.Plain →
      Renders options inPlural (.element e) (e.render options inPlural)
  | .literal text span, _, plain => by
    rw [Element.Plain] at plain
    subst plain
    rw [Element.render]
    exact .literal (Literal.quotes_escape _ _)
  | .argument name span, _, plain => by
    rw [Element.Plain] at plain
    subst plain
    rw [Element.render]
    exact .argument (nameRenders_name name)
  | .number name style span, _, plain => by
    rw [Element.Plain] at plain
    obtain ⟨plain, rfl⟩ := plain
    rw [Element.render]
    exact .number (typeRenders_renderHead name _) (styleRenders_render plain)
  | .date name style span, _, plain => by
    rw [Element.Plain] at plain
    obtain ⟨plain, rfl⟩ := plain
    rw [Element.render]
    exact .date (typeRenders_renderHead name _) (styleRenders_render plain)
  | .time name style span, _, plain => by
    rw [Element.Plain] at plain
    obtain ⟨plain, rfl⟩ := plain
    rw [Element.render]
    exact .time (typeRenders_renderHead name _) (styleRenders_render plain)
  | .select name branches span, wellFormed, plain => by
    rw [Element.Plain] at plain
    rw [Element.WellFormed] at wellFormed
    obtain ⟨plain, rfl⟩ := plain
    obtain ⟨-, selects, bodies⟩ := wellFormed
    have renders := Branch.renders_renderList options inPlural .select branches bodies plain
    rw [Element.render]
    obtain ⟨first, list, rfl⟩ := List.exists_cons_of_ne_nil selects.nonempty
    show Renders options inPlural (.element (Choice.select.element name 0 (first :: list) none)) _
    exact .choice (typeRenders_renderHead name _) commaRenders_comma
      (.absent (by simp [Choice.isPlural])) renders
  | .plural name kind n branches span, wellFormed, plain => by
    rw [Element.Plain] at plain
    rw [Element.WellFormed] at wellFormed
    obtain ⟨small, plain, rfl⟩ := plain
    obtain ⟨-, selects, bodies⟩ := wellFormed
    have renders := Branch.renders_renderList options inPlural (.plural kind) branches bodies plain
    rw [Element.render]
    obtain ⟨first, list, rfl⟩ := List.exists_cons_of_ne_nil selects.nonempty
    show Renders options inPlural
      (.element ((Choice.plural kind).element name n (first :: list) none)) _
    exact .choice (typeRenders_renderHead name _) commaRenders_comma
      (.present rfl (isOffset_repr small) isBlank_space (by simp)) renders
  | .pound span, _, plain => by
    rw [Element.Plain] at plain
    subst plain
    rw [Element.render]
    exact .pound
  | .tag name children span, wellFormed, plain => by
    rw [Element.Plain] at plain
    rw [Element.WellFormed] at wellFormed
    obtain ⟨plain, rfl⟩ := plain
    have renders := Element.renders_renderList options inPlural children wellFormed.2.2 plain
    have rendered : Renders options inPlural (.element (.tag name children none)) _ :=
      .tag isBlank_nil isBlank_nil renders
    rw [Element.render]
    simpa using rendered

theorem Element.renders_renderList (options : Options) (inPlural : Bool) :
    (es : List Element) → Element.AllWellFormed options inPlural es → Element.AllPlain es →
      Renders options inPlural (.message es) (Element.renderList options inPlural es)
  | [], _, _ => by
    rw [Element.renderList]
    exact .nil
  | e :: es, wellFormed, plain => by
    rw [Element.AllWellFormed] at wellFormed
    rw [Element.AllPlain] at plain
    rw [Element.renderList]
    exact .cons (Element.renders_render options inPlural e wellFormed.1 plain.1)
      (Element.renders_renderList options inPlural es wellFormed.2 plain.2.2)

theorem Branch.renders_renderList (options : Options) (inPlural : Bool) (choice : Choice) :
    (list : List Branch) → Branch.AllWellFormed options choice.isPlural list →
      Branch.AllPlain list → Renders options inPlural (.branches choice list)
        (Branch.renderList options choice.isPlural list)
  | [], _, _ => by
    rw [Branch.renderList]
    exact .noBranch
  | .mk selector body span :: list, wellFormed, plain => by
    rw [Branch.AllWellFormed] at wellFormed
    rw [Branch.AllPlain] at plain
    obtain ⟨plain, rfl, plain'⟩ := plain
    rw [Branch.renderList]
    exact .branch isBlank_space isBlank_space
      (Element.renders_renderList options choice.isPlural body wellFormed.1 plain)
      (Branch.renders_renderList options inPlural choice list wellFormed.2 plain')

end

/-! ## The round trip -/

/-- Every rendering of a tree is read as the tree, and the tree has one: if spans are not kept and
the nesting limit is not reached, a well-formed and plain list of elements is given back. -/
theorem parse_renders {options : Options} {es : List Element}
    (spans : options.captureSpans = false) (wellFormed : Element.AllWellFormed options false es)
    (plain : Element.AllPlain es) (depth : Element.heightList es ≤ options.maxNestingDepth) :
    Renders options false (.message es) (Element.renderList options false es) ∧
      ∀ text, Renders options false (.message es) text →
        parse options (String.ofList text) = .ok ⟨es, ⟨.start, .counted text⟩⟩ := by
  refine ⟨Element.renders_renderList options false es wellFormed plain, fun text renders => ?_⟩
  have reads : (Cursor.ofString (String.ofList text)).Reads text ⟨[], .counted text⟩ := by
    constructor
    · simp [Cursor.ofString]
    · show Position.counted text = (Position.counted []).advanceAll text
      rw [Position.advanceAll_counted, List.nil_append]
  have written : Written options options.maxNestingDepth {} (.message es)
      (.ofString (String.ofList text)) ⟨[], .counted text⟩ :=
    written_of_renders spans renders rfl wellFormed plain depth reads trivial
  exact parse_of_written written

theorem parse_renders_nested : ∃ es text, es.length = 2 ∧
    String.ofList text = "a '< b'{n, plural, offset:1 other {<b>#</b>} }" ∧
    parse { captureSpans := false } (String.ofList text) =
      .ok ⟨es, ⟨.start, .counted text⟩⟩ := by
  have selects : (Choice.plural .cardinal).Selects { captureSpans := false }
      [.mk "other" [.tag "b" [.pound none] none] none] := by
    refine ⟨by simp, ?_, by simp, fun _ => ⟨_, List.mem_cons_self, rfl⟩⟩
    intro b hb
    rw [List.mem_singleton.1 hb]
    exact .inl (by decide)
  have wellFormed : Element.AllWellFormed { captureSpans := false } false
      [.literal "a < b" none, .plural "n" .cardinal 1
        [.mk "other" [.tag "b" [.pound none] none] none] none] := by
    simp only [Element.AllWellFormed, Element.WellFormed, Branch.AllWellFormed, and_true]
    exact ⟨by decide, by decide, selects, trivial, by decide⟩
  obtain ⟨renders, back⟩ := parse_renders rfl wellFormed
    (by simp [Element.AllPlain, Element.Plain, Branch.AllPlain, Element.isLiteral, wordSize])
    (by decide +kernel)
  refine ⟨_, _, ?_, ?_, back _ renders⟩
  · rfl
  · decide +kernel

end MessageFormat
