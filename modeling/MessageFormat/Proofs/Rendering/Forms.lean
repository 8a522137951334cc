import MessageFormat.Proofs.WellFormed

/-!
# Renderings

`Renders options inPlural x text` says that `text` is one way to write the phrase `x`.  It is the
grammar seen from the side of a writer: each construct is the concatenation of its parts, with any
blanks at every place where blanks may stand, and nothing is said about what comes after.

Not every tree has a rendering.  It must be well formed, and `Element.Plain` lists what is asked
beyond that.  Two literals side by side would be read as one.  Skeletons are left out, because a
tree does not keep the text of a number skeleton.  And no node may have a span, since a text to
point into is not there yet.
-/

namespace MessageFormat

/-! ## Trees that can be written -/

/-- Text in which quotations are closed and, outside of them, braces are matched. -/
inductive Style.Balanced : List Char → Prop
  | nil : Style.Balanced []
  | char {ch : Char} {text : List Char} (apostrophe : ch ≠ '\'') (opening : ch ≠ '{')
      (closing : ch ≠ '}') (tail : Style.Balanced text) : Style.Balanced (ch :: text)
  | quotation {quoted text : List Char} (closed : '\'' ∉ quoted) (tail : Style.Balanced text) :
      Style.Balanced ('\'' :: quoted ++ '\'' :: text)
  | braces {inside text : List Char} (body : Style.Balanced inside)
      (tail : Style.Balanced text) : Style.Balanced ('{' :: inside ++ '}' :: text)

/-- A style that can be written: none, or a simple one that does not begin with a blank. -/
def ArgumentStyle.Plain {σ : Type} : Option (ArgumentStyle σ) → Prop
  | none => True
  | some (.simple text) => Style.Balanced text.toList ∧
      ∀ ch, text.toList.head? = some ch → isPatternWhiteSpace ch = false
  | some (.skeleton _) => False

/-- Whether an element is literal text. -/
def Element.isLiteral : Element → Bool
  | .literal .. => true
  | _ => false

mutual

/-- The element has no span and nothing in it that a rendering cannot show. -/
def Element.Plain : Element → Prop
  | .literal _ span => span = none
  | .argument _ span => span = none
  | .number _ style span => ArgumentStyle.Plain style ∧ span = none
  | .date _ style span => ArgumentStyle.Plain style ∧ span = none
  | .time _ style span => ArgumentStyle.Plain style ∧ span = none
  | .select _ branches span => Branch.AllPlain branches ∧ span = none
  | .plural _ _ n branches span => n < wordSize 32 ∧ Branch.AllPlain branches ∧ span = none
  | .pound span => span = none
  | .tag _ children span => Element.AllPlain children ∧ span = none

/-- No element of the list stands in the way of writing it, and no two literals are adjacent. -/
def Element.AllPlain : List Element → Prop
  | [] => True
  | e :: es => e.Plain ∧ (e.isLiteral = true → ∀ f, es.head? = some f → f.isLiteral = false) ∧
      Element.AllPlain es

/-- The bodies of the branches can be written. -/
def Branch.AllPlain : List Branch → Prop
  | [] => True
  | .mk _ body span :: branches =>
    Element.AllPlain body ∧ span = none ∧ Branch.AllPlain branches

end

mutual

/-- How many levels of branches and tags there are in an element. -/
def Element.height : Element → Nat
  | .select _ branches _ => Branch.heightList branches
  | .plural _ _ _ branches _ => Branch.heightList branches
  | .tag _ children _ => Element.heightList children + 1
  | _ => 0

/-- The largest number of levels in a list of elements. -/
def Element.heightList : List Element → Nat
  | [] => 0
  | e :: es => max e.height (Element.heightList es)

/-- The largest number of levels in a list of branches, which are a level themselves. -/
def Branch.heightList : List Branch → Nat
  | [] => 0
  | .mk _ body _ :: branches => max (Element.heightList body + 1) (Branch.heightList branches)

end

/-! ## Texts -/

/-- The brace and the name of an argument. -/
def NameRenders (name : String) (text : List Char) : Prop :=
  ∃ b₁ b₂, IsBlank b₁ ∧ IsBlank b₂ ∧ text = '{' :: b₁ ++ name.toList ++ b₂

/-- An argument up to its type word. -/
def TypeRenders (name : String) (word text : List Char) : Prop :=
  ∃ head blanks, NameRenders name head ∧ IsBlank blanks ∧ text = head ++ (',' :: blanks ++ word)

/-- A comma with blanks around it. -/
def CommaRenders (text : List Char) : Prop :=
  ∃ b₁ b₂, IsBlank b₁ ∧ IsBlank b₂ ∧ text = b₁ ++ ',' :: b₂

/-- What stands between the type word and the closing brace.  The blanks after a style are those
of `White_Space`, because they are told from the style by that class. -/
def StyleRenders {σ : Type} : Option (ArgumentStyle σ) → List Char → Prop
  | none, text => IsBlank text
  | some (.simple style), text => ∃ comma after, CommaRenders comma ∧
      (∀ ch ∈ after, isWhiteSpace ch = true) ∧ text = comma ++ (style.toList ++ after)
  | some (.skeleton _), _ => False

/-- The offset of a plural argument, in front of its first selector.  If it is zero it need not be
written, unless the selector looks like its keyword.  Something has to tell its last digit from a
selector that begins with one. -/
inductive OffsetRenders (choice : Choice) (first : List Char) : Nat → List Char → Prop
  | absent (keyword : choice.isPlural = true → first ≠ "offset".toList) :
      OffsetRenders choice first 0 []
  | present {n : Nat} {text blanks : List Char} (plural : choice.isPlural = true)
      (offset : IsOffset text n) (blank : IsBlank blanks)
      (ends : blanks = [] → ∀ ch, first.head? = some ch → isAsciiDigit ch = false) :
      OffsetRenders choice first n (text ++ blanks)

/-- The ways to write a phrase. -/
inductive Renders (options : Options) : Bool → Phrase → List Char → Prop
  | nil {inPlural : Bool} : Renders options inPlural (.message []) []
  | cons {inPlural : Bool} {e : Element} {es : List Element} {s t : List Char}
      (head : Renders options inPlural (.element e) s)
      (tail : Renders options inPlural (.message es) t) :
      Renders options inPlural (.message (e :: es)) (s ++ t)
  | literal {inPlural : Bool} {text : String} {written : List Char}
      (quotes : Literal.Quotes ⟨inPlural, options.ignoreTag⟩ text.toList written) :
      Renders options inPlural (.element (.literal text none)) written
  | pound {inPlural : Bool} : Renders options inPlural (.element (.pound none)) ['#']
  | argument {inPlural : Bool} {name : String} {head : List Char}
      (named : NameRenders name head) :
      Renders options inPlural (.element (.argument name none)) (head ++ ['}'])
  | number {inPlural : Bool} {name : String} {style : Option (ArgumentStyle NumberPattern)}
      {head text : List Char} (typed : TypeRenders name "number".toList head)
      (styled : StyleRenders style text) :
      Renders options inPlural (.element (.number name style none)) (head ++ (text ++ ['}']))
  | date {inPlural : Bool} {name : String} {style : Option (ArgumentStyle DateTimePattern)}
      {head text : List Char} (typed : TypeRenders name "date".toList head)
      (styled : StyleRenders style text) :
      Renders options inPlural (.element (.date name style none)) (head ++ (text ++ ['}']))
  | time {inPlural : Bool} {name : String} {style : Option (ArgumentStyle DateTimePattern)}
      {head text : List Char} (typed : TypeRenders name "time".toList head)
      (styled : StyleRenders style text) :
      Renders options inPlural (.element (.time name style none)) (head ++ (text ++ ['}']))
  | choice {inPlural : Bool} {choice : Choice} {name : String} {n : Nat} {first : Branch}
      {list : List Branch} {head comma offset text : List Char}
      (typed : TypeRenders name choice.word head) (separated : CommaRenders comma)
      (begun : OffsetRenders choice first.selector.toList n offset)
      (branches : Renders options inPlural (.branches choice (first :: list)) text) :
      Renders options inPlural (.element (choice.element name n (first :: list) none))
        (head ++ (comma ++ (offset ++ (text ++ ['}']))))
  | tag {inPlural : Bool} {name : String} {es : List Element} {b₁ b₂ text : List Char}
      (blank₁ : IsBlank b₁) (blank₂ : IsBlank b₂)
      (children : Renders options inPlural (.message es) text) :
      Renders options inPlural (.element (.tag name es none))
        ('<' :: name.toList ++ b₁ ++ ['>'] ++ (text ++ ('<' :: '/' :: name.toList ++ b₂ ++ ['>'])))
  | noBranch {inPlural : Bool} {choice : Choice} :
      Renders options inPlural (.branches choice []) []
  | branch {inPlural : Bool} {choice : Choice} {selector : String} {es : List Element}
      {list : List Branch} {b₁ b₂ text rest : List Char} (blank₁ : IsBlank b₁)
      (blank₂ : IsBlank b₂) (body : Renders options choice.isPlural (.message es) text)
      (tail : Renders options inPlural (.branches choice list) rest) :
      Renders options inPlural (.branches choice (.mk selector es none :: list))
        (selector.toList ++ b₁ ++ (['{'] ++ (text ++ (['}'] ++ (b₂ ++ rest)))))

/-- What is asked of a phrase beyond being well formed. -/
def Phrase.Plain : Phrase → Prop
  | .message es => Element.AllPlain es
  | .element e => e.Plain
  | .branches _ list => Branch.AllPlain list

/-- The levels in a phrase. -/
def Phrase.height : Phrase → Nat
  | .message es => Element.heightList es
  | .element e => e.height
  | .branches _ list => Branch.heightList list

end MessageFormat
