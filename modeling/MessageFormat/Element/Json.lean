import MessageFormat.Element.Basic

/-!
# The tree of a message as JSON

Each element is an object that begins with its type.  A span is an object of two positions,
and a node without a span has no such field.
-/

namespace MessageFormat

/-- A position as JSON. -/
def Position.toJson (p : Position) : Json :=
  .obj
    [("offset", .ofNat p.offset), ("line", .ofNat p.line.toNat), ("column", .ofNat p.column.toNat)]

/-- A span as JSON. -/
def Span.toJson (s : Span) : Json := .obj [("start", s.start.toJson), ("end", s.stop.toJson)]

/-- An object of fields that all have a value, and the span if there is one. -/
def Json.ofNode (fields : List (String × Json)) (span : Option Span) : Json :=
  .obj (fields ++ (span.map fun s => ("location", s.toJson)).toList)

/-- The skeleton of a number as JSON. -/
def NumberPattern.toJson (p : NumberPattern) : Json :=
  .ofNode
    [("kind", .str "skeleton"),
     ("tokens", .arr (p.tokens.map NumberSkeleton.Token.toJson)),
     ("parsedOptions", p.format.toJson)]
    p.span

/-- The skeleton of a date or time as JSON. -/
def DateTimePattern.toJson (p : DateTimePattern) : Json :=
  .ofNode
    [("kind", .str "skeleton"),
     ("pattern", .str p.pattern),
     ("parsedOptions", p.format.toJson)]
    p.span

/-- A style as JSON; no style is null. -/
def ArgumentStyle.toJson {σ : Type} (skeleton : σ → Json) : Option (ArgumentStyle σ) → Json
  | none => .null
  | some (.simple text) => .obj [("kind", .str "simple"), ("value", .str text)]
  | some (.skeleton value) => skeleton value

mutual

/-- An element as JSON. -/
def Element.toJson : Element → Json
  | .literal text span => .ofNode [("type", .str "literal"), ("value", .str text)] span
  | .argument name span => .ofNode [("type", .str "argument"), ("value", .str name)] span
  | .number name style span =>
    .ofNode
      [("type", .str "number"), ("value", .str name),
       ("style", ArgumentStyle.toJson NumberPattern.toJson style)]
      span
  | .date name style span =>
    .ofNode
      [("type", .str "date"), ("value", .str name),
       ("style", ArgumentStyle.toJson DateTimePattern.toJson style)]
      span
  | .time name style span =>
    .ofNode
      [("type", .str "time"), ("value", .str name),
       ("style", ArgumentStyle.toJson DateTimePattern.toJson style)]
      span
  | .select name branches span =>
    .ofNode
      [("type", .str "select"), ("value", .str name), ("options", .arr (Branch.toJsonList branches))]
      span
  | .plural name kind offset branches span =>
    .ofNode
      [("type", .str "plural"), ("value", .str name), ("pluralType", Named.toJson kind),
       ("offset", .ofNat offset), ("options", .arr (Branch.toJsonList branches))]
      span
  | .pound span => .ofNode [("type", .str "pound")] span
  | .tag name children span =>
    .ofNode
      [("type", .str "tag"), ("value", .str name), ("children", .arr (Element.toJsonList children))]
      span

/-- A list of elements as JSON values. -/
def Element.toJsonList : List Element → List Json
  | [] => []
  | e :: es => e.toJson :: Element.toJsonList es

/-- A list of branches as JSON values. -/
def Branch.toJsonList : List Branch → List Json
  | [] => []
  | .mk selector body span :: branches =>
    .ofNode [("selector", .str selector), ("value", .arr (Element.toJsonList body))] span ::
      Branch.toJsonList branches

end

/-- A message as JSON. -/
def Message.toJson (m : Message) : Json :=
  .obj [("elements", .arr (Element.toJsonList m.elements)), ("location", m.span.toJson)]

end MessageFormat
