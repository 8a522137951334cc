import MessageFormat.Json.Basic

/-!
# Options

The switches that change how a message is read.
-/

namespace MessageFormat

/-- How a message is read. -/
structure Options where
  /-- Angle brackets are plain text, not tags. -/
  ignoreTag : Bool := false
  /-- Skeletons are interpreted.  Otherwise number skeletons are only cut into tokens and
  date/time skeletons are kept as they are. -/
  interpretSkeletons : Bool := true
  /-- A language tag for formatters; reading does not depend on it. -/
  locale : Option String := none
  /-- Elements carry the span they were read from. -/
  captureSpans : Bool := true
  /-- Plural and select arguments must have a branch `other`. -/
  requiresOther : Bool := true
  /-- How deep branches and tags may be nested. -/
  maxNestingDepth : Nat := 64
deriving DecidableEq, Repr

namespace Options

/-- The options as a JSON object. -/
def toJson (o : Options) : Json :=
  .obj
    [("ignore_tag", .bool o.ignoreTag),
     ("should_parse_skeletons", .bool o.interpretSkeletons),
     ("locale", (o.locale.map Json.str).getD .null),
     ("capture_location", .bool o.captureSpans),
     ("requires_other_clause", .bool o.requiresOther),
     ("max_nesting_depth", .ofNat o.maxNestingDepth)]

/-- Reads options.  What is absent has its default value; a depth is a word of sixty-four
bits. -/
def ofJson? (j : Json) : Option Options :=
  if j.isRecord 0 6 then do
    let switch (place : Nat) (name : String) (absent : Bool) :=
      Json.defaulted? Json.bool? absent (j.component? place name)
    return {
      ignoreTag := ← switch 0 "ignore_tag" false
      interpretSkeletons := ← switch 1 "should_parse_skeletons" true
      locale := ← Json.optional? Json.str? (j.component? 2 "locale")
      captureSpans := ← switch 3 "capture_location" true
      requiresOther := ← switch 4 "requires_other_clause" true
      maxNestingDepth :=
        ← Json.defaulted? (Json.natBelow? (wordSize 64)) 64 (j.component? 5 "max_nesting_depth") }
  else none

end Options

end MessageFormat
