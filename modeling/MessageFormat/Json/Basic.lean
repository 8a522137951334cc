import MessageFormat.Decimal.Binary64

/-!
# JSON values

The value type of everything that is exchanged as JSON, and the conventions by which records,
optional fields and enumerations are laid out in it.

* A record is an object with one field per component.  It may also be read from an array of
  its components in order.
* An optional component is left out of the object when it has no value, and is read as having
  none when it is absent or null.
* A member of an enumeration is its name.  It may also be read from an object whose only field
  is that name with the value null.

Integers and floating point numbers are kept apart: `1` and `1.0` are different values.
-/

namespace MessageFormat

/-- A JSON value.  The fields of an object keep their order, and no two of them share a
name. -/
inductive Json where
  | null
  | bool (value : Bool)
  | int (value : Int)
  | float (value : Binary64)
  | str (value : String)
  | arr (items : List Json)
  | obj (fields : List (String × Json))

namespace Json

/-! ## Records -/

/-- An object of those fields that have a value. -/
def ofFields (fields : List (String × Option Json)) : Json :=
  .obj (fields.filterMap fun (name, value) => value.map (name, ·))

/-- Whether a value can hold a record: any object, or an array with a permitted number of
components. -/
def isRecord (least most : Nat) : Json → Bool
  | .obj _ => true
  | .arr items => decide (least ≤ items.length) && decide (items.length ≤ most)
  | _ => false

/-- The component of a record with the given name and place. -/
def component? (j : Json) (place : Nat) (name : String) : Option Json :=
  match j with
  | .obj fields => fields.lookup name
  | .arr items => items[place]?
  | _ => none

/-- Reads an optional component. -/
def optional? {α : Type} (read? : Json → Option α) : Option Json → Option (Option α)
  | none => some none
  | some .null => some none
  | some j => (read? j).map some

/-- Reads a component that has a value of its own when it is absent. -/
def defaulted? {α : Type} (read? : Json → Option α) (absent : α) : Option Json → Option α
  | none => some absent
  | some j => read? j

/-! ## Plain values -/

/-- Reads a truth value. -/
def bool? : Json → Option Bool
  | .bool b => some b
  | _ => none

/-- Reads a text. -/
def str? : Json → Option String
  | .str s => some s
  | _ => none

/-- Reads a natural number below a bound. -/
def natBelow? (bound : Nat) : Json → Option Nat
  | .int i => if 0 ≤ i ∧ i < bound then some i.toNat else none
  | _ => none

/-- Reads a number, an integer as the nearest floating point number. -/
def number? : Json → Option Binary64
  | .int i => some (.ofInt i)
  | .float x => some x
  | _ => none

/-- A number as JSON.  Only finite numbers can be written; the others become null. -/
def ofNumber (x : Binary64) : Json := if x.isFinite then .float x else .null

/-- A natural number as JSON. -/
def ofNat (n : Nat) : Json := .int n

end Json

/-! ## Enumerations -/

/-- A type of finitely many values, each with a name. -/
class Named (α : Type) where
  members : List α
  name : α → String

namespace Named

variable {α : Type} [Named α]

/-- The member with a given name. -/
def ofName? (text : String) : Option α := members.find? fun a => name a == text

/-- A member as JSON. -/
def toJson (a : α) : Json := .str (name a)

/-- Reads a member. -/
def ofJson? : Json → Option α
  | .str text => ofName? text
  | .obj [(text, .null)] => ofName? text
  | _ => none

end Named

end MessageFormat
