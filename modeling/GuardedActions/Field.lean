/-!
# Fields

A field is a name with a bit width.  A list of fields has a total width, and a text form that the
messages of the library use as well as `Shape.text`.
-/

set_option autoImplicit false

namespace GuardedActions

/-- One named, fixed-width component of a record. -/
structure Field where
  /-- name, unique within a shape -/
  name : String
  /-- number of bits -/
  width : Nat
  deriving DecidableEq, Repr, Inhabited

namespace Field

/-- A field as `name:width`. -/
def text (f : Field) : String := f.name ++ ":" ++ toString f.width

/-- Fields in order, between braces. -/
def listText (fields : List Field) : String :=
  "\x7b" ++ ", ".intercalate (fields.map text) ++ "\x7d"

/-- Sum of the widths of some fields. -/
def totalWidth : List Field → Nat
  | [] => 0
  | f :: rest => f.width + totalWidth rest

end Field

end GuardedActions
