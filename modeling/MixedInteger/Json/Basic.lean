import MixedInteger.OrderedMap

/-!
# JSON values

Problem descriptions, options and results are JSON values.  The fields of an
object keep the order in which they were first written.  A number remembers
whether it was an integer of 64 bits, because a priority or a time limit has to
be one.
-/

namespace MixedInteger

/-- A JSON number: an integer that fits 64 bits, or a floating-point number. -/
inductive Json.Number where
  | whole (value : Int)
  | real (value : Float)

inductive Json where
  | null
  | bool (value : Bool)
  | number (value : Json.Number)
  | string (value : String)
  | array (items : List Json)
  | object (fields : List (String × Json))

namespace Json

instance : Inhabited Json := ⟨.null⟩

def Number.toFloat : Number → Float
  | .whole value => Float.ofInt value
  | .real value => value

def Number.toNat? : Number → Option Nat
  | .whole (.ofNat value) => some value
  | _ => none

/-- A field of an object.  What is not an object, or lacks the field, has `null`
there. -/
def field (json : Json) (name : String) : Json :=
  match json with
  | .object fields => (OrderedMap.get? fields name).getD .null
  | _ => .null

def isNull : Json → Bool
  | .null => true
  | _ => false

/-- Whether a value counts as set: true, a number other than zero, a text that is
not empty, or any list or object. -/
def isSet : Json → Bool
  | .null => false
  | .bool value => value
  | .number value => value.toFloat != 0.0
  | .string value => value != ""
  | .array _ => true
  | .object _ => true

/-- A floating-point number as JSON; what is not finite has no JSON number. -/
def ofFloat (value : Float) : Json :=
  if value.isFinite then .number (.real value) else .null

def ofNat (value : Nat) : Json :=
  .number (.whole value)

end Json

end MixedInteger
