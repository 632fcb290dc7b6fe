import MixedInteger.Decimal.Reader
import MixedInteger.Fault
import MixedInteger.Json.Writer
import MixedInteger.Text.Blank

/-!
# Reading fields of a description

Descriptions are read tolerantly: a number may be quoted, a name may be a number,
and flags may be given as an object or as a list of names.  Every refusal says
what was found and what was expected.
-/

namespace MixedInteger.Json

/-- A number in quotes, with white space around it allowed. -/
def readQuotedNumber (text : String) : Except Fault Float :=
  let trimmed := Text.trim text.toList
  match Decimal.readFloat? trimmed with
  | some value => .ok value
  | none => .error (if trimmed.isEmpty then Cause.emptyNumber else Cause.notNumber)

def asNumber : Json → Except Fault Float
  | .null => .error Cause.valueMissing
  | .bool _ => .error (Cause.wrongKind "a boolean" "number")
  | .number value => .ok value.toFloat
  | .string text => readQuotedNumber text
  | .array _ => .error (Cause.wrongKind "a list" "number")
  | .object _ => .error (Cause.wrongKind "an object" "number")

def optionalNumberField (json : Json) (name : String) : Except Fault (Option Float) :=
  match json.field name with
  | .null => .ok none
  | value => (inContext (.readingField name) value.asNumber).map some

def numberField (json : Json) (name : String) : Except Fault Float :=
  match json.field name with
  | .null => .error (Cause.fieldMissing name)
  | value => inContext (.readingField name) value.asNumber

def objectField (json : Json) (name : String) : Except Fault (OrderedMap String Json) :=
  match json.field name with
  | .null => .error (Cause.fieldMissing name)
  | .bool _ => .error (Cause.wrongKind "a boolean" "object")
  | .number _ => .error (Cause.wrongKind "a number" "object")
  | .string _ => .error (Cause.wrongKind "a literal" "object")
  | .array _ => .error (Cause.wrongKind "an array" "object")
  | .object fields => .ok fields

/-- The text in a field; a number counts as its text. -/
def textField (json : Json) (name : String) : Except Fault String :=
  match json.field name with
  | .null => .error (Cause.fieldMissing name)
  | .bool _ => .error (Cause.wrongKind "a boolean" "literal")
  | .number value => .ok value.write
  | .string text => .ok text
  | .array _ => .error (Cause.wrongKind "a list" "literal")
  | .object _ => .error (Cause.wrongKind "an object" "literal")

def namesOf (field : String) : List Json → Except Fault (List String)
  | [] => .ok []
  | .string name :: rest => (namesOf field rest).map (name :: ·)
  | _ :: _ => .error (Cause.notNames field)

/-- The names flagged in a field: those with a value that is set, or those of a
list.  An absent field flags nothing. -/
def flagsField (json : Json) (name : String) : Except Fault (List String) :=
  match json.field name with
  | .null => .ok []
  | .object fields => .ok ((fields.filter fun entry => entry.2.isSet).map Prod.fst)
  | .array items => namesOf name items
  | _ => .error (Cause.notFlags name)

end MixedInteger.Json
