import MixedInteger.Decimal.Reader
import MixedInteger.Fault
import MixedInteger.Text.Blank

/-!
# Priorities

Objectives are ranked.  Level zero is the objective proper; every positive level
is a secondary objective that only decides between optima of the lower levels.
The first levels also go by name.
-/

namespace MixedInteger

/-- The rank of an objective, lower levels first. -/
structure Priority where
  level : Nat
  deriving Repr, DecidableEq

namespace Priority

/-- The rank of the objective proper. -/
def required : Priority := ⟨0⟩

def isRequired (priority : Priority) : Bool :=
  priority.level == 0

def ofName? : String → Option Priority
  | "required" => some ⟨0⟩
  | "strong" => some ⟨1⟩
  | "medium" => some ⟨2⟩
  | "weak" => some ⟨3⟩
  | _ => none

/-- Lower case as far as the level names can tell: the letters of ASCII, and the
Kelvin sign, whose lower case is the letter `k`. -/
def lower (c : Char) : Char :=
  if c.toNat == 0x212A then 'k' else c.toLower

/-- Reads a level as a number or by its name in any case. -/
def ofText (text : String) : Except Fault Priority :=
  let trimmed := Text.trim text.toList
  match Decimal.readWord? trimmed with
  | some level => .ok ⟨level⟩
  | none =>
    match ofName? (String.ofList (trimmed.map lower)) with
    | some priority => .ok priority
    | none => .error (Cause.notPriority text)

end Priority

end MixedInteger
