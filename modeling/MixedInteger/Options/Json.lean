import MixedInteger.Json.Basic
import MixedInteger.Options

/-!
# Options as JSON

Options are given as an object, where unknown fields are ignored and absent ones
keep their standard value, or as the list of their values in order, where the
last ones may be left out.  A strategy is given by its name or as an object with
that name as its only field.
-/

namespace MixedInteger.Options

variable {β : Type}

def readTimeout? : Json → Option (Option Nat)
  | .null => some none
  | .number value => value.toNat?.map some
  | _ => none

/-- A number that is not quoted. -/
def readTolerance? : Json → Option Float
  | .number value => some value.toFloat
  | _ => none

def readFlag? : Json → Option Bool
  | .bool value => some value
  | _ => none

def readStrategy? (ofName? : String → Option β) : Json → Option β
  | .string name => ofName? name
  | .object [(name, .null)] => ofName? name
  | _ => none

def fieldNames : List String :=
  ["timeout", "tolerance", "useMIRCuts", "exitOnCycles", "keep_solutions", "nodeSelection",
    "branching"]

/-- A value, or the standard one if there is none. -/
def orStandard (read : Json → Option β) (standard : β) : Option Json → Option β
  | none => some standard
  | some json => read json

/-- Options from a look-up of the values by name. -/
def ofLookup? (lookup : String → Option Json) : Option (Options Float) := do
  let standard : Options Float := Options.standard
  let timeout ← orStandard readTimeout? standard.timeout (lookup "timeout")
  let tolerance ← orStandard readTolerance? standard.tolerance (lookup "tolerance")
  let usesRoundingCuts ←
    orStandard readFlag? standard.usesRoundingCuts (lookup "useMIRCuts")
  let stopsOnCycles ← orStandard readFlag? standard.stopsOnCycles (lookup "exitOnCycles")
  let keepsSolutions ←
    orStandard readFlag? standard.keepsSolutions (lookup "keep_solutions")
  let nodeSelection ←
    orStandard (readStrategy? NodeSelection.ofName?) standard.nodeSelection
      (lookup "nodeSelection")
  let branching ←
    orStandard (readStrategy? Branching.ofName?) standard.branching (lookup "branching")
  some ⟨timeout, tolerance, usesRoundingCuts, stopsOnCycles, keepsSolutions, nodeSelection,
    branching⟩

def ofJson (json : Json) : Except Fault (Options Float) :=
  let options :=
    match json with
    | .object fields => ofLookup? (OrderedMap.get? fields)
    | .array items =>
      if fieldNames.length < items.length then none
      else ofLookup? (OrderedMap.get? (fieldNames.zip items))
    | _ => none
  match options with
  | some options => .ok options
  | none => .error Cause.notOptions

def toJson (options : Options Float) : Json :=
  .object
    [("timeout", match options.timeout with
        | some timeout => Json.ofNat timeout
        | none => .null),
      ("tolerance", Json.ofFloat options.tolerance),
      ("useMIRCuts", .bool options.usesRoundingCuts),
      ("exitOnCycles", .bool options.stopsOnCycles),
      ("keep_solutions", .bool options.keepsSolutions),
      ("nodeSelection", .string options.nodeSelection.name),
      ("branching", .string options.branching.name)]

end MixedInteger.Options
