import MixedInteger.Json.Writer
import MixedInteger.Solution

/-!
# Solutions as JSON

The compact form puts the verdict and every variable other than zero side by side
in one object.  The full form keeps the values apart and adds the statistics of
the search.
-/

namespace MixedInteger.Solution

/-- An objective value as JSON; what has no end has no number. -/
def evaluationJson : Extended Float → Json
  | .finite value => Json.ofFloat value
  | _ => .null

def valuesJson (values : OrderedMap String Float) : Json :=
  .object (values.map fun entry => (entry.1, Json.ofFloat entry.2))

/-- The verdict at the head of the compact form. -/
def verdictFields (solution : Solution Float) : OrderedMap String Json :=
  let verdict : OrderedMap String Json :=
    [("feasible", .bool solution.isFeasible),
      ("result", evaluationJson solution.evaluation),
      ("bounded", .bool solution.isBounded)]
  if solution.isKnownIntegral then verdict.insert "isIntegral" (.bool true) else verdict

/-- The verdict and all values other than zero. -/
def compactJson (solution : Solution Float) : Json :=
  let nonZero := solution.values.filter fun entry => entry.2 != 0.0
  .object (nonZero.foldl
    (fun fields entry => OrderedMap.insert fields entry.1 (Json.ofFloat entry.2))
    solution.verdictFields)

/-- A field that is only there when it has a value. -/
def optionalField {β : Type} (name : String) (encode : β → Json) :
    Option β → List (String × Json)
  | some value => [(name, encode value)]
  | none => []

def keptJson (kept : KeptSolution Float) : Json :=
  .object [("result", Json.ofFloat kept.result), ("variables", valuesJson kept.values)]

def fullJson (solution : Solution Float) : Json :=
  .object
    ([("evaluation", evaluationJson solution.evaluation),
        ("feasible", .bool solution.isFeasible),
        ("bounded", .bool solution.isBounded)] ++
      optionalField "isIntegral" Json.bool solution.isIntegral ++
      optionalField "iterations" Json.ofNat solution.iterations ++
      optionalField "unboundedVariable" Json.string solution.unboundedVariable ++
      [("solutionSet", valuesJson solution.values)] ++
      if solution.kept.isEmpty then []
      else [("keptSolutions", Json.array (solution.kept.map keptJson))])

def text (solution : Solution Float) : String :=
  solution.compactJson.pretty

end MixedInteger.Solution
