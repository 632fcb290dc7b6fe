import MixedInteger.Decimal.Style
import MixedInteger.Model

/-!
# Reports on a model

A report has one line for each figure, with its name and its value separated by a
tab.
-/

namespace MixedInteger

def reportText (lines : List (String × String)) : String :=
  String.join (lines.map fun line => line.1 ++ "\t" ++ line.2 ++ "\n")

def Options.reportLines (options : Options Float) : List (String × String) :=
  [("Timeout", match options.timeout with
      | some timeout => s!"{timeout}ms"
      | none => "none"),
    ("Tolerance", Decimal.Style.plain.write options.tolerance),
    ("Rounding cuts", if options.usesRoundingCuts then "true" else "false"),
    ("Node selection", options.nodeSelection.name),
    ("Branching", options.branching.name)]

def Options.report (options : Options Float) : String :=
  reportText options.reportLines

def Model.report (model : Model Float) : String :=
  let isSoft (constraint : Constraint Float) : Bool := constraint.relaxation.isSome
  reportText
    ([("Direction", if model.minimises then "minimise" else "maximise"),
        ("Variables", toString model.indices.length),
        ("Integer variables", toString model.integers.length),
        ("Unrestricted variables", toString (model.declared.filter Variable.isFree).length),
        ("Soft constraints", toString (model.constraints.values.filter isSoft).length),
        ("Constraints", toString model.constraints.length)] ++
      model.options.reportLines)

end MixedInteger
