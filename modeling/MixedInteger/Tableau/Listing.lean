import MixedInteger.Decimal.Style
import MixedInteger.Tableau.Cut
import MixedInteger.Word

/-!
# Listings

The texts in which tableaus and bound cuts are shown to a reader.
-/

namespace MixedInteger

/-- An objective value that may be without end, in a style. -/
def Extended.text (style : Decimal.Style) : Extended Float → String
  | .below => "-inf"
  | .finite value => style.write value
  | .above => "inf"

def Cut.text (cut : Cut Float) : String :=
  let relation := match cut.kind with
    | .atLeast => ">="
    | .atMost => "<="
  s!"x{cut.index} {relation} {Decimal.Style.plain.write cut.value}"

namespace Tableau

def bracketList (items : List String) : String :=
  "[" ++ ", ".intercalate items ++ "]"

def rowText (row : Array Float) : String :=
  bracketList (row.toList.map Decimal.Style.listing.write)

/-- The variables of rows or columns; the slot without a variable shows the
largest index of 64 bits. -/
def namesText (names : Array (Option Nat)) : String :=
  bracketList (names.toList.map fun name => toString (name.getD (wordCount - 1)))

def flagText (flag : Bool) : String :=
  if flag then "true" else "false"

/-- The whole tableau as text, one line for each row. -/
def listing (t : Tableau Float) : String :=
  let d := t.dictionary
  let evaluation := t.evaluation.text Decimal.Style.plain
  let head :=
    ["Tableau",
      s!"width: {d.width}, height: {d.height}, feasible: {flagText t.isFeasible}, " ++
        s!"bounded: {flagText t.isBounded}, evaluation: {evaluation}",
      "var_index_by_row:", namesText d.basic,
      "var_index_by_col:", namesText d.nonBasic,
      "matrix:"]
  let objectives := d.secondary.flatMap fun objective =>
    [s!"optional objective {objective.priority.level}:", rowText objective.reducedCosts]
  String.join ((head ++ d.matrix.toList.map rowText ++ objectives).map fun line => line ++ "\n")

end Tableau

end MixedInteger
