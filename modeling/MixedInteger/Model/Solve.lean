import MixedInteger.Model

/-!
# Solving a model

The tableau is built when the model is solved for the first time, or after its
direction changed, and is solved from its present basis otherwise.
-/

namespace MixedInteger.Model

variable {α : Type} [Scalar α]

/-- Notes the context of the faults of an operation. -/
def within {β : Type} (context : Context) (action : Action α β) : Action α β := fun model =>
  match action model with
  | .ok result model => .ok result model
  | .error fault model => .error (fault.within context) model

/-- What a search has to know about a model. -/
def searchSpace {β : Type} (model : Model β) : SearchSpace β where
  indices := model.indices
  integers := model.integers
  minimises := model.minimises
  options := model.options

/-- Builds the tableau of a model from scratch. -/
def load : Action α Unit := do
  let model ← get
  onTableau (Tableau.load model.indices model.constraints.values model.minimises)
  modify fun model => { model with isLoaded := true }

def solve (effort : Effort) : Action α (Solution α) := do
  if !(← get).isLoaded then within .buildingTableau load
  let model ← get
  onTableau (Tableau.solve model.searchSpace effort)

end MixedInteger.Model
