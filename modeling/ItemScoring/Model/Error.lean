import ItemScoring.Tree.Split

/-!
# What is wrong with the tables of a model
-/

namespace ItemScoring

/-- A number in the tables of a model. -/
inductive Parameter
  | slope (item : Nat)
  | coefficient (node : NodeId) (item : Nat)
  | offset (item : Nat)
  | threshold (number : NodeId) (item : Nat)
deriving Repr, DecidableEq

namespace Parameter

/-- The words for a parameter in an error. -/
def describe : Parameter → String
  | slope item => s!"the slope of item {item}"
  | coefficient node item => s!"leaf {node} of item {item}"
  | offset item => s!"the no-DIF offset of item {item}"
  | threshold number item => s!"the threshold of split {number} of item {item}"

end Parameter

/-- Why the tables of a model are refused. -/
inductive ModelError
  /-- A row belongs to an item without a slope. -/
  | itemOutOfRange (item itemCount : Nat)
  /-- An item has leaf coefficients as well as an offset. -/
  | conflictingItem (item : Nat)
  /-- An item has no intercept at all. -/
  | missingItemCoefficients (item : Nat)
  /-- Two rows give a coefficient for one leaf. -/
  | duplicateLeaf (item : Nat) (node : NodeId)
  | duplicateOffset (item : Nat)
  | labelCountMismatch (found expected : Nat)
  | nonFiniteValue (parameter : Parameter)
  | invalidTree (item : Nat) (defect : TreeError)
deriving Repr, DecidableEq

namespace ModelError

/-- The wording of the error. -/
def message : ModelError → String
  | itemOutOfRange item itemCount =>
    s!"The model refers to item {item}, but only items 1..={itemCount} have a slope."
  | conflictingItem item =>
    s!"Item {item} has both DIF leaf coefficients and a no-DIF offset."
  | missingItemCoefficients item =>
    s!"Item {item} has neither DIF leaf coefficients nor a no-DIF offset."
  | duplicateLeaf item node =>
    s!"Item {item} lists a coefficient for leaf {node} more than once."
  | duplicateOffset item =>
    s!"Item {item} lists its no-DIF offset more than once."
  | labelCountMismatch found expected =>
    s!"The model has {found} item labels but {expected} items."
  | nonFiniteValue parameter =>
    s!"Non-finite value found in {parameter.describe}. All model parameters must be finite."
  | invalidTree item defect =>
    s!"The split tree of item {item} is malformed: {defect.message}"

end ModelError

end ItemScoring
