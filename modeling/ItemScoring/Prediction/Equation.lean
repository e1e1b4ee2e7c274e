import ItemScoring.Expr.Rendering
import ItemScoring.Model.Basic

/-!
# Item equations

The linear predictor of an item is its slope times the total score of a record,
plus the intercept: the terms of its tree, or its offset.
-/

namespace ItemScoring

/-- The equation of one item. -/
structure ItemEquation where
  item : Nat
  label : String
  expression : Expr
deriving Repr

namespace Intercept

/-- The terms that an intercept adds to an equation: one per leaf of the tree, or
the offset. -/
def terms : Intercept → List Expr
  | .dif tree => tree.shape.terms []
  | .flat offset => [.coefficient offset]

end Intercept

namespace Item

/-- The equation of an item over the given column of total scores. -/
def equation (totalScore : String) (item : Item) : ItemEquation where
  item := item.number
  label := item.label
  expression :=
    .sum (.product [.coefficient item.slope, .column totalScore] :: item.intercept.terms)

end Item

namespace Model

/-- The equations of all items, in item order. -/
def equations (model : Model) (totalScore : String) : List ItemEquation :=
  model.items.map (Item.equation totalScore)

end Model

namespace ItemEquation

/-- The label and the rendered equation. -/
def rendered (equation : ItemEquation) : String × String :=
  (equation.label, equation.expression.render)

end ItemEquation

end ItemScoring
