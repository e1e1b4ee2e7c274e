/-!
# Names of derived columns

A prediction adds three columns per item to a dataset.  Each is named by a stem
and the number of the item, such as `n1`, `p1` and `I1` for the first item.
-/

namespace ItemScoring

/-- The names of the three columns of one item. -/
structure DerivedColumns where
  linear : String
  probability : String
  prediction : String
deriving Repr, DecidableEq

namespace DerivedColumns

/-- The three names in the order in which the columns are added. -/
def names (columns : DerivedColumns) : List String :=
  [columns.linear, columns.probability, columns.prediction]

end DerivedColumns

/-- The stems of the names of derived columns. -/
structure ColumnNaming where
  linear : String := "n"
  probability : String := "p"
  prediction : String := "I"
deriving Repr, DecidableEq

namespace ColumnNaming

/-- The names of the columns of an item. -/
def forItem (naming : ColumnNaming) (item : Nat) : DerivedColumns where
  linear := s!"{naming.linear}{item}"
  probability := s!"{naming.probability}{item}"
  prediction := s!"{naming.prediction}{item}"

end ColumnNaming

end ItemScoring
