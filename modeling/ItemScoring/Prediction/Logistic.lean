/-!
# Probabilities and classes

The logistic function is evaluated on the side where its exponential does not
overflow, so that it is accurate for large positive and negative arguments.

The exponential function is a parameter of `logisticWith`, since the one of the
system is known by its bounds only: what is said of probabilities holds for every
exponential function within the same bounds.  `logistic` uses the one of the system.
-/

namespace ItemScoring

/-- The logistic function of a linear predictor, with the given exponential function. -/
def logisticWith (exp : Float → Float) (eta : Float) : Float :=
  if 0 ≤ eta then 1 / (1 + exp (-eta))
  else
    let e := exp eta
    e / (1 + e)

/-- The logistic function of a linear predictor. -/
def logistic (eta : Float) : Float := logisticWith Float.exp eta

/-- The probability from which on a record is classified as positive. -/
def classificationThreshold : Float := 0.5

/-- Whether a record with this probability is classified as positive; what is not
a number is not. -/
def isPositive (probability : Float) : Bool := classificationThreshold ≤ probability

/-- The class as a number: one for positive. -/
def classNumber (positive : Bool) : Nat := if positive then 1 else 0

end ItemScoring
