/-!
# Scoring expressions

The equation of an item is a small expression over the columns of a record:
coefficients, column values and indicators of a threshold test, joined by
products and sums.  `Expr.evaluate` interprets an expression on one record, and
`Expr.columns` lists the columns that it reads.

Evaluation is strict: every term of a product or sum is evaluated, from left to
right, and the first column without a value ends it.  A factor zero does not
excuse the factors behind it.
-/

namespace ItemScoring

/-! ### Threshold tests -/

/-- The two sides of a threshold. -/
inductive Comparison
  | atMost
  | above
deriving Repr, DecidableEq

namespace Comparison

/-- Whether a value lies on this side of a threshold.  A value that is not a
number lies on neither side. -/
def holds : Comparison → (value threshold : Float) → Bool
  | atMost, value, threshold => value ≤ threshold
  | above, value, threshold => value > threshold

/-- The sign that stands for the test in a rendered equation. -/
def symbol : Comparison → String
  | atMost => "<="
  | above => ">"

end Comparison

/-! ### Expressions -/

/-- An expression over the columns of a record. -/
inductive Expr
  | coefficient (value : Float)
  | column (name : String)
  /-- One if the value of the column lies on the given side of the threshold,
  zero otherwise. -/
  | indicator (name : String) (test : Comparison) (threshold : Float)
  /-- The product of all factors; one if there is none. -/
  | product (factors : List Expr)
  /-- The sum of all terms; zero if there is none. -/
  | sum (terms : List Expr)
deriving Repr, Inhabited

/-! ### Records -/

/-- One record: its position, which errors quote, and the value of each column
that it has. -/
structure Record where
  index : Nat
  value? : String → Option Float

/-- Why an expression has no value on a record. -/
inductive EvalError
  /-- The record has no value in a column that the expression reads. -/
  | unresolvedVariable (column : String) (row : Nat)
deriving Repr, DecidableEq

namespace EvalError

/-- The wording of the error. -/
def message : EvalError → String
  | unresolvedVariable column row =>
    s!"Column '{column}' referenced by the model is not present in row {row}."

end EvalError

namespace Record

/-- The value of a column, or the error that names it. -/
def lookup (record : Record) (column : String) : Except EvalError Float :=
  match record.value? column with
  | some value => .ok value
  | none => .error (.unresolvedVariable column record.index)

end Record

namespace Expr

/-! ### Evaluation -/

mutual

/-- The value of an expression on a record. -/
def evaluate (record : Record) : Expr → Except EvalError Float
  | coefficient value => .ok value
  | column name => record.lookup name
  | indicator name test threshold => do
    let value ← record.lookup name
    return if test.holds value threshold then 1 else 0
  | product factors => multiplyAll record 1 factors
  | sum terms => addAll record 0 terms

/-- The running product times the values of the factors. -/
def multiplyAll (record : Record) (running : Float) : List Expr → Except EvalError Float
  | [] => .ok running
  | factor :: rest => do
    let value ← factor.evaluate record
    multiplyAll record (running * value) rest

/-- The running sum plus the values of the terms. -/
def addAll (record : Record) (running : Float) : List Expr → Except EvalError Float
  | [] => .ok running
  | term :: rest => do
    let value ← term.evaluate record
    addAll record (running + value) rest

end

/-! ### Columns of an expression -/

mutual

/-- Every column reading, plain or in an indicator, from left to right. -/
def mentions : Expr → List String
  | coefficient _ => []
  | column name => [name]
  | indicator name _ _ => [name]
  | product factors => mentionsAll factors
  | sum terms => mentionsAll terms

/-- The mentions of several expressions, one after the other. -/
def mentionsAll : List Expr → List String
  | [] => []
  | first :: rest => first.mentions ++ mentionsAll rest

end

/-- The columns that an expression reads, each once, in the order in which they
first occur. -/
def columns (e : Expr) : List String := e.mentions.eraseDups

end Expr

end ItemScoring
