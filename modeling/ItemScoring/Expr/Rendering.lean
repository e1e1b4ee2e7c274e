import ItemScoring.Expr.Basic
import ItemScoring.Number.Layout

/-!
# Rendered equations

An expression is rendered as one line of text for auditing:

```text
(1 * score) + (0.5 * (age <= 30)) + (-0.3 * (age > 30))
```

A product or sum that stands inside another one is put into parentheses if it
has more than one term, so that the grouping stays visible.  Indicators bring
parentheses of their own.
-/

namespace ItemScoring.Expr

/-- Numbers of an equation are never written with an exponent, and whole numbers
without a point. -/
def numbers : Layout where
  positional := none
  point := false
  plus := false
  tie := .up
  nan := "NaN"

/-- Whether an expression needs parentheses inside a product or sum. -/
def isCompound : Expr → Bool
  | product terms => 1 < terms.length
  | sum terms => 1 < terms.length
  | _ => false

mutual

/-- The text of an expression. -/
def render : Expr → String
  | coefficient value => numbers.render value
  | column name => name
  | indicator name test threshold =>
    s!"({name} {test.symbol} {numbers.render threshold})"
  | product [] => "1"
  | product factors => " * ".intercalate (renderTerms factors)
  | sum [] => "0"
  | sum terms => " + ".intercalate (renderTerms terms)

/-- The texts of the terms of a product or sum. -/
def renderTerms : List Expr → List String
  | [] => []
  | term :: rest =>
    (if term.isCompound then s!"({term.render})" else term.render) :: renderTerms rest

end

end ItemScoring.Expr
