import ItemScoring.Proofs.Expr.Values

/-!
# Normal forms of expressions

A product or sum of one term says no more than the term, and one of no terms no more than
a number.  `Expr.normal` leaves both out, from the inside to the outside, so that every
product and every sum of a normal form has at least two terms (`Expr.IsNormal`).

Products and sums are treated alike in all of this: `Operator` is the one of the two that
joins the terms, and `Expr.join_induction` is induction over expressions with one case for
both.
-/

namespace ItemScoring

/-- What joins the terms of an expression. -/
inductive Operator
  | times
  | plus

namespace Operator

/-- The product or the sum of some terms. -/
def join : Operator → List Expr → Expr
  | times => .product
  | plus => .sum

/-- The product or the sum of no terms. -/
def neutral : Operator → Float
  | times => 1
  | plus => 0

/-- The product or the sum of some terms, unless there is only one term or none. -/
def collapse (op : Operator) : List Expr → Expr
  | [] => .coefficient op.neutral
  | [term] => term
  | terms => op.join terms

theorem collapse_several (op : Operator) (first second : Expr) (rest : List Expr) :
    op.collapse (first :: second :: rest) = op.join (first :: second :: rest) := rfl

end Operator

namespace Expr

mutual

/-- The expression without products and sums of one term, and with the number that they stand for
in place of products and sums of none. -/
def normal : Expr → Expr
  | coefficient value => coefficient value
  | column name => column name
  | indicator name test threshold => indicator name test threshold
  | product factors => Operator.times.collapse (normalAll factors)
  | sum terms => Operator.plus.collapse (normalAll terms)

/-- The normal forms of several expressions. -/
def normalAll : List Expr → List Expr
  | [] => []
  | term :: rest => term.normal :: normalAll rest

end

/-! ### One case for products and sums -/

theorem join_induction {motive : Expr → Prop} (coefficient : ∀ value, motive (coefficient value))
    (column : ∀ name, motive (column name))
    (indicator : ∀ name test threshold, motive (indicator name test threshold))
    (join : ∀ (op : Operator) (terms : List Expr), (∀ e ∈ terms, motive e) →
      motive (op.join terms)) (e : Expr) : motive e :=
  @Expr.rec motive (fun terms => ∀ e ∈ terms, motive e) coefficient column indicator
    (join .times) (join .plus) (by simp)
    (fun _ _ hfirst hrest => List.forall_mem_cons.mpr ⟨hfirst, hrest⟩) e

theorem normalAll_eq (terms : List Expr) : normalAll terms = terms.map normal := by
  induction terms with
  | nil => rfl
  | cons first rest ih => rw [normalAll, ih, List.map_cons]

theorem normal_join (op : Operator) (terms : List Expr) :
    (op.join terms).normal = op.collapse (terms.map normal) := by
  cases op <;> simp [Operator.join, normal, normalAll_eq]

theorem mentionsAll_eq (terms : List Expr) : mentionsAll terms = terms.flatMap mentions := by
  induction terms with
  | nil => rfl
  | cons first rest ih => rw [mentionsAll, ih, List.flatMap_cons]

theorem mentions_join (op : Operator) (terms : List Expr) :
    (op.join terms).mentions = terms.flatMap mentions := by
  cases op <;> simp [Operator.join, mentions, mentionsAll_eq]

/-- Normal forms mention what the expression mentions. -/
theorem mentions_normal (e : Expr) : e.normal.mentions = e.mentions := by
  induction e using join_induction with
  | coefficient value => simp [normal]
  | column name => simp [normal]
  | indicator name test threshold => simp [normal]
  | join op terms ih =>
      have hterms : (terms.map normal).flatMap mentions = terms.flatMap mentions := by
        rw [List.flatMap_map]
        exact List.flatMap_congr ih
      rw [normal_join, mentions_join, ← hterms]
      cases hcollapsed : terms.map normal with
      | nil => simp [Operator.collapse, mentions]
      | cons first rest =>
          cases rest with
          | nil => simp [Operator.collapse]
          | cons second rest => rw [Operator.collapse_several, mentions_join]

/-! ### Normal forms -/

/-- Every product and every sum in the expression has at least two terms. -/
inductive IsNormal : Expr → Prop
  | coefficient (value : Float) : IsNormal (coefficient value)
  | column (name : String) : IsNormal (column name)
  | indicator (name : String) (test : Comparison) (threshold : Float) :
      IsNormal (indicator name test threshold)
  | product {factors : List Expr} (several : 1 < factors.length)
      (normal : ∀ e ∈ factors, IsNormal e) : IsNormal (product factors)
  | sum {terms : List Expr} (several : 1 < terms.length) (normal : ∀ e ∈ terms, IsNormal e) :
      IsNormal (sum terms)

theorem isNormal_join {op : Operator} {terms : List Expr} :
    IsNormal (op.join terms) ↔ 1 < terms.length ∧ ∀ e ∈ terms, IsNormal e := by
  constructor
  · intro h
    cases op with
    | times =>
        cases h with
        | product several normal => exact ⟨several, normal⟩
    | plus =>
        cases h with
        | sum several normal => exact ⟨several, normal⟩
  · intro ⟨hseveral, hterms⟩
    cases op with
    | times => exact .product hseveral hterms
    | plus => exact .sum hseveral hterms

theorem isNormal_normal (e : Expr) : e.normal.IsNormal := by
  induction e using join_induction with
  | coefficient value => simpa [normal] using IsNormal.coefficient value
  | column name => simpa [normal] using IsNormal.column name
  | indicator name test threshold => simpa [normal] using IsNormal.indicator name test threshold
  | join op terms ih =>
      have hterms : ∀ e ∈ terms.map normal, IsNormal e := List.forall_mem_map.mpr ih
      rw [normal_join]
      cases hcollapsed : terms.map normal with
      | nil => exact .coefficient _
      | cons first rest =>
          rw [hcollapsed] at hterms
          cases rest with
          | nil => exact hterms first List.mem_cons_self
          | cons second rest => exact isNormal_join.mpr ⟨by simp, hterms⟩

end Expr

end ItemScoring
