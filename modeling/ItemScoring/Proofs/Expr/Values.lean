import ItemScoring.Expr.Basic
import ItemScoring.Proofs.Sequence

/-!
# Values of expressions

Evaluation is strict, so an expression has a value exactly if everything below it has
one, and that value is a fold: the product of the values of the factors, or the sum of
the values of the terms, from left to right (`hasValue_product`, `hasValue_sum`).

What an expression needs of a record are the columns that it mentions, in whatever
place (`exists_value`).
-/

namespace ItemScoring

namespace Expr

variable {record : Record}

/-- The expression has this value on the record. -/
def HasValue (record : Record) (e : Expr) (value : Float) : Prop :=
  e.evaluate record = .ok value

theorem multiplyAll_eq {factors : List Expr} {values : List Float}
    (h : List.Forall₂ (HasValue record) factors values) (running : Float) :
    multiplyAll record running factors = .ok (values.foldl (· * ·) running) := by
  induction h generalizing running with
  | nil => simp [multiplyAll]
  | cons hfirst hrest ih =>
      rw [multiplyAll, hfirst, ok_bind, ih, List.foldl_cons]

theorem addAll_eq {terms : List Expr} {values : List Float}
    (h : List.Forall₂ (HasValue record) terms values) (running : Float) :
    addAll record running terms = .ok (values.foldl (· + ·) running) := by
  induction h generalizing running with
  | nil => simp [addAll]
  | cons hfirst hrest ih =>
      rw [addAll, hfirst, ok_bind, ih, List.foldl_cons]

theorem hasValue_product {factors : List Expr} {values : List Float}
    (h : List.Forall₂ (HasValue record) factors values) :
    HasValue record (.product factors) (values.foldl (· * ·) 1) := by
  rw [HasValue, evaluate, multiplyAll_eq h]

theorem hasValue_sum {terms : List Expr} {values : List Float}
    (h : List.Forall₂ (HasValue record) terms values) :
    HasValue record (.sum terms) (values.foldl (· + ·) 0) := by
  rw [HasValue, evaluate, addAll_eq h]

theorem hasValue_coefficient (value : Float) : HasValue record (.coefficient value) value := by
  rw [HasValue, evaluate]

theorem hasValue_column {name : String} {value : Float} (h : record.value? name = some value) :
    HasValue record (.column name) value := by
  rw [HasValue, evaluate, Record.lookup, h]

theorem hasValue_indicator {name : String} {value : Float} (h : record.value? name = some value)
    (test : Comparison) (threshold : Float) :
    HasValue record (.indicator name test threshold)
      (if test.holds value threshold then 1 else 0) := by
  rw [HasValue, evaluate, Record.lookup, h]
  rfl

/-! ### Columns -/

@[simp] theorem mentionsAll_append (first second : List Expr) :
    mentionsAll (first ++ second) = mentionsAll first ++ mentionsAll second := by
  induction first with
  | nil => simp [mentionsAll]
  | cons e rest ih => simp [mentionsAll, ih]

theorem mem_columns {e : Expr} {name : String} : name ∈ e.columns ↔ name ∈ e.mentions := by
  unfold columns
  exact List.mem_eraseDups

mutual

/-- An expression has a value on every record that has all of its columns. -/
theorem exists_value : (e : Expr) →
    (∀ name ∈ e.mentions, ∃ value, record.value? name = some value) →
      ∃ value, HasValue record e value
  | .coefficient value, _ => ⟨value, hasValue_coefficient value⟩
  | .column name, h => by
      obtain ⟨value, hvalue⟩ := h name (by simp [mentions])
      exact ⟨value, hasValue_column hvalue⟩
  | .indicator name test threshold, h => by
      obtain ⟨value, hvalue⟩ := h name (by simp [mentions])
      exact ⟨_, hasValue_indicator hvalue test threshold⟩
  | .product factors, h => by
      unfold mentions at h
      obtain ⟨values, hvalues⟩ := exists_values factors h
      exact ⟨_, hasValue_product hvalues⟩
  | .sum terms, h => by
      unfold mentions at h
      obtain ⟨values, hvalues⟩ := exists_values terms h
      exact ⟨_, hasValue_sum hvalues⟩

theorem exists_values : (terms : List Expr) →
    (∀ name ∈ mentionsAll terms, ∃ value, record.value? name = some value) →
      ∃ values, List.Forall₂ (HasValue record) terms values
  | [], _ => ⟨[], .nil⟩
  | term :: rest, h => by
      simp only [mentionsAll, List.mem_append] at h
      obtain ⟨value, hvalue⟩ := exists_value term fun name hname => h name (Or.inl hname)
      obtain ⟨values, hvalues⟩ := exists_values rest fun name hname => h name (Or.inr hname)
      exact ⟨value :: values, .cons hvalue hvalues⟩

end

end Expr

end ItemScoring
