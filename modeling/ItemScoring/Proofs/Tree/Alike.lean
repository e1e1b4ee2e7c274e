import ItemScoring.Proofs.Number.Rounding
import ItemScoring.Proofs.Tree.Acceptance
import ItemScoring.Proofs.Tree.Columns
import ItemScoring.Proofs.Tree.Scoring

/-!
# Trees that score alike

Tables with the same nodes describe trees with the same branches and leaves
(`Follows.alike`), and such trees have the same terms on records that agree in the columns
that are tested (`Alike.exists_values`).  The same here is the same number: zeros of
either sign pass the same tests, and a sum that does not start from a negative zero comes
out the same, bit for bit, whichever zeros are added to it (`foldl_add_congr`).
-/

namespace ItemScoring

open Binary64

namespace Binary64

theorem foldl_add_congr {values₁ values₂ : List Float} (h : List.Forall₂ Same values₁ values₂)
    {x : Float} (hx : decoded x ≠ .zero .negative) :
    values₁.foldl (· + ·) x = values₂.foldl (· + ·) x := by
  induction h generalizing x with
  | nil => rfl
  | cons hfirst hrest ih =>
      rw [List.foldl_cons, List.foldl_cons, ← add_congr hx hfirst]
      exact ih (decoded_add_ne hx _)

theorem same_foldl_mul {x y : Float} (h : Same x y) (weights : List Float) :
    Same (weights.foldl (· * ·) x) (weights.foldl (· * ·) y) := by
  induction weights generalizing x y with
  | nil => exact h
  | cons first rest ih => exact ih (h.mul_right first)

end Binary64

theorem Comparison.holds_congr {x y t u : Float} (hvalue : Same x y) (hthreshold : Same t u)
    (test : Comparison) : test.holds x t = test.holds y u := by
  cases test with
  | atMost => exact decide_eq_decide.mpr (hvalue.le_iff hthreshold)
  | above => exact decide_eq_decide.mpr (hvalue.lt_iff hthreshold)

/-- Both values are there, and they are the same number. -/
def SameNumber (x? y? : Option Float) : Prop :=
  ∃ x y, x? = some x ∧ y? = some y ∧ (x == y) = true

namespace SplitTree

/-- The trees are the same, but for the signs of zeros in them. -/
inductive Alike : SplitTree → SplitTree → Prop
  | leaf {id : NodeId} {coefficient₁ coefficient₂ : Float} (same : Same coefficient₁ coefficient₂) :
      Alike (.leaf id coefficient₁) (.leaf id coefficient₂)
  | branch {id : NodeId} {column : String} {threshold₁ threshold₂ : Float}
      {left₁ left₂ right₁ right₂ : SplitTree} (same : Same threshold₁ threshold₂)
      (left : Alike left₁ left₂) (right : Alike right₁ right₂) :
      Alike (.branch id column threshold₁ left₁ right₁) (.branch id column threshold₂ left₂ right₂)

/-! ### Terms -/

/-- Trees that are alike have the same terms on records with the same values in the
columns that are tested. -/
theorem Alike.exists_values {tree₁ tree₂ : SplitTree} (h : Alike tree₁ tree₂)
    {record₁ record₂ : Record}
    (hcolumns : ∀ column ∈ tree₁.tested, SameNumber (record₁.value? column) (record₂.value? column))
    {conditions₁ conditions₂ : List Expr} {weights : List Float}
    (h₁ : List.Forall₂ (Expr.HasValue record₁) conditions₁ weights)
    (h₂ : List.Forall₂ (Expr.HasValue record₂) conditions₂ weights) :
    ∃ values₁ values₂, List.Forall₂ (Expr.HasValue record₁) (tree₁.terms conditions₁) values₁ ∧
      List.Forall₂ (Expr.HasValue record₂) (tree₂.terms conditions₂) values₂ ∧
      List.Forall₂ Same values₁ values₂ := by
  induction h generalizing conditions₁ conditions₂ weights with
  | @leaf id coefficient₁ coefficient₂ same =>
      exact ⟨[_], [_], .cons (hasValue_leafTerm h₁ coefficient₁) .nil,
        .cons (hasValue_leafTerm h₂ coefficient₂) .nil, .cons (same_foldl_mul same weights) .nil⟩
  | @branch id column threshold₁ threshold₂ left₁ left₂ right₁ right₂ same left right ihleft
      ihright =>
      simp only [tested, List.mem_cons, List.mem_append] at hcolumns
      obtain ⟨value₁, value₂, hvalue₁, hvalue₂, hbeq⟩ := hcolumns column (Or.inl rfl)
      -- The tests of the branch have the same outcome on both records.
      have htests : ∀ test : Comparison, ∃ weight,
          Expr.HasValue record₁ (.indicator column test threshold₁) weight ∧
          Expr.HasValue record₂ (.indicator column test threshold₂) weight := by
        intro test
        have hsecond := Expr.hasValue_indicator hvalue₂ test threshold₂
        rw [← Comparison.holds_congr (.of_beq hbeq) same test] at hsecond
        exact ⟨_, Expr.hasValue_indicator hvalue₁ test threshold₁, hsecond⟩
      obtain ⟨low, hlow₁, hlow₂⟩ := htests .atMost
      obtain ⟨high, hhigh₁, hhigh₂⟩ := htests .above
      obtain ⟨lows₁, lows₂, hlows₁, hlows₂, hlows⟩ :=
        ihleft (fun name hname => hcolumns name (Or.inr (Or.inl hname)))
          (forall₂_concat h₁ hlow₁) (forall₂_concat h₂ hlow₂)
      obtain ⟨highs₁, highs₂, hhighs₁, hhighs₂, hhighs⟩ :=
        ihright (fun name hname => hcolumns name (Or.inr (Or.inr hname)))
          (forall₂_concat h₁ hhigh₁) (forall₂_concat h₂ hhigh₂)
      exact ⟨lows₁ ++ highs₁, lows₂ ++ highs₂, List.rel_append hlows₁ hhighs₁,
        List.rel_append hlows₂ hhighs₂, List.rel_append hlows hhighs⟩

/-! ### Tables -/

/-- Every node of the first table is one of the second, with the same numbers. -/
structure NodesAlike (table₁ table₂ : SplitTable) : Prop where
  leaf : ∀ {node coefficient₁}, table₁.resolve node = .ok (.leaf coefficient₁) →
    ∃ coefficient₂, table₂.resolve node = .ok (.leaf coefficient₂) ∧ Same coefficient₁ coefficient₂
  split : ∀ {node column threshold₁ left right},
    table₁.resolve node = .ok (.split column threshold₁ left right) →
    ∃ threshold₂, table₂.resolve node = .ok (.split column threshold₂ left right) ∧
      Same threshold₁ threshold₂

theorem Follows.alike {table₁ table₂ : SplitTable} (hnodes : NodesAlike table₁ table₂)
    {tree₁ tree₂ : SplitTree} (h₁ : tree₁.Follows table₁) (h₂ : tree₂.Follows table₂)
    (hid : tree₂.id = tree₁.id) : Alike tree₁ tree₂ := by
  induction tree₁ generalizing tree₂ with
  | leaf id coefficient =>
      obtain ⟨coefficient₂, hresolved, hsame⟩ := hnodes.leaf h₁
      rw [h₂.eq_leaf hid hresolved]
      exact .leaf hsame
  | branch id column threshold left right ihleft ihright =>
      obtain ⟨threshold₂, hresolved, hsame⟩ := hnodes.split h₁.1
      obtain ⟨left₂, right₂, rfl, hleft, hright, hleftid, hrightid⟩ := h₂.eq_branch hid hresolved
      exact .branch hsame (ihleft h₁.2.1 hleft hleftid) (ihright h₁.2.2 hright hrightid)

end SplitTree

end ItemScoring
