import ItemScoring.Tree.Shape
import ItemScoring.Proofs.Expr.Values
import ItemScoring.Proofs.Number.Arithmetic

/-!
# Sums of leaf terms

A tree is scored by descending to one leaf, or by adding up a term for every leaf
(`SplitTree.terms`).  The term of a leaf is its coefficient times the outcomes of
the tests above it, which are zeros and ones: multiplying by one changes nothing,
and one factor zero leaves a zero behind, since the coefficient is finite.

Going down the tree with the tests passed so far, `SplitTree.exists_term_values`
shows that the terms have values which are all zero but one, and that the one is
the coefficient that descending finds, bit for bit.  So nothing is rounded when the
terms are added up (`foldl_add_single`).
-/

namespace ItemScoring

open Binary64

/-! ### Products and sums of values -/

theorem foldl_mul_ones {weights : List Float} (hones : ∀ w ∈ weights, w = 1) (x : Float) :
    weights.foldl (· * ·) x = x := by
  induction weights with
  | nil => rfl
  | cons first rest ih =>
      obtain ⟨rfl, hrest⟩ := List.forall_mem_cons.mp hones
      rw [List.foldl_cons, Binary64.mul_one, ih hrest]

theorem isZero_foldl_mul {weights : List Float} (hbits : ∀ w ∈ weights, w = 0 ∨ w = 1)
    {x : Float} (hx : IsZero x) : IsZero (weights.foldl (· * ·) x) := by
  induction weights generalizing x with
  | nil => exact hx
  | cons first rest ih =>
      obtain ⟨hfirst, hrest⟩ := List.forall_mem_cons.mp hbits
      rw [List.foldl_cons]
      refine ih hrest ?_
      rcases hfirst with rfl | rfl
      · exact isZero_mul hx.isFinite
      · rwa [Binary64.mul_one]

/-- One factor zero is enough, whatever the factors before and after it. -/
theorem isZero_foldl_mul_of_mem {weights : List Float} (hbits : ∀ w ∈ weights, w = 0 ∨ w = 1)
    (hmem : 0 ∈ weights) {x : Float} (hx : x.isFinite = true) :
    IsZero (weights.foldl (· * ·) x) := by
  induction weights with
  | nil => simp at hmem
  | cons first rest ih =>
      obtain ⟨hfirst, hrest⟩ := List.forall_mem_cons.mp hbits
      rw [List.foldl_cons]
      rcases hfirst with rfl | rfl
      · exact isZero_foldl_mul hrest (isZero_mul hx)
      · rw [Binary64.mul_one]
        rcases List.mem_cons.mp hmem with hzero | hmem
        · exact absurd hzero (by decide)
        · exact ih hrest hmem

theorem same_foldl_add {zeros : List Float} (hzeros : ∀ z ∈ zeros, IsZero z) (x : Float) :
    Same (zeros.foldl (· + ·) x) x := by
  induction zeros generalizing x with
  | nil => exact .refl x
  | cons first rest ih =>
      obtain ⟨hfirst, hrest⟩ := List.forall_mem_cons.mp hzeros
      exact (ih hrest (x + first)).trans (Binary64.add_zero hfirst x)

/-- Zeros before and after a term do not change what it adds. -/
theorem foldl_add_single {before after : List Float} (hbefore : ∀ z ∈ before, IsZero z)
    (hafter : ∀ z ∈ after, IsZero z) (x c : Float) :
    Same ((before ++ c :: after).foldl (· + ·) x) (x + c) := by
  rw [List.foldl_append, List.foldl_cons]
  exact (same_foldl_add hafter _).trans ((same_foldl_add hbefore x).add_right c)

/-! ### Terms of leaves -/

namespace SplitTree

open ItemScoring.Expr (HasValue)

/-- All numbers that scoring a record with the tree may read are there and finite. -/
def FiniteOn (record : Record) : SplitTree → Prop
  | leaf _ coefficient => coefficient.isFinite = true
  | branch _ column threshold left right =>
    threshold.isFinite = true ∧
      (∃ value, record.value? column = some value ∧ value.isFinite = true) ∧
      left.FiniteOn record ∧ right.FiniteOn record

variable {record : Record}

theorem hasValue_leafTerm {conditions : List Expr} {weights : List Float}
    (h : List.Forall₂ (HasValue record) conditions weights) (coefficient : Float) :
    HasValue record (leafTerm coefficient conditions) (weights.foldl (· * ·) coefficient) := by
  cases h with
  | nil => exact Expr.hasValue_coefficient coefficient
  | cons hfirst hrest =>
      have hall := List.Forall₂.cons (Expr.hasValue_coefficient coefficient)
        (List.Forall₂.cons hfirst hrest)
      have := Expr.hasValue_product hall
      rwa [List.foldl_cons, Binary64.one_mul] at this

/-- The two tests of a split come out as one and zero, for the side that the record
belongs to and for the other one. -/
theorem exists_test_values {column : String} {threshold value : Float}
    (hvalue : record.value? column = some value) (hfinite : value.isFinite = true)
    (hthreshold : threshold.isFinite = true) :
    ∃ low high, HasValue record (.indicator column .atMost threshold) low ∧
      HasValue record (.indicator column .above threshold) high ∧
      if value ≤ threshold then low = 1 ∧ high = 0 else low = 0 ∧ high = 1 := by
  refine ⟨_, _, Expr.hasValue_indicator hvalue _ _, Expr.hasValue_indicator hvalue _ _, ?_⟩
  have habove : threshold < value ↔ ¬ value ≤ threshold :=
    lt_iff_not_le (isNaN_of_isFinite hfinite) (isNaN_of_isFinite hthreshold)
  by_cases hle : value ≤ threshold <;> simp [Comparison.holds, habove, hle]

theorem forall_bits_concat {weights : List Float} (hbits : ∀ w ∈ weights, w = 0 ∨ w = 1)
    {bit : Float} (hbit : bit = 0 ∨ bit = 1) : ∀ w ∈ weights ++ [bit], w = 0 ∨ w = 1 := by
  intro w hw
  rcases List.mem_append.mp hw with hw | hw
  · exact hbits w hw
  · rwa [List.mem_singleton.mp hw]

/-- Below a test that failed, all terms are zero. -/
theorem exists_zero_values {tree : SplitTree} (hfinite : tree.FiniteOn record)
    {conditions : List Expr} {weights : List Float}
    (h : List.Forall₂ (HasValue record) conditions weights)
    (hbits : ∀ w ∈ weights, w = 0 ∨ w = 1) (hzero : 0 ∈ weights) :
    ∃ values, List.Forall₂ (HasValue record) (tree.terms conditions) values ∧
      ∀ z ∈ values, IsZero z := by
  induction tree generalizing conditions weights with
  | leaf id coefficient =>
      refine ⟨_, List.Forall₂.cons (hasValue_leafTerm h coefficient) .nil, ?_⟩
      simpa using isZero_foldl_mul_of_mem hbits hzero hfinite
  | branch id column threshold left right ihleft ihright =>
      obtain ⟨hthreshold, ⟨value, hvalue, hvfinite⟩, hleft, hright⟩ := hfinite
      obtain ⟨low, high, hlow, hhigh, hsides⟩ := exists_test_values hvalue hvfinite hthreshold
      -- Whatever this test adds, the zero stays among the factors of every term below.
      have hbit : (low = 0 ∨ low = 1) ∧ (high = 0 ∨ high = 1) := by
        split at hsides <;> simp [hsides]
      obtain ⟨lows, hlows, hlowzero⟩ := ihleft hleft (forall₂_concat h hlow)
        (forall_bits_concat hbits hbit.1) (List.mem_append_left _ hzero)
      obtain ⟨highs, hhighs, hhighzero⟩ := ihright hright (forall₂_concat h hhigh)
        (forall_bits_concat hbits hbit.2) (List.mem_append_left _ hzero)
      refine ⟨lows ++ highs, List.rel_append hlows hhighs, fun z hz => ?_⟩
      exact (List.mem_append.mp hz).elim (hlowzero z) (hhighzero z)

/-- Below tests that all passed, the terms are zero except for the one of the selected
leaf, which is the coefficient. -/
theorem exists_term_values {tree : SplitTree} (hfinite : tree.FiniteOn record)
    {conditions : List Expr} {weights : List Float}
    (h : List.Forall₂ (HasValue record) conditions weights) (hones : ∀ w ∈ weights, w = 1) :
    ∃ before coefficient after, tree.select record = .ok coefficient ∧
      coefficient.isFinite = true ∧
      List.Forall₂ (HasValue record) (tree.terms conditions) (before ++ coefficient :: after) ∧
      (∀ z ∈ before, IsZero z) ∧ ∀ z ∈ after, IsZero z := by
  induction tree generalizing conditions weights with
  | leaf id coefficient =>
      refine ⟨[], coefficient, [], rfl, hfinite, ?_, by simp, by simp⟩
      have := hasValue_leafTerm h coefficient
      rw [foldl_mul_ones hones] at this
      exact .cons this .nil
  | branch id column threshold left right ihleft ihright =>
      obtain ⟨hthreshold, ⟨value, hvalue, hvfinite⟩, hleft, hright⟩ := hfinite
      obtain ⟨low, high, hlow, hhigh, hsides⟩ := exists_test_values hvalue hvfinite hthreshold
      have hbits : ∀ w ∈ weights, w = 0 ∨ w = 1 := fun w hw => Or.inr (hones w hw)
      have hlows := forall₂_concat h hlow
      have hhighs := forall₂_concat h hhigh
      have hselect : (branch id column threshold left right).select record =
          if value ≤ threshold then left.select record else right.select record := by
        rw [select, Record.lookup, hvalue]
        rfl
      rw [hselect]
      -- The side of the record holds the selected leaf; on the other side all terms are zero.
      by_cases hle : value ≤ threshold
      · obtain ⟨rfl, rfl⟩ : low = 1 ∧ high = 0 := by simpa [hle] using hsides
        obtain ⟨before, coefficient, after, hfound, hcfinite, hvalues, hbefore, hafter⟩ :=
          ihleft hleft hlows (by simpa [or_imp, forall_and] using hones)
        obtain ⟨zeros, hzeros, hiszero⟩ := exists_zero_values hright hhighs
          (forall_bits_concat hbits (Or.inl rfl)) (by simp)
        refine ⟨before, coefficient, after ++ zeros, by rwa [if_pos hle], hcfinite, ?_, hbefore,
          fun z hz => (List.mem_append.mp hz).elim (hafter z) (hiszero z)⟩
        simpa [terms] using List.rel_append hvalues hzeros
      · obtain ⟨rfl, rfl⟩ : low = 0 ∧ high = 1 := by simpa [hle] using hsides
        obtain ⟨before, coefficient, after, hfound, hcfinite, hvalues, hbefore, hafter⟩ :=
          ihright hright hhighs (by simpa [or_imp, forall_and] using hones)
        obtain ⟨zeros, hzeros, hiszero⟩ := exists_zero_values hleft hlows
          (forall_bits_concat hbits (Or.inl rfl)) (by simp)
        refine ⟨zeros ++ before, coefficient, after, by rwa [if_neg hle], hcfinite, ?_,
          fun z hz => (List.mem_append.mp hz).elim (hiszero z) (hbefore z), hafter⟩
        simpa [terms] using List.rel_append hzeros hvalues

end SplitTree

end ItemScoring
