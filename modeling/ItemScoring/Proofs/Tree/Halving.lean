import ItemScoring.Proofs.Tree.RowOrder

/-!
# Looking rows up

An accepted tree keeps its rows by ascending number (`ItemTree.pairwise_splits`) and looks them up
by halving: at every step the middle row says which part may hold the number.  In ascending rows
nothing is lost with the other part, so that halving finds what going through all rows finds
(`bisect_eq_find?`), and that is the row with the number, whatever order the rows were given in
(`row?_eq_some_iff`).
-/

namespace ItemScoring.ItemTree

/-! ### Searching by halves -/

section Halves

variable {rows : List Split}
  (hsorted : rows.Pairwise fun first second => first.number < second.number)
include hsorted

/-- In front of a row stand smaller numbers, and behind it greater ones. -/
theorem number_bounds (position : Nat) (hposition : position < rows.length) :
    (∀ row ∈ rows.take position, row.number < rows[position].number) ∧
      ∀ row ∈ rows.drop position, rows[position].number ≤ row.number := by
  have hsplit := List.take_append_drop position rows
  rw [List.drop_eq_getElem_cons hposition] at hsplit ⊢
  rw [← hsplit] at hsorted
  obtain ⟨-, hbehind, hfront⟩ := List.pairwise_append.mp hsorted
  refine ⟨fun row hrow => hfront row hrow _ List.mem_cons_self, fun row hrow => ?_⟩
  rcases List.mem_cons.mp hrow with rfl | hrow
  · exact UInt32.le_refl _
  · exact UInt32.le_of_lt ((List.pairwise_cons.mp hbehind).1 row hrow)

/-- Halving rows of ascending numbers finds what going through them finds. -/
theorem bisect_eq_find? (number : NodeId) :
    bisect number rows = rows.find? (·.number == number) := by
  fun_induction bisect number rows with
  | case1 rows hmany half hless ih =>
      -- The rows that are left out stand behind the middle one, or are it.
      have hmiddle := number_bounds hsorted half (by omega)
      have hrest : (rows.drop (rows.length - half)).find? (·.number == number) = none := by
        refine List.find?_eq_none.mpr fun row hrow => ?_
        have hbehind := hmiddle.2 row (List.drop_subset_drop_left rows (by omega) hrow)
        have hne := UInt32.ne_of_lt (UInt32.lt_of_lt_of_le hless hbehind)
        simpa using hne.symm
      rw [ih (hsorted.sublist (List.take_sublist _ _))]
      conv_rhs => rw [← List.take_append_drop (rows.length - half) rows, List.find?_append, hrest]
      simp
  | case2 rows hmany half hless ih =>
      have hmiddle := number_bounds hsorted half (by omega)
      have hfront : (rows.take half).find? (·.number == number) = none := by
        refine List.find?_eq_none.mpr fun row hrow => ?_
        have hlt := hmiddle.1 row hrow
        have hne := UInt32.ne_of_lt (UInt32.lt_of_lt_of_le hlt (UInt32.not_lt.mp hless))
        simpa using hne
      rw [ih (hsorted.sublist (List.drop_sublist _ _))]
      conv_rhs => rw [← List.take_append_drop half rows, List.find?_append, hfront]
      simp
  | case3 rows hfew =>
      cases rows with
      | nil => rfl
      | cons row rest =>
          obtain rfl : rest = [] := by
            rw [List.length_cons] at hfew
            exact List.eq_nil_of_length_eq_zero (by omega)
          cases hrow : row.number == number <;> simp [Option.filter, hrow]

end Halves

/-! ### The rows of a tree -/

variable {splits : List Split} {coefficients : Coefficients} {tree : ItemTree}

/-- The rows of an accepted tree stand in ascending order. -/
theorem pairwise_splits (h : ofRows splits coefficients = .ok tree) :
    tree.splits.Pairwise fun first second => first.number < second.number := by
  obtain ⟨hdistinct, -, -, hsplits, -⟩ := ofRows_eq_ok_iff.mp h
  have hnumbers : (sortRows splits).Pairwise fun first second => first.number ≠ second.number :=
    List.pairwise_map.mp (nodup_sortRows hdistinct)
  rw [hsplits]
  refine (pairwise_sortRows splits).imp₂ ?_ hnumbers
  intro first second hle hne
  exact UInt32.lt_of_le_of_ne hle hne

/-- The rows of an accepted tree are found by their numbers, and nothing else is. -/
theorem row?_eq_some_iff (h : ofRows splits coefficients = .ok tree) {number : NodeId}
    {row : Split} : tree.row? number = some row ↔ row ∈ splits ∧ row.number = number := by
  obtain ⟨hdistinct, -, -, hsplits, -⟩ := ofRows_eq_ok_iff.mp h
  rw [row?, bisect_eq_find? (pairwise_splits h), hsplits,
    find?_number_eq_some_iff (nodup_sortRows hdistinct), mem_sortRows]

end ItemScoring.ItemTree
