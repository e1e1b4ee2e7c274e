import ItemScoring.Proofs.Sequence
import ItemScoring.Proofs.Tree.Occurrences

/-!
# The first defect of an unfolding

An occurrence is sound if its node is not among its own ancestors and stands for something.
Whether all occurrences below a node are sound, and which one has the first defect otherwise, can
be read off its children one after the other (`soundBelow_split`, `firstDefect_low`,
`firstDefect_high`).  `SplitTable.unfold` takes the same course, so it succeeds exactly if
everything is sound (`exists_unfold_iff`) and reports the first defect otherwise
(`unfold_eq_error_iff`).
-/

namespace ItemScoring.SplitTable

/-- The node is not among its ancestors, and stands for a leaf or a split. -/
structure Sound (table : SplitTable) (ancestors : List NodeId) (node : NodeId) : Prop where
  fresh : node ∉ ancestors
  stands : table.Stands node

/-- What is wrong with a node below its ancestors. -/
inductive Defect (table : SplitTable) (ancestors : List NodeId) (node : NodeId) : TreeError → Prop
  | cycle (repeated : node ∈ ancestors) : Defect table ancestors node (.cycleDetected node)
  | fault {e : TreeError} (fresh : node ∉ ancestors) (faulty : table.Faulty node e) :
      Defect table ancestors node e

/-- Every occurrence is sound, from a node with the ancestors `path` on. -/
def SoundBelow (table : SplitTable) (path : List NodeId) (node : NodeId) : Prop :=
  ∀ turns last, table.Leads node turns last → table.Sound (Turn.above path turns) last

/-- The error names the defect of an occurrence before which all are sound. -/
def FirstDefect (table : SplitTable) (path : List NodeId) (node : NodeId) (e : TreeError) : Prop :=
  ∃ turns last, table.Leads node turns last ∧ table.Defect (Turn.above path turns) last e ∧
    ∀ others other, table.Leads node others other → Turn.Earlier others turns →
      table.Sound (Turn.above path others) other

variable {table : SplitTable} {path : List NodeId} {node low high : NodeId} {row : Split}
  {e : TreeError}

/-! ### Single occurrences -/

theorem Defect.not_sound (h : table.Defect path node e) : ¬ table.Sound path node := by
  rintro ⟨hfresh, hstands⟩
  cases h with
  | cycle repeated => exact hfresh repeated
  | fault fresh faulty =>
      obtain ⟨meaning, hresolved⟩ := stands_iff.mp hstands
      rw [resolve_eq_error_iff.mpr faulty] at hresolved
      contradiction

theorem Defect.unique {e' : TreeError} (h : table.Defect path node e)
    (h' : table.Defect path node e') : e = e' := by
  cases h with
  | cycle repeated =>
      cases h' with
      | cycle => rfl
      | fault fresh => exact absurd repeated fresh
  | fault fresh faulty =>
      cases h' with
      | cycle repeated => exact absurd repeated fresh
      | fault fresh' faulty' =>
          rw [← resolve_eq_error_iff] at faulty faulty'
          exact Except.error.inj (faulty.symm.trans faulty')

/-- There is at most one first defect. -/
theorem FirstDefect.unique {e' : TreeError} (h : table.FirstDefect path node e)
    (h' : table.FirstDefect path node e') : e = e' := by
  obtain ⟨turns, last, hleads, hdefect, hearlier⟩ := h
  obtain ⟨turns', last', hleads', hdefect', hearlier'⟩ := h'
  rcases hleads.earlier_or_eq hleads' with hlt | hgt | ⟨rfl, rfl⟩
  · exact absurd (hearlier' _ _ hleads hlt) hdefect.not_sound
  · exact absurd (hearlier _ _ hleads' hgt) hdefect'.not_sound
  · exact hdefect.unique hdefect'

theorem FirstDefect.not_soundBelow (h : table.FirstDefect path node e) :
    ¬ table.SoundBelow path node := by
  obtain ⟨turns, last, hleads, hdefect, -⟩ := h
  exact fun hsound => hdefect.not_sound (hsound turns last hleads)

/-! ### From a node to its children -/

theorem above_turn (hrow : table.row? node = some row) (side : Comparison) (turns : List Turn) :
    Turn.above path (row.turn side :: turns) = Turn.above (node :: path) turns := by
  rw [Turn.above_cons, Split.turn, number_of_row? hrow]

theorem soundBelow_leaf (hfresh : node ∉ path) {coefficient : Float}
    (hleaf : table.IsLeaf node coefficient) : table.SoundBelow path node := by
  intro turns last hleads
  obtain ⟨rfl, rfl⟩ := (leads_of_row?_eq_none hleaf.row?_eq_none).mp hleads
  exact ⟨hfresh, .leaf hleaf⟩

section Split

variable (hfresh : node ∉ path) (hrow : table.row? node = some row)
  (hlow : row.left = some low) (hhigh : row.right = some high)

include hfresh hrow hlow hhigh

theorem sound_split : table.Sound path node :=
  ⟨hfresh, .split hrow (by simp [hlow]) (by simp [hhigh])⟩

/-- Below a split its children occur, with one more ancestor. -/
theorem soundBelow_split (hsoundlow : table.SoundBelow (node :: path) low)
    (hsoundhigh : table.SoundBelow (node :: path) high) : table.SoundBelow path node := by
  intro turns last hleads
  rcases (leads_of_children hrow hlow hhigh).mp hleads with
    ⟨rfl, rfl⟩ | ⟨rest, rfl, hrest⟩ | ⟨rest, rfl, hrest⟩
  · exact sound_split hfresh hrow hlow hhigh
  · rw [above_turn hrow]
    exact hsoundlow _ _ hrest
  · rw [above_turn hrow]
    exact hsoundhigh _ _ hrest

/-- Only the split itself comes before what is below its left child. -/
theorem firstDefect_low (h : table.FirstDefect (node :: path) low e) :
    table.FirstDefect path node e := by
  obtain ⟨turns, last, hleads, hdefect, hearlier⟩ := h
  refine ⟨row.turn .atMost :: turns, last, .down .atMost hrow hlow hleads, ?_, ?_⟩
  · rwa [above_turn hrow]
  · intro others other hother hlt
    rcases (leads_of_children hrow hlow hhigh).mp hother with
      ⟨rfl, rfl⟩ | ⟨rest, rfl, hrest⟩ | ⟨rest, rfl, hrest⟩
    · exact sound_split hfresh hrow hlow hhigh
    · rw [above_turn hrow]
      exact hearlier _ _ hrest (Turn.earlier_cons_iff.mp hlt)
    · exact absurd hlt Turn.not_above_earlier

/-- All that is below the left child comes before what is below the right one. -/
theorem firstDefect_high (hsound : table.SoundBelow (node :: path) low)
    (h : table.FirstDefect (node :: path) high e) : table.FirstDefect path node e := by
  obtain ⟨turns, last, hleads, hdefect, hearlier⟩ := h
  refine ⟨row.turn .above :: turns, last, .down .above hrow hhigh hleads, ?_, ?_⟩
  · rwa [above_turn hrow]
  · intro others other hother hlt
    rcases (leads_of_children hrow hlow hhigh).mp hother with
      ⟨rfl, rfl⟩ | ⟨rest, rfl, hrest⟩ | ⟨rest, rfl, hrest⟩
    · exact sound_split hfresh hrow hlow hhigh
    · rw [above_turn hrow]
      exact hsound _ _ hrest
    · rw [above_turn hrow]
      exact hearlier _ _ hrest (Turn.earlier_cons_iff.mp hlt)

end Split

/-- Nothing comes before the first occurrence. -/
theorem firstDefect_here (h : table.Defect path node e) : table.FirstDefect path node e := by
  refine ⟨[], node, .here, h, fun others other _ hearlier => ?_⟩
  cases hearlier

/-! ### The walk -/

theorem unfold_of_defect (h : table.Defect path node e) : table.unfold path node = .error e := by
  cases h with
  | cycle repeated => rw [unfold, dif_pos repeated]
  | fault fresh faulty =>
      rw [unfold, dif_neg fresh]
      have hresolved := resolve_eq_error_iff.mpr faulty
      split <;> simp_all

/-- Unfolding comes out right if everything is sound, and reports the first defect otherwise. -/
theorem unfold_outcome (table : SplitTable) (path : List NodeId) (node : NodeId) :
    match table.unfold path node with
    | .ok _ => table.SoundBelow path node
    | .error e => table.FirstDefect path node e := by
  fun_induction table.unfold path node with
  | case1 path node repeated => exact firstDefect_here (.cycle repeated)
  | case2 path node fresh defect resolved =>
      exact firstDefect_here (.fault fresh (resolve_eq_error_iff.mp resolved))
  | case3 path node fresh coefficient resolved =>
      exact soundBelow_leaf fresh (resolve_eq_leaf_iff.mp resolved)
  | case4 path node fresh column threshold left right resolved ihleft ihright =>
      obtain ⟨row, hrow, hleft, hright, -, -⟩ := resolve_eq_split_iff.mp resolved
      -- The left branch comes first; the right one counts only if the left one is sound.
      cases hlow : table.unfold (node :: path) left with
      | error e =>
          rw [hlow] at ihleft
          exact firstDefect_low fresh hrow hleft hright ihleft
      | ok low =>
          rw [hlow] at ihleft
          cases hhigh : table.unfold (node :: path) right with
          | error e =>
              rw [hhigh] at ihright
              exact firstDefect_high fresh hrow hleft hright ihleft ihright
          | ok high =>
              rw [hhigh] at ihright
              exact soundBelow_split fresh hrow hleft hright ihleft ihright

theorem exists_unfold_iff : (∃ tree, table.unfold path node = .ok tree) ↔
    table.SoundBelow path node := by
  have houtcome := unfold_outcome table path node
  cases hunfold : table.unfold path node with
  | ok tree =>
      rw [hunfold] at houtcome
      exact ⟨fun _ => houtcome, fun _ => ⟨tree, rfl⟩⟩
  | error e =>
      rw [hunfold] at houtcome
      simp [houtcome.not_soundBelow]

theorem unfold_eq_error_iff : table.unfold path node = .error e ↔
    table.FirstDefect path node e := by
  have houtcome := unfold_outcome table path node
  cases hunfold : table.unfold path node with
  | ok tree =>
      rw [hunfold] at houtcome
      simp only [reduceCtorEq, false_iff]
      exact fun hfirst => hfirst.not_soundBelow houtcome
  | error found =>
      rw [hunfold] at houtcome
      rw [Except.error.injEq]
      constructor
      · intro heq
        exact heq ▸ houtcome
      · exact houtcome.unique

end ItemScoring.SplitTable
