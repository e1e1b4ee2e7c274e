import ItemScoring.DataFile.Output
import ItemScoring.Proofs.Sequence

/-!
# Attaching results to a frame

A column of the height of the frame can always be put in place, under whatever name.  So results
with one entry per row of the frame are attached unless one of their names is taken, and the first
such name is the one that is reported (`attachAll_of_find?`).
-/

namespace ItemScoring

/-! ### Columns that fit -/

namespace Frame

variable {frame next : Frame}

theorem stretch?_of_height {column : FrameColumn} (h : column.height = frame.height) :
    column.stretch? frame.height = some column := by
  obtain ⟨name, kind, cells⟩ := column
  exact if_pos h

/-- A column of the height of the frame can be put in place. -/
theorem exists_withColumn {column : FrameColumn} (h : column.height = frame.height) :
    ∃ next, frame.withColumn column = .ok next ∧ next.height = frame.height := by
  unfold withColumn
  split
  next hnone =>
    rw [stretch?_of_height h] at hnone
    contradiction
  next => exact ⟨_, rfl, rfl⟩

theorem exists_withColumns {columns : List FrameColumn}
    (h : ∀ column ∈ columns, column.height = frame.height) :
    ∃ next, columns.foldlM withColumn frame = .ok next ∧ next.height = frame.height := by
  induction columns generalizing frame with
  | nil => exact ⟨frame, rfl, rfl⟩
  | cons first rest ih =>
      obtain ⟨hfirst, hrest⟩ := List.forall_mem_cons.mp h
      obtain ⟨grown, hgrown, hheight⟩ := exists_withColumn hfirst
      obtain ⟨next, hnext, hlast⟩ := ih fun column hcolumn => (hrest column hcolumn).trans
        hheight.symm
      exact ⟨next, by rw [List.foldlM_cons, hgrown]; exact hnext, hlast.trans hheight⟩

end Frame

/-! ### Attaching -/

/-- The results of an item have one entry per row of the frame. -/
def ItemPrediction.FitsHeight (height : Nat) (prediction : ItemPrediction) : Prop :=
  prediction.linear.size = height ∧ prediction.probability.size = height ∧
    prediction.positive.size = height

section Attaching

variable {frame : Frame} {prediction : ItemPrediction}
  {items : List ItemPrediction}

theorem ItemPrediction.height_frameColumns {height : Nat} (h : prediction.FitsHeight height) :
    ∀ column ∈ prediction.frameColumns, column.height = height := by
  obtain ⟨hlinear, hprobability, hpositive⟩ := h
  intro column hcolumn
  simp only [frameColumns, List.mem_cons, List.not_mem_nil, or_false] at hcolumn
  rcases hcolumn with rfl | rfl | rfl
  · exact (List.length_map _).trans hlinear
  · exact (List.length_map _).trans hprobability
  · exact (List.length_map _).trans hpositive

/-- Results that fit are attached unless a name is taken, the first one of which is reported. -/
theorem attach_of_find? (taken : List String)
    (hfits : prediction.FitsHeight frame.height) :
    match prediction.columns.names.find? (taken.contains ·) with
    | some name => prediction.attach taken frame = .error (.outputColumnExists name)
    | none => ∃ next, prediction.attach taken frame = .ok next ∧ next.height = frame.height := by
  unfold ItemPrediction.attach
  cases prediction.columns.names.find? (taken.contains ·) with
  | some name => rfl
  | none =>
      obtain ⟨next, hnext, hheight⟩ := Frame.exists_withColumns
        (ItemPrediction.height_frameColumns hfits)
      exact ⟨next, by rw [hnext]; rfl, hheight⟩

theorem attachAll_of_find? (taken : List String)
    (hfits : ∀ prediction ∈ items, prediction.FitsHeight frame.height) :
    match (items.flatMap fun prediction => prediction.columns.names).find? (taken.contains ·) with
    | some name => items.foldlM (ItemPrediction.attach taken) frame =
        .error (.outputColumnExists name)
    | none => ∃ next, items.foldlM (ItemPrediction.attach taken) frame = .ok next := by
  -- The frame grows from item to item, and the names taken stay those of the first frame.
  induction items generalizing frame with
  | nil => exact ⟨frame, rfl⟩
  | cons first rest ih =>
      obtain ⟨hfirst, hrest⟩ := List.forall_mem_cons.mp hfits
      have hstep := attach_of_find? taken hfirst
      rw [List.flatMap_cons, List.find?_append, List.foldlM_cons]
      cases hname : first.columns.names.find? (taken.contains ·) with
      | some name =>
          simp only [hname] at hstep
          simp only [Option.some_or, hstep, error_bind]
      | none =>
          simp only [hname] at hstep
          obtain ⟨grown, hgrown, hheight⟩ := hstep
          rw [hgrown, Option.none_or, ok_bind]
          exact ih fun prediction hmem => hheight ▸ hrest prediction hmem

end Attaching

end ItemScoring
