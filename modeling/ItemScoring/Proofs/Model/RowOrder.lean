import Mathlib.Data.List.Find
import ItemScoring.Prediction.Basic
import ItemScoring.Proofs.Model.Descent
import ItemScoring.Proofs.Tree.RowOrder

/-!
# The order of table rows

Tables are given as lists, and the rows of different items may stand among each other in any
order.  `ofTables_eq_of_sameRows` says that the order is of no consequence to a model: tables with
the same rows are accepted or refused together, and their items are the same.

Rows come into a model in three ways, and none of them depends on their order as long as no leaf
and no offset is given twice.  An item has the first offset row of its number, of which there is
only one (`offsetOf?_eq`); coefficients come into a map, one per leaf
(`getElem?_coefficientsOf_eq`); and split rows are sorted (`ItemTree.ofRows_eq_of_perm`).  Which of
several defects is reported may well depend on the order of rows, as the checks stop at the first
one.
-/

namespace ItemScoring

namespace ModelTables

/-- The tables differ in nothing but the order of their leaf rows, offset rows and split rows. -/
structure SameRows (tables₁ tables₂ : ModelTables) : Prop where
  slopes_eq : tables₁.slopes = tables₂.slopes
  labels_eq : tables₁.labels = tables₂.labels
  leaves_perm : tables₁.leaves.Perm tables₂.leaves
  offsets_perm : tables₁.offsets.Perm tables₂.offsets
  splits_perm : tables₁.splits.Perm tables₂.splits

variable {tables₁ tables₂ : ModelTables} {item : Nat}

namespace SameRows

theorem symm (h : SameRows tables₁ tables₂) : SameRows tables₂ tables₁ where
  slopes_eq := h.slopes_eq.symm
  labels_eq := h.labels_eq.symm
  leaves_perm := h.leaves_perm.symm
  offsets_perm := h.offsets_perm.symm
  splits_perm := h.splits_perm.symm

theorem itemCount_eq (h : SameRows tables₁ tables₂) : tables₁.itemCount = tables₂.itemCount :=
  congrArg List.length h.slopes_eq

/-- The checks ask for nothing that depends on the order of rows. -/
theorem rowsInOrder (h : SameRows tables₁ tables₂) (hrows : RowsInOrder tables₁) :
    RowsInOrder tables₂ where
  slopes := h.slopes_eq ▸ hrows.slopes
  labels := by
    rw [← h.labels_eq, ← h.itemCount_eq]
    exact hrows.labels
  leaves := by
    intro row hrow
    rw [← h.itemCount_eq]
    exact hrows.leaves row (h.leaves_perm.mem_iff.mpr hrow)
  leavesOnce := (h.leaves_perm.map _).nodup_iff.mp hrows.leavesOnce
  offsets := by
    intro row hrow
    rw [← h.itemCount_eq]
    exact hrows.offsets row (h.offsets_perm.mem_iff.mpr hrow)
  offsetsOnce := (h.offsets_perm.map _).nodup_iff.mp hrows.offsetsOnce
  splits := by
    intro row hrow
    rw [← h.itemCount_eq]
    exact hrows.splits row (h.splits_perm.mem_iff.mpr hrow)

/-! ### The rows of an item -/

theorem leavesOf_eq_nil_iff (h : SameRows tables₁ tables₂) :
    tables₁.leavesOf item = [] ↔ tables₂.leavesOf item = [] := by
  have hperm : (tables₁.leavesOf item).Perm (tables₂.leavesOf item) := h.leaves_perm.filter _
  exact ⟨fun hnil => (hnil ▸ hperm).nil_eq.symm, fun hnil => (hnil ▸ hperm).eq_nil⟩

/-- An item with one offset row has it in any order of rows. -/
theorem offsetOf?_eq (h : SameRows tables₁ tables₂) (hrows : RowsInOrder tables₁) :
    tables₁.offsetOf? item = tables₂.offsetOf? item := by
  refine List.find?_eq_find?_of_perm h.offsets_perm ?_
  rintro row ⟨hrow, hitem⟩ other ⟨hother, hitem'⟩
  exact List.inj_on_of_nodup_map hrows.offsetsOnce hrow hother
    ((eq_of_beq hitem).trans (eq_of_beq hitem').symm)

/-- An item with one row per leaf has the same coefficients in any order of rows. -/
theorem getElem?_coefficientsOf_eq (h : SameRows tables₁ tables₂) (hrows : RowsInOrder tables₁)
    (node : NodeId) :
    (tables₁.coefficientsOf item)[node]? = (tables₂.coefficientsOf item)[node]? := by
  refine Option.ext fun value => ?_
  rw [hrows.coefficientsOf_eq_some_iff, (h.rowsInOrder hrows).coefficientsOf_eq_some_iff]
  simp only [h.leaves_perm.mem_iff]

theorem interceptOf_eq_ok (h : SameRows tables₁ tables₂) (hrows : RowsInOrder tables₁)
    {intercept : Intercept} (hintercept : tables₁.interceptOf item = .ok intercept) :
    tables₂.interceptOf item = .ok intercept := by
  cases intercept with
  | dif tree =>
      obtain ⟨hleaves, hoffset, htree⟩ := interceptOf_dif_iff.mp hintercept
      have hsplits : (tables₁.splitsOf item).Perm (tables₂.splitsOf item) := h.splits_perm.filter _
      refine interceptOf_dif_iff.mpr ⟨mt h.leavesOf_eq_nil_iff.mpr hleaves, ?_, ?_⟩
      · rw [← h.offsetOf?_eq hrows, hoffset]
      · exact (ItemTree.ofRows_eq_ok_congr (h.getElem?_coefficientsOf_eq hrows) hsplits).mp htree
  | flat offset =>
      obtain ⟨hnil, row, hrow, hoffset⟩ := interceptOf_flat_iff.mp hintercept
      refine interceptOf_flat_iff.mpr ⟨h.leavesOf_eq_nil_iff.mp hnil, row, ?_, hoffset⟩
      rw [← h.offsetOf?_eq hrows, hrow]

theorem isItem (h : SameRows tables₁ tables₂) (hrows : RowsInOrder tables₁) {number : Nat}
    {slope : Float} {entry : Item} (hitem : IsItem tables₁ number slope entry) :
    IsItem tables₂ number slope entry where
  number_eq := hitem.number_eq
  label_eq := by rw [hitem.label_eq, labelOf, labelOf, h.labels_eq]
  slope_eq := hitem.slope_eq
  intercept_eq := h.interceptOf_eq_ok hrows hitem.intercept_eq

end SameRows

end ModelTables

/-! ### Models -/

namespace Model

open ModelTables

variable {tables₁ tables₂ : ModelTables}

/-- Tables with the same rows have the same items. -/
theorem ofTables_eq_of_sameRows (h : SameRows tables₁ tables₂) {model : Model}
    (hmodel : ofTables tables₁ = .ok model) :
    ofTables tables₂ = .ok { tables := tables₂, items := model.items } := by
  obtain ⟨hrows, -, hitems⟩ := ofTables_eq_ok_iff.mp hmodel
  obtain ⟨hlength, hitems⟩ := itemsFrom_eq_ok_iff.mp hitems
  refine ofTables_eq_ok_iff.mpr ⟨h.rowsInOrder hrows, rfl, itemsFrom_eq_ok_iff.mpr ?_⟩
  rw [← h.slopes_eq]
  refine ⟨hlength, fun i item slope hitem hslope => ?_⟩
  exact h.isItem hrows (hitems i item slope hitem hslope)

/-- The models have the same items, and with them the same equations, columns and predictions. -/
structure SameItems (model₁ model₂ : Model) : Prop where
  items_eq : model₁.items = model₂.items
  equations_eq : ∀ totalScore, model₁.equations totalScore = model₂.equations totalScore
  splitColumns_eq : model₁.splitColumns = model₂.splitColumns
  predict_eq : ∀ data options, model₁.predict data options = model₂.predict data options

/-- Nothing but the items of a model is used once it is accepted. -/
theorem sameItems_of_items_eq {model₁ model₂ : Model} (h : model₁.items = model₂.items) :
    SameItems model₁ model₂ := by
  obtain ⟨tables₁, items⟩ := model₁
  obtain ⟨tables₂, others⟩ := model₂
  obtain rfl : items = others := h
  exact ⟨rfl, fun _ => rfl, rfl, fun _ _ => rfl⟩

/-- The order of rows does not matter.  Tables with the same rows are accepted or refused together
and make the same items; and the same split rows make the same tree, or are refused for the
same defect. -/
theorem ofTables_row_order (h : SameRows tables₁ tables₂) {splits₁ splits₂ : List Split}
    (hsplits : splits₁.Perm splits₂) :
    ((∃ model, ofTables tables₁ = .ok model) ↔ ∃ model, ofTables tables₂ = .ok model) ∧
    (∀ model₁ model₂, ofTables tables₁ = .ok model₁ → ofTables tables₂ = .ok model₂ →
      SameItems model₁ model₂) ∧
    ∀ coefficients,
      ItemTree.ofRows splits₁ coefficients = ItemTree.ofRows splits₂ coefficients := by
  refine ⟨⟨?_, ?_⟩, ?_, ItemTree.ofRows_eq_of_perm hsplits⟩
  · intro ⟨model, hmodel⟩
    exact ⟨_, ofTables_eq_of_sameRows h hmodel⟩
  · intro ⟨model, hmodel⟩
    exact ⟨_, ofTables_eq_of_sameRows h.symm hmodel⟩
  · intro model₁ model₂ hmodel₁ hmodel₂
    have hsame := (ofTables_eq_of_sameRows h hmodel₁).symm.trans hmodel₂
    obtain rfl := Except.ok.inj hsame
    exact sameItems_of_items_eq rfl

/-- Tables of two items with trees and of one without, item by item. -/
def groupedTables : ModelTables where
  slopes := [1, 2, 3]
  labels := none
  leaves := [⟨1, 2, 0.5⟩, ⟨1, 3, -1⟩, ⟨2, 2, 0⟩, ⟨2, 3, 2⟩]
  offsets := [⟨3, 0.25⟩]
  splits := [⟨1, 1, some 2, some 3, "age", 40⟩, ⟨2, 1, some 3, some 2, "years", 8⟩]

/-- The same rows, with the rows of one item among those of the other. -/
def mixedTables : ModelTables where
  slopes := [1, 2, 3]
  labels := none
  leaves := [⟨2, 3, 2⟩, ⟨1, 3, -1⟩, ⟨1, 2, 0.5⟩, ⟨2, 2, 0⟩]
  offsets := [⟨3, 0.25⟩]
  splits := [⟨2, 1, some 3, some 2, "years", 8⟩, ⟨1, 1, some 2, some 3, "age", 40⟩]

/-- The model with these rows. -/
def groupedModel : Model where
  tables := groupedTables
  items := [
    ⟨1, "item1", 1, .dif ⟨groupedTables.splitsOf 1,
      [(3, .leaf (-1)), (2, .leaf 0.5), (1, .internal 2 3)],
      .branch 1 "age" 40 (.leaf 2 0.5) (.leaf 3 (-1))⟩⟩,
    ⟨2, "item2", 2, .dif ⟨groupedTables.splitsOf 2,
      [(2, .leaf 0), (3, .leaf 2), (1, .internal 3 2)],
      .branch 1 "years" 8 (.leaf 3 2) (.leaf 2 0)⟩⟩,
    ⟨3, "item3", 3, .flat 0.25⟩]

/-- Both tables make the same items, and rows that share a number are refused in either order. -/
theorem ofTables_row_order_mixedTables : SameRows groupedTables mixedTables ∧
    ofTables groupedTables = .ok groupedModel ∧
    (∃ model, ofTables mixedTables = .ok model ∧ SameItems groupedModel model) ∧
    ItemTree.ofRows [⟨1, 1, some 2, none, "age", 40⟩, ⟨1, 1, some 2, some 3, "age", 60⟩] ∅ =
      ItemTree.ofRows [⟨1, 1, some 2, some 3, "age", 60⟩, ⟨1, 1, some 2, none, "age", 40⟩] ∅ := by
  have hrows : SameRows groupedTables mixedTables :=
    ⟨rfl, rfl, by decide +kernel, .refl _, by decide +kernel⟩
  have hmodel : ofTables groupedTables = .ok groupedModel := by decide +kernel
  obtain ⟨haccepts, hitems, hrefused⟩ := ofTables_row_order hrows (List.Perm.swap
    (⟨1, 1, some 2, some 3, "age", 60⟩ : Split) ⟨1, 1, some 2, none, "age", 40⟩ [])
  obtain ⟨model, hmixed⟩ := haccepts.mp ⟨_, hmodel⟩
  exact ⟨hrows, hmodel, ⟨model, hmixed, hitems _ _ hmodel hmixed⟩, hrefused ∅⟩

end Model

end ItemScoring
