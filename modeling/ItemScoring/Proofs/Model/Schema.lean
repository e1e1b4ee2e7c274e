import ItemScoring.Model.Schema
import ItemScoring.Proofs.Sequence
import ItemScoring.Proofs.Toml.Growing

/-!
# Tables that read back

The entries that a document of tables describes give the same tables again
(`ofEntries_storedEntries`).  Every field of the result is filled by one entry at most:
by the entry that an empty table leaves among the plain values, or by the array that its
rows make up, but never by both.
-/

namespace ItemScoring

open Toml (Value Entries tableEntry)

/-! ### Fields -/

namespace Schema

variable {α : Type} {n bound : Nat}

theorem natural_integer (expected : Expectation) (h : n < bound) :
    natural expected bound (.integer n) = .ok n := by
  have hint : (n : Int) < bound := by exact_mod_cast h
  simp [natural, hint]

theorem item_integer (h : n < UInt64.size) : item (.integer n) = .ok n :=
  natural_integer .count h

theorem node_integer (id : NodeId) : node (.integer id.toNat) = .ok id := by
  have hread := natural_integer .nodeNumber id.toNat_lt
  simp [node, hread]

theorem list_map {f : α → Value} {read : Value → Except SchemaError α} {rows : List α}
    (h : ∀ row ∈ rows, read (f row) = .ok row) : list read (.array (rows.map f)) = .ok rows := by
  rw [list, mapM_eq_ok, List.forall₂_map_left_iff, List.forall₂_same]
  exact h

/-! ### Rows -/

theorem leafRow_read {row : LeafRow} (h : row.item < UInt64.size) :
    leafRow.read (.table (ModelTables.leafFields row)) = .ok row := by
  simp [RowShape.read, ModelTables.leafFields, RowShape.fill, leafRow, List.lookup_cons, Draft.set,
    item_integer h, node_integer, number, required]

theorem offsetRow_read {row : OffsetRow} (h : row.item < UInt64.size) :
    offsetRow.read (.table (ModelTables.offsetFields row)) = .ok row := by
  simp [RowShape.read, ModelTables.offsetFields, RowShape.fill, offsetRow, List.lookup_cons,
    Draft.set, item_integer h, number, required]

/-- The cases are the children that a split has; those it lacks are not written. -/
theorem splitRow_read {row : Split} (h : row.item < UInt64.size) :
    splitRow.read (.table (ModelTables.splitFields row)) = .ok row := by
  obtain ⟨item, id, left, right, column, threshold⟩ := row
  cases left <;> cases right <;>
    simp [RowShape.read, ModelTables.splitFields, ModelTables.childField, RowShape.fill, splitRow,
      List.lookup_cons, Draft.set, item_integer h, node_integer, text, number, required]

/-! ### Tables -/

variable {draft next : TablesDraft} {name : String}

/-- Labels that are absent leave the draft without labels. -/
theorem foldlM_labelEntry (labels? : Option (List String)) (h : draft.labels = none) :
    (ModelTables.labelEntry labels?).foldlM TablesDraft.fill draft =
      .ok { draft with labels := labels? } := by
  cases labels? with
  | none =>
      cases draft
      cases h
      rfl
  | some labels =>
      have hread : list text (.array (labels.map .text)) = .ok labels := list_map fun _ _ => rfl
      simp [ModelTables.labelEntry, TablesDraft.fill, hread]

theorem foldlM_emptyEntry (rows : List α) (h : draft.fill (name, .array []) = .ok draft) :
    (ModelTables.emptyEntry name rows).foldlM TablesDraft.fill draft = .ok draft := by
  cases rows with
  | nil => simp [ModelTables.emptyEntry, h]
  | cons row rows => rfl

theorem foldlM_tableEntry {f : α → Entries} {rows : List α}
    (h : draft.fill (name, .array (rows.map fun row => .table (f row))) = .ok next)
    (hempty : rows = [] → next = draft) :
    (tableEntry name (rows.map f)).foldlM TablesDraft.fill draft = .ok next := by
  cases rows with
  | nil =>
      obtain rfl := hempty rfl
      rfl
  | cons row rows =>
      have hvalue : (tableEntry name ((row :: rows).map f)) =
          [(name, .array ((row :: rows).map fun row => .table (f row)))] := by
        simp [tableEntry]
      rw [hvalue, List.foldlM_cons, h]
      rfl

end Schema

namespace ModelTables

variable (tables : ModelTables)

/-- The names of the tables and their rows, in the order in which they are written. -/
def rowTables : List (String × List Entries) := [
  ("dif_leaves", tables.leaves.map leafFields),
  ("no_dif_offsets", tables.offsets.map offsetFields),
  ("splits", tables.splits.map splitFields)]

/-- The entries that the document of the tables describes. -/
def storedEntries : Entries :=
  tables.plainEntries ++ tables.rowTables.flatMap fun table => tableEntry table.1 table.2

theorem keys_storedEntries_nodup : (tables.storedEntries.map Prod.fst).Nodup := by
  obtain ⟨slopes, labels, leaves, offsets, splits⟩ := tables
  cases labels <;> cases leaves <;> cases offsets <;> cases splits <;>
    simp [storedEntries, plainEntries, rowTables, labelEntry, emptyEntry, tableEntry]

theorem keys_splitFields_nodup (row : Split) : ((splitFields row).map Prod.fst).Nodup := by
  obtain ⟨item, id, left, right, column, threshold⟩ := row
  cases left <;> cases right <;> simp [splitFields, childField]

theorem keys_fields_nodup :
    ∀ table ∈ tables.rowTables, ∀ row ∈ table.2, (row.map Prod.fst).Nodup := by
  simp only [rowTables, List.forall_mem_cons, List.forall_mem_map]
  refine ⟨fun row _ => ?_, fun row _ => ?_, fun row _ => keys_splitFields_nodup row, by simp⟩
  · simp [leafFields]
  · simp [offsetFields]

theorem document_eq : tables.document = {
    preamble := Toml.keyed tables.plainEntries
    sections := tables.rowTables.flatMap fun table => table.2.map (Toml.rowOf table.1) } := by
  have hsection : rowSection = Toml.rowOf := rfl
  simp [document, rowTables, hsection, Toml.keyed]

theorem document_entries? : tables.document.entries? = some tables.storedEntries := by
  rw [document_eq]
  exact Toml.entries?_grouped (keys_storedEntries_nodup tables) (keys_fields_nodup tables)

/-- Every item number of the tables is below a bound. -/
def ItemsBelow (bound : Nat) : Prop :=
  (∀ row ∈ tables.leaves, row.item < bound) ∧ (∀ row ∈ tables.offsets, row.item < bound) ∧
    ∀ row ∈ tables.splits, row.item < bound

theorem foldlM_plainEntries : tables.plainEntries.foldlM Schema.TablesDraft.fill {} =
    .ok { slopes := some tables.slopes, labels := tables.labels } := by
  have hread : Schema.list Schema.number (.array (tables.slopes.map .float)) = .ok tables.slopes :=
    Schema.list_map fun _ _ => rfl
  have hslopes : [("slopes", Value.array (tables.slopes.map .float))].foldlM
      Schema.TablesDraft.fill {} = .ok { slopes := some tables.slopes } := by
    simp [Schema.TablesDraft.fill, hread]
  simp only [plainEntries, List.foldlM_append]
  rw [hslopes, ok_bind, Schema.foldlM_labelEntry tables.labels rfl, ok_bind,
    Schema.foldlM_emptyEntry tables.leaves rfl, ok_bind,
    Schema.foldlM_emptyEntry tables.offsets rfl, ok_bind,
    Schema.foldlM_emptyEntry tables.splits rfl]

theorem ofEntries_storedEntries (h : tables.ItemsBelow UInt64.size) :
    ofEntries tables.storedEntries = .ok tables := by
  obtain ⟨hleaves, hoffsets, hsplits⟩ := h
  have hplain := tables.foldlM_plainEntries
  obtain ⟨slopes, labels, leaves, offsets, splits⟩ := tables
  have hleavesRead := Schema.list_map fun row hrow => Schema.leafRow_read (hleaves row hrow)
  have hoffsetsRead := Schema.list_map fun row hrow => Schema.offsetRow_read (hoffsets row hrow)
  have hsplitsRead := Schema.list_map fun row hrow => Schema.splitRow_read (hsplits row hrow)
  -- Each list of rows fills its place in the draft, or none if it is empty, as the place then is
  -- empty already.
  have hleavesFill : (tableEntry "dif_leaves" (leaves.map leafFields)).foldlM
      Schema.TablesDraft.fill { slopes := some slopes, labels } =
        .ok { slopes := some slopes, labels, leaves } := by
    apply Schema.foldlM_tableEntry
    · simp [Schema.TablesDraft.fill, hleavesRead]
    · intro heq
      subst heq
      rfl
  have hoffsetsFill : (tableEntry "no_dif_offsets" (offsets.map offsetFields)).foldlM
      Schema.TablesDraft.fill { slopes := some slopes, labels, leaves } =
        .ok { slopes := some slopes, labels, leaves, offsets } := by
    apply Schema.foldlM_tableEntry
    · simp [Schema.TablesDraft.fill, hoffsetsRead]
    · intro heq
      subst heq
      rfl
  have hsplitsFill : (tableEntry "splits" (splits.map splitFields)).foldlM
      Schema.TablesDraft.fill { slopes := some slopes, labels, leaves, offsets } =
        .ok { slopes := some slopes, labels, leaves, offsets, splits } := by
    apply Schema.foldlM_tableEntry
    · simp [Schema.TablesDraft.fill, hsplitsRead]
    · intro heq
      subst heq
      rfl
  simp [ofEntries, storedEntries, rowTables, hplain, hleavesFill, hoffsetsFill, hsplitsFill,
    Schema.required]

end ModelTables

end ItemScoring
