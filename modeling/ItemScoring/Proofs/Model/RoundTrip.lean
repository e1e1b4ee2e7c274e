import ItemScoring.Model.File
import ItemScoring.Proofs.Model.Acceptance
import ItemScoring.Proofs.Model.Schema
import ItemScoring.Proofs.Toml.Documents

/-!
# Models that read back

The text of an accepted model is read back as the same model, in both styles
(`Model.parse_write`).  Acceptance is what makes this work: it keeps every number of the
tables finite and no item number above the number of items, so that all values are of
the kinds that the text can hold (`isPlainDocument_document`).
-/

namespace ItemScoring

open Toml (Value Entries Storable Simple IsBareKey IsPlainEntry IsPlainSection)

namespace ModelTables

variable {tables : ModelTables}

/-! ### What is written -/

theorem isInt64_of_lt {n : Nat} (h : n < 2 ^ 63) : Decimal.isInt64 n = true := by
  have hint : (n : Int) < (2 ^ 63 : Nat) := by exact_mod_cast h
  have hpow : Nat.pow 2 63 = 2 ^ 63 := rfl
  simp only [Decimal.isInt64, hpow, Bool.and_eq_true, decide_eq_true_eq]
  omega

theorem simple_node (id : NodeId) : Simple (.integer id.toNat) := by
  have hlt : id.toNat < 2 ^ 32 := id.toNat_lt
  exact .integer (isInt64_of_lt (by omega))

/-- Fields with plain names and storable values. -/
def AreStorable (fields : Entries) : Prop :=
  ∀ field ∈ fields, IsBareKey field.1 ∧ Storable field.2

theorem AreStorable.keyed {fields : Entries} (h : AreStorable fields) :
    ∀ entry ∈ Toml.keyed fields, IsPlainEntry entry := by
  intro entry hentry
  obtain ⟨field, hfield, rfl⟩ := List.mem_map.mp hentry
  obtain ⟨hname, hvalue⟩ := h field hfield
  exact ⟨rfl, hname, hvalue⟩

theorem AreStorable.append {fields more : Entries} (h : AreStorable fields)
    (hmore : AreStorable more) : AreStorable (fields ++ more) := by
  intro field hfield
  rcases List.mem_append.mp hfield with hfield | hfield
  · exact h field hfield
  · exact hmore field hfield

theorem areStorable_nil : AreStorable [] := by
  intro field hfield
  contradiction

theorem areStorable_cons {name : String} {v : Value} {fields : Entries} (hname : IsBareKey name)
    (hv : Storable v) (h : AreStorable fields) : AreStorable ((name, v) :: fields) :=
  List.forall_mem_cons.mpr ⟨⟨hname, hv⟩, h⟩

theorem areStorable_leafFields {row : LeafRow} (hitem : row.item < 2 ^ 63)
    (hfinite : row.coefficient.isFinite = true) : AreStorable (leafFields row) := by
  apply areStorable_cons (by decide) (.simple (.integer (isInt64_of_lt hitem)))
  apply areStorable_cons (by decide) (.simple (simple_node row.node))
  exact areStorable_cons (by decide) (.simple (.float hfinite)) areStorable_nil

theorem areStorable_offsetFields {row : OffsetRow} (hitem : row.item < 2 ^ 63)
    (hfinite : row.offset.isFinite = true) : AreStorable (offsetFields row) := by
  apply areStorable_cons (by decide) (.simple (.integer (isInt64_of_lt hitem)))
  exact areStorable_cons (by decide) (.simple (.float hfinite)) areStorable_nil

theorem areStorable_childField {name : String} (hname : IsBareKey name) (child? : Option NodeId) :
    AreStorable (childField name child?) := by
  cases child? with
  | none => exact areStorable_nil
  | some child => exact areStorable_cons hname (.simple (simple_node child)) areStorable_nil

theorem areStorable_splitFields {row : Split} (hitem : row.item < 2 ^ 63)
    (hfinite : row.threshold.isFinite = true) : AreStorable (splitFields row) := by
  have hfirst :
      AreStorable [("item", .integer row.item), ("number", .integer row.number.toNat)] := by
    apply areStorable_cons (by decide) (.simple (.integer (isInt64_of_lt hitem)))
    exact areStorable_cons (by decide) (.simple (simple_node row.number)) areStorable_nil
  have hlast :
      AreStorable [("variable", .text row.column), ("threshold", .float row.threshold)] := by
    apply areStorable_cons (by decide) (.simple (.text row.column))
    exact areStorable_cons (by decide) (.simple (.float hfinite)) areStorable_nil
  have hleft := areStorable_childField (show IsBareKey "left" by decide) row.left
  have hright := areStorable_childField (show IsBareKey "right" by decide) row.right
  exact ((hfirst.append hleft).append hright).append hlast

theorem areStorable_emptyEntry {α : Type} {name : String} (hname : IsBareKey name)
    (rows : List α) : AreStorable (emptyEntry name rows) := by
  cases rows with
  | nil => exact areStorable_cons hname (.list (by simp)) areStorable_nil
  | cons row rows => exact areStorable_nil

theorem areStorable_labelEntry (labels? : Option (List String)) :
    AreStorable (labelEntry labels?) := by
  cases labels? with
  | none => exact areStorable_nil
  | some labels =>
      apply areStorable_cons (by decide) _ areStorable_nil
      apply Storable.list
      intro v hv
      obtain ⟨label, -, rfl⟩ := List.mem_map.mp hv
      exact .text label

theorem areStorable_plainEntries (hrows : RowsInOrder tables) :
    AreStorable tables.plainEntries := by
  have hslopes : AreStorable [("slopes", .array (tables.slopes.map .float))] := by
    apply areStorable_cons (by decide) _ areStorable_nil
    apply Storable.list
    intro v hv
    obtain ⟨slope, hslope, rfl⟩ := List.mem_map.mp hv
    exact .float (hrows.slopes slope hslope)
  have hlabels := areStorable_labelEntry tables.labels
  have hleaves := areStorable_emptyEntry (show IsBareKey "dif_leaves" by decide) tables.leaves
  have hoffsets :=
    areStorable_emptyEntry (show IsBareKey "no_dif_offsets" by decide) tables.offsets
  have hsplits := areStorable_emptyEntry (show IsBareKey "splits" by decide) tables.splits
  exact (((hslopes.append hlabels).append hleaves).append hoffsets).append hsplits

theorem RowsInOrder.itemsBelow (hrows : RowsInOrder tables) {bound : Nat}
    (hcount : tables.slopes.length < bound) : tables.ItemsBelow bound :=
  ⟨fun row hrow => (hrows.leaves row hrow).1.2.trans_lt hcount,
    fun row hrow => (hrows.offsets row hrow).1.2.trans_lt hcount,
    fun row hrow => (hrows.splits row hrow).1.2.trans_lt hcount⟩

theorem isPlainSection_rowOf {name : String} {fields : Entries} (hname : IsBareKey name)
    (h : AreStorable fields) : IsPlainSection (Toml.rowOf name fields) :=
  ⟨rfl, rfl, hname, h.keyed⟩

/-- Accepted tables are written as plain entries of storable values. -/
theorem isPlainDocument_document (hrows : RowsInOrder tables)
    (hcount : tables.slopes.length < 2 ^ 63) : Toml.IsPlainDocument tables.document := by
  obtain ⟨hleaves, hoffsets, hsplits⟩ := hrows.itemsBelow hcount
  refine ⟨(areStorable_plainEntries hrows).keyed, ?_⟩
  intro written hwritten
  simp only [document, List.mem_append, List.mem_map, Function.comp_apply] at hwritten
  rcases hwritten with (⟨row, hrow, rfl⟩ | ⟨row, hrow, rfl⟩) | ⟨row, hrow, rfl⟩
  · have hfields := areStorable_leafFields (hleaves row hrow) (hrows.leaves row hrow).2
    exact isPlainSection_rowOf (by decide) hfields
  · have hfields := areStorable_offsetFields (hoffsets row hrow) (hrows.offsets row hrow).2
    exact isPlainSection_rowOf (by decide) hfields
  · have hfields := areStorable_splitFields (hsplits row hrow) (hrows.splits row hrow).2
    exact isPlainSection_rowOf (by decide) hfields

end ModelTables

namespace Model

variable {tables : ModelTables} {model : Model}

theorem parseTables_write (hmodel : ofTables tables = .ok model)
    (hcount : tables.slopes.length < 2 ^ 63) (style : Toml.Style) :
    parseTables (model.write style) = .ok tables := by
  obtain ⟨hrows, rfl, -⟩ := ofTables_eq_ok_iff.mp hmodel
  have hplain := ModelTables.isPlainDocument_document hrows hcount
  have hsize : model.tables.slopes.length < UInt64.size :=
    hcount.trans (by decide)
  have htables := ModelTables.ofEntries_storedEntries _ (hrows.itemsBelow hsize)
  rw [parseTables, write, Toml.parse?_write hplain style, ModelTables.document_entries?]
  simp [htables, Except.mapError]

theorem parse_write (hmodel : ofTables tables = .ok model)
    (hcount : tables.slopes.length < 2 ^ 63) (style : Toml.Style) :
    parse (model.write style) = .ok model := by
  rw [parse, parseTables_write hmodel hcount style, ok_bind, hmodel]
  rfl

/-! ### Bytes -/

theorem text_toUTF8 (text : String) : FileContent.text (.ok text.toUTF8) = .ok text := by
  have hdecoded : String.fromUTF8? text.toUTF8 = some text := by
    have hvalid : text.toUTF8.IsValidUTF8 := text.isValidUTF8
    rw [String.fromUTF8?, dif_pos hvalid]
    rfl
  rw [FileContent.text, ok_bind, hdecoded]
  rfl

theorem load_toUTF8 (text : String) : load (.ok text.toUTF8) = parse text := by
  rw [load, text_toUTF8]
  rfl

/-- The bytes of a saved model and its compact text are read back as the model itself,
whose tables are the ones it was made from, so that saving it again gives the same text.
The bound on the number of items is that of the integers in the text; no list in memory
exceeds it. -/
theorem load_write (hmodel : ofTables tables = .ok model)
    (hcount : tables.slopes.length < 2 ^ 63) :
    load (.ok (model.write .pretty).toUTF8) = .ok model ∧
      parse (model.write .compact) = .ok model ∧ model.tables = tables ∧
      (load (.ok (model.write .pretty).toUTF8)).map (write .pretty) =
        .ok (model.write .pretty) := by
  have hpretty : load (.ok (model.write .pretty).toUTF8) = .ok model := by
    rw [load_toUTF8, parse_write hmodel hcount .pretty]
  refine ⟨hpretty, parse_write hmodel hcount .compact, (ofTables_eq_ok_iff.mp hmodel).2.1, ?_⟩
  rw [hpretty]
  rfl

/-- Tables with quotes, line ends and control characters in their texts, a negative zero,
the least positive double and one with many digits. -/
def awkwardTables : ModelTables where
  slopes := [-0, 5e-324, 0.30000000000000004]
  labels := some ["it\x27s \"so\"", "a\\b\n\x27\x27\x27\"\"\"\r", ""]
  leaves := [⟨1, 2, 1e300⟩, ⟨1, 3, -0.1⟩]
  offsets := [⟨2, 0.25⟩, ⟨3, -0⟩]
  splits := [⟨1, 1, some 2, some 3, "age\n\"in\" years\t\x7f\u00e9", 1e16⟩]

theorem load_write_awkwardTables : awkwardTables.slopes.length < 2 ^ 63 ∧
    ∃ model, ofTables awkwardTables = .ok model ∧
      load (.ok (model.write .pretty).toUTF8) = .ok model ∧
      parse (model.write .compact) = .ok model := by
  have hcount : awkwardTables.slopes.length < 2 ^ 63 := by decide
  have haccepted : (ofTables awkwardTables).isOk = true := by decide +kernel
  refine ⟨hcount, ?_⟩
  cases hmodel : ofTables awkwardTables with
  | error e => simp [hmodel, Except.isOk, Except.toBool] at haccepted
  | ok model =>
      obtain ⟨hload, hparse, -⟩ := load_write hmodel hcount
      exact ⟨model, rfl, hload, hparse⟩

end Model

end ItemScoring
