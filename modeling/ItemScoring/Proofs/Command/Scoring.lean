import ItemScoring.Command.Scoring
import ItemScoring.Proofs.DataFile.Attaching
import ItemScoring.Proofs.DataFile.Loading
import ItemScoring.Proofs.Prediction.Sessions

/-!
# Scoring a data file

What loading a data file promises is what a prediction asks for, so a prediction on a loaded
dataset can only be refused for the names of its derived columns.  These are compared twice: with
the columns that were loaded, before the prediction (`InputData.Complete.predictionRefused`), and
with all columns of the frame, when the results are attached to it
(`InputData.Complete.table_of_find?`).  Together the two leave no clash out (`score_loaded`).
-/

namespace ItemScoring

variable {tables : ModelTables} {model : Model} {data : InputData} {totalScore : String}
  {naming : ColumnNaming} {options : PredictionOptions} {predictions : Predictions}

namespace InputData.Complete

variable (hdata : data.Complete (model.requiredColumns totalScore))

include hdata

theorem mem_names {name : String} :
    name ∈ data.dataset.names ↔ name = totalScore ∨ name ∈ model.splitColumns := by
  rw [hdata.names_eq, List.mem_eraseDups, Model.requiredColumns, List.mem_cons]

theorem rowCount_eq : data.dataset.rowCount = data.frame.height := by
  have hname : totalScore ∈ data.dataset.names := hdata.mem_names.mpr (Or.inl rfl)
  obtain ⟨column, hcolumn, -⟩ := List.mem_map.mp hname
  have hcolumn := Array.mem_toList_iff.mp hcolumn
  rw [← hdata.consistent.sameLength column hcolumn, (hdata.provided column hcolumn).size_eq]

/-- What was loaded is finite in every row. -/
theorem finiteIn {name : String} (hname : name ∈ data.dataset.names) :
    data.dataset.FiniteIn name := by
  obtain ⟨column, hcolumn, rfl⟩ := List.mem_map.mp hname
  obtain ⟨position, hposition⟩ := Array.mem_iff_getElem?.mp (Array.mem_toList_iff.mp hcolumn)
  have hvalues := hdata.consistent.values?_of_getElem? hposition
  have hmem := Array.mem_toList_iff.mp hcolumn
  intro row hrow
  have hlt : row < column.values.size := by
    rwa [hdata.consistent.sameLength column hmem]
  refine ⟨column.values[row], ?_, (hdata.provided column hmem).finite _ (Array.getElem_mem hlt)⟩
  rw [Dataset.value?_record hvalues, Array.getElem?_eq_getElem hlt]

/-- Columns of the dataset are columns of the frame. -/
theorem mem_frame_names {name : String} (hname : name ∈ data.dataset.names) :
    name ∈ data.frame.names := by
  obtain ⟨column, hcolumn, rfl⟩ := List.mem_map.mp hname
  obtain ⟨source, hsource, hsame, -⟩ :=
    (hdata.provided column (Array.mem_toList_iff.mp hcolumn)).exists_source
  exact hsame ▸ List.mem_map_of_mem hsource

theorem column_mem (hmodel : Model.ofTables tables = .ok model) {row : Split}
    (hused : tables.Uses row) : row.column ∈ data.dataset.names :=
  hdata.mem_names.mpr (Or.inr ((Model.mem_splitColumns_iff_uses hmodel).mpr ⟨row, hused, rfl⟩))

/-- The inputs of a prediction are ready, up to the names that it is to use. -/
theorem inputsReady_iff (hmodel : Model.ofTables tables = .ok model) :
    InputsReady tables data.dataset { totalScore, naming } ↔
      ∀ name ∈ naming.derivedNames model.itemCount, name ∉ data.dataset.names := by
  rw [Model.itemCount_eq hmodel]
  constructor
  · intro hready
    exact hready.derived_free
  · intro hfree
    have hscore : totalScore ∈ data.dataset.names := hdata.mem_names.mpr (Or.inl rfl)
    refine ⟨hscore, fun item hpos hle => ⟨?_, ?_⟩, hdata.finiteIn hscore, ?_⟩
    · exact fun row hused _ => hdata.column_mem hmodel hused
    · intro name hname
      exact hfree name (ColumnNaming.mem_derivedNames_iff.mpr ⟨item, ⟨hpos, hle⟩, hname⟩)
    · exact fun row hused => hdata.finiteIn (hdata.column_mem hmodel hused)

/-- A prediction on what was loaded is refused for a derived name only. -/
theorem predictionRefused (hmodel : Model.ofTables tables = .ok model) {e : PredictionError}
    (h : PredictionRefused tables data.dataset { totalScore, naming } e) :
    ∃ name ∈ naming.derivedNames model.itemCount,
      (name ∈ data.dataset.names ∧ e = .outputColumnExists name) ∨
        e = .dataset (.duplicateColumn name) := by
  have hscore : totalScore ∈ data.dataset.names := hdata.mem_names.mpr (Or.inl rfl)
  have hnotbad : ∀ {name row}, name ∈ data.dataset.names → ¬ data.dataset.OffendsAt name row :=
    fun hname hoffends =>
      Model.not_finiteIn_of_offendsAt hdata.consistent hname hoffends (hdata.finiteIn hname)
  rw [Model.itemCount_eq hmodel]
  -- What was loaded has all columns and no value that is not finite; only names are left.
  cases h with
  | repeated ready names_eq distinct mem =>
      exact ⟨_, names_eq ▸ by simp, Or.inr rfl⟩
  | inputs refused =>
      cases refused with
      | missingColumn absent => exact absurd hscore absent
      | totalScore present clear offends earlier => exact absurd offends (hnotbad hscore)
      | splitColumn present clear finite used before offends earlier =>
          exact absurd offends (hnotbad (hdata.column_mem hmodel used))
      | item present inside refused clear =>
          cases refused with
          | absent used of_item absent => exact absurd (hdata.column_mem hmodel used) absent
          | taken present taken =>
              exact ⟨_, ColumnNaming.mem_derivedNames_iff.mpr ⟨_, inside, taken.mem⟩,
                Or.inl ⟨taken.holds, rfl⟩⟩

/-- The results of a prediction can be attached if no derived name is a column of the frame, and
the first one that is one is reported otherwise. -/
theorem table_of_find? (hmodel : Model.ofTables tables = .ok model)
    (hpredict : model.predict data.dataset { totalScore, naming } = .ok predictions) :
    match (naming.derivedNames model.itemCount).find? (data.frame.names.contains ·) with
    | some name => predictions.table data.frame = .error (.outputColumnExists name)
    | none => ∃ text, predictions.table data.frame = .ok text := by
  have happended := Model.appendedTo hmodel hpredict
  -- As many rows were loaded as the frame has, so no prediction is of a wrong height.
  have hfits : ∀ prediction ∈ predictions.items, prediction.FitsHeight data.frame.height := by
    intro prediction hmem
    rw [← hdata.rowCount_eq]
    exact happended.sizes prediction hmem
  have hattach := attachAll_of_find? data.frame.names hfits
  rw [happended.names_eq] at hattach
  unfold Predictions.table Predictions.attach
  cases hname : (naming.derivedNames model.itemCount).find? (data.frame.names.contains ·) with
  | some name =>
      simp only [hname] at hattach
      rw [hattach]
      rfl
  | none =>
      simp only [hname] at hattach
      obtain ⟨next, hnext⟩ := hattach
      exact ⟨next.toTsv, by rw [hnext]; rfl⟩

end InputData.Complete

/-- Whatever file was loaded for a model, its dataset has the columns that the model reads, and a
prediction on it can be made and written back exactly if the derived names are distinct and none
of them is a column of the file, whether it was loaded or not.  Refusals are for such names only,
before the prediction or after it. -/
theorem score_loaded {content : FileContent} (hmodel : Model.ofTables tables = .ok model)
    (hload : InputData.load content (model.requiredColumns totalScore) = .ok data)
    (naming : ColumnNaming) :
    data.Complete (totalScore :: model.splitColumns) ∧
    ((∃ predictions text,
        model.predict data.dataset { totalScore, naming } = .ok predictions ∧
        predictions.table data.frame = .ok text) ↔
      (naming.derivedNames model.itemCount).Nodup ∧
        ∀ name ∈ naming.derivedNames model.itemCount, name ∉ data.frame.names) ∧
    (∀ e, model.predict data.dataset { totalScore, naming } = .error e →
      ∃ name ∈ naming.derivedNames model.itemCount,
        (name ∈ data.dataset.names ∧ e = .outputColumnExists name) ∨
          e = .dataset (.duplicateColumn name)) ∧
    ∀ predictions e, model.predict data.dataset { totalScore, naming } = .ok predictions →
      predictions.table data.frame = .error e →
      ∃ name ∈ naming.derivedNames model.itemCount,
        name ∈ data.frame.names ∧ e = .outputColumnExists name := by
  have hdata := InputData.complete_of_load hload
  obtain ⟨hpredicts, hrefuses⟩ := predict_outcome hmodel hdata.consistent
  refine ⟨hdata, ⟨?_, ?_⟩, fun e he => ?_, fun predictions e hpredict he => ?_⟩
  · rintro ⟨predictions, text, hpredict, htable⟩
    have hready := hpredicts.mp ⟨predictions, hpredict⟩
    refine ⟨(Model.itemCount_eq hmodel).symm ▸ hready.distinct, ?_⟩
    -- A table has been made, so no derived name is found in the frame.
    have houtcome := hdata.table_of_find? hmodel hpredict
    split at houtcome
    · rw [houtcome] at htable
      contradiction
    next hnone => simpa using hnone
  · rintro ⟨hdistinct, hfree⟩
    -- A column that was loaded is one of the frame, where the names are free by assumption.
    have hready : InputsReady tables data.dataset { totalScore, naming } :=
      (hdata.inputsReady_iff hmodel).mpr fun name hname hmem =>
        hfree name hname (hdata.mem_frame_names hmem)
    rw [Model.itemCount_eq hmodel] at hdistinct
    obtain ⟨predictions, hpredict⟩ := hpredicts.mpr ⟨hready, hdistinct⟩
    have houtcome := hdata.table_of_find? hmodel hpredict
    rw [List.find?_eq_none.mpr (by simpa using hfree)] at houtcome
    obtain ⟨text, htable⟩ := houtcome
    exact ⟨predictions, text, hpredict, htable⟩
  · exact hdata.predictionRefused hmodel ((hrefuses e).mp he)
  · have houtcome := hdata.table_of_find? hmodel hpredict
    split at houtcome
    next name hname =>
      have hmem := List.find?_some hname
      rw [he] at houtcome
      exact ⟨name, List.mem_of_find?_eq_some hname, by simpa using hmem,
        Except.error.inj houtcome⟩
    · obtain ⟨text, htable⟩ := houtcome
      rw [he] at htable
      contradiction

/-- A file with a column that is not loaded, but has a derived name. -/
def clashFile : String := "p2\tscore\tage\n0\t2\t25\n1\t-4\t40\n"

/-- The column is in the way of a prediction that is to be written back, though no prediction would
look at it, and in the way of no prediction with other names. -/
theorem score_loaded_clashFile : ∃ data,
    InputData.load (.ok clashFile.toUTF8) (ageModel.requiredColumns "score") = .ok data ∧
    (¬ ∃ predictions text,
      ageModel.predict data.dataset { totalScore := "score" } = .ok predictions ∧
        predictions.table data.frame = .ok text) ∧
    ∃ predictions text,
      ageModel.predict data.dataset { totalScore := "score", naming := ⟨"n", "q", "I"⟩ } =
        .ok predictions ∧ predictions.table data.frame = .ok text := by
  -- The names of the frame are all that the two questions need to be decided.
  have hnames : (InputData.load (.ok clashFile.toUTF8) (ageModel.requiredColumns "score")).map
      (fun data => data.frame.names) = .ok ["p2", "score", "age"] := by
    decide +kernel
  cases hload : InputData.load (.ok clashFile.toUTF8) (ageModel.requiredColumns "score") with
  | error e =>
      rw [hload] at hnames
      cases hnames
  | ok data =>
      rw [hload] at hnames
      have hnames : data.frame.names = ["p2", "score", "age"] := Except.ok.inj hnames
      refine ⟨data, rfl, ?_, ?_⟩
      · rw [(score_loaded ofTables_ageTables hload {}).2.1, hnames]
        decide +kernel
      · rw [(score_loaded ofTables_ageTables hload ⟨"n", "q", "I"⟩).2.1, hnames]
        decide +kernel

end ItemScoring
