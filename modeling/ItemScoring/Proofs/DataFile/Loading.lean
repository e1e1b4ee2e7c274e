import ItemScoring.DataFile.Loading
import ItemScoring.Proofs.Dataset

/-!
# What loading a data file yields

A required column has as many numbers as the frame has rows, all of them finite
(`Frame.required_eq_ok`).  The columns of the dataset are the required ones, each once, so
appending them to an empty dataset gives a consistent dataset of that height
(`InputData.complete_of_load`): what a prediction asks of its inputs.
-/

namespace ItemScoring

/-! ### One column -/

theorem FrameColumn.numbers_eq_ok {column : FrameColumn} {values : Array Float}
    (h : column.numbers = .ok values) :
    values.size = column.height ∧ ∀ value ∈ values, value.isFinite = true := by
  unfold numbers at h
  split at h
  · contradiction
  next cells hcells =>
    split at h
    · contradiction
    next numbers hnumbers =>
      split at h
      next hfinite =>
        obtain rfl := Except.ok.inj h
        refine ⟨?_, fun value hvalue => ?_⟩
        · rw [List.size_toArray, ← (mapM_eq_some.mp hnumbers).length_eq,
            ← (mapM_eq_some.mp hcells).length_eq]
          rfl
        · exact List.all_eq_true.mp hfinite value (by simpa using hvalue)
      · contradiction

namespace Frame

variable {frame : Frame} {name : String} {column : Column}

/-- The column of a dataset holds the numbers of the column of that name in the frame. -/
structure Provides (frame : Frame) (column : Column) : Prop where
  exists_source : ∃ source ∈ frame.columns, source.name = column.name ∧
    source.numbers = .ok column.values
  size_eq : column.values.size = frame.height
  finite : ∀ value ∈ column.values, value.isFinite = true

theorem required_eq_ok (h : frame.required name = .ok column) :
    column.name = name ∧ frame.Provides column := by
  unfold required at h
  split at h
  · contradiction
  next source hsource =>
    have hmem := List.mem_of_find?_eq_some hsource
    have hname : source.name = name := by simpa using List.find?_some hsource
    cases hnumbers : source.numbers with
    | error e => simp [hnumbers, Except.map] at h
    | ok values =>
        rw [hnumbers] at h
        obtain rfl := Except.ok.inj h
        obtain ⟨hsize, hfinite⟩ := FrameColumn.numbers_eq_ok hnumbers
        exact ⟨rfl, ⟨source, hmem, hname, hnumbers⟩, hsize.trans (frame.height_eq source hmem),
          hfinite⟩

end Frame

/-! ### The whole file -/

/-- The dataset has the required columns, each once and in the order in which they are first named,
with a finite number for every row of the frame. -/
structure InputData.Complete (data : InputData) (required : List String) : Prop where
  names_eq : data.dataset.names = required.eraseDups
  consistent : data.dataset.Consistent
  provided : ∀ column ∈ data.dataset.columns, data.frame.Provides column

/-- The columns that were asked for have the names that were asked for. -/
theorem map_name_of_mapM_required {frame : Frame} {names : List String} {columns : List Column}
    (h : names.mapM frame.required = .ok columns) :
    columns.map Column.name = names ∧ ∀ column ∈ columns, frame.Provides column := by
  have hforall := mapM_eq_ok.mp h
  clear h
  induction hforall with
  | nil => simp
  | cons hfirst hrest ih =>
      obtain ⟨hname, hprovides⟩ := Frame.required_eq_ok hfirst
      exact ⟨by rw [List.map_cons, hname, ih.1], List.forall_mem_cons.mpr ⟨hprovides, ih.2⟩⟩

theorem InputData.complete_of_load {content : FileContent} {required : List String}
    {data : InputData} (h : InputData.load content required = .ok data) :
    data.Complete required := by
  obtain ⟨bytes, -, h⟩ := bind_eq_ok.mp h
  obtain ⟨frame, -, h⟩ := bind_eq_ok.mp h
  obtain ⟨dataset, hdataset, h⟩ := bind_eq_ok.mp h
  obtain rfl := Except.ok.inj h
  obtain ⟨columns, hcolumns, hbuilt⟩ := bind_eq_ok.mp hdataset
  have hbuilt := mapError_eq_ok.mp hbuilt
  obtain ⟨hnames, hprovides⟩ := map_name_of_mapM_required hcolumns
  have hlist : dataset.columns.toList = columns := Dataset.columns_of_pushAll hbuilt
  refine ⟨?_, Dataset.consistent_of_ofColumns hbuilt, fun column hcolumn => ?_⟩
  · rw [Dataset.names, hlist, hnames]
  · exact hprovides column (hlist ▸ Array.mem_toList_iff.mpr hcolumn)

end ItemScoring
