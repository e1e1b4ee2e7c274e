import ItemScoring.Prediction.Session
import ItemScoring.Proofs.Prediction.Outcome
import ItemScoring.Proofs.Prediction.Rows

/-!
# Datasets that can come about

A dataset starts out empty or is made of columns, and then grows by one step of a session
after the other; a step that is refused leaves it as it was.  `Reachable` collects all
datasets of such histories, and since every step keeps a dataset consistent
(`Consistent.runStep`), all of them are.

In a consistent dataset the index is as good as a search through the columns: every question
about a name has the answer that the columns give (`Consistent.answersAgree`).  So nothing that
can be asked depends on the index, and datasets with the same columns have the same answers
(`Consistent.sameAnswers`).  What is the same is left open there: values may be the very same,
or equal as numbers, as datasets are compared.
-/

namespace ItemScoring

/-! ### Single steps -/

namespace Model

variable {model : Model} {data next : Dataset} {column : Column} {options : PredictionOptions}
  {predictions : Predictions}

theorem runStep_pushed (h : data.push column = .ok next) :
    model.runStep data (.push column) = (.pushed, next) := by
  simp only [runStep, h]

theorem runStep_pushRefused {error : DatasetError} (h : data.push column = .error error) :
    model.runStep data (.push column) = (.pushRefused error, data) := by
  simp only [runStep, h]

theorem runStep_predicted (h : model.predict data options = .ok predictions) :
    model.runStep data (.predict options) = (.predicted predictions, predictions.dataset) := by
  simp only [runStep, h]

theorem runStep_predictionRefused {error : PredictionError}
    (h : model.predict data options = .error error) :
    model.runStep data (.predict options) = (.predictionRefused error, data) := by
  simp only [runStep, h]

end Model

namespace Dataset

variable {data data₁ data₂ : Dataset} {name : String}

/-! ### Answers -/

/-- The names stand in step with the columns, all columns are equally long, and the index is
the inverse of the names. -/
structure InStep (data : Dataset) : Prop where
  length_eq : data.names.length = data.columns.size
  distinct : data.names.Nodup
  sameLength : ∀ column ∈ data.columns, column.values.size = data.rowCount
  index_iff : ∀ (name : String) (position : Nat),
    data.index[name]? = some position ↔ data.names[position]? = some name

/-- All ways of asking for a name agree: whether there is a column of that name, which values
it has, and which value a row has in it. -/
structure AnswersAgree (data : Dataset) : Prop where
  hasColumn_iff : ∀ name, data.hasColumn name = true ↔ name ∈ data.names
  isSome_values? : ∀ name, (data.values? name).isSome = data.hasColumn name
  values?_eq : ∀ (position : Nat) (column : Column), data.columns[position]? = some column →
    data.values? column.name = some column.values
  value?_eq : ∀ (name : String) (row : Nat),
    (data.record row).value? name = (data.values? name).bind fun values => values[row]?
  value?_eq_none_iff : ∀ (name : String) (row : Nat),
    (data.record row).value? name = none ↔ data.hasColumn name = false ∨ data.rowCount ≤ row

/-- Whatever is asked of the datasets has the same answer, with values that are related. -/
structure SameAnswers (R : Float → Float → Prop) (data₁ data₂ : Dataset) : Prop where
  names_eq : data₁.names = data₂.names
  columnCount_eq : data₁.columnCount = data₂.columnCount
  rowCount_eq : data₁.rowCount = data₂.rowCount
  hasColumn_eq : ∀ name, data₁.hasColumn name = data₂.hasColumn name
  values?_rel : ∀ name, Option.Rel
    (fun values₁ values₂ => List.Forall₂ R values₁.toList values₂.toList)
    (data₁.values? name) (data₂.values? name)
  value?_rel : ∀ (name : String) (row : Nat),
    Option.Rel R ((data₁.record row).value? name) ((data₂.record row).value? name)

theorem Consistent.inStep (h : data.Consistent) : data.InStep where
  length_eq := length_names
  distinct := h.nodup_names
  sameLength := h.sameLength
  index_iff := fun _ _ => h.index_eq_some_iff

theorem Consistent.values?_of_getElem? (h : data.Consistent) {position : Nat} {column : Column}
    (hcolumn : data.columns[position]? = some column) :
    data.values? column.name = some column.values := by
  have hname : data.names[position]? = some column.name := by
    rw [getElem?_names, hcolumn, Option.map_some]
  simp [values?, h.index_eq_some_iff.mpr hname, hcolumn]

theorem Consistent.values?_eq_none_iff (h : data.Consistent) :
    data.values? name = none ↔ name ∉ data.names := by
  constructor
  · intro hnone hname
    obtain ⟨values, hvalues, -⟩ := h.exists_values hname
    rw [hnone] at hvalues
    contradiction
  · intro hname
    have hindex : data.index[name]? = none := by
      refine Option.eq_none_iff_forall_ne_some.mpr fun position hposition => hname ?_
      exact List.mem_of_getElem? (h.index_eq_some_iff.mp hposition)
    simp [values?, hindex]

theorem value?_record_eq (row : Nat) : (data.record row).value? name =
    (data.values? name).bind fun values => values[row]? := rfl

theorem Consistent.answersAgree (h : data.Consistent) : data.AnswersAgree where
  hasColumn_iff := fun _ => h.hasColumn_iff
  isSome_values? := by
    intro name
    rw [Bool.eq_iff_iff, h.hasColumn_iff, Option.isSome_iff_ne_none, Ne, h.values?_eq_none_iff,
      not_not]
  values?_eq := fun _ _ => h.values?_of_getElem?
  value?_eq := fun _ _ => value?_record_eq _
  value?_eq_none_iff := by
    intro name row
    rw [h.hasColumn_eq_false_iff]
    -- A column has no value behind its last row, and a missing one has none at all.
    by_cases hname : name ∈ data.names
    · obtain ⟨values, hvalues, hsize⟩ := h.exists_values hname
      rw [value?_record hvalues, Array.getElem?_eq_none_iff, hsize]
      simp [hname]
    · rw [value?_record_eq, h.values?_eq_none_iff.mpr hname]
      simp [hname]

/-! ### Datasets with the same columns -/

/-- The columns have the same name, and values that are related. -/
structure ColumnsAlike (R : Float → Float → Prop) (column₁ column₂ : Column) : Prop where
  name_eq : column₁.name = column₂.name
  values : List.Forall₂ R column₁.values.toList column₂.values.toList

section Alike

variable {R : Float → Float → Prop}

theorem names_eq_of_alike
    (hcolumns : List.Forall₂ (ColumnsAlike R) data₁.columns.toList data₂.columns.toList) :
    data₁.names = data₂.names := by
  have hnames : List.Forall₂ (fun name₁ name₂ => name₁ = name₂) data₁.names data₂.names :=
    List.forall₂_map_left_iff.mpr
      (List.forall₂_map_right_iff.mpr (hcolumns.imp fun _ _ h => h.name_eq))
  rwa [List.forall₂_eq_eq_eq] at hnames

theorem exists_alike
    (hcolumns : List.Forall₂ (ColumnsAlike R) data₁.columns.toList data₂.columns.toList)
    {position : Nat} {column₁ : Column} (hcolumn₁ : data₁.columns[position]? = some column₁) :
    ∃ column₂, data₂.columns[position]? = some column₂ ∧ ColumnsAlike R column₁ column₂ := by
  rw [← Array.getElem?_toList] at hcolumn₁
  obtain ⟨column₂, hcolumn₂, halike⟩ := forall₂_getElem? hcolumns hcolumn₁
  rw [Array.getElem?_toList] at hcolumn₂
  exact ⟨column₂, hcolumn₂, halike⟩

theorem columnCount_eq_of_alike
    (hcolumns : List.Forall₂ (ColumnsAlike R) data₁.columns.toList data₂.columns.toList) :
    data₁.columnCount = data₂.columnCount := by
  rw [← length_names, ← length_names, names_eq_of_alike hcolumns]

theorem rowCount_eq_of_alike
    (hcolumns : List.Forall₂ (ColumnsAlike R) data₁.columns.toList data₂.columns.toList) :
    data₁.rowCount = data₂.rowCount := by
  unfold rowCount
  -- The rows are counted in the first column.
  cases hfirst : data₁.columns[0]? with
  | some column₁ =>
      obtain ⟨column₂, hcolumn₂, halike⟩ := exists_alike hcolumns hfirst
      have hlength := halike.values.length_eq
      rw [hcolumn₂]
      simpa using hlength
  | none =>
      have hzero : data₂.columns.size ≤ 0 := by
        have hcount := columnCount_eq_of_alike hcolumns
        rw [columnCount, columnCount] at hcount
        rw [← hcount]
        exact Array.getElem?_eq_none_iff.mp hfirst
      rw [Array.getElem?_eq_none_iff.mpr hzero]

/-- Consistent datasets with related columns have related values under every name. -/
theorem Consistent.values?_rel (h₁ : data₁.Consistent) (h₂ : data₂.Consistent)
    (hcolumns : List.Forall₂ (ColumnsAlike R) data₁.columns.toList data₂.columns.toList)
    (name : String) :
    Option.Rel (fun values₁ values₂ => List.Forall₂ R values₁.toList values₂.toList)
      (data₁.values? name) (data₂.values? name) := by
  by_cases hname : name ∈ data₁.names
  · obtain ⟨position, hposition⟩ := List.mem_iff_getElem?.mp hname
    rw [getElem?_names, Option.map_eq_some_iff] at hposition
    obtain ⟨column₁, hcolumn₁, rfl⟩ := hposition
    obtain ⟨column₂, hcolumn₂, halike⟩ := exists_alike hcolumns hcolumn₁
    rw [h₁.values?_of_getElem? hcolumn₁, halike.name_eq, h₂.values?_of_getElem? hcolumn₂]
    exact .some halike.values
  · have hname₂ : name ∉ data₂.names := names_eq_of_alike hcolumns ▸ hname
    rw [h₁.values?_eq_none_iff.mpr hname, h₂.values?_eq_none_iff.mpr hname₂]
    exact .none

theorem getElem?_rel {values₁ values₂ : Array Float}
    (hvalues : List.Forall₂ R values₁.toList values₂.toList) (row : Nat) :
    Option.Rel R values₁[row]? values₂[row]? := by
  cases hvalue₁ : values₁[row]? with
  | some value₁ =>
      rw [← Array.getElem?_toList] at hvalue₁
      obtain ⟨value₂, hvalue₂, hrelated⟩ := forall₂_getElem? hvalues hvalue₁
      rw [Array.getElem?_toList] at hvalue₂
      rw [hvalue₂]
      exact .some hrelated
  | none =>
      have hsize : values₁.size = values₂.size := by simpa using hvalues.length_eq
      rw [Array.getElem?_eq_none_iff, hsize] at hvalue₁
      rw [Array.getElem?_eq_none_iff.mpr hvalue₁]
      exact .none

/-- The columns alone decide about all answers. -/
theorem Consistent.sameAnswers (h₁ : data₁.Consistent) (h₂ : data₂.Consistent)
    (hcolumns : List.Forall₂ (ColumnsAlike R) data₁.columns.toList data₂.columns.toList) :
    SameAnswers R data₁ data₂ where
  names_eq := names_eq_of_alike hcolumns
  columnCount_eq := columnCount_eq_of_alike hcolumns
  rowCount_eq := rowCount_eq_of_alike hcolumns
  hasColumn_eq := by
    intro name
    rw [Bool.eq_iff_iff, h₁.hasColumn_iff, h₂.hasColumn_iff, names_eq_of_alike hcolumns]
  values?_rel := h₁.values?_rel h₂ hcolumns
  value?_rel := by
    intro name row
    rw [value?_record_eq, value?_record_eq]
    have hvalues := h₁.values?_rel h₂ hcolumns name
    generalize data₁.values? name = values₁?, data₂.values? name = values₂? at hvalues
    cases hvalues with
    | some hrelated => exact getElem?_rel hrelated row
    | none => exact .none

end Alike

theorem forall₂_of_beq {α : Type} [BEq α] {list₁ list₂ : List α} (h : (list₁ == list₂) = true) :
    List.Forall₂ (fun a b => (a == b) = true) list₁ list₂ := by
  induction list₁ generalizing list₂ with
  | nil =>
      cases list₂ with
      | nil => exact .nil
      | cons b rest => simp at h
  | cons a rest ih =>
      cases list₂ with
      | nil => simp at h
      | cons b others =>
          rw [List.cons_beq_cons, Bool.and_eq_true] at h
          exact .cons h.1 (ih h.2)

/-- Equal datasets have the same columns, with values that are equal as numbers. -/
theorem alike_of_beq (h : (data₁ == data₂) = true) :
    List.Forall₂ (ColumnsAlike fun x y => (x == y) = true)
      data₁.columns.toList data₂.columns.toList := by
  have hcolumns : (data₁.columns == data₂.columns) = true := h
  rw [← Array.beq_toList] at hcolumns
  refine (forall₂_of_beq hcolumns).imp fun column₁ column₂ hcolumn => ?_
  obtain ⟨name₁, values₁⟩ := column₁
  obtain ⟨name₂, values₂⟩ := column₂
  have hparts : (name₁ == name₂ && values₁ == values₂) = true := hcolumn
  rw [Bool.and_eq_true, ← Array.beq_toList] at hparts
  exact ⟨eq_of_beq hparts.1, forall₂_of_beq hparts.2⟩

theorem alike_of_eq (h : data₁.columns = data₂.columns) :
    List.Forall₂ (ColumnsAlike fun x y => x = y) data₁.columns.toList data₂.columns.toList := by
  rw [h, List.forall₂_same]
  intro column _
  exact ⟨rfl, List.forall₂_same.mpr fun _ _ => rfl⟩

/-! ### Histories -/

/-- The datasets that can come about: the empty one, those that are made of columns, and
what a step of a session, whether it succeeds or not, leaves of an earlier one.  Of one dataset
there can be several continuations, each of them with a copy of it. -/
inductive Reachable : Dataset → Prop
  | empty : Reachable .empty
  | ofColumns {columns : List Column} {data : Dataset} (built : ofColumns columns = .ok data) :
      Reachable data
  | step {data : Dataset} (earlier : Reachable data) (model : Model) (step : SessionStep) :
      Reachable (model.runStep data step).2

theorem Consistent.predict (h : data.Consistent) {model : Model} {options : PredictionOptions}
    {predictions : Predictions} (hpredict : model.predict data options = .ok predictions) :
    predictions.dataset.Consistent := by
  obtain ⟨-, -, -, hpush⟩ := Model.predictWith_eq_ok_iff.mp hpredict
  exact h.pushAll hpush

/-- A step keeps a dataset consistent, whatever it comes to. -/
theorem Consistent.runStep (h : data.Consistent) (model : Model) (step : SessionStep) :
    (model.runStep data step).2.Consistent := by
  -- A step that is refused leaves the dataset as it was.
  cases step with
  | push column =>
      cases hpush : data.push column with
      | ok next =>
          rw [Model.runStep_pushed hpush]
          exact h.push hpush
      | error error =>
          rw [Model.runStep_pushRefused hpush]
          exact h
  | predict options =>
      cases hpredict : model.predict data options with
      | ok predictions =>
          rw [Model.runStep_predicted hpredict]
          exact h.predict hpredict
      | error error =>
          rw [Model.runStep_predictionRefused hpredict]
          exact h

theorem Reachable.consistent (h : data.Reachable) : data.Consistent := by
  induction h with
  | empty => exact Consistent.empty
  | ofColumns built => exact consistent_of_ofColumns built
  | step _ model step ih => exact ih.runStep model step

/-- In every dataset that can come about names, columns and index are in step, so that all
ways of asking for a name agree; and two of them with the same columns, be their values the
very same or equal as numbers, have the same answers. -/
theorem reachable_answers (h : data.Reachable) : data.InStep ∧ data.AnswersAgree ∧
    ∀ other : Dataset, other.Reachable →
      (data.columns = other.columns → SameAnswers (fun x y => x = y) data other) ∧
      ((data == other) = true → SameAnswers (fun x y => (x == y) = true) data other) := by
  have hdata := h.consistent
  refine ⟨hdata.inStep, hdata.answersAgree, fun other hother => ⟨fun hcolumns => ?_, fun heq => ?_⟩⟩
  · exact hdata.sameAnswers hother.consistent (alike_of_eq hcolumns)
  · exact hdata.sameAnswers hother.consistent (alike_of_beq heq)

/-- What is left of `ageData` by a column of a taken name, by a prediction from a column that is
absent, and by a column of zeros. -/
def grownData : Dataset :=
  let afterPush := (ageModel.runStep ageData (.push ⟨"age", #[1, 2]⟩)).2
  let afterPrediction := (ageModel.runStep afterPush (.predict { totalScore := "total" })).2
  (ageModel.runStep afterPrediction (.push ⟨"zero", #[0, -0]⟩)).2

/-- The dataset with these columns at once, and with zeros of one sign. -/
def zeroData : Dataset where
  columns := #[⟨"age", #[40, 41]⟩, ⟨"score", #[3, 4]⟩, ⟨"zero", #[0, 0]⟩]
  index := .ofList [("age", 0), ("score", 1), ("zero", 2)]

/-- Neither the history nor the sign of a zero can be told from the answers. -/
theorem reachable_answers_zeroData : grownData.Reachable ∧ zeroData.Reachable ∧
    (grownData == zeroData) = true ∧ grownData.InStep ∧ grownData.AnswersAgree ∧
    SameAnswers (fun x y => (x == y) = true) grownData zeroData := by
  have hbuilt : ofColumns ageData.columns.toList = .ok ageData := rfl
  have hgrown : grownData.Reachable := (((Reachable.ofColumns hbuilt).step _ _).step _ _).step _ _
  have hzeros : ofColumns zeroData.columns.toList = .ok zeroData := rfl
  have hequal : (grownData == zeroData) = true := by decide +kernel
  obtain ⟨hstep, hagree, hsame⟩ := reachable_answers hgrown
  exact ⟨hgrown, .ofColumns hzeros, hequal, hstep, hagree, (hsame _ (.ofColumns hzeros)).2 hequal⟩

end Dataset

end ItemScoring
