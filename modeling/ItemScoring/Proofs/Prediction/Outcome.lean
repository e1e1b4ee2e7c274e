import ItemScoring.Proofs.Prediction.Linear

/-!
# What a prediction comes to

Once the inputs are ready, two things are left that could go wrong, and only one of
them can: every equation has a value on every row, so nothing is refused but a derived
name that repeats an earlier one (`Model.predict_of_ready`).  This settles exactly when a
prediction succeeds and with which error it is refused otherwise, and what the linear
predictors are.
-/

namespace ItemScoring

open ModelTables

variable {tables : ModelTables} {model : Model} {data : Dataset} {options : PredictionOptions}

/-! ### Evaluation -/

/-- The derived names of all items, in the order in which the columns are appended. -/
def ColumnNaming.derivedNames (naming : ColumnNaming) (itemCount : Nat) : List String :=
  (List.range itemCount).flatMap fun i => naming.itemNames (i + 1)

/-- With inputs that are ready, all equations are evaluated. -/
theorem Model.exists_items (hmodel : Model.ofTables tables = .ok model)
    (hready : InputsReady tables data options) :
    ∃ items, (model.equations options.totalScore).mapM
        (ItemEquation.evaluate data options.naming) = .ok items ∧
      items.length = model.itemCount ∧
      ∀ (i : Nat) (prediction : ItemPrediction), items[i]? = some prediction →
        prediction.columns = options.naming.forItem (i + 1) ∧
        (∀ column ∈ prediction.derived, column.values.size = data.rowCount) ∧
        ∃ slope, tables.slopes[i]? = some slope ∧
          LinearIn tables (i + 1) slope options.totalScore data prediction.linear := by
  have hrows := (ofTables_eq_ok_iff.mp hmodel).1
  -- Item by item: the columns that the equation reads are those of rows that are used.
  have heval : ∀ (i : Nat) (item : Item), model.items[i]? = some item → ∃ slope prediction,
      tables.slopes[i]? = some slope ∧
      (item.equation options.totalScore).evaluate data options.naming = .ok prediction ∧
      prediction.columns = options.naming.forItem (i + 1) ∧
      (∀ column ∈ prediction.derived, column.values.size = data.rowCount) ∧
      LinearIn tables (i + 1) slope options.totalScore data prediction.linear := by
    intro i item hitem
    obtain ⟨slope, hslope, hfinite, hisItem⟩ := isItem_of_getElem? hmodel hitem
    have hcolumns : ∀ column ∈ item.columns, data.FiniteIn column := by
      intro column hcolumn
      obtain ⟨row, hused, -, rfl⟩ := hisItem.mem_columns.mp hcolumn
      exact hready.finite row hused
    obtain ⟨prediction, hprediction, -, hrest⟩ := Item.exists_prediction hrows hfinite hisItem
      hready.finiteScore hcolumns options.naming
    exact ⟨slope, prediction, hslope, hprediction, hrest⟩
  have hall : ∀ equation ∈ model.equations options.totalScore, ∃ prediction,
      equation.evaluate data options.naming = .ok prediction := by
    intro equation hequation
    obtain ⟨item, hitem, rfl⟩ := List.mem_map.mp hequation
    obtain ⟨i, hi⟩ := List.mem_iff_getElem?.mp hitem
    obtain ⟨-, prediction, -, hprediction, -⟩ := heval i item hi
    exact ⟨prediction, hprediction⟩
  obtain ⟨items, hitems⟩ := exists_mapM_eq_ok hall
  have hforall := mapM_eq_ok.mp hitems
  have hlength : items.length = model.itemCount := by
    rw [← hforall.length_eq, equations, List.length_map, itemCount]
  refine ⟨items, hitems, hlength, fun i prediction hprediction => ?_⟩
  obtain ⟨hlt, -⟩ := List.getElem?_eq_some_iff.mp hprediction
  have hitem := List.getElem?_eq_getElem (Nat.lt_of_lt_of_eq hlt hlength)
  obtain ⟨slope, found, hslope, hfound, hrest⟩ := heval i _ hitem
  have hequation : (model.equations options.totalScore)[i]? =
      some (model.items[i].equation options.totalScore) := by
    rw [equations, List.getElem?_map, hitem, Option.map_some]
  -- The prediction at a position is that of the item there.
  obtain ⟨other, hother, hevaluated⟩ := forall₂_getElem? hforall hequation
  obtain rfl := Except.ok.inj (hfound.symm.trans hevaluated)
  obtain rfl := Option.some.inj (hother.symm.trans hprediction)
  exact ⟨hrest.1, hrest.2.1, slope, hslope, hrest.2.2⟩

theorem ColumnNaming.mem_derivedNames_iff {naming : ColumnNaming} {itemCount : Nat}
    {name : String} : name ∈ naming.derivedNames itemCount ↔
      ∃ item, (1 ≤ item ∧ item ≤ itemCount) ∧ name ∈ naming.itemNames item := by
  rw [derivedNames, List.mem_flatMap]
  constructor
  · rintro ⟨i, hi, hname⟩
    have hlt := List.mem_range.mp hi
    exact ⟨i + 1, ⟨by omega, by omega⟩, hname⟩
  · rintro ⟨item, ⟨hpos, hle⟩, hname⟩
    refine ⟨item - 1, List.mem_range.mpr (by omega), ?_⟩
    rwa [Nat.sub_add_cancel hpos]

theorem derivedNames_eq {items : List ItemPrediction} {count : Nat}
    (hlength : items.length = count) (hcolumns : ∀ (i : Nat) (prediction : ItemPrediction),
      items[i]? = some prediction → prediction.columns = options.naming.forItem (i + 1)) :
    (items.flatMap ItemPrediction.derived).map Column.name =
      options.naming.derivedNames count := by
  have hnames : items.map ItemPrediction.columns =
      (List.range count).map fun i => options.naming.forItem (i + 1) := by
    refine List.ext_getElem? fun i => ?_
    rw [List.getElem?_map, List.getElem?_map]
    -- Both lists end at the same position.
    cases hitem : items[i]? with
    | none =>
        have hge := List.getElem?_eq_none_iff.mp hitem
        rw [List.getElem?_eq_none (by simpa [hlength] using hge)]
        rfl
    | some prediction =>
        obtain ⟨hlt, -⟩ := List.getElem?_eq_some_iff.mp hitem
        rw [List.getElem?_range (hlength ▸ hlt), Option.map_some, Option.map_some,
          hcolumns i prediction hitem]
  have hflat : (items.flatMap ItemPrediction.derived).map Column.name =
      (items.map ItemPrediction.columns).flatMap DerivedColumns.names := by
    simp [List.map_flatMap, List.flatMap_map, ItemPrediction.derived, DerivedColumns.names]
  rw [hflat, hnames, ColumnNaming.derivedNames, List.flatMap_map]
  rfl

/-! ### Success and refusal -/

/-- All that is needed for a prediction: its inputs are ready and its derived names are
distinct. -/
structure PredictionReady (tables : ModelTables) (data : Dataset) (options : PredictionOptions) :
    Prop where
  inputs : InputsReady tables data options
  distinct : (options.naming.derivedNames tables.slopes.length).Nodup

/-- Why a prediction is refused: by its inputs, or else by the first derived name that
repeats an earlier one. -/
inductive PredictionRefused (tables : ModelTables) (data : Dataset) (options : PredictionOptions) :
    PredictionError → Prop
  | inputs {e : PredictionError} (refused : InputsRefused tables data options e) :
      PredictionRefused tables data options e
  | repeated {before after : List String} {name : String} (ready : InputsReady tables data options)
      (names_eq : options.naming.derivedNames tables.slopes.length = before ++ name :: after)
      (distinct : before.Nodup) (mem : name ∈ before) :
      PredictionRefused tables data options (.dataset (.duplicateColumn name))

theorem Model.predict_eq (model : Model) (data : Dataset) (options : PredictionOptions) :
    model.predict data options = (model.checkInputs data options >>= fun _ =>
      (model.equations options.totalScore).mapM (ItemEquation.evaluate data options.naming) >>=
        fun items => match data.pushAll (items.flatMap ItemPrediction.derived) with
          | .ok dataset =>
            .ok { equations := model.equations options.totalScore, items, dataset }
          | .error error => .error (.dataset error)) := rfl

/-- Inputs that are refused are all that is looked at. -/
theorem Model.predict_of_refused (hmodel : Model.ofTables tables = .ok model)
    (hdata : data.Consistent) {e : PredictionError}
    (hrefused : InputsRefused tables data options e) : model.predict data options = .error e := by
  rw [predict_eq, (checkInputs_eq_error_iff hmodel hdata).mpr hrefused, error_bind]

/-- With all equations evaluated, a prediction comes to what appending its columns comes
to. -/
theorem Model.predict_of_items {items : List ItemPrediction}
    (hinputs : model.checkInputs data options = .ok ())
    (hitems : (model.equations options.totalScore).mapM
      (ItemEquation.evaluate data options.naming) = .ok items) :
    ((∃ predictions, model.predict data options = .ok predictions) ↔
      ∃ next, data.pushAll (items.flatMap ItemPrediction.derived) = .ok next) ∧
    ∀ e, model.predict data options = .error e ↔
      ∃ error, data.pushAll (items.flatMap ItemPrediction.derived) = .error error ∧
        e = .dataset error := by
  rw [predict_eq, hinputs, ok_bind, hitems, ok_bind]
  cases data.pushAll (items.flatMap ItemPrediction.derived) <;> simp [eq_comm]

/-- No derived name is a column of the inputs. -/
theorem InputsReady.derived_free (hready : InputsReady tables data options) :
    ∀ name ∈ options.naming.derivedNames tables.slopes.length, name ∉ data.names := by
  intro name hname
  obtain ⟨item, ⟨hpos, hle⟩, hname⟩ := ColumnNaming.mem_derivedNames_iff.mp hname
  exact (hready.items item hpos hle).free name hname

/-- Names apart from distinct ones are distinct together with them if they are distinct. -/
theorem nodup_append_of_free {taken names : List String} (htaken : taken.Nodup)
    (hfree : ∀ name ∈ names, name ∉ taken) : (taken ++ names).Nodup ↔ names.Nodup := by
  rw [List.nodup_append]
  constructor
  · intro h
    exact h.2.1
  · intro hnames
    refine ⟨htaken, hnames, ?_⟩
    intro a ha b hb hab
    exact hfree b hb (hab ▸ ha)

/-- With inputs that are ready, only the derived names can be refused. -/
theorem Model.predict_of_ready (hmodel : Model.ofTables tables = .ok model)
    (hdata : data.Consistent) (hready : InputsReady tables data options) :
    ((∃ predictions, model.predict data options = .ok predictions) ↔
      (options.naming.derivedNames tables.slopes.length).Nodup) ∧
    ∀ e, model.predict data options = .error e ↔
      ∃ before name after,
        options.naming.derivedNames tables.slopes.length = before ++ name :: after ∧
        before.Nodup ∧ name ∈ before ∧ e = .dataset (.duplicateColumn name) := by
  obtain ⟨items, hitems, hlength, hprops⟩ := exists_items hmodel hready
  have hsizes : ∀ column ∈ items.flatMap ItemPrediction.derived,
      column.values.size = data.rowCount := by
    intro column hcolumn
    obtain ⟨prediction, hprediction, hcolumn⟩ := List.mem_flatMap.mp hcolumn
    obtain ⟨i, hi⟩ := List.mem_iff_getElem?.mp hprediction
    exact (hprops i prediction hi).2.1 column hcolumn
  have hnames : (items.flatMap ItemPrediction.derived).map Column.name =
      options.naming.derivedNames tables.slopes.length :=
    derivedNames_eq (hlength.trans (itemCount_eq hmodel)) fun i prediction h =>
      (hprops i prediction h).1
  have hfree := hready.derived_free
  have hpush := hdata.pushAll_eq_ok_iff hready.columnCount_pos hsizes
  have herror := fun e => hdata.pushAll_eq_error_iff hready.columnCount_pos hsizes (e := e)
  rw [hnames, nodup_append_of_free hdata.nodup_names hfree] at hpush
  simp only [hnames] at herror
  have hinputs := (checkInputs_eq_ok_iff hmodel hdata).mpr hready
  obtain ⟨hok, hrefused⟩ := predict_of_items hinputs hitems
  refine ⟨hok.trans hpush, fun e => (hrefused e).trans ?_⟩
  -- The columns of the data come before all derived names and repeat none of them.
  constructor
  · rintro ⟨error, hpushAll, rfl⟩
    obtain ⟨before, name, after, hsplit, hnodup, hmem, rfl⟩ := (herror error).mp hpushAll
    have hnew : name ∉ data.names := hfree name (by simp [hsplit])
    exact ⟨before, name, after, hsplit, (List.nodup_append.mp hnodup).2.1,
      (List.mem_append.mp hmem).resolve_left hnew, rfl⟩
  · rintro ⟨before, name, after, hsplit, hnodup, hmem, rfl⟩
    have hbefore : ∀ other ∈ before, other ∉ data.names := by
      intro other hother
      exact hfree other (by simp [hsplit, hother])
    exact ⟨_, (herror _).mpr ⟨before, name, after, hsplit,
      (nodup_append_of_free hdata.nodup_names hbefore).mpr hnodup,
      List.mem_append_right _ hmem, rfl⟩, rfl⟩

theorem Model.exists_predict (hmodel : Model.ofTables tables = .ok model) (hdata : data.Consistent)
    (hinputs : model.checkInputs data options = .ok ())
    (hdistinct : (options.naming.derivedNames tables.slopes.length).Nodup) :
    ∃ predictions, model.predict data options = .ok predictions :=
  (predict_of_ready hmodel hdata ((checkInputs_eq_ok_iff hmodel hdata).mp hinputs)).1.mpr hdistinct

/-- A prediction succeeds exactly if everything is ready for it, and is refused exactly
for the first thing that is wrong otherwise. -/
theorem predict_outcome (hmodel : Model.ofTables tables = .ok model) (hdata : data.Consistent) :
    ((∃ predictions, model.predict data options = .ok predictions) ↔
      PredictionReady tables data options) ∧
    ∀ e, model.predict data options = .error e ↔ PredictionRefused tables data options e := by
  -- Inputs that are refused are reported; otherwise appending the derived columns decides.
  cases hinputs : model.checkInputs data options with
  | error refusal =>
      have hrefused := (Model.checkInputs_eq_error_iff hmodel hdata).mp hinputs
      have hnotready : ¬ InputsReady tables data options := by
        intro hready
        rw [(Model.checkInputs_eq_ok_iff hmodel hdata).mpr hready] at hinputs
        contradiction
      simp only [Model.predict_eq, hinputs, error_bind]
      refine ⟨⟨by simp, fun h => absurd h.inputs hnotready⟩, fun e => ⟨?_, ?_⟩⟩
      · intro he
        obtain rfl := Except.error.inj he
        exact .inputs hrefused
      · rintro (hagain | ⟨hready, -⟩)
        · have herror := (Model.checkInputs_eq_error_iff hmodel hdata).mpr hagain
          obtain rfl := Except.error.inj (hinputs.symm.trans herror)
          rfl
        · exact absurd hready hnotready
  | ok _ =>
      have hready := (Model.checkInputs_eq_ok_iff hmodel hdata).mp hinputs
      obtain ⟨hok, herror⟩ := Model.predict_of_ready hmodel hdata hready
      refine ⟨hok.trans ⟨fun h => ⟨hready, h⟩, fun h => h.distinct⟩, fun e => (herror e).trans ?_⟩
      constructor
      · rintro ⟨before, name, after, hsplit, hnodup, hmem, rfl⟩
        exact .repeated hready hsplit hnodup hmem
      · rintro (hagain | ⟨-, hsplit, hnodup, hmem⟩)
        · rw [(Model.checkInputs_eq_error_iff hmodel hdata).mpr hagain] at hinputs
          contradiction
        · exact ⟨_, _, _, hsplit, hnodup, hmem, rfl⟩

/-- Records of which the second has no age. -/
def agelessData : Dataset where
  columns := #[⟨"age", #[40, 0 / 0]⟩, ⟨"score", #[3, 4]⟩]
  index := .ofList [("age", 0), ("score", 1)]

/-- Whatever the inputs, the second derived name repeats the first if all stems are the
same; and a missing age is in the way of all predictions, as there is a split on the age. -/
theorem predict_outcome_repeated :
    Model.ofTables ageTables = .ok ageModel ∧ ageData.Consistent ∧
      ageModel.predict ageData { totalScore := "score", naming := ⟨"q", "q", "q"⟩ } =
        .error (.dataset (.duplicateColumn "q1")) ∧
      agelessData.Consistent ∧ ageModel.predict agelessData { totalScore := "score" } =
        .error (.nonFiniteValue "age" 1) := by
  have hmodel : Model.ofTables ageTables = .ok ageModel := by decide +kernel
  have hbuilt : Dataset.ofColumns ageData.columns.toList = .ok ageData := rfl
  have hdata := Dataset.consistent_of_ofColumns hbuilt
  have hbuiltAgeless : Dataset.ofColumns agelessData.columns.toList = .ok agelessData := rfl
  have hageless := Dataset.consistent_of_ofColumns hbuiltAgeless
  refine ⟨hmodel, hdata, ((predict_outcome hmodel hdata).2 _).mpr ?_, hageless,
    ((predict_outcome hmodel hageless).2 _).mpr (.inputs ?_)⟩
  · have hready : InputsReady ageTables ageData
        { totalScore := "score", naming := ⟨"q", "q", "q"⟩ } :=
      (Model.checkInputs_eq_ok_iff hmodel hdata).mp (by decide +kernel)
    have hnames : ColumnNaming.derivedNames ⟨"q", "q", "q"⟩ ageTables.slopes.length =
        ["q1"] ++ "q1" :: ["q1", "q2", "q2", "q2"] := by decide +kernel
    exact .repeated hready hnames (by simp) (by simp)
  · have hrow : ∀ row, ageTables.Uses row → row = ⟨1, 1, some 2, some 3, "age", 40⟩ := by
      intro row hused
      simpa [ageTables] using hused.mem
    have hused : ageTables.Uses ⟨1, 1, some 2, some 3, "age", 40⟩ :=
      ⟨by simp [ageTables], ⟨1, 2, 0.5⟩, by simp [ageTables], rfl⟩
    -- The columns are there, missing age or not.
    have hclear : ∀ item, 1 ≤ item → item ≤ ageTables.slopes.length →
        ItemClear ageTables agelessData {} item := by
      intro item hpos hle
      refine ⟨fun row hused _ => ?_, ?_⟩
      · rw [hrow row hused]
        decide +kernel
      · obtain rfl | rfl : item = 1 ∨ item = 2 := by
          have hcount : ageTables.slopes.length = 2 := rfl
          omega
        · decide +kernel
        · decide +kernel
    have hscore : agelessData.FiniteIn "score" :=
      (hageless.checkFinite_eq_ok_iff (by decide +kernel)).mp (by decide +kernel)
    have hoffends : agelessData.OffendsAt "age" 1 := ⟨0 / 0, rfl, by decide +kernel⟩
    refine .splitColumn (by decide +kernel) hclear hscore hused ?_ hoffends ?_
    · intro other hother hless
      rw [hrow other hother] at hless
      exact absurd hless hless.asymm
    · intro earlier hlt
      obtain rfl : earlier = 0 := by omega
      rintro ⟨value, hvalue, hnot⟩
      obtain rfl : 40 = value := Option.some.inj hvalue
      exact absurd hnot (by decide +kernel)

/-! ### Linear predictors -/

/-- The linear predictor of every item on every row is its slope times the total score
plus the intercept that plain descent finds. -/
theorem predict_linear_eq (hmodel : Model.ofTables tables = .ok model) (hdata : data.Consistent)
    {predictions : Predictions} (hpredict : model.predict data options = .ok predictions)
    {i : Nat} {slope : Float} (hslope : tables.slopes[i]? = some slope) :
    ∃ prediction, predictions.items[i]? = some prediction ∧
      LinearIn tables (i + 1) slope options.totalScore data prediction.linear := by
  rw [Model.predict_eq, bind_eq_ok] at hpredict
  obtain ⟨⟨⟩, hinputs, hpredict⟩ := hpredict
  obtain ⟨items, hitems, hlength, hprops⟩ :=
    Model.exists_items hmodel ((Model.checkInputs_eq_ok_iff hmodel hdata).mp hinputs)
  rw [hitems, ok_bind] at hpredict
  -- Appending the columns may fail, but leaves the results as they are.
  have hsame : predictions.items = items := by
    split at hpredict
    · rw [← Except.ok.inj hpredict]
    · contradiction
  have hlt : i < items.length := by
    rw [hlength, Model.itemCount_eq hmodel]
    exact (List.getElem?_eq_some_iff.mp hslope).1
  have hprediction := List.getElem?_eq_getElem hlt
  obtain ⟨-, -, found, hfound, hlinear⟩ := hprops i _ hprediction
  obtain rfl := Option.some.inj (hslope.symm.trans hfound)
  exact ⟨_, hsame ▸ hprediction, hlinear⟩

/-- The records with an age can be scored. -/
theorem exists_predict_ageModel :
    ∃ predictions, ageModel.predict ageData { totalScore := "score" } = .ok predictions :=
  Model.exists_predict ofTables_ageTables consistent_ageData (by decide +kernel) (by decide +kernel)

/-- On the threshold a record belongs to the left leaf. -/
theorem predict_linear_at_threshold :
    ∃ predictions, Model.ofTables ageTables = .ok ageModel ∧ ageData.Consistent ∧
      ageModel.predict ageData { totalScore := "score" } = .ok predictions ∧
      ∃ prediction n, predictions.items[0]? = some prediction ∧
        prediction.linear[0]? = some n ∧ (n == 1.5 * 3 + 0.5) = true := by
  have hmodel : Model.ofTables ageTables = .ok ageModel := by decide +kernel
  have hbuilt : Dataset.ofColumns ageData.columns.toList = .ok ageData := rfl
  have hdata := Dataset.consistent_of_ofColumns hbuilt
  obtain ⟨predictions, hpredict⟩ := exists_predict_ageModel
  have hslope : ageTables.slopes[0]? = some 1.5 := rfl
  obtain ⟨prediction, hprediction, hlinear⟩ := predict_linear_eq hmodel hdata hpredict hslope
  obtain ⟨score, c, n, hscore, hintercept, hn, hbeq⟩ := hlinear.value_eq 0 (by decide +kernel)
  refine ⟨predictions, hmodel, hdata, hpredict, prediction, n, hprediction, hn, ?_⟩
  obtain rfl : 3 = score := Option.some.inj hscore
  -- The walk of the record goes down by hand: a split row, then a leaf row.
  have hwalk : HasIntercept ageTables 1 (ageData.record 0) 0.5 := by
    have hrow : (⟨1, 1, some 2, some 3, "age", 40⟩ : Split) ∈ ageTables.splits := by
      simp [ageTables]
    have hleaf : (⟨1, 2, 0.5⟩ : LeafRow) ∈ ageTables.leaves := by simp [ageTables]
    have hage : (ageData.record 0).value? "age" = some 40 := rfl
    exact .leaf (.low hrow rfl hage (by decide) rfl (.leaf hleaf rfl))
  rw [(hintercept 0.5).mp hwalk]
  exact hbeq

end ItemScoring
