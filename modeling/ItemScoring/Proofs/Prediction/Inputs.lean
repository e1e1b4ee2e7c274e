import ItemScoring.Prediction.Basic
import ItemScoring.Proofs.Dataset
import ItemScoring.Proofs.Model.SplitRows

/-!
# The checks before a prediction

Before anything is evaluated the columns of a dataset are looked over, first item by
item and then column by column.  This file says for each check when it passes, and
which defect it reports otherwise.  It does so by the tables of the model: what is read is
the total score and the columns of the split rows that are used, and what comes first
among them is told by the items and the numbers of the rows.
-/

namespace ItemScoring

/-! ### Columns -/

namespace Dataset

variable {data : Dataset} {name : String}

/-- The column is finite in every row. -/
def FiniteIn (data : Dataset) (name : String) : Prop :=
  ∀ row < data.rowCount, ∃ value, (data.record row).value? name = some value ∧
    value.isFinite = true

/-- The value in this row is infinite or not a number. -/
def OffendsAt (data : Dataset) (name : String) (row : Nat) : Prop :=
  ∃ value, (data.record row).value? name = some value ∧ value.isFinite = false

theorem Consistent.checkFinite_eq_ok_iff (h : data.Consistent) (hname : name ∈ data.names) :
    data.checkFinite name = .ok () ↔ data.FiniteIn name := by
  obtain ⟨values, hvalues, hsize⟩ := h.exists_values hname
  have hcheck : data.checkFinite name = .ok () ↔
      values.findIdx? (fun value => !value.isFinite) = none := by
    simp only [checkFinite, hvalues]
    cases values.findIdx? fun value => !value.isFinite <;> simp
  rw [hcheck, Array.findIdx?_eq_none_iff, FiniteIn]
  simp only [value?_record hvalues, ← hsize, Bool.not_eq_false']
  constructor
  · intro hall row hrow
    exact ⟨_, Array.getElem?_eq_getElem hrow, hall _ (Array.getElem_mem hrow)⟩
  · intro hall value hmem
    obtain ⟨row, hrow, rfl⟩ := Array.mem_iff_getElem.mp hmem
    obtain ⟨found, hfound, hfinite⟩ := hall row hrow
    rw [Array.getElem?_eq_getElem hrow, Option.some.injEq] at hfound
    rwa [hfound]

theorem Consistent.checkFinite_eq_error_iff (h : data.Consistent) (hname : name ∈ data.names)
    {e : PredictionError} : data.checkFinite name = .error e ↔
      ∃ row, data.OffendsAt name row ∧ (∀ earlier < row, ¬ data.OffendsAt name earlier) ∧
        e = .nonFiniteValue name row := by
  obtain ⟨values, hvalues, -⟩ := h.exists_values hname
  have hoffends : ∀ row, data.OffendsAt name row ↔
      ∃ hrow : row < values.size, (!values[row].isFinite) = true := by
    intro row
    rw [OffendsAt, value?_record hvalues]
    simp only [Array.getElem?_eq_some_iff, Bool.not_eq_true']
    constructor
    · rintro ⟨_, ⟨hrow, rfl⟩, hnot⟩
      exact ⟨hrow, hnot⟩
    · rintro ⟨hrow, hnot⟩
      exact ⟨_, ⟨hrow, rfl⟩, hnot⟩
  have hcheck : data.checkFinite name = .error e ↔ ∃ row,
      values.findIdx? (fun value => !value.isFinite) = some row ∧ e = .nonFiniteValue name row := by
    simp only [checkFinite, hvalues]
    cases values.findIdx? fun value => !value.isFinite <;> simp [eq_comm]
  rw [hcheck]
  refine exists_congr fun row => ?_
  rw [← and_assoc, Array.findIdx?_eq_some_iff_getElem, hoffends]
  -- The first position in the list of values is the least row that offends.
  refine and_congr_left fun _ => ⟨?_, ?_⟩
  · rintro ⟨hrow, hnot, hearlier⟩
    refine ⟨⟨hrow, hnot⟩, fun earlier hlt => ?_⟩
    rw [hoffends]
    rintro ⟨_, hbad⟩
    exact hearlier earlier hlt hbad
  · rintro ⟨⟨hrow, hnot⟩, hearlier⟩
    refine ⟨hrow, hnot, fun earlier hlt hbad => hearlier earlier hlt ?_⟩
    exact (hoffends earlier).mpr ⟨Nat.lt_trans hlt hrow, hbad⟩

end Dataset

/-! ### Items -/

/-- The derived names of an item: linear predictor, probability, class. -/
def ColumnNaming.itemNames (naming : ColumnNaming) (item : Nat) : List String :=
  [s!"{naming.linear}{item}", s!"{naming.probability}{item}", s!"{naming.prediction}{item}"]

/-- Why an item cannot be predicted on a dataset: the row with the least number whose column
is absent, or, if all columns are there, the first of the derived names that is taken. -/
inductive ItemRefused (tables : ModelTables) (data : Dataset) (naming : ColumnNaming)
    (item : Nat) : PredictionError → Prop
  | absent {row : Split} (used : tables.Uses row) (of_item : row.item = item)
      (absent : row.column ∉ data.names)
      (before : ∀ other, tables.Uses other → other.item = item → other.number < row.number →
        other.column ∈ data.names) :
      ItemRefused tables data naming item (.unresolvedVariable item row.column none)
  | taken {name : String}
      (present : ∀ row, tables.Uses row → row.item = item → row.column ∈ data.names)
      (first : FirstIn (· ∈ data.names) (naming.itemNames item) name) :
      ItemRefused tables data naming item (.outputColumnExists name)

/-- The columns of all rows of an item are there, and none of its derived names is taken. -/
structure ItemClear (tables : ModelTables) (data : Dataset) (naming : ColumnNaming)
    (item : Nat) : Prop where
  present : ∀ row, tables.Uses row → row.item = item → row.column ∈ data.names
  free : ∀ name ∈ naming.itemNames item, name ∉ data.names

section Items

variable {tables : ModelTables} {data : Dataset} {naming : ColumnNaming} {number : Nat}
  {slope : Float} {item : Item}

theorem find?_absent_iff (h : data.Consistent) {names : List String} {name : String} :
    (names.find? fun name => !data.hasColumn name) = some name ↔
      FirstIn (· ∉ data.names) names name := by
  rw [find?_eq_some_iff_firstIn]
  refine firstIn_congr fun name _ => ?_
  rw [Bool.not_eq_true', h.hasColumn_eq_false_iff]

theorem find?_taken_iff (h : data.Consistent) {names : List String} {name : String} :
    names.find? data.hasColumn = some name ↔ FirstIn (· ∈ data.names) names name := by
  rw [find?_eq_some_iff_firstIn]
  exact firstIn_congr fun name _ => h.hasColumn_iff

theorem find?_absent_eq_none_iff (h : data.Consistent) {names : List String} :
    (names.find? fun name => !data.hasColumn name) = none ↔ ∀ name ∈ names, name ∈ data.names := by
  simp [h.hasColumn_iff]

theorem find?_taken_eq_none_iff (h : data.Consistent) {names : List String} :
    names.find? data.hasColumn = none ↔ ∀ name ∈ names, name ∉ data.names := by
  simp [h.hasColumn_eq_false_iff]

theorem forall_mem_columns_iff (hitem : tables.IsItem number slope item) {P : String → Prop} :
    (∀ column ∈ item.columns, P column) ↔
      ∀ row, tables.Uses row → row.item = number → P row.column := by
  simp only [hitem.mem_columns]
  constructor
  · intro hall row hused hof
    exact hall _ ⟨row, hused, hof, rfl⟩
  · rintro hall _ ⟨row, hused, hof, rfl⟩
    exact hall row hused hof

theorem names_forItem (naming : ColumnNaming) (item : Nat) :
    (naming.forItem item).names = naming.itemNames item := rfl

theorem checkColumns_eq_ok_iff (hitem : tables.IsItem number slope item) (h : data.Consistent) :
    item.checkColumns data naming = .ok () ↔ ItemClear tables data naming number := by
  rw [Item.checkColumns, hitem.number_eq, names_forItem]
  constructor
  · intro hcheck
    split at hcheck
    · simp at hcheck
    next hcolumn =>
      split at hcheck
      · simp at hcheck
      next hname =>
        exact ⟨(forall_mem_columns_iff hitem).mp ((find?_absent_eq_none_iff h).mp hcolumn),
          (find?_taken_eq_none_iff h).mp hname⟩
  · rintro ⟨hcolumns, hnames⟩
    rw [(find?_absent_eq_none_iff h).mpr ((forall_mem_columns_iff hitem).mpr hcolumns),
      (find?_taken_eq_none_iff h).mpr hnames]

theorem checkColumns_eq_error_iff (hitem : tables.IsItem number slope item) (h : data.Consistent)
    {e : PredictionError} :
    item.checkColumns data naming = .error e ↔ ItemRefused tables data naming number e := by
  have hfirst : ∀ column, FirstIn (· ∉ data.names) item.columns column ↔ ∃ row,
      tables.Uses row ∧ row.item = number ∧ row.column ∉ data.names ∧
        (∀ other, tables.Uses other → other.item = number → other.number < row.number →
          other.column ∈ data.names) ∧ row.column = column := by
    intro column
    rw [hitem.firstIn_columns]
    simp only [not_not]
  rw [Item.checkColumns, hitem.number_eq, names_forItem]
  constructor
  · intro hcheck
    -- Columns are looked for before names, so a name is reported only if all columns are there.
    split at hcheck
    next column hcolumn =>
      obtain rfl := Except.error.inj hcheck
      obtain ⟨row, hused, hof, habsent, hbefore, rfl⟩ :=
        (hfirst column).mp ((find?_absent_iff h).mp hcolumn)
      exact .absent hused hof habsent hbefore
    next hcolumn =>
      split at hcheck
      next name hname =>
        obtain rfl := Except.error.inj hcheck
        exact .taken ((forall_mem_columns_iff hitem).mp ((find?_absent_eq_none_iff h).mp hcolumn))
          ((find?_taken_iff h).mp hname)
      · simp at hcheck
  · rintro (⟨hused, hof, habsent, hbefore⟩ | ⟨hpresent, hname⟩)
    · rw [(find?_absent_iff h).mpr ((hfirst _).mpr ⟨_, hused, hof, habsent, hbefore, rfl⟩)]
    · rw [(find?_absent_eq_none_iff h).mpr ((forall_mem_columns_iff hitem).mpr hpresent),
        (find?_taken_iff h).mpr hname]

end Items

/-! ### All checks -/

/-- The inputs of a prediction are in order: every column that is read is there and
finite, and no derived name is taken. -/
structure InputsReady (tables : ModelTables) (data : Dataset) (options : PredictionOptions) :
    Prop where
  totalScore : options.totalScore ∈ data.names
  items : ∀ item, 1 ≤ item → item ≤ tables.slopes.length →
    ItemClear tables data options.naming item
  finiteScore : data.FiniteIn options.totalScore
  finite : ∀ row, tables.Uses row → data.FiniteIn row.column

theorem InputsReady.columnCount_pos {tables : ModelTables} {data : Dataset}
    {options : PredictionOptions} (hready : InputsReady tables data options) :
    0 < data.columnCount := by
  rw [← Dataset.length_names]
  exact List.length_pos_of_mem hready.totalScore

/-- Why the inputs of a prediction are refused: the column of total scores is absent;
otherwise by the first item that is not clear; otherwise by the first value that is not
finite, among the total scores or else in the column of the first row whose column has one. -/
inductive InputsRefused (tables : ModelTables) (data : Dataset) (options : PredictionOptions) :
    PredictionError → Prop
  | missingColumn (absent : options.totalScore ∉ data.names) :
      InputsRefused tables data options (.missingColumn options.totalScore)
  | item {item : Nat} {e : PredictionError} (present : options.totalScore ∈ data.names)
      (inside : 1 ≤ item ∧ item ≤ tables.slopes.length)
      (refused : ItemRefused tables data options.naming item e)
      (clear : ∀ smaller, 1 ≤ smaller → smaller < item →
        ItemClear tables data options.naming smaller) :
      InputsRefused tables data options e
  | totalScore {row : Nat} (present : options.totalScore ∈ data.names)
      (clear : ∀ item, 1 ≤ item → item ≤ tables.slopes.length →
        ItemClear tables data options.naming item)
      (offends : data.OffendsAt options.totalScore row)
      (earlier : ∀ earlier < row, ¬ data.OffendsAt options.totalScore earlier) :
      InputsRefused tables data options (.nonFiniteValue options.totalScore row)
  | splitColumn {split : Split} {row : Nat} (present : options.totalScore ∈ data.names)
      (clear : ∀ item, 1 ≤ item → item ≤ tables.slopes.length →
        ItemClear tables data options.naming item)
      (finite : data.FiniteIn options.totalScore) (used : tables.Uses split)
      (before : ∀ other, tables.Uses other → other.Before split → data.FiniteIn other.column)
      (offends : data.OffendsAt split.column row)
      (earlier : ∀ earlier < row, ¬ data.OffendsAt split.column earlier) :
      InputsRefused tables data options (.nonFiniteValue split.column row)

namespace Model

variable {tables : ModelTables} {model : Model} {data : Dataset} {options : PredictionOptions}

theorem checkInputs_eq (model : Model) (data : Dataset) (options : PredictionOptions) :
    model.checkInputs data options =
      if data.hasColumn options.totalScore = true then
        (model.items.forM (Item.checkColumns data options.naming) >>= fun _ =>
          (model.inputs options.totalScore).forM data.checkFinite)
      else .error (.missingColumn options.totalScore) := by
  rw [checkInputs]
  cases data.hasColumn options.totalScore <;> rfl

/-! #### Item by item -/

theorem forM_checkColumns_eq_ok_iff (hmodel : ofTables tables = .ok model)
    (h : data.Consistent) {naming : ColumnNaming} :
    model.items.forM (Item.checkColumns data naming) = .ok () ↔
      ∀ item, 1 ≤ item → item ≤ tables.slopes.length → ItemClear tables data naming item := by
  rw [forM_eq_ok]
  constructor
  · intro hall number hpos hle
    obtain ⟨slope, item, hitem, hisItem⟩ := exists_item hmodel hpos hle
    exact (checkColumns_eq_ok_iff hisItem h).mp (hall item hitem)
  · intro hall item hitem
    obtain ⟨number, slope, hisItem⟩ := exists_isItem hmodel hitem
    obtain ⟨hpos, hle⟩ := number_bounds hmodel hitem
    rw [hisItem.number_eq] at hpos hle
    exact (checkColumns_eq_ok_iff hisItem h).mpr (hall number hpos hle)

/-- Items are refused for the one with the least number that is not clear. -/
theorem forM_checkColumns_eq_error_iff (hmodel : ofTables tables = .ok model)
    (h : data.Consistent) {naming : ColumnNaming} {e : PredictionError} :
    model.items.forM (Item.checkColumns data naming) = .error e ↔ ∃ item,
      (1 ≤ item ∧ item ≤ tables.slopes.length) ∧ ItemRefused tables data naming item e ∧
        ∀ smaller, 1 ≤ smaller → smaller < item → ItemClear tables data naming smaller := by
  rw [forM_eq_error]
  -- The items are ordered by their numbers: what comes before an item is what has a smaller one.
  simp only [firstIn_iff_of_pairwise (pairwise_items hmodel) fun _ => Nat.lt_asymm, not_not]
  constructor
  · rintro ⟨item, ⟨hitem, -, hless⟩, hrefused⟩
    obtain ⟨number, slope, hisItem⟩ := exists_isItem hmodel hitem
    have hbounds := number_bounds hmodel hitem
    rw [hisItem.number_eq] at hbounds
    refine ⟨number, hbounds, (checkColumns_eq_error_iff hisItem h).mp hrefused, ?_⟩
    intro smaller hpos hsmaller
    obtain ⟨_, other, hother, hisOther⟩ := exists_item hmodel hpos (by omega)
    apply (checkColumns_eq_ok_iff hisOther h).mp
    exact hless other hother (by rwa [hisOther.number_eq, hisItem.number_eq])
  · rintro ⟨number, ⟨hpos, hle⟩, hrefused, hclear⟩
    obtain ⟨slope, item, hitem, hisItem⟩ := exists_item hmodel hpos hle
    have herror := (checkColumns_eq_error_iff hisItem h).mpr hrefused
    refine ⟨item, ⟨hitem, by simp [herror], fun other hother hless => ?_⟩, herror⟩
    obtain ⟨smaller, _, hisOther⟩ := exists_isItem hmodel hother
    rw [hisOther.number_eq, hisItem.number_eq] at hless
    have hbound := (number_bounds hmodel hother).1
    rw [hisOther.number_eq] at hbound
    exact (checkColumns_eq_ok_iff hisOther h).mpr (hclear smaller hbound hless)

/-! #### Column by column -/

theorem mem_inputs (hmodel : ofTables tables = .ok model) {name : String} :
    name ∈ model.inputs options.totalScore ↔
      name = options.totalScore ∨ ∃ row, tables.Uses row ∧ row.column = name := by
  rw [inputs, List.mem_eraseDups, List.mem_cons, mem_splitColumns_iff_uses hmodel]

theorem column_mem_of_clear (hmodel : ofTables tables = .ok model)
    (hclear : ∀ item, 1 ≤ item → item ≤ tables.slopes.length →
      ItemClear tables data options.naming item) {row : Split} (hused : tables.Uses row) :
    row.column ∈ data.names := by
  obtain ⟨hrows, -⟩ := ofTables_eq_ok_iff.mp hmodel
  obtain ⟨⟨hpos, hle⟩, -⟩ := hrows.splits row hused.mem
  exact (hclear row.item hpos hle).present row hused rfl

/-- With all items clear, the columns that are looked through are there. -/
theorem inputs_present (hmodel : ofTables tables = .ok model)
    (htotal : options.totalScore ∈ data.names)
    (hclear : ∀ item, 1 ≤ item → item ≤ tables.slopes.length →
      ItemClear tables data options.naming item) :
    ∀ name ∈ model.inputs options.totalScore, name ∈ data.names := by
  intro name hname
  rcases (mem_inputs hmodel).mp hname with rfl | ⟨row, hused, rfl⟩
  · exact htotal
  · exact column_mem_of_clear hmodel hclear hused

theorem forM_checkFinite_eq_ok_iff (hmodel : ofTables tables = .ok model) (h : data.Consistent)
    (hpresent : ∀ name ∈ model.inputs options.totalScore, name ∈ data.names) :
    (model.inputs options.totalScore).forM data.checkFinite = .ok () ↔
      data.FiniteIn options.totalScore ∧
        ∀ row, tables.Uses row → data.FiniteIn row.column := by
  have hfinite : (model.inputs options.totalScore).forM data.checkFinite = .ok () ↔
      ∀ name ∈ model.inputs options.totalScore, data.FiniteIn name := by
    rw [forM_eq_ok]
    exact forall₂_congr fun name hname => h.checkFinite_eq_ok_iff (hpresent name hname)
  rw [hfinite]
  simp only [mem_inputs hmodel]
  constructor
  · intro hall
    exact ⟨hall _ (Or.inl rfl), fun row hused => hall _ (Or.inr ⟨row, hused, rfl⟩)⟩
  · rintro ⟨hscore, hrows⟩ name (rfl | ⟨row, hused, rfl⟩)
    · exact hscore
    · exact hrows row hused

/-- The columns are refused for the first value that is not finite in the first column
that has one; repeated columns make no difference. -/
theorem forM_checkFinite_eq_error_iff (h : data.Consistent)
    (hpresent : ∀ name ∈ model.inputs options.totalScore, name ∈ data.names)
    {e : PredictionError} :
    (model.inputs options.totalScore).forM data.checkFinite = .error e ↔ ∃ name row,
      FirstIn (fun name => ¬ data.FiniteIn name) (options.totalScore :: model.splitColumns) name ∧
      data.OffendsAt name row ∧ (∀ earlier < row, ¬ data.OffendsAt name earlier) ∧
      e = .nonFiniteValue name row := by
  -- A column that is looked through again has passed the first time.
  have hfirst : ∀ name, FirstIn (fun name => ¬ data.checkFinite name = .ok ())
      (model.inputs options.totalScore) name ↔ FirstIn (fun name => ¬ data.FiniteIn name)
        (options.totalScore :: model.splitColumns) name := by
    intro name
    refine Iff.trans (firstIn_congr fun name hname => ?_) firstIn_eraseDups
    exact not_congr (h.checkFinite_eq_ok_iff (hpresent name hname))
  rw [forM_eq_error]
  refine exists_congr fun name => ?_
  rw [hfirst]
  constructor
  · rintro ⟨hname, herror⟩
    have hmem := ((hfirst name).mpr hname).mem
    obtain ⟨row, hrow⟩ := (h.checkFinite_eq_error_iff (hpresent name hmem)).mp herror
    exact ⟨row, hname, hrow⟩
  · rintro ⟨row, hname, hrow⟩
    have hmem := ((hfirst name).mpr hname).mem
    exact ⟨hname, (h.checkFinite_eq_error_iff (hpresent name hmem)).mpr ⟨row, hrow⟩⟩

/-- The total scores are looked through before the columns of the splits. -/
theorem firstIn_scoreColumns_of_not (hscore : ¬ data.FiniteIn options.totalScore) {name : String} :
    FirstIn (fun name => ¬ data.FiniteIn name) (options.totalScore :: model.splitColumns) name ↔
      name = options.totalScore :=
  firstIn_cons_of_pos hscore

theorem firstIn_scoreColumns (hmodel : ofTables tables = .ok model)
    (hscore : data.FiniteIn options.totalScore) {name : String} :
    FirstIn (fun name => ¬ data.FiniteIn name) (options.totalScore :: model.splitColumns) name ↔
      ∃ row, tables.Uses row ∧ ¬ data.FiniteIn row.column ∧
        (∀ other, tables.Uses other → other.Before row → data.FiniteIn other.column) ∧
        row.column = name := by
  have hrest : FirstIn (fun name => ¬ data.FiniteIn name)
      (options.totalScore :: model.splitColumns) name ↔
      FirstIn (fun name => ¬ data.FiniteIn name) model.splitColumns name :=
    firstIn_cons_of_neg (not_not_intro hscore)
  rw [hrest, firstIn_splitColumns hmodel]
  simp only [not_not]

theorem not_finiteIn_of_offendsAt {name : String} {row : Nat} (h : data.Consistent)
    (hname : name ∈ data.names) (hoffends : data.OffendsAt name row) : ¬ data.FiniteIn name := by
  obtain ⟨values, hvalues, hsize⟩ := h.exists_values hname
  obtain ⟨value, hvalue, hnot⟩ := hoffends
  intro hfinite
  have hrow : row < data.rowCount := by
    rw [Dataset.value?_record hvalues] at hvalue
    rw [← hsize]
    exact (Array.getElem?_eq_some_iff.mp hvalue).1
  obtain ⟨other, hother, hok⟩ := hfinite row hrow
  obtain rfl := Option.some.inj (hother.symm.trans hvalue)
  rw [hok] at hnot
  contradiction

/-! #### All of them -/

theorem checkInputs_eq_ok_iff (hmodel : ofTables tables = .ok model) (h : data.Consistent) :
    model.checkInputs data options = .ok () ↔ InputsReady tables data options := by
  rw [checkInputs_eq]
  simp only [h.hasColumn_iff]
  by_cases htotal : options.totalScore ∈ data.names
  · rw [if_pos htotal, check_bind_eq_ok, forM_checkColumns_eq_ok_iff hmodel h]
    constructor
    · rintro ⟨hitems, hfinite⟩
      obtain ⟨hscore, hrows⟩ := (forM_checkFinite_eq_ok_iff hmodel h
        (inputs_present hmodel htotal hitems)).mp hfinite
      exact ⟨htotal, hitems, hscore, hrows⟩
    · rintro ⟨-, hitems, hscore, hrows⟩
      exact ⟨hitems, (forM_checkFinite_eq_ok_iff hmodel h
        (inputs_present hmodel htotal hitems)).mpr ⟨hscore, hrows⟩⟩
  · rw [if_neg htotal]
    simp only [reduceCtorEq, false_iff]
    exact fun hready => htotal hready.totalScore

theorem checkInputs_eq_error_iff (hmodel : ofTables tables = .ok model) (h : data.Consistent)
    {e : PredictionError} :
    model.checkInputs data options = .error e ↔ InputsRefused tables data options e := by
  rw [checkInputs_eq]
  simp only [h.hasColumn_iff]
  -- The checks run in the order of the cases: total score, items, values.
  by_cases htotal : options.totalScore ∈ data.names
  · rw [if_pos htotal, check_bind_eq_error, forM_checkColumns_eq_error_iff hmodel h,
      forM_checkColumns_eq_ok_iff hmodel h]
    constructor
    · rintro (⟨item, hinside, hrefused, hclear⟩ | ⟨hclear, hcolumns⟩)
      · exact .item htotal hinside hrefused hclear
      · obtain ⟨name, row, hfirst, hoffends, hearlier, rfl⟩ :=
          (forM_checkFinite_eq_error_iff h (inputs_present hmodel htotal hclear)).mp hcolumns
        by_cases hscore : data.FiniteIn options.totalScore
        · obtain ⟨split, hused, -, hbefore, rfl⟩ := (firstIn_scoreColumns hmodel hscore).mp hfirst
          exact .splitColumn htotal hclear hscore hused hbefore hoffends hearlier
        · obtain rfl := (firstIn_scoreColumns_of_not hscore).mp hfirst
          exact .totalScore htotal hclear hoffends hearlier
    · rintro (habsent | ⟨-, hinside, hrefused, hclear⟩ | ⟨-, hclear, hoffends, hearlier⟩ |
        ⟨-, hclear, hscore, hused, hbefore, hoffends, hearlier⟩)
      · exact absurd htotal habsent
      · exact Or.inl ⟨_, hinside, hrefused, hclear⟩
      · refine Or.inr ⟨hclear, ?_⟩
        have hbad := not_finiteIn_of_offendsAt h htotal hoffends
        exact (forM_checkFinite_eq_error_iff h (inputs_present hmodel htotal hclear)).mpr
          ⟨_, _, (firstIn_scoreColumns_of_not hbad).mpr rfl, hoffends, hearlier, rfl⟩
      · refine Or.inr ⟨hclear, ?_⟩
        have hpresent := inputs_present hmodel htotal hclear
        have hbad := not_finiteIn_of_offendsAt h
          (column_mem_of_clear hmodel hclear hused) hoffends
        have hfirst := (firstIn_scoreColumns hmodel hscore).mpr ⟨_, hused, hbad, hbefore, rfl⟩
        exact (forM_checkFinite_eq_error_iff h hpresent).mpr
          ⟨_, _, hfirst, hoffends, hearlier, rfl⟩
  · rw [if_neg htotal]
    constructor
    · intro herror
      obtain rfl := Except.error.inj herror
      exact .missingColumn htotal
    · rintro (habsent | ⟨hpresent, -⟩ | ⟨hpresent, -⟩ | ⟨hpresent, -⟩)
      · rfl
      · exact absurd hpresent htotal
      · exact absurd hpresent htotal
      · exact absurd hpresent htotal

end Model

/-- Two records, one on each side of the threshold. -/
def ageData : Dataset where
  columns := #[⟨"age", #[40, 41]⟩, ⟨"score", #[3, 4]⟩]
  index := .ofList [("age", 0), ("score", 1)]

theorem consistent_ageData : ageData.Consistent := by
  have hbuilt : Dataset.ofColumns ageData.columns.toList = .ok ageData := rfl
  exact Dataset.consistent_of_ofColumns hbuilt

end ItemScoring
