import ItemScoring.Proofs.Command.Files
import ItemScoring.Proofs.DataFile.Attaching
import ItemScoring.Proofs.Prediction.Outcome
import ItemScoring.Proofs.Prediction.Sessions

/-!
# The file of predictions

A column can be put in place if it is as high as the frame or a single cell, and stands behind all
others if its name is new (`Frame.withColumn_of_fits`).  The results of an item are compared with
the names of the frame that was read, not with those of the frame that grows; that nothing is
replaced all the same is due to the prediction, whose derived names are distinct
(`attachAll_of_fit`).

An item is unfit for a frame by a name that is taken or by its height, and the first unfit item
decides how writing is refused (`WritingRefused`), its names before its height.  Either way the text
of the file is there, or not, before the file is created (`Script.savePredictions`).
-/

namespace ItemScoring

/-! ### One column more -/

namespace FrameColumn

/-- The column is as high as the frame, or a single cell for all rows. -/
def Fits (height : Nat) (column : FrameColumn) : Prop :=
  column.height = height ∨ column.height = 1

/-- The place from which a row takes its entry among a number of entries. -/
def sourceOf (count row : Nat) : Nat := if count = 1 then 0 else row

/-- The column with a cell for each of so many rows. -/
def spread (height : Nat) (column : FrameColumn) : FrameColumn where
  name := column.name
  kind := column.kind
  cells := (List.range height).map fun row => (column.cells[sourceOf column.height row]?).join

variable {height : Nat} {column : FrameColumn}

theorem stretch?_of_fits (h : column.Fits height) :
    column.stretch? height = some (column.spread height) := by
  obtain ⟨name, kind, cells⟩ := column
  by_cases heq : cells.length = height
  · -- A column of the height of the frame has its cells where they were.
    refine (if_pos heq).trans ?_
    simp only [spread, FrameColumn.height, Option.some.injEq, mk.injEq, heq_eq_eq, true_and]
    refine List.ext_getElem (by simp [heq]) fun row hrow _ => ?_
    have hsource : sourceOf cells.length row = row := by
      unfold sourceOf
      split <;> omega
    rw [List.getElem_map, List.getElem_range, hsource, List.getElem?_eq_getElem hrow]
    rfl
  · obtain ⟨cell, hcell⟩ : ∃ cell, cells = [cell] :=
      List.length_eq_one_iff.mp (h.resolve_left heq)
    subst hcell
    refine (if_neg heq).trans ?_
    simp only [spread, FrameColumn.height, Option.some.injEq, mk.injEq, heq_eq_eq, true_and]
    refine List.ext_getElem (by simp) fun row hrow _ => ?_
    simp [sourceOf]

theorem stretch?_of_not_fits (h : ¬ column.Fits height) : column.stretch? height = none := by
  obtain ⟨name, kind, cells⟩ := column
  obtain ⟨hne, hmany⟩ := not_or.mp h
  refine (if_neg hne).trans ?_
  match cells, hmany with
  | [], _ => rfl
  | [_], hmany => exact absurd rfl hmany
  | _ :: _ :: _, _ => rfl

/-- A column without empty cells takes an entry for each row. -/
theorem spread_of_entries {α : Type} {entries : Array α} {count : Nat}
    (hsize : entries.size = count) (name : String) (kind : CellKind) (value : α → kind.Value) :
    spread height ⟨name, kind, entries.toList.map fun a => some (value a)⟩ =
      ⟨name, kind, (List.range height).map fun row =>
        (entries[sourceOf count row]?).map value⟩ := by
  have hlength : (entries.toList.map fun a => some (value a)).length = count := by
    rw [List.length_map, Array.length_toList, hsize]
  simp only [spread, FrameColumn.height, hlength, mk.injEq, heq_eq_eq, true_and]
  refine List.map_congr_left fun row _ => ?_
  rw [List.getElem?_map, Array.getElem?_toList]
  cases entries[sourceOf count row]? <;> rfl

theorem spread_of_floats {entries : Array Float} {count : Nat} (hsize : entries.size = count)
    (name : String) : spread height ⟨name, .float, entries.toList.map some⟩ =
      ⟨name, .float, (List.range height).map fun row => entries[sourceOf count row]?⟩ :=
  (spread_of_entries hsize name .float fun value => value).trans
    (congrArg (mk name .float) (List.map_congr_left fun _ _ => congrFun Option.map_id _))

end FrameColumn

namespace Frame

variable {frame : Frame} {column : FrameColumn} {columns : List FrameColumn}

theorem place_of_notMem (hnew : column.name ∉ columns.map FrameColumn.name) :
    place column columns = columns ++ [column] := by
  induction columns with
  | nil => rfl
  | cons first rest ih =>
      rw [List.map_cons, List.mem_cons, not_or] at hnew
      rw [place, if_neg (Ne.symm hnew.1), ih hnew.2]
      rfl

/-- A column that fits is put behind all others if its name is new. -/
theorem withColumn_of_fits (hfits : column.Fits frame.height) (hnew : column.name ∉ frame.names) :
    ∃ next, frame.withColumn column = .ok next ∧ next.height = frame.height ∧
      next.columns = frame.columns ++ [column.spread frame.height] := by
  have hstretch := FrameColumn.stretch?_of_fits hfits
  unfold withColumn
  split
  next hnone =>
    rw [hstretch] at hnone
    contradiction
  next stretched hsome =>
    obtain rfl := Option.some.inj (hsome.symm.trans hstretch)
    exact ⟨_, rfl, rfl, place_of_notMem hnew⟩

theorem withColumn_of_not_fits (hunfit : ¬ column.Fits frame.height) :
    frame.withColumn column =
      .error (.heightMismatch column.name column.height frame.height) := by
  unfold withColumn
  split
  next => rfl
  next stretched hsome =>
    rw [FrameColumn.stretch?_of_not_fits hunfit] at hsome
    contradiction

/-- Columns with new and distinct names are put behind all others, in order. -/
theorem withColumns_of_fits (hfits : ∀ column ∈ columns, column.Fits frame.height)
    (hdistinct : (frame.names ++ columns.map FrameColumn.name).Nodup) :
    ∃ next, columns.foldlM withColumn frame = .ok next ∧ next.height = frame.height ∧
      next.columns = frame.columns ++ columns.map (FrameColumn.spread frame.height) := by
  -- Each column that is appended is one more name that the later ones must not repeat.
  induction columns generalizing frame with
  | nil => exact ⟨frame, rfl, rfl, by simp⟩
  | cons first rest ih =>
      obtain ⟨hfirst, hrest⟩ := List.forall_mem_cons.mp hfits
      have hnew : first.name ∉ frame.names := by
        intro hmem
        exact (List.nodup_append.mp hdistinct).2.2 _ hmem _ (by simp) rfl
      obtain ⟨grown, hgrown, hheight, hcolumns⟩ := withColumn_of_fits hfirst hnew
      have hnames : grown.names = frame.names ++ [first.name] := by
        rw [names, hcolumns, List.map_append]
        rfl
      have hgrownDistinct : (grown.names ++ rest.map FrameColumn.name).Nodup := by
        rw [hnames, List.append_assoc]
        exact hdistinct
      obtain ⟨next, hnext, hlast, hall⟩ := ih (hheight ▸ hrest) hgrownDistinct
      refine ⟨next, ?_, hlast.trans hheight, ?_⟩
      · rw [List.foldlM_cons, hgrown]
        exact hnext
      · rw [hall, hcolumns, hheight, List.append_assoc]
        rfl

end Frame

/-! ### The results of items -/

namespace ItemPrediction

/-- The three columns of an item in a frame of so many rows, of which each takes its entry from the
row at its place, or from the only one. -/
def columnsOn (height count : Nat) (prediction : ItemPrediction) : List FrameColumn :=
  let rows := List.range height
  let source := FrameColumn.sourceOf count
  [⟨prediction.columns.linear, .float, rows.map fun row => prediction.linear[source row]?⟩,
    ⟨prediction.columns.probability, .float,
      rows.map fun row => prediction.probability[source row]?⟩,
    ⟨prediction.columns.prediction, .integer, rows.map fun row =>
      prediction.positive[source row]?.map fun positive => (if positive then 1 else 0 : Int)⟩]

/-- Why an item cannot be attached to a frame: a name of it is one of the `taken`, or it has another
number of entries than the frame has rows, and not a single one. -/
def Unfit (taken : List String) (height count : Nat) (prediction : ItemPrediction) : Prop :=
  (∃ name ∈ prediction.columns.names, name ∈ taken) ∨ ¬ (count = height ∨ count = 1)

variable {prediction : ItemPrediction} {frame : Frame} {taken : List String} {height count : Nat}

@[simp] theorem names_columnsOn :
    (prediction.columnsOn height count).map FrameColumn.name = prediction.columns.names := rfl

/-- The columns of an item with the given number of entries, with a cell for each row. -/
theorem map_spread_frameColumns (h : prediction.FitsHeight count) :
    prediction.frameColumns.map (FrameColumn.spread height) =
      prediction.columnsOn height count := by
  obtain ⟨hlinear, hprobability, hpositive⟩ := h
  have hclass : (fun positive => (classNumber positive : Int)) =
      fun positive => (if positive then 1 else 0 : Int) := by
    funext positive
    cases positive <;> rfl
  have hthird := @FrameColumn.spread_of_entries height _ _ _ hpositive
    prediction.columns.prediction .integer fun positive => (classNumber positive : Int)
  rw [hclass] at hthird
  rw [frameColumns, List.map_cons, List.map_cons, List.map_cons, List.map_nil,
    FrameColumn.spread_of_floats hlinear, FrameColumn.spread_of_floats hprobability]
  exact congrArg₂ _ rfl (congrArg₂ _ rfl (congrArg₂ _ hthird rfl))

theorem fits_frameColumns (h : prediction.FitsHeight count)
    (hcount : count = height ∨ count = 1) :
    ∀ column ∈ prediction.frameColumns, column.Fits height := by
  intro column hcolumn
  rw [FrameColumn.Fits, height_frameColumns h column hcolumn]
  exact hcount

/-- Results that are not unfit are attached behind all columns, if their names are new to a frame
that has grown as well, and distinct. -/
theorem attach_of_not_unfit (hsize : prediction.FitsHeight count)
    (hfit : ¬ prediction.Unfit taken frame.height count)
    (hdistinct : (frame.names ++ prediction.columns.names).Nodup) :
    ∃ next, prediction.attach taken frame = .ok next ∧ next.height = frame.height ∧
      next.columns = frame.columns ++ prediction.columnsOn frame.height count := by
  obtain ⟨hfree, hcount⟩ := not_or.mp hfit
  obtain ⟨next, hnext, hheight, hcolumns⟩ := Frame.withColumns_of_fits
    (fits_frameColumns hsize (not_not.mp hcount)) hdistinct
  have hnone : prediction.columns.names.find? (taken.contains ·) = none := by
    simpa using hfree
  refine ⟨next, ?_, hheight, ?_⟩
  · rw [attach, hnone, hnext]
    rfl
  · rw [hcolumns, map_spread_frameColumns hsize]

theorem attach_of_taken {name : String}
    (hname : FirstIn (· ∈ taken) prediction.columns.names name) :
    prediction.attach taken frame = .error (.outputColumnExists name) := by
  have hfind : prediction.columns.names.find? (taken.contains ·) = some name := by
    rw [find?_eq_some_iff_firstIn]
    simpa using hname
  rw [attach, hfind]

/-- The first column of results that do not fit is refused. -/
theorem attach_of_mismatch (hsize : prediction.FitsHeight count)
    (hfree : ∀ name ∈ prediction.columns.names, name ∉ taken)
    (hcount : ¬ (count = frame.height ∨ count = 1)) :
    prediction.attach taken frame =
      .error (.unfit (.heightMismatch prediction.columns.linear count frame.height)) := by
  have hnone : prediction.columns.names.find? (taken.contains ·) = none := by
    simpa using hfree
  obtain ⟨first, rest, hcolumns, hname⟩ : ∃ first rest,
      prediction.frameColumns = first :: rest ∧ first.name = prediction.columns.linear :=
    ⟨_, _, rfl, rfl⟩
  have hheight : first.height = count :=
    height_frameColumns hsize first (hcolumns ▸ List.mem_cons_self)
  have hunfit : ¬ first.Fits frame.height := by rwa [FrameColumn.Fits, hheight]
  have hrefused := Frame.withColumn_of_not_fits hunfit
  rw [attach, hnone, hcolumns, List.foldlM_cons, hrefused, hname, hheight]
  rfl

end ItemPrediction

/-! ### The results of all items -/

section Writing

variable {items : List ItemPrediction} {frame : Frame} {taken : List String} {count : Nat}

/-- Results that are all fit are attached in item order. -/
theorem attachAll_of_fit (hsizes : ∀ item ∈ items, item.FitsHeight count)
    (hfit : ∀ item ∈ items, ¬ item.Unfit taken frame.height count)
    (hdistinct : (frame.names ++ items.flatMap fun item => item.columns.names).Nodup) :
    ∃ next, items.foldlM (ItemPrediction.attach taken) frame = .ok next ∧
      next.height = frame.height ∧
      next.columns = frame.columns ++ items.flatMap (·.columnsOn frame.height count) := by
  -- The frame grows by the columns of one item at a time, and keeps its height.
  induction items generalizing frame with
  | nil => exact ⟨frame, rfl, rfl, by simp⟩
  | cons first rest ih =>
      obtain ⟨hfirstSize, hrestSizes⟩ := List.forall_mem_cons.mp hsizes
      obtain ⟨hfirst, hrest⟩ := List.forall_mem_cons.mp hfit
      rw [List.flatMap_cons, ← List.append_assoc] at hdistinct
      obtain ⟨grown, hgrown, hheight, hcolumns⟩ := ItemPrediction.attach_of_not_unfit hfirstSize
        hfirst (List.nodup_append.mp hdistinct).1
      have hnames : grown.names = frame.names ++ first.columns.names := by
        rw [Frame.names, hcolumns, List.map_append, ItemPrediction.names_columnsOn]
        rfl
      rw [← hnames] at hdistinct
      obtain ⟨next, hnext, hlast, hall⟩ := ih hrestSizes (hheight ▸ hrest) hdistinct
      refine ⟨next, ?_, hlast.trans hheight, ?_⟩
      · rw [List.foldlM_cons, hgrown]
        exact hnext
      · rw [hall, hcolumns, hheight, List.flatMap_cons, List.append_assoc]

/-- Why predictions cannot be written: the first unfit item is refused for the first of its names
that is taken, and if there is none for its height. -/
inductive WritingRefused (items : List ItemPrediction) (frame : Frame) (count : Nat) :
    DataError → Prop
  | taken {item : ItemPrediction} {name : String}
      (first : FirstIn (·.Unfit frame.names frame.height count) items item)
      (clash : FirstIn (· ∈ frame.names) item.columns.names name) :
      WritingRefused items frame count (.outputColumnExists name)
  | mismatch {item : ItemPrediction}
      (first : FirstIn (·.Unfit frame.names frame.height count) items item)
      (free : ∀ name ∈ item.columns.names, name ∉ frame.names) :
      WritingRefused items frame count
        (.unfit (.heightMismatch item.columns.linear count frame.height))

theorem exists_writingRefused
    (hunfit : ∃ item ∈ items, item.Unfit frame.names frame.height count) :
    ∃ e, WritingRefused items frame count e := by
  obtain ⟨item, hfirst⟩ := exists_firstIn hunfit
  by_cases hclash : ∃ name ∈ item.columns.names, name ∈ frame.names
  · obtain ⟨name, hname⟩ := exists_firstIn hclash
    exact ⟨_, .taken hfirst hname⟩
  · exact ⟨_, .mismatch hfirst (by simpa using hclash)⟩

/-- The names of results that are not unfit are new to the frame. -/
theorem nodup_names_of_fit (hfit : ∀ item ∈ items, ¬ item.Unfit frame.names frame.height count)
    (hnames : (items.flatMap fun item => item.columns.names).Nodup) :
    (frame.names ++ items.flatMap fun item => item.columns.names).Nodup := by
  refine (nodup_append_of_free frame.nodup_names fun name hname hmem => ?_).mpr hnames
  obtain ⟨item, hitem, hname⟩ := List.mem_flatMap.mp hname
  exact hfit item hitem (Or.inl ⟨name, hname, hmem⟩)

variable (hsizes : ∀ item ∈ items, item.FitsHeight count)
  (hnames : (items.flatMap fun item => item.columns.names).Nodup)
include hsizes hnames

theorem WritingRefused.attachAll_eq {e : DataError} (h : WritingRefused items frame count e) :
    items.foldlM (ItemPrediction.attach frame.names) frame = .error e := by
  -- The items before the unfit one are attached, so that it meets a frame of the same height.
  have hreached : ∀ item, FirstIn (·.Unfit frame.names frame.height count) items item →
      item.FitsHeight count ∧ ∃ grown : Frame, grown.height = frame.height ∧
        (item.attach frame.names grown = .error e →
          items.foldlM (ItemPrediction.attach frame.names) frame = .error e) := by
    rintro item ⟨before, after, rfl, hbefore, -⟩
    rw [List.flatMap_append] at hnames
    obtain ⟨grown, hgrown, hheight, -⟩ := attachAll_of_fit
      (fun item hitem => hsizes item (List.mem_append_left _ hitem)) hbefore
      (nodup_names_of_fit hbefore (List.nodup_append.mp hnames).1)
    refine ⟨hsizes item (by simp), grown, hheight, fun herror => ?_⟩
    rw [List.foldlM_append, hgrown, ok_bind, List.foldlM_cons, herror, error_bind]
  cases h with
  | taken first clash =>
      obtain ⟨-, grown, -, hrefused⟩ := hreached _ first
      exact hrefused (ItemPrediction.attach_of_taken clash)
  | mismatch first free =>
      obtain ⟨hsize, grown, hheight, hrefused⟩ := hreached _ first
      have hcount := first.holds.resolve_left (by simpa using free)
      rw [← hheight] at hcount
      apply hrefused
      rw [ItemPrediction.attach_of_mismatch hsize free hcount, hheight]

/-- Results are attached unless one of them is unfit, and are refused for the first that is. -/
theorem attachAll_outcome :
    ((∃ next, items.foldlM (ItemPrediction.attach frame.names) frame = .ok next) ↔
      ∀ item ∈ items, ¬ item.Unfit frame.names frame.height count) ∧
    ∀ e, items.foldlM (ItemPrediction.attach frame.names) frame = .error e ↔
      WritingRefused items frame count e := by
  by_cases hfit : ∀ item ∈ items, ¬ item.Unfit frame.names frame.height count
  · obtain ⟨next, hnext, -⟩ := attachAll_of_fit hsizes hfit (nodup_names_of_fit hfit hnames)
    refine ⟨⟨fun _ => hfit, fun _ => ⟨next, hnext⟩⟩, fun e => ⟨fun h => ?_, fun h => ?_⟩⟩
    · rw [hnext] at h
      contradiction
    · exact h.attachAll_eq hsizes hnames
  · -- Of the items that do not fit the first one is refused.
    obtain ⟨refusal, hrefused⟩ := exists_writingRefused (by simpa using hfit)
    have hrefusal := hrefused.attachAll_eq hsizes hnames
    refine ⟨⟨?_, fun h => absurd h hfit⟩, fun e => ⟨fun h => ?_, fun h => ?_⟩⟩
    · rintro ⟨next, hnext⟩
      rw [hrefusal] at hnext
      contradiction
    · obtain rfl := Except.error.inj (hrefusal.symm.trans h)
      exact hrefused
    · exact h.attachAll_eq hsizes hnames

end Writing

/-! ### The text of a frame -/

/-- A text as a field: between quotes, with the quotes in it doubled, if it is empty or holds a tab,
a quote or a break of lines; as it is otherwise. -/
def fieldOfText (text : String) : String :=
  if text = "" ∨ ∃ c ∈ text.toList, c ∈ ['\t', '"', '\n', '\r'] then
    "\"" ++ .ofList (text.toList.flatMap fun c => if c = '"' then ['"', '"'] else [c]) ++ "\""
  else text

/-- A cell as a field, in which nothing stands if the cell is empty. -/
def fieldOfCell : (kind : CellKind) → Option kind.Value → String
  | _, none => ""
  | .boolean, some value => if (show Bool from value) then "true" else "false"
  | .integer, some value => toString (show Int from value)
  | .float, some value => Tsv.numbers.render value
  | .text, some value => fieldOfText value

theorem doubleQuotes_eq (cs : List Char) :
    Tsv.doubleQuotes cs = cs.flatMap fun c => if c = '"' then ['"', '"'] else [c] := by
  induction cs with
  | nil => rfl
  | cons c cs ih =>
      rw [Tsv.doubleQuotes, List.flatMap_cons, ih]
      split <;> rfl

theorem encode_eq (text : String) : Tsv.encode text = fieldOfText text := by
  have hquotes : Tsv.needsQuotes text.toList = true ↔
      text = "" ∨ ∃ c ∈ text.toList, c ∈ ['\t', '"', '\n', '\r'] := by
    simp [Tsv.needsQuotes, or_assoc]
  rw [Tsv.encode, fieldOfText]
  by_cases hneeded : Tsv.needsQuotes text.toList = true
  · rw [if_pos hneeded, if_pos (hquotes.mp hneeded), doubleQuotes_eq]
    apply String.toList_injective
    simp
  · rw [if_neg hneeded, if_neg (mt hquotes.mpr hneeded)]

theorem FrameColumn.getD_fields (column : FrameColumn) (row : Nat) :
    column.fields.getD row "" = fieldOfCell column.kind column.cells[row]?.join := by
  obtain ⟨name, kind, cells⟩ := column
  rw [fields, List.getD_eq_getElem?_getD, List.getElem?_map]
  cases cells[row]? with
  | none => cases kind <;> rfl
  | some cell =>
      cases cell with
      | none => cases kind <;> rfl
      | some value =>
          cases kind with
          | text => exact encode_eq value
          | _ => rfl

namespace Frame

theorem rowsOf_eq (height : Nat) (columns : List (List String)) :
    rowsOf height columns =
      (List.range height).map fun row => columns.map fun fields => fields.getD row "" := by
  induction height generalizing columns with
  | zero => rfl
  | succ height ih =>
      rw [rowsOf, ih, List.range_succ_eq_map, List.map_cons, List.map_map]
      refine congrArg₂ _ (List.map_congr_left fun fields _ => ?_)
        (List.map_congr_left fun row _ => ?_)
      · cases fields <;> rfl
      · rw [List.map_map]
        refine List.map_congr_left fun fields _ => ?_
        cases fields <;> rfl

/-- A frame is written as a line of its names and a line for each row, with a field of each column
in its place. -/
theorem toTsv_eq (frame : Frame) : frame.toTsv = String.join
    (("\t".intercalate (frame.columns.map fun column => fieldOfText column.name) ++ "\n") ::
      (List.range frame.height).map fun row => "\t".intercalate
        (frame.columns.map fun column => fieldOfCell column.kind column.cells[row]?.join) ++
          "\n") := by
  simp only [toTsv, rowsOf_eq, List.map_cons, List.map_map, names, Function.comp_def, line,
    encode_eq, FrameColumn.getD_fields]

end Frame

/-! ### Creating the file -/

namespace Script

variable {predictions : Predictions} {frame : Frame} {path : String} {next : Script}
  {events : List FileEvent} {status : ExitStatus}

/-- Saves predictions behind the columns of a frame: the text comes before the file. -/
def savePredictions (predictions : Predictions) (frame : Frame) (path : String) (next : Script) :
    Script :=
  attempt DataError.message (predictions.table frame) fun table =>
    saveAs "Predictions" path table next

/-- This is how the command saves its predictions. -/
theorem predict_eq (arguments : PredictArguments) : predict arguments =
    (print s!"Loading model from: {arguments.model}" <|
    read arguments.model fun content =>
    log (Model.loadingLog content) <|
    attempt ModelFileError.message (Model.load content) fun model =>
    print s!"Model has {model.itemCount} items ({model.difCount} with DIF trees)" <|
    print s!"Loading data from: {arguments.data}" <|
    log [InputData.openingEntry arguments.data] <|
    read arguments.data fun content =>
    attempt DataError.message
      (InputData.load content (model.requiredColumns arguments.totalScore)) fun data =>
    log [data.loadedEntry] <|
    print s!"Loaded {data.dataset.rowCount} records" <|
    print "Generating predictions..." <|
    attempt PredictionError.message (model.predict data.dataset arguments.options)
      fun predictions =>
    log (model.predictionLog data.dataset predictions) <|
    savePredictions predictions data.frame arguments.output <|
    match arguments.equations with
    | none => finish
    | some path => saveAs "Equations" path predictions.equationTable finish) := rfl

/-- No file is created, nor tried to be, for predictions that cannot be written; all others are
handed to the system with their text. -/
theorem runs_savePredictions_iff :
    (savePredictions predictions frame path next).Runs events status ↔
      (∃ text, predictions.table frame = .ok text ∧
        ((∃ later, events = .created path text :: later ∧ next.Runs later status) ∨
          ∃ error, events = [.refused path text error] ∧ status = .failure)) ∨
      (∃ e, predictions.table frame = .error e) ∧ events = [] ∧ status = .failure := by
  rw [savePredictions, runs_attempt_iff]
  simp only [runs_saveAs_iff]

end Script

/-! ### Predictions -/

namespace Predictions

variable {tables : ModelTables} {model : Model} {data : Dataset} {options : PredictionOptions}
  {predictions : Predictions}

/-- The columns of the frame, and behind them those of the items. -/
def columnsBeside (predictions : Predictions) (frame : Frame) (count : Nat) : List FrameColumn :=
  frame.columns ++ predictions.items.flatMap (·.columnsOn frame.height count)

/-- What is written for a frame: nothing of it is changed, and behind its columns there are three
for each item, without empty cells and with names of their own.  The text has a line with the names
and one for each row, whose fields are set apart by tabs. -/
structure WrittenBeside (predictions : Predictions) (names : List String) (frame : Frame)
    (count : Nat) (text : String) : Prop where
  attached : ∃ next, predictions.attach frame = .ok next ∧
    next.columns = predictions.columnsBeside frame count ∧ next.height = frame.height
  text_eq : text = String.join
    (("\t".intercalate ((predictions.columnsBeside frame count).map fun column =>
        fieldOfText column.name) ++ "\n") ::
      (List.range frame.height).map fun row =>
        "\t".intercalate ((predictions.columnsBeside frame count).map fun column =>
          fieldOfCell column.kind column.cells[row]?.join) ++ "\n")
  names_eq : (predictions.columnsBeside frame count).map FrameColumn.name = frame.names ++ names
  nodup_names : (frame.names ++ names).Nodup
  length_eq : (predictions.columnsBeside frame count).length =
    frame.columns.length + 3 * predictions.items.length
  filled : ∀ item ∈ predictions.items, ∀ column ∈ item.columnsOn frame.height count,
    column.height = frame.height ∧ ∀ cell ∈ column.cells, cell.isSome

end Predictions

/-- Every row has an entry to take if there is one for each or a single one. -/
theorem isSome_entry {α : Type} {entries : Array α} {height count row : Nat}
    (hsize : entries.size = count) (hcount : count = height ∨ count = 1)
    (hrow : row ∈ List.range height) : entries[FrameColumn.sourceOf count row]?.isSome := by
  have hrow := List.mem_range.mp hrow
  have hlt : FrameColumn.sourceOf count row < entries.size := by
    unfold FrameColumn.sourceOf
    split <;> omega
  rw [Array.getElem?_eq_getElem hlt]
  rfl

theorem ItemPrediction.filled_columnsOn {prediction : ItemPrediction} {height count : Nat}
    (hsize : prediction.FitsHeight count) (hcount : count = height ∨ count = 1) :
    ∀ column ∈ prediction.columnsOn height count,
      column.height = height ∧ ∀ cell ∈ column.cells, cell.isSome := by
  obtain ⟨hlinear, hprobability, hpositive⟩ := hsize
  intro column hcolumn
  simp only [columnsOn, List.mem_cons, List.not_mem_nil, or_false] at hcolumn
  have hheight : column.height = height := by
    rcases hcolumn with rfl | rfl | rfl <;> simp [FrameColumn.height]
  refine ⟨hheight, fun cell hcell => ?_⟩
  rcases hcolumn with rfl | rfl | rfl
  · obtain ⟨row, hrow, rfl⟩ := List.mem_map.mp hcell
    exact isSome_entry hlinear hcount hrow
  · obtain ⟨row, hrow, rfl⟩ := List.mem_map.mp hcell
    exact isSome_entry hprobability hcount hrow
  · obtain ⟨row, hrow, rfl⟩ := List.mem_map.mp hcell
    exact (Option.isSome_map ..).trans (isSome_entry hpositive hcount hrow)

section Predicting

open Predictions

variable {tables : ModelTables} {model : Model} {data : Dataset} {options : PredictionOptions}
  {predictions : Predictions}

theorem length_flatMap_columnsOn (items : List ItemPrediction) (height count : Nat) :
    (items.flatMap (·.columnsOn height count)).length = 3 * items.length := by
  rw [List.length_flatMap]
  simp [ItemPrediction.columnsOn, Nat.mul_comm]

/-- Predictions of a model are unfit for a frame if a derived name is a column of it, or if they
are neither as many as its rows nor a single one. -/
theorem Predictions.AppendedTo.fit_iff (happended : predictions.AppendedTo model data options)
    (hcount : 0 < model.itemCount) {frame : Frame} :
    (∀ item ∈ predictions.items, ¬ item.Unfit frame.names frame.height data.rowCount) ↔
      (∀ name ∈ options.naming.derivedNames model.itemCount, name ∉ frame.names) ∧
        (data.rowCount = frame.height ∨ data.rowCount = 1) := by
  rw [← happended.names_eq]
  constructor
  · intro hfit
    -- The heights can be compared at some item only, and there is one.
    have hsome : predictions.items ≠ [] := by
      rintro hnil
      have hnumbers := happended.itemNumbers
      rw [hnil, List.map_nil, List.nil_eq, List.range'_eq_nil_iff] at hnumbers
      omega
    obtain ⟨item, hitem⟩ := List.exists_mem_of_ne_nil _ hsome
    refine ⟨fun name hname hmem => ?_, not_not.mp (not_or.mp (hfit item hitem)).2⟩
    obtain ⟨other, hother, hname⟩ := List.mem_flatMap.mp hname
    exact hfit other hother (Or.inl ⟨name, hname, hmem⟩)
  · rintro ⟨hfree, hrows⟩ item hitem (⟨name, hname, hmem⟩ | hunfit)
    · exact hfree name (List.mem_flatMap.mpr ⟨item, hitem, hname⟩) hmem
    · exact hunfit hrows

theorem Predictions.table_eq_ok_iff {frame : Frame} {text : String} :
    predictions.table frame = .ok text ↔
      ∃ next, predictions.attach frame = .ok next ∧ text = next.toTsv := by
  rw [table]
  cases predictions.attach frame <;> simp [Except.map, eq_comm]

theorem Predictions.table_eq_error_iff {frame : Frame} {e : DataError} :
    predictions.table frame = .error e ↔ predictions.attach frame = .error e := by
  rw [table]
  cases predictions.attach frame <;> simp [Except.map]

/-- What is written for predictions that fit. -/
theorem Predictions.AppendedTo.writtenBeside
    (happended : predictions.AppendedTo model data options)
    (hnames : (predictions.items.flatMap fun item => item.columns.names).Nodup) {frame : Frame}
    (hfit : ∀ item ∈ predictions.items, ¬ item.Unfit frame.names frame.height data.rowCount)
    {text : String} (htext : predictions.table frame = .ok text) :
    predictions.WrittenBeside (options.naming.derivedNames model.itemCount) frame data.rowCount
      text := by
  have hdistinct := nodup_names_of_fit hfit hnames
  -- The frame that was written is the one that all columns were attached to.
  obtain ⟨written, hattach, hheight, hcolumns⟩ := attachAll_of_fit happended.sizes hfit hdistinct
  obtain ⟨next, hnext, rfl⟩ := table_eq_ok_iff.mp htext
  obtain rfl := Except.ok.inj (hnext.symm.trans hattach)
  rw [happended.names_eq] at hdistinct
  refine ⟨⟨next, hnext, hcolumns, hheight⟩, ?_, ?_, hdistinct, ?_, fun item hitem => ?_⟩
  · rw [Frame.toTsv_eq, hcolumns, hheight]
    rfl
  · rw [← happended.names_eq, columnsBeside, List.map_append, List.map_flatMap]
    rfl
  · rw [columnsBeside, List.length_append, length_flatMap_columnsOn]
  · exact ItemPrediction.filled_columnsOn (happended.sizes item hitem)
      (not_not.mp (not_or.mp (hfit item hitem)).2)

/-- Predictions are written behind the columns of a frame exactly if no derived name is one of them
and there is a prediction for each row or a single one for all; else the first item that is unfit is
refused, and no file is created. -/
theorem predictions_written (hmodel : Model.ofTables tables = .ok model) (hdata : data.Consistent)
    (hpredict : model.predict data options = .ok predictions) (hcount : 0 < model.itemCount)
    (frame : Frame) :
    ((∃ text, predictions.table frame = .ok text) ↔
      (∀ name ∈ options.naming.derivedNames model.itemCount, name ∉ frame.names) ∧
        (data.rowCount = frame.height ∨ data.rowCount = 1)) ∧
    (∀ text, predictions.table frame = .ok text → predictions.items.length = model.itemCount ∧
      predictions.WrittenBeside (options.naming.derivedNames model.itemCount) frame data.rowCount
        text) ∧
    (∀ e, predictions.table frame = .error e ↔
      WritingRefused predictions.items frame data.rowCount e) ∧
    ∀ path next events status,
      (Script.savePredictions predictions frame path next).Runs events status ↔
        (∃ text, predictions.table frame = .ok text ∧
          ((∃ later, events = .created path text :: later ∧ next.Runs later status) ∨
            ∃ error, events = [.refused path text error] ∧ status = .failure)) ∨
        (∃ e, predictions.table frame = .error e) ∧ events = [] ∧ status = .failure := by
  have happended := Model.appendedTo hmodel hpredict
  -- Derived names are distinct, or there would have been no prediction; so no column that is
  -- attached is in the way of a later one.
  have hdistinct := ((predict_outcome hmodel hdata).1.mp ⟨predictions, hpredict⟩).distinct
  have hnames : (predictions.items.flatMap fun item => item.columns.names).Nodup := by
    rwa [happended.names_eq, Model.itemCount_eq hmodel]
  obtain ⟨hattached, hrefused⟩ := @attachAll_outcome _ frame _ happended.sizes hnames
  have htables : (∃ text, predictions.table frame = .ok text) ↔
      ∀ item ∈ predictions.items, ¬ item.Unfit frame.names frame.height data.rowCount := by
    rw [← hattached]
    simp [Predictions.table_eq_ok_iff, Predictions.attach, exists_comm]
  refine ⟨htables.trans (happended.fit_iff hcount), fun text htext => ⟨?_, ?_⟩, fun e =>
    Predictions.table_eq_error_iff.trans (hrefused e), fun path next events status =>
    Script.runs_savePredictions_iff⟩
  · rw [← List.length_map, happended.itemNumbers, List.length_range']
  · exact happended.writtenBeside hnames (htables.mp ⟨text, htext⟩) htext

/-- A frame of one column without any value. -/
def blankFrame (name : String) (height : Nat) : Frame where
  columns := [⟨name, .text, List.replicate height none⟩]
  height := height
  nodup_names := List.nodup_singleton _
  height_eq := by simp [FrameColumn.height]

/-- Two predictions of each of two items: they are written beside two rows, but not if the second
item has a name of the frame, and beside three rows the first item is refused for its height before
the second one is for its name. -/
theorem predictions_written_blankFrame :
    ∃ predictions, Model.ofTables ageTables = .ok ageModel ∧ ageData.Consistent ∧
      ageModel.predict ageData { totalScore := "score" } = .ok predictions ∧
      0 < ageModel.itemCount ∧
      (∃ text, predictions.table (blankFrame "id" 2) = .ok text ∧
        predictions.WrittenBeside ["n1", "p1", "I1", "n2", "p2", "I2"] (blankFrame "id" 2) 2 text) ∧
      predictions.table (blankFrame "p2" 2) = .error (.outputColumnExists "p2") ∧
      predictions.table (blankFrame "p2" 3) = .error (.unfit (.heightMismatch "n1" 2 3)) := by
  obtain ⟨predictions, hpredict⟩ := exists_predict_ageModel
  have hcount : 0 < ageModel.itemCount := by decide
  have hwritten := predictions_written ofTables_ageTables consistent_ageData hpredict hcount
  have happended := Model.appendedTo ofTables_ageTables hpredict
  -- The two items are known by their names, which is all that the refusals depend on.
  obtain ⟨first, second, hitems⟩ : ∃ first second, predictions.items = [first, second] :=
    List.length_eq_two.mp (by
      rw [← List.length_map, happended.itemNumbers]
      rfl)
  have hnumbers : [first.item, second.item] = [1, 2] := by
    have hall := happended.itemNumbers
    rwa [hitems] at hall
  simp only [List.cons.injEq, and_true] at hnumbers
  have hfirst : first.columns = ⟨"n1", "p1", "I1"⟩ := by
    rw [happended.named first (by simp [hitems]), hnumbers.1]
    decide +kernel
  have hsecond : second.columns = ⟨"n2", "p2", "I2"⟩ := by
    rw [happended.named second (by simp [hitems]), hnumbers.2]
    decide +kernel
  obtain ⟨text, htext⟩ := (hwritten (blankFrame "id" 2)).1.mpr ⟨by decide +kernel, Or.inl rfl⟩
  refine ⟨predictions, ofTables_ageTables, consistent_ageData, hpredict, hcount,
    ⟨text, htext, ((hwritten _).2.1 text htext).2⟩, ((hwritten _).2.2.1 _).mpr ?_,
    ((hwritten _).2.2.1 _).mpr ?_⟩
  · have hunfit : second.Unfit (blankFrame "p2" 2).names 2 ageData.rowCount :=
      Or.inl ⟨"p2", by simp [hsecond, DerivedColumns.names], by decide⟩
    have hfit : ¬ first.Unfit (blankFrame "p2" 2).names 2 ageData.rowCount := by
      rw [ItemPrediction.Unfit, hfirst]
      decide
    have hbefore : ∀ item ∈ [first],
        ¬ item.Unfit (blankFrame "p2" 2).names (blankFrame "p2" 2).height ageData.rowCount :=
      List.forall_mem_singleton.mpr hfit
    refine .taken ⟨[first], [], hitems, hbefore, hunfit⟩ ⟨["n2"], ["I2"], ?_⟩
    rw [hsecond]
    decide
  · have hunfit : first.Unfit (blankFrame "p2" 3).names 3 ageData.rowCount := Or.inr (by decide)
    have hfree : ∀ name ∈ first.columns.names, name ∉ (blankFrame "p2" 3).names := by
      rw [hfirst]
      decide
    have hitem : FirstIn
        (·.Unfit (blankFrame "p2" 3).names (blankFrame "p2" 3).height ageData.rowCount)
        predictions.items first :=
      ⟨[], [second], hitems, by simp, hunfit⟩
    have hrefused := WritingRefused.mismatch hitem hfree
    rwa [hfirst] at hrefused

end Predicting

end ItemScoring
