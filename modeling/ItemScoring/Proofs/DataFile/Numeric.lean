import ItemScoring.Proofs.DataFile.Fields
import ItemScoring.Proofs.DataFile.Loading
import ItemScoring.Proofs.DataFile.Reading

/-!
# Required columns are numbers

A required column is taken if every field of it comes to a number (`Tsv.Contents.IsNumeric`).  If
one does not, the column is refused, and an empty field is reported before a word, and a word before
a number that is out of range (`Finding.Refusal`).  The first required column that is refused
decides the outcome of the whole (`InputData.load_outcome`).
-/

namespace ItemScoring

open Decimal (Spells)

/-! ### One column -/

namespace Finding

/-- Why a column is refused, by what is found in it. -/
inductive Refusal (Found : Finding → Prop) (name : String) : DataError → Prop
  | missing (found : Found .empty) : Refusal Found name (.missingValuesFound name)
  | wrongType (filled : ¬ Found .empty) (found : Found .word) :
      Refusal Found name (.columnWrongType name)
  | nonFinite (filled : ¬ Found .empty) (numeric : ¬ Found .word) (found : Found .unbounded) :
      Refusal Found name (.nonFiniteValuesFound name)

variable {Found Found' : Finding → Prop} {name : String} {e e' : DataError}

theorem Refusal.unique (h : Refusal Found name e) (h' : Refusal Found name e') : e = e' := by
  cases h with
  | missing found =>
      cases h' with
      | missing => rfl
      | wrongType filled => exact absurd found filled
      | nonFinite filled => exact absurd found filled
  | wrongType filled found =>
      cases h' with
      | missing found' => exact absurd found' filled
      | wrongType => rfl
      | nonFinite _ numeric => exact absurd found numeric
  | nonFinite filled numeric =>
      cases h' with
      | missing found' => exact absurd found' filled
      | wrongType _ found' => exact absurd found' numeric
      | nonFinite => rfl

/-- A column is refused for something that is no finite number. -/
theorem Refusal.exists_found (h : Refusal Found name e) : ∃ f, (∀ x, f ≠ .finite x) ∧ Found f := by
  cases h with
  | missing found => exact ⟨_, by simp, found⟩
  | wrongType _ found => exact ⟨_, by simp, found⟩
  | nonFinite _ _ found => exact ⟨_, by simp, found⟩

theorem Refusal.congr (h : Refusal Found name e)
    (hfound : ∀ f, (∀ x, f ≠ .finite x) → (Found f ↔ Found' f)) : Refusal Found' name e := by
  have hempty := hfound .empty (by simp)
  have hword := hfound .word (by simp)
  have hunbounded := hfound .unbounded (by simp)
  cases h with
  | missing found => exact .missing (hempty.mp found)
  | wrongType filled found => exact .wrongType (mt hempty.mpr filled) (hword.mp found)
  | nonFinite filled numeric found =>
      exact .nonFinite (mt hempty.mpr filled) (mt hword.mpr numeric) (hunbounded.mp found)

theorem ofNumber_ne_empty (n : Option Float) : ofNumber n ≠ .empty := by
  unfold ofNumber
  split
  · simp
  · split <;> simp

theorem ofNumber_of_not_isFinite {x : Float} (h : ¬ x.isFinite = true) :
    ofNumber (some x) = .unbounded :=
  if_neg h

theorem ofNumber_eq_word_iff {n : Option Float} : ofNumber n = .word ↔ n = none := by
  cases n with
  | none => simp [ofNumber]
  | some x => by_cases h : x.isFinite = true <;> simp [ofNumber, h]

end Finding

namespace FrameColumn

variable {column : FrameColumn}

/-- Some cell of the column comes to this. -/
def Shows (column : FrameColumn) (f : Finding) : Prop :=
  ∃ cell ∈ column.cells, column.kind.found cell = f

/-- What is found in a column without empty cells is found in the values of its cells. -/
theorem shows_iff {values : List column.kind.Value} (h : column.cells.mapM id = some values)
    {f : Finding} :
    column.Shows f ↔ ∃ value ∈ values, .ofNumber (column.kind.number? value) = f := by
  refine exists_mem_iff_of_forall₂ (mapM_eq_some.mp h) fun cell value hvalue => ?_
  rw [show cell = some value from hvalue]
  rfl

/-- A column is refused for what is found in it, or there is a number in every cell. -/
theorem numbers_cases (column : FrameColumn) :
    (∃ e, column.numbers = .error e ∧ Finding.Refusal column.Shows column.name e) ∨
      ∃ values, column.numbers = .ok values ∧
        List.Forall₂ (fun cell x => column.kind.found cell = .finite x)
          column.cells values.toList := by
  rw [numbers]
  split
  -- The checks come in the order of the refusals: empty cells, then words, then infinities.
  next hcells =>
    obtain ⟨cell, hcell, hnone⟩ := mapM_eq_none.mp hcells
    obtain rfl : cell = none := hnone
    exact Or.inl ⟨_, rfl, .missing ⟨none, hcell, rfl⟩⟩
  next values hcells =>
    have hfilled : ¬ column.Shows .empty := by
      rw [shows_iff hcells]
      rintro ⟨value, -, h⟩
      exact Finding.ofNumber_ne_empty _ h
    have hword : column.Shows .word ↔ values.mapM column.kind.number? = none := by
      rw [shows_iff hcells, mapM_eq_none]
      simp only [Finding.ofNumber_eq_word_iff]
    split
    next hnone => exact Or.inl ⟨_, rfl, .wrongType hfilled (hword.mpr hnone)⟩
    next numbers hnumbers =>
      have hread := mapM_eq_some.mp hnumbers
      split
      next hfinite =>
        refine Or.inr ⟨_, rfl, ?_⟩
        have hall := (List.forall₂_and_left _ _).mpr ⟨List.all_eq_true.mp hfinite, hread.flip⟩
        refine forall₂_of_shared (mapM_eq_some.mp hcells).flip hall.flip ?_
        rintro value cell x hcell ⟨hx, hvalue⟩
        rw [show cell = some value from hcell]
        exact (congrArg Finding.ofNumber hvalue).trans (Finding.ofNumber_of_isFinite hx)
      next hinfinite =>
        have hnumeric : ¬ column.Shows .word := by simp [hword, hnumbers]
        -- All cells were read as numbers, so the one that is not finite is a number out of range.
        have hunbounded : column.Shows .unbounded := by
          rw [shows_iff hcells,
            exists_mem_iff_of_forall₂ hread fun value x hvalue => by rw [hvalue]]
          obtain ⟨x, hx, hlarge⟩ := by simpa using hinfinite
          exact ⟨x, hx, Finding.ofNumber_of_not_isFinite (by simp [hlarge])⟩
        exact Or.inl ⟨_, rfl, .nonFinite hfilled hnumeric hunbounded⟩

end FrameColumn

/-! ### The columns of a file -/

namespace Tsv.Contents

/-- Some row comes to this in a column of the given kind. -/
def Shows (contents : Contents) (position : Nat) (kind : CellKind) (f : Finding) : Prop :=
  ∃ fields ∈ contents.rows, kind.Finds (fieldAt position fields) f

/-- Every field of the column is a number, and these are the numbers. -/
def Numbers (contents : Contents) (name : String) (values : List Float) : Prop :=
  ∃ (position : Nat) (kind : CellKind), contents.columns[position]? = some (name, kind) ∧
    List.Forall₂ (fun fields x => kind.Finds (fieldAt position fields) (.finite x))
      contents.rows values

/-- Every field of the column is a number. -/
def IsNumeric (contents : Contents) (name : String) : Prop := ∃ values, contents.Numbers name values

/-- Why there are no numbers in a column. -/
inductive Refused (contents : Contents) (name : String) : DataError → Prop
  | absent (unnamed : name ∉ contents.columns.map Prod.fst) :
      Refused contents name (.columnNotFound name)
  | unfit {position : Nat} {kind : CellKind} {e : DataError}
      (named : contents.columns[position]? = some (name, kind))
      (refusal : Finding.Refusal (contents.Shows position kind) name e) : Refused contents name e

end Tsv.Contents

section Columns

variable {frame : Frame} {contents : Tsv.Contents} {name : String}

/-- What is found in the rows of the file is found in the column of the frame. -/
theorem shows_iff_of_isReadAt {kind : CellKind} {column : FrameColumn} {position : Nat}
    {f : Finding} (h : Tsv.IsReadAt contents.rows position name kind column)
    (hf : ∀ x, f ≠ .finite x) :
    contents.Shows position kind f ↔ column.Shows f := by
  obtain ⟨cells, rfl, hcells⟩ := h
  refine exists_mem_iff_of_forall₂ hcells fun fields cell hcell => ?_
  have hfinds := CellKind.finds_found hcell
  exact ⟨fun hfield => ((hfield.agrees hfinds).eq hf).symm, fun hfound => hfound ▸ hfinds⟩

/-- A column of the frame that has the name is read from a column of the file that has it. -/
theorem Frame.ReadFrom.exists_isReadAt (h : frame.ReadFrom contents) {column : FrameColumn}
    (hfind : frame.column? name = some column) :
    ∃ (position : Nat) (kind : CellKind), contents.columns[position]? = some (name, kind) ∧
      Tsv.IsReadAt contents.rows position name kind column := by
  have hname : column.name = name := by simpa using List.find?_some hfind
  obtain ⟨position, hposition⟩ := List.mem_iff_getElem?.mp (List.mem_of_find?_eq_some hfind)
  have hplace : (contents.columns.map Prod.fst)[position]? = some name := by
    rw [← h.names_eq, Frame.names, List.getElem?_map, hposition, Option.map_some, hname]
  rw [List.getElem?_map] at hplace
  obtain ⟨⟨label, kind⟩, hkind, hlabel⟩ := Option.map_eq_some_iff.mp hplace
  obtain rfl : label = name := hlabel
  obtain ⟨other, hother, hread⟩ := h.read position label kind hkind
  obtain rfl := Option.some.inj (hposition.symm.trans hother)
  exact ⟨position, kind, hkind, hread⟩

theorem Frame.ReadFrom.notMem_of_column? (h : frame.ReadFrom contents)
    (hfind : frame.column? name = none) : name ∉ contents.columns.map Prod.fst := by
  rw [← h.names_eq, Frame.names, List.mem_map]
  rintro ⟨column, hcolumn, hname⟩
  exact absurd hname (by simpa using List.find?_eq_none.mp hfind column hcolumn)

/-- The column of the frame is refused for what is in the rows, or every row has a number in it. -/
theorem numbers_cases_of_isReadAt {kind : CellKind} {column : FrameColumn} {position : Nat}
    (h : Tsv.IsReadAt contents.rows position name kind column) :
    (∃ e, column.numbers = .error e ∧ Finding.Refusal (contents.Shows position kind) name e) ∨
      ∃ values, column.numbers = .ok values ∧
        List.Forall₂ (fun fields x => kind.Finds (Tsv.fieldAt position fields) (.finite x))
          contents.rows values.toList := by
  obtain ⟨e, herror, hrefusal⟩ | ⟨values, hok, hfound⟩ := column.numbers_cases
  · have hname : column.name = name := by
      obtain ⟨cells, rfl, -⟩ := h
      rfl
    rw [hname] at hrefusal
    exact Or.inl ⟨e, herror, hrefusal.congr fun f hf => (shows_iff_of_isReadAt h hf).symm⟩
  · obtain ⟨cells, rfl, hcells⟩ := h
    refine Or.inr ⟨values, hok, forall₂_of_shared hcells.flip hfound ?_⟩
    intro cell fields x hcell hx
    exact hx ▸ CellKind.finds_found hcell

/-- A required column is refused for what is in the rows of the file, or every row has a number
in it. -/
theorem Frame.ReadFrom.required_cases (h : frame.ReadFrom contents) (name : String) :
    (∃ e, frame.required name = .error e ∧ contents.Refused name e) ∨
      ∃ column, frame.required name = .ok column ∧
        contents.Numbers name column.values.toList := by
  unfold Frame.required
  split
  next hnone => exact Or.inl ⟨_, rfl, .absent (h.notMem_of_column? hnone)⟩
  next source hsource =>
    obtain ⟨position, kind, hnamed, hread⟩ := h.exists_isReadAt hsource
    obtain ⟨e, herror, hrefusal⟩ | ⟨values, hok, hfound⟩ := numbers_cases_of_isReadAt hread
    · exact Or.inl ⟨e, by rw [herror]; rfl, .unfit hnamed hrefusal⟩
    · exact Or.inr ⟨⟨name, values⟩, by rw [hok]; rfl, position, kind, hnamed, hfound⟩

end Columns

/-! ### One outcome -/

namespace Tsv.Contents

variable {contents : Contents} (hnodup : (contents.columns.map Prod.fst).Nodup) {name : String}
include hnodup

/-- A name is that of a single column. -/
theorem named_unique {position position' : Nat} {kind kind' : CellKind}
    (h : contents.columns[position]? = some (name, kind))
    (h' : contents.columns[position']? = some (name, kind')) :
    position = position' ∧ kind = kind' := by
  have hplace : (contents.columns.map Prod.fst)[position]? = some name := by
    rw [List.getElem?_map, h, Option.map_some]
  have hplace' : (contents.columns.map Prod.fst)[position']? = some name := by
    rw [List.getElem?_map, h', Option.map_some]
  have heq : position = position' := (List.getElem?_inj
    (List.getElem?_eq_some_iff.mp hplace).1 hnodup).mp (hplace.trans hplace'.symm)
  subst heq
  rw [h] at h'
  simpa using h'

theorem Refused.unique {e e' : DataError} (h : contents.Refused name e)
    (h' : contents.Refused name e') : e = e' := by
  have hmem : ∀ {position kind}, contents.columns[position]? = some (name, kind) →
      name ∈ contents.columns.map Prod.fst := fun hnamed =>
    List.mem_map_of_mem (f := Prod.fst) (List.mem_of_getElem? hnamed)
  cases h with
  | absent unnamed =>
      cases h' with
      | absent => rfl
      | unfit named => exact absurd (hmem named) unnamed
  | unfit named refusal =>
      cases h' with
      | absent unnamed => exact absurd (hmem named) unnamed
      | unfit named' refusal' =>
          obtain ⟨rfl, rfl⟩ := named_unique hnodup named named'
          exact refusal.unique refusal'

theorem Refused.not_isNumeric {e : DataError} (h : contents.Refused name e) :
    ¬ contents.IsNumeric name := by
  rintro ⟨values, position, kind, hnamed, hvalues⟩
  cases h with
  | absent unnamed =>
      exact unnamed (List.mem_map_of_mem (f := Prod.fst) (List.mem_of_getElem? hnamed))
  | unfit named refusal =>
      obtain ⟨rfl, rfl⟩ := named_unique hnodup hnamed named
      obtain ⟨f, hf, fields, hfields, hfinds⟩ := refusal.exists_found
      obtain ⟨i, hi⟩ := List.mem_iff_getElem?.mp hfields
      obtain ⟨x, -, hx⟩ := forall₂_getElem? hvalues hi
      exact hf x ((hfinds.agrees hx).eq hf)

end Tsv.Contents

/-! ### Loading -/

/-- The columns fit together, so that only a required column that is refused is in the way of a
dataset, and the first of them decides. -/
theorem Frame.datasetOf_eq_error_iff {frame : Frame} {names : List String} {e : DataError} :
    frame.datasetOf names = .error e ↔
      ∃ name, FirstIn (fun name => ¬ ∃ column, frame.required name = .ok column) names name ∧
        frame.required name = .error e := by
  have hfirst : ∀ name, FirstIn (fun name => ¬ ∃ column, frame.required name = .ok column)
      names name ↔ FirstIn _ names.eraseDups name := fun name => firstIn_eraseDups.symm
  simp only [hfirst]
  rw [← mapM_eq_error, datasetOf, bind_eq_error]
  refine or_iff_left ?_
  rintro ⟨columns, hcolumns, hfailed⟩
  obtain ⟨hnames, hprovides⟩ := map_name_of_mapM_required hcolumns
  obtain ⟨dataset, hdataset⟩ := Dataset.exists_ofColumns
    (hnames ▸ nodup_eraseDups names) fun column hcolumn => (hprovides column hcolumn).size_eq
  rw [hdataset] at hfailed
  contradiction

/-- Why a data file with required columns is not loaded. -/
inductive LoadingRefused (content : FileContent) (required : List String) : DataError → Prop
  | unopened {e : FileError} (failed : content = .error e) :
      LoadingRefused content required (InputData.openingError e)
  | unreadable {bytes : ByteArray} {e : TsvError} (opened : content = .ok bytes)
      (failed : Frame.ofTsv bytes = .error e) : LoadingRefused content required (.unreadable e)
  | unfit {bytes : ByteArray} {frame : Frame} {contents : Tsv.Contents} {name : String}
      {e : DataError} (opened : content = .ok bytes) (read : Frame.ofTsv bytes = .ok frame)
      (parts : Tsv.contentsOf bytes = .ok contents)
      (first : FirstIn (fun name => ¬ contents.IsNumeric name) required name)
      (refused : contents.Refused name e) : LoadingRefused content required e

/-- The columns of the dataset are the required columns of the frame. -/
theorem Frame.required_of_mem {frame : Frame} {names : List String} {dataset : Dataset}
    (h : frame.datasetOf names = .ok dataset) {column : Column}
    (hcolumn : column ∈ dataset.columns) : frame.required column.name = .ok column := by
  obtain ⟨columns, hcolumns, hbuilt⟩ := bind_eq_ok.mp h
  have hlist : dataset.columns.toList = columns :=
    Dataset.columns_of_pushAll (mapError_eq_ok.mp hbuilt)
  rw [← Array.mem_toList_iff, hlist] at hcolumn
  obtain ⟨i, hi⟩ := List.mem_iff_getElem?.mp hcolumn
  obtain ⟨name, -, hname⟩ := forall₂_getElem? (mapM_eq_ok.mp hcolumns).flip hi
  rwa [(required_eq_ok hname).1]

/-- A dataset is refused for the first required column without numbers in the rows of the file. -/
theorem Frame.ReadFrom.datasetOf_eq_error_iff {frame : Frame} {contents : Tsv.Contents}
    (h : frame.ReadFrom contents) {required : List String} {e : DataError} :
    frame.datasetOf required = .error e ↔
      ∃ name, FirstIn (fun name => ¬ contents.IsNumeric name) required name ∧
        contents.Refused name e := by
  have hnodup := h.nodup_names
  -- Each column is either numeric or refused, on the side of the frame as on that of the file.
  have hnumeric : ∀ name, (∃ column, frame.required name = .ok column) ↔
      contents.IsNumeric name := by
    intro name
    obtain ⟨e, herror, hrefused⟩ | ⟨column, hok, hnumbers⟩ := h.required_cases name
    · simp [herror, hrefused.not_isNumeric hnodup]
    · exact iff_of_true ⟨column, hok⟩ ⟨_, hnumbers⟩
  have hrefused : ∀ name, frame.required name = .error e ↔ contents.Refused name e := by
    intro name
    obtain ⟨e', herror, hrefused⟩ | ⟨column, hok, hnumbers⟩ := h.required_cases name
    · rw [herror, Except.error.injEq]
      exact ⟨fun heq => heq ▸ hrefused, hrefused.unique hnodup⟩
    · refine iff_of_false (by simp [hok]) fun hrefused => ?_
      exact hrefused.not_isNumeric hnodup ⟨_, hnumbers⟩
  simp only [Frame.datasetOf_eq_error_iff, hnumeric, hrefused]

namespace InputData

variable {content : FileContent} {required : List String} {bytes : ByteArray} {e : DataError}

theorem load_of_unreadable {failure : TsvError} (h : Frame.ofTsv bytes = .error failure) :
    load (.ok bytes) required = .error (.unreadable failure) := by
  show ((Frame.ofTsv bytes).mapError DataError.unreadable >>= _) = _
  rw [h]
  rfl

/-- A file that can be read is refused if the dataset is. -/
theorem load_of_readable {frame : Frame} (h : Frame.ofTsv bytes = .ok frame) :
    load (.ok bytes) required = .error e ↔ frame.datasetOf required = .error e := by
  have hload : load (.ok bytes) required =
      (frame.datasetOf required >>= fun dataset => pure { frame, dataset }) := by
    show ((Frame.ofTsv bytes).mapError DataError.unreadable >>= _) = _
    rw [h]
    rfl
  rw [hload]
  cases frame.datasetOf required <;> simp [pure, Except.pure]

theorem load_eq_error_iff :
    load content required = .error e ↔ LoadingRefused content required e := by
  constructor
  · intro h
    -- A file is opened, then read as a table, then looked through for its columns.
    cases content with
    | error failure =>
        obtain rfl : openingError failure = e := Except.error.inj h
        exact .unopened rfl
    | ok bytes =>
        cases hread : Frame.ofTsv bytes with
        | error failure =>
            rw [load_of_unreadable hread] at h
            obtain rfl := Except.error.inj h
            exact .unreadable rfl hread
        | ok frame =>
            obtain ⟨contents, hcontents, hfrom⟩ := Frame.readFrom_of_ofTsv hread
            rw [load_of_readable hread, hfrom.datasetOf_eq_error_iff] at h
            obtain ⟨name, hfirst, hrefused⟩ := h
            exact .unfit rfl hread hcontents hfirst hrefused
  · intro h
    cases h with
    | unopened failed =>
        subst failed
        rfl
    | unreadable opened failed =>
        subst opened
        exact load_of_unreadable failed
    | unfit opened read parts first refused =>
        subst opened
        obtain ⟨contents, hcontents, hfrom⟩ := Frame.readFrom_of_ofTsv read
        obtain rfl := Except.ok.inj (parts.symm.trans hcontents)
        rw [load_of_readable read, hfrom.datasetOf_eq_error_iff]
        exact ⟨_, first, refused⟩

/-- What is loaded are the required columns, each once, with the numbers in the rows of the file.
Nothing is loaded exactly if the file cannot be read or a required column is not numeric; the first
such column is refused. -/
theorem load_outcome (content : FileContent) (required : List String) :
    (∀ data, load content required = .ok data → ∃ bytes contents, content = .ok bytes ∧
      Tsv.contentsOf bytes = .ok contents ∧ data.dataset.names = required.eraseDups ∧
        ∀ column ∈ data.dataset.columns, contents.Numbers column.name column.values.toList) ∧
    ∀ e, load content required = .error e ↔ LoadingRefused content required e := by
  refine ⟨fun data h => ?_, fun e => load_eq_error_iff⟩
  have hnames := (complete_of_load h).names_eq
  obtain ⟨bytes, hbytes, h⟩ := bind_eq_ok.mp h
  obtain ⟨frame, hframe, h⟩ := bind_eq_ok.mp h
  obtain ⟨dataset, hdataset, h⟩ := bind_eq_ok.mp h
  obtain rfl := Except.ok.inj h
  obtain ⟨contents, hcontents, hread⟩ := Frame.readFrom_of_ofTsv (mapError_eq_ok.mp hframe)
  refine ⟨bytes, contents, mapError_eq_ok.mp hbytes, hcontents, hnames, fun column hcolumn => ?_⟩
  -- What was loaded was not refused, so the column of the file has the numbers.
  have hrequired := Frame.required_of_mem hdataset hcolumn
  obtain ⟨e, herror, -⟩ | ⟨other, hok, hnumbers⟩ := hread.required_cases column.name
  · rw [hrequired] at herror
    contradiction
  · obtain rfl := Except.ok.inj (hrequired.symm.trans hok)
    exact hnumbers

/-- The names and values of the columns that were loaded. -/
def numbers (data : InputData) : List (String × List Float) :=
  data.dataset.columns.toList.map fun column => (column.name, column.values.toList)

/-- A file of a column of numbers and one of words. -/
def namedFile : String := "score\tname\n1\tx\n2.50\ty\n"

/-- The numbers are loaded, and the words are refused. -/
theorem load_outcome_namedFile :
    (∃ data contents, load (.ok namedFile.toUTF8) ["score"] = .ok data ∧
      Tsv.contentsOf namedFile.toUTF8 = .ok contents ∧ contents.Numbers "score" [1, 5 / 2]) ∧
    LoadingRefused (.ok namedFile.toUTF8) ["score", "name"] (.columnWrongType "name") := by
  have hloaded : (load (.ok namedFile.toUTF8) ["score"]).map numbers =
      .ok [("score", [1, 5 / 2])] := by
    decide +kernel
  have hrefused : (load (.ok namedFile.toUTF8) ["score", "name"]).map numbers =
      .error (.columnWrongType "name") := by
    decide +kernel
  constructor
  · obtain ⟨data, hdata, hcolumns⟩ := map_eq_ok.mp hloaded
    obtain ⟨bytes, contents, hbytes, hcontents, -, hnumbers⟩ := (load_outcome _ _).1 data hdata
    obtain rfl := Except.ok.inj hbytes
    obtain ⟨column, hcolumn, hpair⟩ := List.map_eq_singleton_iff.mp hcolumns
    obtain ⟨hname, hvalues⟩ := Prod.mk.inj hpair
    refine ⟨data, contents, hdata, hcontents, ?_⟩
    rw [← hname, ← hvalues]
    exact hnumbers column (by simp [← Array.mem_toList_iff, hcolumn])
  · exact ((load_outcome _ _).2 _).mp (map_eq_error.mp hrefused)

/-- A file of a column of words for truth values. -/
def truthFile : String := "score\ntrue\nfalse\nTRUE\n"

/-- The words are no numbers, but they are loaded as ones and zeros. -/
theorem load_truthFile :
    (∃ data, load (.ok truthFile.toUTF8) ["score"] = .ok data ∧
      data.numbers = [("score", [1, 0, 1])]) ∧
    ∀ word ∈ ["true", "false", "TRUE"], ∀ v, ¬ Spells word.toList v := by
  have hloaded : (load (.ok truthFile.toUTF8) ["score"]).map numbers =
      .ok [("score", [1, 0, 1])] := by
    decide +kernel
  have hunread : ∀ word ∈ ["true", "false", "TRUE"], Decimal.floatOfText? word = none := by
    decide +kernel
  exact ⟨map_eq_ok.mp hloaded, fun word hword =>
    (Decimal.floatOfText?_eq_none_iff.mp (hunread word hword)).1⟩

end InputData

end ItemScoring
