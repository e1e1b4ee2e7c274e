import Mathlib.Data.List.Nodup
import ItemScoring.Toml.Document

/-!
# Documents of tables and rows

A document whose sections give one row each of some named tables describes its plain
entries, followed by one array for each table that has rows (`entries?_grouped`).  While
it is put together, the table that grows is the last one, so that the invariant of the
loop over its rows only speaks of the end of the list of branches.
-/

namespace ItemScoring.Toml

/-- Entries as they are written without paths. -/
def keyed (entries : Entries) : List (List String × String × Value) :=
  entries.map fun (key, value) => ([], key, value)

/-- The section of a row of a table. -/
def rowOf (name : String) (fields : Entries) : Section where
  appends := true
  path := []
  name
  entries := keyed fields

/-- Entries as they are kept while the document is put together. -/
def complete (entries : Entries) : Branches := entries.map fun (key, value) => (key, .closed value)

namespace Branches

variable {branches : Branches} {name key : String} {rows : List Entries}

theorem lookup_of_notMem (h : key ∉ branches.map Prod.fst) : branches.lookup key = none := by
  rw [List.lookup_eq_none_iff]
  intro entry hentry
  have hne : key ≠ entry.1 := by
    intro heq
    subst heq
    exact h (List.mem_map_of_mem hentry)
  simpa using hne

theorem replace_last (h : name ∉ branches.map Prod.fst) (last next : Growing) :
    replace name next (branches ++ [(name, last)]) = branches ++ [(name, next)] := by
  induction branches with
  | nil => simp [replace]
  | cons first branches ih =>
      obtain ⟨hfirst, hmore⟩ : name ≠ first.1 ∧ name ∉ branches.map Prod.fst := by
        simpa using h
      simp [replace, Ne.symm hfirst, ih hmore]

theorem lookup_last (h : name ∉ branches.map Prod.fst) (last : Growing) :
    (branches ++ [(name, last)]).lookup name = some last := by
  simp [List.lookup_append, lookup_of_notMem h]

/-- Entries with new and distinct keys are added in their order. -/
theorem insertAll_keyed {entries : Entries}
    (h : (branches.map Prod.fst ++ entries.map Prod.fst).Nodup) :
    insertAll branches (keyed entries) = some (branches ++ complete entries) := by
  induction entries generalizing branches with
  | nil => simp [insertAll, keyed, complete]
  | cons first entries ih =>
      obtain ⟨key, value⟩ := first
      have hfresh : key ∉ branches.map Prod.fst := by
        intro hmem
        exact (List.nodup_append.mp h).2.2 key hmem key (by simp) rfl
      have hnext : ((branches ++ [(key, Growing.closed value)]).map Prod.fst ++
          entries.map Prod.fst).Nodup := by
        simpa using h
      have hmore := ih hnext
      simp only [insertAll, keyed, complete, List.map_cons, List.foldlM_cons] at hmore ⊢
      simp [change, insert, lookup_of_notMem hfresh, hmore]

theorem insertAll_row {row : Entries} (h : (row.map Prod.fst).Nodup) :
    insertAll [] (keyed row) = some (complete row) := by
  have hrow := @insertAll_keyed [] row h
  simpa using hrow

/-- The step of the loop over sections, for a row of a table. -/
def addRow (name : String) (branches : Branches) (row : Entries) : Option Branches :=
  branches.change false (addSection (rowOf name row)) [] .header

theorem addRow_first {row : Entries} (hname : name ∉ branches.map Prod.fst)
    (hrow : (row.map Prod.fst).Nodup) :
    addRow name branches row = some (branches ++ [(name, .tables [complete row])]) := by
  simp [addRow, change, addSection, rowOf, lookup_of_notMem hname, insertAll_row hrow]

theorem addRow_next {row : Entries} {earlier : List Branches}
    (hname : name ∉ branches.map Prod.fst) (hrow : (row.map Prod.fst).Nodup) :
    addRow name (branches ++ [(name, .tables earlier)]) row =
      some (branches ++ [(name, .tables (earlier ++ [complete row]))]) := by
  simp [addRow, change, addSection, rowOf, lookup_last hname, insertAll_row hrow,
    replace_last hname]

/-- The rows that are still to come end up behind those already there. -/
theorem foldlM_addRow {earlier : List Branches} (hname : name ∉ branches.map Prod.fst)
    (hrows : ∀ row ∈ rows, (row.map Prod.fst).Nodup) :
    rows.foldlM (addRow name) (branches ++ [(name, .tables earlier)]) =
      some (branches ++ [(name, .tables (earlier ++ rows.map complete))]) := by
  induction rows generalizing earlier with
  | nil => simp
  | cons row rows ih =>
      obtain ⟨hrow, hmore⟩ := List.forall_mem_cons.mp hrows
      rw [List.foldlM_cons, addRow_next hname hrow, Option.bind_eq_bind, Option.bind_some, ih hmore]
      simp

/-- What the rows of a table grow into; a table without rows leaves no trace. -/
def grown (name : String) : List Entries → Branches
  | [] => []
  | rows => [(name, .tables (rows.map complete))]

theorem foldlM_rows (hnames : ((branches ++ grown name rows).map Prod.fst).Nodup)
    (hrows : ∀ row ∈ rows, (row.map Prod.fst).Nodup) :
    rows.foldlM (addRow name) branches = some (branches ++ grown name rows) := by
  cases rows with
  | nil => simp [grown]
  | cons row rows =>
      have hname : name ∉ branches.map Prod.fst := by
        rw [List.map_append] at hnames
        intro hmem
        exact (List.nodup_append.mp hnames).2.2 name hmem name (by simp [grown]) rfl
      obtain ⟨hrow, hmore⟩ := List.forall_mem_cons.mp hrows
      rw [List.foldlM_cons, addRow_first hname hrow, Option.bind_eq_bind, Option.bind_some,
        foldlM_addRow hname hmore]
      rfl

/-- Tables with new and distinct names are added one behind the other. -/
theorem foldlM_tables {tables : List (String × List Entries)}
    (hnames : ((branches ++ tables.flatMap fun table => grown table.1 table.2).map Prod.fst).Nodup)
    (hrows : ∀ table ∈ tables, ∀ row ∈ table.2, (row.map Prod.fst).Nodup) :
    (tables.flatMap fun table => table.2.map (rowOf table.1)).foldlM (fun branches written =>
        change false (addSection written) written.path .header branches) branches =
      some (branches ++ tables.flatMap fun table => grown table.1 table.2) := by
  -- Each table adds its rows to the branches that are there, none of which has its name.
  induction tables generalizing branches with
  | nil => simp
  | cons table tables ih =>
      obtain ⟨name, rows⟩ := table
      obtain ⟨hfirst, hmore⟩ := List.forall_mem_cons.mp hrows
      rw [List.flatMap_cons, ← List.append_assoc] at hnames
      have hname : ((branches ++ grown name rows).map Prod.fst).Nodup := by
        rw [List.map_append] at hnames
        exact hnames.of_append_left
      have hrowsOf : (rows.map (rowOf name)).foldlM (fun branches written =>
          change false (addSection written) written.path .header branches) branches =
            some (branches ++ grown name rows) := by
        rw [List.foldlM_map]
        exact foldlM_rows hname hfirst
      rw [List.flatMap_cons, List.foldlM_append, hrowsOf, Option.bind_eq_bind, Option.bind_some,
        ih hnames hmore, List.flatMap_cons, List.append_assoc]

end Branches

/-! ### What has grown -/

theorem entriesOf_append (branches more : Branches) :
    entriesOf (branches ++ more) = entriesOf branches ++ entriesOf more := by
  induction branches with
  | nil => rfl
  | cons first branches ih => simp [entriesOf, ih]

theorem entriesOf_complete (entries : Entries) : entriesOf (complete entries) = entries := by
  induction entries with
  | nil => rfl
  | cons first entries ih =>
      have hmore : entriesOf (entries.map fun (key, value) => (key, Growing.closed value)) =
          entries := ih
      simp [complete, entriesOf, Growing.value, hmore]

theorem elementsOf_complete (rows : List Entries) :
    elementsOf (rows.map complete) = rows.map .table := by
  induction rows with
  | nil => rfl
  | cons row rows ih => simp [elementsOf, entriesOf_complete, ih]

/-- The entry of a table; a table without rows has none. -/
def tableEntry (name : String) : List Entries → Entries
  | [] => []
  | rows => [(name, .array (rows.map .table))]

theorem entriesOf_grown (name : String) (rows : List Entries) :
    entriesOf (Branches.grown name rows) = tableEntry name rows := by
  cases rows with
  | nil => rfl
  | cons row rows =>
      have helements := elementsOf_complete (row :: rows)
      simp only [Branches.grown, entriesOf, Growing.value, helements, tableEntry]

theorem entriesOf_tables (tables : List (String × List Entries)) :
    entriesOf (tables.flatMap fun table => Branches.grown table.1 table.2) =
      tables.flatMap fun table => tableEntry table.1 table.2 := by
  induction tables with
  | nil => rfl
  | cons table tables ih =>
      rw [List.flatMap_cons, entriesOf_append, entriesOf_grown, ih, List.flatMap_cons]

theorem keys_entriesOf (branches : Branches) :
    (entriesOf branches).map Prod.fst = branches.map Prod.fst := by
  induction branches with
  | nil => rfl
  | cons first branches ih => simp [entriesOf, ih]

/-- A document of plain entries and rows of named tables describes these entries and
tables. -/
theorem entries?_grouped {plain : Entries} {tables : List (String × List Entries)}
    (hnames : ((plain ++ tables.flatMap fun table => tableEntry table.1 table.2).map
      Prod.fst).Nodup)
    (hrows : ∀ table ∈ tables, ∀ row ∈ table.2, (row.map Prod.fst).Nodup) :
    Document.entries? {
      preamble := keyed plain
      sections := tables.flatMap fun table => table.2.map (rowOf table.1) } =
      some (plain ++ tables.flatMap fun table => tableEntry table.1 table.2) := by
  have hresult : entriesOf (complete plain ++ tables.flatMap fun table =>
      Branches.grown table.1 table.2) =
      plain ++ tables.flatMap fun table => tableEntry table.1 table.2 := by
    rw [entriesOf_append, entriesOf_complete, entriesOf_tables]
  have hplain : (plain.map Prod.fst).Nodup := by
    rw [List.map_append] at hnames
    exact hnames.of_append_left
  -- Names are distinct in the result, hence in the branches that grow into it.
  rw [← hresult, keys_entriesOf] at hnames
  have hpreamble := Branches.insertAll_row hplain
  have hsections := Branches.foldlM_tables hnames hrows
  rw [Document.entries?]
  simp [hpreamble, hsections, hresult]

end ItemScoring.Toml
