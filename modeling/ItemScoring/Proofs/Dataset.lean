import Mathlib.Data.List.Nodup
import ItemScoring.Dataset
import ItemScoring.Proofs.Sequence

/-!
# Consistent datasets

Every dataset that is built by appending columns is consistent: its index holds the
positions of the names, and its columns have one length (`Consistent.push`,
`Consistent.pushAll`).  In a consistent dataset names are distinct, and whether a
column is there, what it holds and what a record has in it can all be read off the
columns.

Columns of the right length that are appended to a dataset are refused for their
names only, and the first name that is taken is the one reported
(`pushAll_eq_error_iff`).
-/

namespace ItemScoring.Dataset

variable {data next : Dataset} {name : String} {column : Column}

/-! ### Names and values -/

theorem getElem?_names (position : Nat) :
    data.names[position]? = (data.columns[position]?).map Column.name := by
  simp [names]

theorem length_names : data.names.length = data.columnCount := by
  simp [names, columnCount]

theorem Consistent.index_eq_some_iff (h : data.Consistent) {position : Nat} :
    data.index[name]? = some position ↔ data.names[position]? = some name := by
  rw [h.indexed, getElem?_names]

theorem Consistent.hasColumn_iff (h : data.Consistent) :
    data.hasColumn name = true ↔ name ∈ data.names := by
  rw [hasColumn, Std.TreeMap.contains_eq_isSome_getElem?, Option.isSome_iff_exists,
    List.mem_iff_getElem?]
  simp only [h.index_eq_some_iff]

theorem Consistent.hasColumn_eq_false_iff (h : data.Consistent) :
    data.hasColumn name = false ↔ name ∉ data.names := by
  rw [← h.hasColumn_iff, Bool.not_eq_true]

theorem Consistent.nodup_names (h : data.Consistent) : data.names.Nodup := by
  -- A name that stood at two positions would have both of them in the index.
  rw [List.nodup_iff_getElem?_ne_getElem?]
  intro i j hij hj heq
  have hsome := List.getElem?_eq_getElem (l := data.names) (Nat.lt_trans hij hj)
  have hi := h.index_eq_some_iff.mpr hsome
  have hj := h.index_eq_some_iff.mpr (heq ▸ hsome)
  have := Option.some.inj (hi.symm.trans hj)
  omega

/-- A column of the dataset is found by its name. -/
theorem Consistent.exists_values (h : data.Consistent) (hname : name ∈ data.names) :
    ∃ values, data.values? name = some values ∧ values.size = data.rowCount := by
  obtain ⟨position, hposition⟩ := List.mem_iff_getElem?.mp hname
  have hindex := h.index_eq_some_iff.mpr hposition
  rw [getElem?_names, Option.map_eq_some_iff] at hposition
  obtain ⟨column, hcolumn, -⟩ := hposition
  refine ⟨column.values, by simp [values?, hindex, hcolumn], ?_⟩
  exact h.sameLength column (Array.mem_of_getElem? hcolumn)

theorem value?_record {values : Array Float} (hvalues : data.values? name = some values)
    (row : Nat) : (data.record row).value? name = values[row]? := by
  simp [record, hvalues]

/-! ### Appending -/

theorem Consistent.empty : Dataset.empty.Consistent where
  sameLength := by simp [Dataset.empty]
  indexed := by simp [Dataset.empty]

/-- The dataset with one more column, whatever its name and length. -/
def withColumn (data : Dataset) (column : Column) : Dataset where
  columns := data.columns.push column
  index := data.index.insert column.name data.columnCount

theorem push_eq_ok_iff : data.push column = .ok next ↔ data.hasColumn column.name = false ∧
    (0 < data.columnCount → column.values.size = data.rowCount) ∧
      next = data.withColumn column := by
  rw [push]
  split
  next htaken => simp [htaken]
  next hfree =>
    split
    next hlength =>
      simp only [reduceCtorEq, false_iff]
      rintro ⟨-, hsize, -⟩
      exact hlength.2 (hsize hlength.1)
    next hlength =>
      have hsize : 0 < data.columnCount → column.values.size = data.rowCount := by
        intro hcount
        by_contra hne
        exact hlength ⟨hcount, hne⟩
      have hname : data.hasColumn column.name = false := Bool.not_eq_true _ ▸ hfree
      rw [Except.ok.injEq]
      exact ⟨fun heq => ⟨hname, hsize, heq.symm⟩, fun h => h.2.2.symm⟩

theorem names_withColumn : (data.withColumn column).names = data.names ++ [column.name] := by
  simp [withColumn, names]

theorem columnCount_withColumn : (data.withColumn column).columnCount = data.columnCount + 1 := by
  simp [withColumn, columnCount]

theorem rowCount_withColumn (hcount : 0 < data.columnCount) :
    (data.withColumn column).rowCount = data.rowCount := by
  have hfirst : (data.columns.push column)[0]? = data.columns[0]? := by
    rw [Array.getElem?_push]
    exact if_neg (Nat.ne_of_lt hcount)
  simp only [rowCount, withColumn, hfirst]

/-- A column of a new name and the right length keeps a dataset consistent. -/
theorem Consistent.withColumn (h : data.Consistent) (hfree : column.name ∉ data.names)
    (hsize : 0 < data.columnCount → column.values.size = data.rowCount) :
    (data.withColumn column).Consistent where
  sameLength := by
    intro other hother
    rcases Array.mem_push.mp hother with hold | rfl
    · have hcount : 0 < data.columnCount := Array.size_pos_of_mem hold
      rw [rowCount_withColumn hcount, h.sameLength other hold]
    · rcases Nat.eq_zero_or_pos data.columnCount with hzero | hcount
      · have hempty : data.columns = #[] := Array.size_eq_zero_iff.mp hzero
        simp [rowCount, Dataset.withColumn, hempty]
      · rw [rowCount_withColumn hcount, hsize hcount]
  indexed := by
    intro name position
    rw [← getElem?_names, names_withColumn]
    have hlast : data.names.length = data.columnCount := length_names
    simp only [Dataset.withColumn, Std.TreeMap.getElem?_insert,
      Std.LawfulEqCmp.compare_eq_iff_eq]
    -- The new name stands behind all others; the positions of the others stay.
    by_cases hname : column.name = name
    · subst hname
      rw [if_pos rfl, Option.some.injEq]
      constructor
      · intro heq
        subst heq
        rw [← hlast, List.getElem?_concat_length]
      · intro hposition
        rcases Nat.lt_trichotomy position data.names.length with hlt | heq | hgt
        · rw [List.getElem?_append_left hlt] at hposition
          exact absurd (List.mem_of_getElem? hposition) hfree
        · rw [heq, hlast]
        · rw [List.getElem?_eq_none (by simp; omega)] at hposition
          contradiction
    · rw [if_neg hname, h.index_eq_some_iff]
      rcases Nat.lt_or_ge position data.names.length with hlt | hge
      · rw [List.getElem?_append_left hlt]
      · rw [List.getElem?_eq_none hge, List.getElem?_append_right hge]
        have hother : ∀ k : Nat, [column.name][k]? ≠ some name := by
          intro k hk
          exact hname (List.mem_singleton.mp (List.mem_of_getElem? hk)).symm
        simp [hother]

theorem Consistent.push (h : data.Consistent) (hpush : data.push column = .ok next) :
    next.Consistent := by
  obtain ⟨hfree, hsize, rfl⟩ := push_eq_ok_iff.mp hpush
  exact h.withColumn (h.hasColumn_eq_false_iff.mp hfree) hsize

theorem pushAll_cons (first : Column) (rest : List Column) :
    data.pushAll (first :: rest) = (data.push first >>= fun next => next.pushAll rest) := rfl

theorem Consistent.pushAll {columns : List Column} (h : data.Consistent)
    (hpush : data.pushAll columns = .ok next) : next.Consistent := by
  induction columns generalizing data with
  | nil =>
      obtain rfl := Except.ok.inj hpush
      exact h
  | cons first rest ih =>
      obtain ⟨grown, hgrown, hrest⟩ := bind_eq_ok.mp hpush
      exact ih (h.push hgrown) hrest

/-- Columns are appended at the end, in order. -/
theorem columns_of_pushAll {columns : List Column} (hpush : data.pushAll columns = .ok next) :
    next.columns.toList = data.columns.toList ++ columns := by
  induction columns generalizing data with
  | nil =>
      obtain rfl := Except.ok.inj hpush
      rw [List.append_nil]
  | cons first rest ih =>
      obtain ⟨grown, hgrown, hrest⟩ := bind_eq_ok.mp hpush
      obtain ⟨-, -, rfl⟩ := push_eq_ok_iff.mp hgrown
      rw [ih hrest, withColumn, Array.toList_push, List.append_assoc, List.singleton_append]

/-- A dataset that was built from columns is consistent. -/
theorem consistent_of_ofColumns {columns : List Column} (h : ofColumns columns = .ok data) :
    data.Consistent :=
  Consistent.empty.pushAll h

/-! ### Appending columns of the right length -/

theorem rowCount_of_pushAll {columns : List Column} (hpush : data.pushAll columns = .ok next)
    (hsizes : ∀ column ∈ columns, column.values.size = data.rowCount) :
    next.rowCount = data.rowCount := by
  induction columns generalizing data with
  | nil =>
      obtain rfl := Except.ok.inj hpush
      rfl
  | cons first rest ih =>
      obtain ⟨hfirst, hrest⟩ := List.forall_mem_cons.mp hsizes
      obtain ⟨grown, hgrown, hnext⟩ := bind_eq_ok.mp hpush
      obtain ⟨-, -, rfl⟩ := push_eq_ok_iff.mp hgrown
      -- The first column of all sets the number of rows, here to what it was without columns.
      have hsame : (data.withColumn first).rowCount = data.rowCount := by
        rcases Nat.eq_zero_or_pos data.columnCount with hzero | hcount
        · have hempty : data.columns = #[] := Array.size_eq_zero_iff.mp hzero
          simpa [rowCount, withColumn, hempty] using hfirst
        · exact rowCount_withColumn hcount
      rw [ih hnext fun column hcolumn => (hrest column hcolumn).trans hsame.symm, hsame]

/-- A column of the right length is refused for its name only. -/
theorem Consistent.push_eq (h : data.Consistent) (hsize : column.values.size = data.rowCount) :
    data.push column = if column.name ∈ data.names then .error (.duplicateColumn column.name)
      else .ok (data.withColumn column) := by
  split
  next htaken => rw [Dataset.push, if_pos (h.hasColumn_iff.mpr htaken)]
  next hfree =>
    exact push_eq_ok_iff.mpr ⟨h.hasColumn_eq_false_iff.mpr hfree, fun _ => hsize, rfl⟩

/-- Columns of the right length can all be appended if their names are new and
distinct. -/
theorem Consistent.pushAll_eq_ok_iff (h : data.Consistent) (hcount : 0 < data.columnCount)
    {columns : List Column} (hsizes : ∀ column ∈ columns, column.values.size = data.rowCount) :
    (∃ next, data.pushAll columns = .ok next) ↔ (data.names ++ columns.map Column.name).Nodup := by
  induction columns generalizing data with
  | nil =>
      simp only [List.map_nil, List.append_nil, h.nodup_names, iff_true]
      exact ⟨data, rfl⟩
  | cons first rest ih =>
      obtain ⟨hfirst, hrest⟩ := List.forall_mem_cons.mp hsizes
      rw [pushAll_cons, h.push_eq hfirst]
      -- The first column is refused if its name is taken; otherwise its name is taken for the rest.
      by_cases htaken : first.name ∈ data.names
      · rw [if_pos htaken]
        simp only [error_bind, reduceCtorEq, exists_false, false_iff]
        intro hnodup
        exact (List.nodup_append.mp hnodup).2.2 _ htaken _ (by simp) rfl
      · rw [if_neg htaken, ok_bind, ih (h.withColumn htaken fun _ => hfirst)
          (by rw [columnCount_withColumn]; omega)
          (fun column hcolumn => by rw [rowCount_withColumn hcount, hrest column hcolumn]),
          names_withColumn, List.append_assoc]
        rfl

/-- Columns of one length with distinct names make a dataset. -/
theorem exists_ofColumns {columns : List Column} {count : Nat}
    (hdistinct : (columns.map Column.name).Nodup)
    (hsizes : ∀ column ∈ columns, column.values.size = count) :
    ∃ data, ofColumns columns = .ok data := by
  cases columns with
  | nil => exact ⟨_, rfl⟩
  | cons first rest =>
      obtain ⟨hfirst, hrest⟩ := List.forall_mem_cons.mp hsizes
      have hpush : Dataset.empty.push first = .ok (Dataset.empty.withColumn first) :=
        push_eq_ok_iff.mpr ⟨rfl, fun hcount => absurd hcount (Nat.lt_irrefl 0), rfl⟩
      have hgrown := Consistent.empty.push hpush
      obtain ⟨next, hnext⟩ := (hgrown.pushAll_eq_ok_iff Nat.zero_lt_one
        fun column hcolumn => (hrest column hcolumn).trans hfirst.symm).mpr hdistinct
      refine ⟨next, ?_⟩
      rw [ofColumns, pushAll_cons, hpush]
      exact hnext

/-- Otherwise the first name that is taken is reported. -/
theorem Consistent.pushAll_eq_error_iff (h : data.Consistent) (hcount : 0 < data.columnCount)
    {columns : List Column} (hsizes : ∀ column ∈ columns, column.values.size = data.rowCount)
    {e : DatasetError} : data.pushAll columns = .error e ↔
      ∃ before name after, columns.map Column.name = before ++ name :: after ∧
        (data.names ++ before).Nodup ∧ name ∈ data.names ++ before ∧ e = .duplicateColumn name := by
  induction columns generalizing data with
  | nil =>
      have hok : data.pushAll [] = .ok data := rfl
      simp [hok]
  | cons first rest ih =>
      obtain ⟨hfirst, hrest⟩ := List.forall_mem_cons.mp hsizes
      rw [pushAll_cons, h.push_eq hfirst]
      by_cases htaken : first.name ∈ data.names
      · rw [if_pos htaken, error_bind, Except.error.injEq]
        constructor
        · intro heq
          subst heq
          exact ⟨[], first.name, rest.map Column.name, rfl, by simpa using h.nodup_names,
            by simpa using htaken, rfl⟩
        · rintro ⟨before, name, after, hnames, hnodup, -, rfl⟩
          cases before with
          | nil => rw [(List.cons.inj hnames).1]
          | cons other before =>
              obtain ⟨rfl, -⟩ := List.cons.inj hnames
              exact absurd rfl ((List.nodup_append.mp hnodup).2.2 _ htaken _ (by simp))
      · rw [if_neg htaken, ok_bind, ih (h.withColumn htaken fun _ => hfirst)
          (by rw [columnCount_withColumn]; omega)
          (fun column hcolumn => by rw [rowCount_withColumn hcount, hrest column hcolumn])]
        simp only [names_withColumn, List.append_assoc, List.singleton_append]
        constructor
        -- The first name is free, so that it only moves from the data to what comes before.
        · rintro ⟨before, name, after, hnames, hnodup, hmem, he⟩
          exact ⟨first.name :: before, name, after, by simp [hnames], hnodup, hmem, he⟩
        · rintro ⟨before, name, after, hnames, hnodup, hmem, he⟩
          cases before with
          | nil =>
              obtain ⟨rfl, -⟩ := List.cons.inj hnames
              exact absurd (by simpa using hmem) htaken
          | cons other before =>
              obtain ⟨rfl, htail⟩ := List.cons.inj hnames
              exact ⟨before, name, after, htail, hnodup, hmem, he⟩

end ItemScoring.Dataset
