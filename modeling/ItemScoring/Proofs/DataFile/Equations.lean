import ItemScoring.DataFile.Output
import ItemScoring.Proofs.Expr.Grouping
import ItemScoring.Proofs.Prediction.Columns
import ItemScoring.Proofs.Prediction.Outcome
import ItemScoring.Proofs.Prediction.Sessions

/-!
# Reading a list of equations

A list of equations has a line for its head and one for each equation, with a tab between the label
and the text.  Both stand in it as they are, so that a line feed of a label or of a column breaks
the line in two, and a tab of a label cuts the line too early.

`Predictions.readEquations` reads such a list.  What it yields holds no line feed, and no tab in
front of the first one, whatever is read; so exactly those equations are read as they were written
that are free of both in these places (`Predictions.read_equationTable_iff`).  A line feed comes
into an equation by the names of columns only (`Expr.mem_render_iff`).
-/

namespace ItemScoring

/-! ### Lines of a text -/

namespace EquationList

/-- The text of lines, with a line feed behind each of them. -/
def joinLines (lines : List (List Char)) : List Char := lines.flatMap fun line => line ++ ['\n']

/-- The lines of a text, each ended by a line feed. -/
def cutLines (text : List Char) : List (List Char) := (text.splitOn '\n').dropLast

@[simp] theorem joinLines_cons (line : List Char) (lines : List (List Char)) :
    joinLines (line :: lines) = line ++ '\n' :: joinLines lines := by
  simp [joinLines]

theorem cutLines_cons {line text : List Char} (hline : '\n' ∉ line) :
    cutLines (line ++ '\n' :: text) = line :: cutLines text := by
  rw [cutLines, List.splitOn_append_cons_self_of_not_mem hline,
    List.dropLast_cons_of_ne_nil (List.splitOn_ne_nil '\n' text)]
  rfl

theorem cutLines_joinLines {lines : List (List Char)} (hlines : ∀ line ∈ lines, '\n' ∉ line) :
    cutLines (joinLines lines) = lines := by
  induction lines with
  | nil => rfl
  | cons line rest ih =>
      obtain ⟨hline, hrest⟩ := List.forall_mem_cons.mp hlines
      rw [joinLines_cons, cutLines_cons hline, ih hrest]

theorem not_mem_of_mem_splitOn {text line : List Char} (hline : line ∈ text.splitOn '\n') :
    '\n' ∉ line := by
  induction text generalizing line with
  | nil => simp_all
  | cons c text ih =>
      obtain ⟨first, rest, hsplit⟩ :=
        List.exists_cons_of_ne_nil (List.splitOn_ne_nil '\n' text)
      rw [hsplit] at ih
      rw [List.splitOn_cons_eq_if_modifyHead, hsplit] at hline
      -- A line feed starts a new line; anything else is put in front of the first one.
      split at hline
      · rcases List.mem_cons.mp hline with rfl | hline
        · exact List.not_mem_nil
        · exact ih hline
      next hc =>
        rw [List.modifyHead_cons] at hline
        rcases List.mem_cons.mp hline with rfl | hline
        · refine List.not_mem_cons_of_ne_of_not_mem ?_ (ih List.mem_cons_self)
          rintro rfl
          exact hc (beq_self_eq_true _)
        · exact ih (List.mem_cons_of_mem _ hline)

theorem not_mem_of_mem_cutLines {text line : List Char} (hline : line ∈ cutLines text) :
    '\n' ∉ line :=
  not_mem_of_mem_splitOn (List.dropLast_subset _ hline)

/-- There are as many lines as line feeds. -/
theorem length_cutLines (text : List Char) : (cutLines text).length = text.count '\n' := by
  rw [cutLines, List.length_dropLast]
  induction text with
  | nil => rfl
  | cons c text ih =>
      obtain ⟨first, rest, hsplit⟩ :=
        List.exists_cons_of_ne_nil (List.splitOn_ne_nil '\n' text)
      rw [hsplit] at ih
      rw [List.splitOn_cons_eq_if_modifyHead, hsplit, List.count_cons, ← ih]
      split <;> simp_all

theorem length_le_count_joinLines (lines : List (List Char)) :
    lines.length ≤ (joinLines lines).count '\n' := by
  induction lines with
  | nil => simp
  | cons first rest ih =>
      rw [joinLines_cons, List.count_append, List.count_cons_self, List.length_cons]
      omega

/-- Lines are as many as before exactly if none of them holds a line feed. -/
theorem length_cutLines_joinLines_iff {lines : List (List Char)} :
    (cutLines (joinLines lines)).length = lines.length ↔ ∀ line ∈ lines, '\n' ∉ line := by
  rw [length_cutLines]
  induction lines with
  | nil => simp [joinLines]
  | cons first rest ih =>
      have hle := length_le_count_joinLines rest
      rw [joinLines_cons, List.count_append, List.count_cons_self, List.length_cons,
        List.forall_mem_cons, ← ih, ← List.count_eq_zero]
      omega

/-! ### Entries of lines -/

/-- The line of a label and an equation. -/
def line (entry : String × String) : List Char := entry.1.toList ++ '\t' :: entry.2.toList

/-- The label in front of the first tab of a line, and the equation behind it. -/
def pairOf? (line : List Char) : Option (String × String) :=
  match line.dropWhile (· != '\t') with
  | [] => none
  | _ :: equation => some (.ofList (line.takeWhile (· != '\t')), .ofList equation)

theorem pairOf?_line {entry : String × String} (hlabel : '\t' ∉ entry.1.toList) :
    pairOf? (line entry) = some entry := by
  have hfree : ∀ c ∈ entry.1.toList, (c != '\t') = true := by
    intro c hc
    rw [bne_iff_ne]
    rintro rfl
    exact hlabel hc
  rw [pairOf?, line, List.dropWhile_append_of_pos hfree, List.takeWhile_append_of_pos hfree]
  simp

/-- A line is made of what is read from it, and its label ends at the first tab. -/
theorem line_of_pairOf? {text : List Char} {entry : String × String}
    (h : pairOf? text = some entry) : line entry = text ∧ '\t' ∉ entry.1.toList := by
  unfold pairOf? at h
  split at h
  · contradiction
  next c equation hrest =>
    obtain rfl := Option.some.inj h
    -- What is left behind the label begins with the tabulator that ended it.
    have hc : c = '\t' := by
      have hhead := List.head_dropWhile_not (· != '\t') (l := text) (by simp [hrest])
      simpa [hrest] using hhead
    constructor
    · have hwhole := List.takeWhile_append_dropWhile (p := (· != '\t')) (l := text)
      rw [hrest, hc] at hwhole
      simpa [line] using hwhole
    · intro hmem
      rw [String.toList_ofList] at hmem
      have htab := List.all_eq_true.mp List.all_takeWhile _ hmem
      simp at htab

end EquationList

/-! ### Rendered equations -/

namespace Expr

open Words

theorem lineFeed_mem_joined_iff (op : Operator) {words : List (List Char)} :
    '\n' ∈ joined op.sign words ↔ ∃ word ∈ words, '\n' ∈ word := by
  have hsign : '\n' ≠ op.sign := by cases op <;> decide
  induction words with
  | nil => simp [joined]
  | cons first rest ih =>
      cases rest with
      | nil => simp
      | cons second rest =>
          simp only [joined_cons_cons, List.mem_append, List.mem_cons, ih]
          simp [hsign]

theorem lineFeed_not_mem_number (x : Float) : '\n' ∉ (numbers.render x).toList :=
  not_mem_numbers rfl (by decide) x

theorem lineFeed_mem_termText_iff (e : Expr) :
    '\n' ∈ termText e ↔ ∃ name ∈ e.mentions, '\n' ∈ name.toList := by
  induction e using join_induction with
  | coefficient value =>
      simpa [termText_coefficient, mentions] using lineFeed_not_mem_number value
  | column name => simp [termText_column, mentions]
  | indicator name test threshold =>
      have hsymbol : '\n' ∉ test.symbol.toList := by cases test <;> decide
      simp [termText_indicator, mentions, hsymbol, lineFeed_not_mem_number]
  | join op terms ih =>
      -- What is read below is read in one of the terms, where the induction applies.
      have hterms : (∃ name ∈ (op.join terms).mentions, '\n' ∈ name.toList) ↔
          ∃ term ∈ terms, '\n' ∈ termText term := by
        rw [mentions_join]
        constructor
        · rintro ⟨name, hname, hbreak⟩
          obtain ⟨term, hterm, hname⟩ := List.mem_flatMap.mp hname
          exact ⟨term, hterm, (ih term hterm).mpr ⟨name, hname, hbreak⟩⟩
        · rintro ⟨term, hterm, hbreak⟩
          obtain ⟨name, hname, hbreak⟩ := (ih term hterm).mp hbreak
          exact ⟨name, List.mem_flatMap.mpr ⟨term, hterm, hname⟩, hbreak⟩
      rw [hterms]
      -- No term is written as a zero, a single one is written bare, and signs are no line feeds.
      match terms with
      | [] =>
          rw [termText_join_nil]
          simp [lineFeed_not_mem_number]
      | [term] =>
          rw [termText_join_singleton]
          simp
      | first :: second :: rest =>
          rw [termText_join op (by simp)]
          simp [lineFeed_mem_joined_iff]

/-- A line feed comes into a rendered expression by the names of columns only. -/
theorem lineFeed_mem_render_iff (e : Expr) :
    '\n' ∈ e.render.toList ↔ ∃ name ∈ e.columns, '\n' ∈ name.toList := by
  have hterm : '\n' ∈ termText e ↔ '\n' ∈ e.render.toList := by
    unfold termText
    split <;> simp
  simp only [← hterm, lineFeed_mem_termText_iff, mem_columns]

end Expr

/-! ### Lists of equations -/

/-- Neither the label of an item nor a name in its equation has a line feed. -/
def Item.OnOneLine (totalScore : String) (item : Item) : Prop :=
  '\n' ∉ item.label.toList ∧
    ∀ name, name = totalScore ∨ name ∈ item.columns → '\n' ∉ name.toList

namespace Predictions

open EquationList

/-- Reads a list of equations: a label and an equation from each line behind the first one. -/
def readEquations (text : String) : List (Option (String × String)) :=
  (cutLines text.toList).tail.map pairOf?

variable (predictions : Predictions)

theorem toList_equationTable : predictions.equationTable.toList =
    joinLines ("item\tequation".toList :: predictions.renderedEquations.map line) := by
  rw [equationTable, String.toList_join, joinLines_cons, List.flatMap_cons, List.flatMap_map,
    joinLines, List.flatMap_map]
  have hentry : ∀ entry : String × String,
      s!"{entry.1}\t{entry.2}\n".toList = line entry ++ ['\n'] := by
    intro entry
    simp [line, String.toList_append, toString]
  simp only [hentry]
  rfl

/-- The first line is the head. -/
theorem cutLines_equationTable : cutLines predictions.equationTable.toList =
    "item\tequation".toList :: cutLines (joinLines (predictions.renderedEquations.map line)) := by
  rw [toList_equationTable, joinLines_cons, cutLines_cons (by decide)]

/-- There is a line for the head and one for each equation exactly if there is no line feed in a
label or a text. -/
theorem length_lines_iff :
    (cutLines predictions.equationTable.toList).length = predictions.renderedEquations.length + 1 ↔
      ∀ entry ∈ predictions.renderedEquations, '\n' ∉ line entry := by
  rw [cutLines_equationTable, List.length_cons, Nat.add_right_cancel_iff,
    ← List.length_map (f := line), length_cutLines_joinLines_iff, List.forall_mem_map]

theorem read_equationTable_iff :
    readEquations predictions.equationTable = predictions.renderedEquations.map some ↔
      ∀ entry ∈ predictions.renderedEquations, '\n' ∉ line entry ∧ '\t' ∉ entry.1.toList := by
  rw [readEquations, cutLines_equationTable, List.tail_cons]
  constructor
  · -- What is read from a line has no line feed and no tabulator in its label, whatever was
    -- written.
    intro hread entry hentry
    have hmem : some entry ∈ (cutLines
        (joinLines (predictions.renderedEquations.map line))).map pairOf? := by
      rw [hread]
      exact List.mem_map_of_mem hentry
    obtain ⟨text, htext, hsome⟩ := List.mem_map.mp hmem
    obtain ⟨rfl, hlabel⟩ := line_of_pairOf? hsome
    exact ⟨not_mem_of_mem_cutLines htext, hlabel⟩
  · intro hfree
    have hlines : ∀ text ∈ predictions.renderedEquations.map line, '\n' ∉ text :=
      List.forall_mem_map.mpr fun entry hentry => (hfree entry hentry).1
    rw [cutLines_joinLines hlines, List.map_map]
    exact List.map_congr_left fun entry hentry => pairOf?_line (hfree entry hentry).2

end Predictions

section Predicting

open EquationList Predictions

variable {tables : ModelTables} {model : Model} {data : Dataset} {options : PredictionOptions}
  {predictions : Predictions}

theorem ModelTables.IsItem.lineFeed_mem_line_iff {number : Nat} {slope : Float} {item : Item}
    (hitem : ModelTables.IsItem tables number slope item) (totalScore : String) :
    '\n' ∉ line (item.equation totalScore).rendered ↔ item.OnOneLine totalScore := by
  have hlabel : (item.equation totalScore).rendered.1 = item.label := rfl
  have htext : '\n' ∈ (item.equation totalScore).rendered.2.toList ↔
      ∃ name, (name = totalScore ∨ name ∈ item.columns) ∧ '\n' ∈ name.toList := by
    have hreads : item.ReadsColumns totalScore := hitem.readsColumns
    simp only [← hreads.mem_iff]
    exact Expr.lineFeed_mem_render_iff _
  rw [line, List.mem_append, List.mem_cons, htext, hlabel, Item.OnOneLine]
  simp

/-- A list of equations has a line for its head and one for each item exactly if no label and no
name of a column that is read holds a line feed.  The labels and equations are read from it as they
were written exactly if moreover no label holds a tab. -/
theorem equations_read_back (hmodel : Model.ofTables tables = .ok model)
    (hpredict : model.predict data options = .ok predictions) :
    (cutLines predictions.equationTable.toList).head? = some "item\tequation".toList ∧
    ((cutLines predictions.equationTable.toList).length = model.itemCount + 1 ↔
      ∀ item ∈ model.items, item.OnOneLine options.totalScore) ∧
    (readEquations predictions.equationTable = predictions.renderedEquations.map some ↔
      ∀ item ∈ model.items, item.OnOneLine options.totalScore ∧ '\t' ∉ item.label.toList) := by
  have hrendered : predictions.renderedEquations =
      model.items.map fun item => (item.equation options.totalScore).rendered := by
    rw [renderedEquations, (Model.appendedTo hmodel hpredict).equations_eq, Model.equations,
      List.map_map]
    rfl
  have hlength : predictions.renderedEquations.length = model.itemCount := by
    rw [hrendered, List.length_map, Model.itemCount]
  have hline : ∀ item ∈ model.items, ('\n' ∉ line (item.equation options.totalScore).rendered ↔
      item.OnOneLine options.totalScore) := by
    intro item hitem
    obtain ⟨number, slope, hisItem⟩ := Model.exists_isItem hmodel hitem
    exact hisItem.lineFeed_mem_line_iff options.totalScore
  refine ⟨by rw [cutLines_equationTable, List.head?_cons], ?_, ?_⟩
  · rw [← hlength, length_lines_iff, hrendered, List.forall_mem_map]
    exact forall₂_congr hline
  · rw [read_equationTable_iff, hrendered, List.forall_mem_map]
    exact forall₂_congr fun item hitem => and_congr_left' (hline item hitem)

/-- Labels without line feeds and tabs. -/
theorem equations_read_back_ageModel :
    ∃ predictions, Model.ofTables ageTables = .ok ageModel ∧
      ageModel.predict ageData { totalScore := "score" } = .ok predictions ∧
      readEquations predictions.equationTable = predictions.renderedEquations.map some := by
  obtain ⟨predictions, hpredict⟩ := exists_predict_ageModel
  refine ⟨predictions, ofTables_ageTables, hpredict,
    (equations_read_back ofTables_ageTables hpredict).2.2.mpr ?_⟩
  have hcolumns : ∀ item ∈ ageModel.items, ∀ name ∈ item.columns, '\n' ∉ name.toList := by
    decide +kernel
  have hlabels : ∀ item ∈ ageModel.items,
      '\n' ∉ item.label.toList ∧ '\t' ∉ item.label.toList := by
    decide +kernel
  intro item hitem
  refine ⟨⟨(hlabels item hitem).1, ?_⟩, (hlabels item hitem).2⟩
  rintro name (rfl | hname)
  · decide
  · exact hcolumns item hitem name hname

/-- Tables of an item whose label looks like a line of its own. -/
def twoLineTables : ModelTables where
  slopes := [1]
  labels := some ["a\t0\nb"]
  leaves := []
  offsets := [⟨1, 0⟩]
  splits := []

/-- The model with these tables. -/
def twoLineModel : Model where
  tables := twoLineTables
  items := [⟨1, "a\t0\nb", 1, .flat 0⟩]

/-- The list of the equation of one item is read as the equations of two. -/
theorem equations_misread_twoLineModel :
    ∃ predictions, Model.ofTables twoLineTables = .ok twoLineModel ∧
      twoLineModel.predict ageData { totalScore := "score" } = .ok predictions ∧
      predictions.renderedEquations = [("a\t0\nb", "(1 * score) + 0")] ∧
      readEquations predictions.equationTable =
        [some ("a", "0"), some ("b", "(1 * score) + 0")] := by
  have hmodel : Model.ofTables twoLineTables = .ok twoLineModel := by decide +kernel
  have hinputs : twoLineModel.checkInputs ageData { totalScore := "score" } = .ok () := by
    decide +kernel
  obtain ⟨predictions, hpredict⟩ :=
    Model.exists_predict hmodel consistent_ageData hinputs (by decide +kernel)
  have hrendered : predictions.renderedEquations = [("a\t0\nb", "(1 * score) + 0")] := by
    rw [renderedEquations, (Model.appendedTo hmodel hpredict).equations_eq]
    decide +kernel
  refine ⟨predictions, hmodel, hpredict, hrendered, ?_⟩
  rw [equationTable, hrendered]
  decide +kernel

end Predicting

end ItemScoring
