import ItemScoring.Command.Scoring
import ItemScoring.Proofs.Model.Conservation

/-!
# What commands show of the log

Of the log, warnings are shown.  Only a model gives rise to any: the entries about data and
predictions are not shown, so that a script says nothing more once its model is read
(`Script.Silent`).  A command thus shows the warnings about its model and nothing else, whether it
comes to a good end or not, and also if the model is refused after some of them
(`shown_runCommand`).
-/

namespace ItemScoring

namespace Model

/-- A model that is read is made of the tables in the file, and all that the log says about it is
said while it is read. -/
theorem ofTables_of_load {content : FileContent} {model : Model}
    (hload : load content = .ok model) :
    ofTables model.tables = .ok model ∧ loadingLog content = model.log := by
  obtain ⟨text, htext, hparse⟩ := bind_eq_ok.mp hload
  obtain ⟨tables, htables, hmodel⟩ := bind_eq_ok.mp hparse
  have hmodel := mapError_eq_ok.mp hmodel
  obtain ⟨-, rfl, -⟩ := ofTables_eq_ok_iff.mp hmodel
  have hread : (content.text.mapError .file >>= parseTables) = .ok model.tables :=
    bind_eq_ok.mpr ⟨text, htext, htables⟩
  exact ⟨hmodel, by rw [loadingLog, hread, log]⟩

end Model

namespace Script

/-- Nothing is shown, whatever was printed and whatever is on the disk. -/
def Silent (script : Script) : Prop :=
  ∀ (output : String) (disk : Disk), (script.run output disk).shown = []

/-- Before a silent script, what is shown is what is shown of the entries. -/
theorem shown_log {next : Script} (h : next.Silent) (entries : List LogEntry) (output : String)
    (disk : Disk) : ((log entries next).run output disk).shown =
      entries.filter LogEntry.isShown := by
  rw [run, h output disk, List.append_nil]

theorem silent_finish : finish.Silent := fun _ _ => rfl

theorem silent_fail (message : String) : (fail message).Silent := fun _ _ => rfl

theorem Silent.print {next : Script} (h : next.Silent) (line : String) : (print line next).Silent :=
  fun _ disk => h _ disk

theorem Silent.log {next : Script} (h : next.Silent) {entries : List LogEntry}
    (hentries : ∀ entry ∈ entries, entry.level ≠ .warn) : (Script.log entries next).Silent := by
  intro output disk
  rw [shown_log h, List.filter_eq_nil_iff]
  intro entry hentry
  simpa [LogEntry.isShown] using hentries entry hentry

theorem silent_read {next : FileContent → Script} (h : ∀ content, (next content).Silent)
    (path : String) : (read path next).Silent := fun output disk => h _ output disk

theorem silent_attempt {ε α : Type} {message : ε → String} {result : Except ε α}
    {next : α → Script} (h : ∀ a, (next a).Silent) : (attempt message result next).Silent := by
  cases result with
  | ok a => exact h a
  | error e => exact silent_fail _

theorem Silent.printAll {next : Script} (h : next.Silent) (lines : List String) :
    (printAll lines next).Silent := by
  induction lines with
  | nil => exact h
  | cons line lines ih => exact ih.print line

theorem Silent.saveAs {next : Script} (h : next.Silent) (what path text : String) :
    (saveAs what path text next).Silent := by
  intro output disk
  rw [Script.saveAs, run]
  cases disk.write path text with
  | ok written => exact silent_attempt (fun _ => h.print _) output written
  | error error => exact silent_attempt (fun _ => h.print _) output disk

/-- Making predictions of a model shows what is shown while the model is read. -/
theorem shown_predict (arguments : PredictArguments) (output : String) (disk : Disk) :
    ((predict arguments).run output disk).shown =
      (Model.loadingLog (disk.read arguments.model)).filter LogEntry.isShown := by
  refine shown_log (silent_attempt fun model => .print (.print (.log ?_ (by simp
    [InputData.openingEntry])) _) _) _ _ _
  refine silent_read (fun content => silent_attempt fun data => .log ?_ (by simp
    [InputData.loadedEntry])) _
  refine .print (.print (silent_attempt fun predictions => .log ?_ ?_) _) _
  · refine silent_attempt fun table => Silent.saveAs ?_ _ _ _
    -- The equations are saved last, if they are asked for.
    cases arguments.equations with
    | none => exact silent_finish
    | some path => exact silent_finish.saveAs _ _ _
  · simp [Model.predictionLog]

theorem shown_equations (arguments : EquationsArguments) (output : String) (disk : Disk) :
    ((equations arguments).run output disk).shown =
      (Model.loadingLog (disk.read arguments.model)).filter LogEntry.isShown :=
  shown_log (silent_attempt fun _ => silent_finish.printAll _) _ _ _

end Script

/-- The file of the model that a command reads, if it reads one. -/
def Command.modelPath? : Command → Option String
  | help => none
  | predict arguments => some arguments.model
  | equations arguments => some arguments.model

/-- A command with an accepted model shows one warning for each item without a tree that has split
rows, in item order, and nothing else. -/
theorem shown_runCommand {arguments : List String} {command : Command} {path : String}
    {disk : Disk} {model : Model} (hparse : Command.parse arguments = .ok command)
    (hpath : command.modelPath? = some path) (hload : Model.load (disk.read path) = .ok model) :
    (disk.runCommand arguments).shown =
      (model.items.filter fun item => !(model.tables.unusedRows item).isEmpty).map
        model.tables.unusedWarning := by
  have hshown : ((Script.ofCommand command).run "" disk).shown =
      (Model.loadingLog (disk.read path)).filter LogEntry.isShown := by
    cases command with
    | help => contradiction
    | predict request =>
        obtain rfl := Option.some.inj hpath
        exact Script.shown_predict request "" disk
    | equations request =>
        obtain rfl := Option.some.inj hpath
        exact Script.shown_equations request "" disk
  obtain ⟨hmodel, hlog⟩ := Model.ofTables_of_load hload
  rw [Disk.runCommand, hparse]
  refine hshown.trans ?_
  rw [hlog]
  exact Model.warnings_eq hmodel

end ItemScoring
