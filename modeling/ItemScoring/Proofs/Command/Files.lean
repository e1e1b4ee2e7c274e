import ItemScoring.Command.Scoring
import ItemScoring.Proofs.Command.Places

/-!
# What commands do to files

A run of a script is what it asks of a system, in order and with the answers, and how it ends
(`Script.Runs`).  The answers are free, so that what is said about runs holds of every system.  The
runs of `predict` are those of `PredictArguments.RunLaw` (`PredictArguments.runs_predict_iff`):
nothing is created before all that goes into the files is there, and the file for the equations
comes last.  A run on a disk is a run of the same script (`Script.exists_runs`), in which the disk
changes where a file is created and nowhere else (`Disk.Passes.exists_of_ne`).
-/

namespace ItemScoring

/-! ### Runs -/

/-- What is done with a file, and what comes of it. -/
inductive FileEvent
  | read (path : String) (content : FileContent)
  | created (path text : String)
  | refused (path text : String) (error : FileError)

variable {events : List FileEvent} {status : ExitStatus} {path text : String}

/-- The path of a file that was created. -/
def FileEvent.created? : FileEvent → Option String
  | created path _ => some path
  | read .. => none
  | refused .. => none

/-- The paths of the files that were created, in order. -/
def createdPaths (events : List FileEvent) : List String := events.filterMap FileEvent.created?

namespace Script

/-- The runs of a script, whatever a system answers. -/
inductive Runs : Script → List FileEvent → ExitStatus → Prop
  | finish : Runs finish [] .success
  | fail (message : String) : Runs (fail message) [] .failure
  | print {next : Script} {events : List FileEvent} {status : ExitStatus} (line : String)
      (rest : Runs next events status) : Runs (print line next) events status
  | log {next : Script} {events : List FileEvent} {status : ExitStatus} (entries : List LogEntry)
      (rest : Runs next events status) : Runs (log entries next) events status
  | read {next : FileContent → Script} {events : List FileEvent} {status : ExitStatus}
      (path : String) (content : FileContent) (rest : Runs (next content) events status) :
      Runs (read path next) (.read path content :: events) status
  | created {next : Except FileError Unit → Script} {events : List FileEvent} {status : ExitStatus}
      (path text : String) (rest : Runs (next (.ok ())) events status) :
      Runs (save path text next) (.created path text :: events) status
  | refused {next : Except FileError Unit → Script} {events : List FileEvent} {status : ExitStatus}
      (path text : String) (error : FileError) (rest : Runs (next (.error error)) events status) :
      Runs (save path text next) (.refused path text error :: events) status

theorem runs_finish_iff : finish.Runs events status ↔ events = [] ∧ status = .success := by
  constructor
  · rintro ⟨⟩
    exact ⟨rfl, rfl⟩
  · rintro ⟨rfl, rfl⟩
    exact .finish

theorem runs_print_iff {line : String} {next : Script} :
    (print line next).Runs events status ↔ next.Runs events status := by
  constructor
  · rintro (_ | _ | ⟨_, rest⟩)
    exact rest
  · exact .print line

theorem runs_log_iff {entries : List LogEntry} {next : Script} :
    (log entries next).Runs events status ↔ next.Runs events status := by
  constructor
  · intro h
    cases h with
    | log entries rest => exact rest
  · exact .log entries

theorem runs_printAll_iff {lines : List String} {next : Script} :
    (printAll lines next).Runs events status ↔ next.Runs events status := by
  induction lines with
  | nil => rfl
  | cons line lines ih => exact runs_print_iff.trans ih

theorem runs_read_iff {next : FileContent → Script} : (read path next).Runs events status ↔
    ∃ content later, events = .read path content :: later ∧ (next content).Runs later status := by
  constructor
  · intro h
    cases h with
    | read path content rest => exact ⟨content, _, rfl, rest⟩
  · rintro ⟨content, later, rfl, rest⟩
    exact .read path content rest

theorem runs_attempt_iff {ε α : Type} {message : ε → String} {result : Except ε α}
    {next : α → Script} : (attempt message result next).Runs events status ↔
      (∃ a, result = .ok a ∧ (next a).Runs events status) ∨
        (∃ e, result = .error e) ∧ events = [] ∧ status = .failure := by
  cases result with
  | ok a => simp [attempt]
  | error e =>
      have hfail : (fail (message e)).Runs events status ↔ events = [] ∧ status = .failure := by
        constructor
        · rintro ⟨⟩
          exact ⟨rfl, rfl⟩
        · rintro ⟨rfl, rfl⟩
          exact .fail _
      simp [attempt, hfail]

/-- A file is created, and all goes on, or it is not and the run ends there. -/
theorem runs_saveAs_iff {what : String} {next : Script} :
    (saveAs what path text next).Runs events status ↔
      (∃ later, events = .created path text :: later ∧ next.Runs later status) ∨
        ∃ error, events = [.refused path text error] ∧ status = .failure := by
  constructor
  · intro h
    cases h with
    | created path text rest => exact Or.inl ⟨_, rfl, runs_print_iff.mp rest⟩
    | refused path text error rest =>
        obtain ⟨_, hok, -⟩ | ⟨-, rfl, rfl⟩ := runs_attempt_iff.mp rest
        · contradiction
        · exact Or.inr ⟨error, rfl, rfl⟩
  · rintro (⟨later, rfl, rest⟩ | ⟨error, rfl, rfl⟩)
    · exact .created path text (.print _ rest)
    · exact .refused path text error (.fail _)

end Script

/-! ### The runs of commands -/

namespace PredictArguments

variable (request : PredictArguments)

/-- Predictions and their table come of what was read from two files. -/
def Prepares (modelContent dataContent : FileContent) (predictions : Predictions)
    (table : String) : Prop :=
  ∃ model data, Model.load modelContent = .ok model ∧
    InputData.load dataContent (model.requiredColumns request.totalScore) = .ok data ∧
    model.predict data.dataset request.options = .ok predictions ∧
    predictions.table data.frame = .ok table

/-- The events of a run that has read both files, before the given ones. -/
def afterReading (modelContent dataContent : FileContent) (later : List FileEvent) :
    List FileEvent :=
  .read request.model modelContent :: .read request.data dataContent :: later

/-- How saving the predictions may go: the file for the equations is the last to be created. -/
inductive SavingLaw (predictions : Predictions) (table : String) :
    List FileEvent → ExitStatus → Prop
  | outputRefused (error : FileError) :
      SavingLaw predictions table [.refused request.output table error] .failure
  | outputCreated (last : request.equations = none) :
      SavingLaw predictions table [.created request.output table] .success
  | equationsRefused {path : String} (wanted : request.equations = some path) (error : FileError) :
      SavingLaw predictions table
        [.created request.output table, .refused path predictions.equationTable error] .failure
  | bothCreated {path : String} (wanted : request.equations = some path) :
      SavingLaw predictions table
        [.created request.output table, .created path predictions.equationTable] .success

/-- The runs for a request: the model is refused, or no table comes of model and data, or there is
one to be saved. -/
inductive RunLaw : List FileEvent → ExitStatus → Prop
  | modelRefused {content : FileContent} {e : ModelFileError}
      (refused : Model.load content = .error e) : RunLaw [.read request.model content] .failure
  | unprepared {modelContent dataContent : FileContent} {model : Model}
      (loaded : Model.load modelContent = .ok model)
      (unprepared : ¬ ∃ predictions table,
        request.Prepares modelContent dataContent predictions table) :
      RunLaw (request.afterReading modelContent dataContent []) .failure
  | prepared {modelContent dataContent : FileContent} {predictions : Predictions} {table : String}
      {later : List FileEvent} {status : ExitStatus}
      (prepares : request.Prepares modelContent dataContent predictions table)
      (saving : request.SavingLaw predictions table later status) :
      RunLaw (request.afterReading modelContent dataContent later) status

variable {request} {predictions : Predictions} {table : String}

theorem runs_saving_iff :
    (Script.saveAs "Predictions" request.output table <|
      match request.equations with
      | none => .finish
      | some path => .saveAs "Equations" path predictions.equationTable .finish).Runs
        events status ↔ request.SavingLaw predictions table events status := by
  rw [Script.runs_saveAs_iff]
  -- The equations are saved only once the predictions are, so a refused first file is the last.
  constructor
  · rintro (⟨later, rfl, h⟩ | ⟨error, rfl, rfl⟩)
    · cases hwanted : request.equations with
      | none =>
          rw [hwanted, Script.runs_finish_iff] at h
          obtain ⟨rfl, rfl⟩ := h
          exact .outputCreated hwanted
      | some path =>
          simp only [hwanted, Script.runs_saveAs_iff, Script.runs_finish_iff] at h
          rcases h with ⟨later, rfl, rfl, rfl⟩ | ⟨error, rfl, rfl⟩
          · exact .bothCreated hwanted
          · exact .equationsRefused hwanted error
    · exact .outputRefused error
  · rintro (error | hlast | ⟨hwanted, error⟩ | hwanted)
    · exact Or.inr ⟨error, rfl, rfl⟩
    · exact Or.inl ⟨_, rfl, by rw [hlast]; exact .finish⟩
    · refine Or.inl ⟨_, rfl, ?_⟩
      rw [hwanted]
      exact Script.runs_saveAs_iff.mpr (Or.inr ⟨error, rfl, rfl⟩)
    · refine Or.inl ⟨_, rfl, ?_⟩
      rw [hwanted]
      exact Script.runs_saveAs_iff.mpr (Or.inl ⟨_, rfl, .finish⟩)

/-- The runs for a request are those listed. -/
theorem runs_predict_iff :
    (Script.predict request).Runs events status ↔ request.RunLaw events status := by
  simp only [Script.predict, Script.runs_print_iff, Script.runs_log_iff, Script.runs_read_iff,
    Script.runs_attempt_iff]
  constructor
  · -- The refusals of the four steps, from the model to the table, nest in the order of the script.
    rintro ⟨modelContent, _, rfl,
      ⟨model, hmodel, dataContent, later, rfl, h⟩ | ⟨⟨e, he⟩, rfl, rfl⟩⟩
    · rcases h with ⟨data, hdata, h⟩ | ⟨⟨e, he⟩, rfl, rfl⟩
      · rcases h with ⟨predictions, hpredictions, h⟩ | ⟨⟨e, he⟩, rfl, rfl⟩
        · rcases h with ⟨table, htable, h⟩ | ⟨⟨e, he⟩, rfl, rfl⟩
          · exact .prepared ⟨model, data, hmodel, hdata, hpredictions, htable⟩
              (runs_saving_iff.mp h)
          · exact .unprepared hmodel (by simp [Prepares, hmodel, hdata, hpredictions, he])
        · exact .unprepared hmodel (by simp [Prepares, hmodel, hdata, he])
      · exact .unprepared hmodel (by simp [Prepares, hmodel, he])
    · exact .modelRefused he
  · intro law
    cases law with
    | modelRefused refused => exact ⟨_, _, rfl, Or.inr ⟨⟨_, refused⟩, rfl, rfl⟩⟩
    | @unprepared _ dataContent model loaded unprepared =>
        refine ⟨_, _, rfl, Or.inl ⟨model, loaded, dataContent, _, rfl, ?_⟩⟩
        -- Something is not prepared; the first step that fails says how far the run gets.
        cases hdata : InputData.load dataContent (model.requiredColumns request.totalScore) with
        | error e => exact Or.inr ⟨⟨e, rfl⟩, rfl, rfl⟩
        | ok data =>
            refine Or.inl ⟨data, rfl, ?_⟩
            cases hpredictions : model.predict data.dataset request.options with
            | error e => exact Or.inr ⟨⟨e, rfl⟩, rfl, rfl⟩
            | ok predictions =>
                refine Or.inl ⟨predictions, rfl, ?_⟩
                cases htable : predictions.table data.frame with
                | error e => exact Or.inr ⟨⟨e, rfl⟩, rfl, rfl⟩
                | ok table =>
                    exact absurd ⟨_, _, model, data, loaded, hdata, hpredictions, htable⟩ unprepared
    | prepared prepares saving =>
        obtain ⟨model, data, hmodel, hdata, hpredictions, htable⟩ := prepares
        exact ⟨_, _, rfl, Or.inl ⟨model, hmodel, _, _, rfl, Or.inl ⟨data, hdata,
          Or.inl ⟨_, hpredictions, Or.inl ⟨_, htable, runs_saving_iff.mpr saving⟩⟩⟩⟩⟩

/-- The predictions are written in full, and only the file for the equations is refused. -/
def OnlyEquationsRefused (request : PredictArguments) (events : List FileEvent) : Prop :=
  ∃ modelContent dataContent predictions table path error,
    request.Prepares modelContent dataContent predictions table ∧
      request.equations = some path ∧
      events = request.afterReading modelContent dataContent
        [.created request.output table, .refused path predictions.equationTable error]

/-- The same of a disk before and after: what is written was read from it. -/
def EquationsRefused (request : PredictArguments) (disk last : Disk) : Prop :=
  ∃ predictions table path error,
    request.Prepares (disk.read request.model) (disk.read request.data) predictions table ∧
      request.equations = some path ∧
      disk.write request.output table = .ok last ∧
      last.write path predictions.equationTable = .error error

theorem RunLaw.failed (h : request.RunLaw events status) (hstatus : status ≠ .success) :
    createdPaths events = [] ∨ request.OnlyEquationsRefused events := by
  cases h with
  | modelRefused => exact Or.inl rfl
  | unprepared => exact Or.inl rfl
  | prepared prepares saving =>
      cases saving with
      | outputRefused => exact Or.inl rfl
      | outputCreated => exact absurd rfl hstatus
      | equationsRefused wanted error =>
          exact Or.inr ⟨_, _, _, _, _, error, prepares, wanted, rfl⟩
      | bothCreated => exact absurd rfl hstatus

theorem RunLaw.succeeded (h : request.RunLaw events status) (hstatus : status = .success) :
    createdPaths events = request.output :: request.equations.toList := by
  cases h with
  | modelRefused => contradiction
  | unprepared => contradiction
  | prepared prepares saving =>
      cases saving with
      | outputRefused => contradiction
      | outputCreated last =>
          rw [last]
          rfl
      | equationsRefused => contradiction
      | bothCreated wanted =>
          rw [wanted]
          rfl

end PredictArguments

/-- A list of equations is made from one file. -/
theorem createdPaths_of_runs_equations {request : EquationsArguments}
    (h : (Script.equations request).Runs events status) : createdPaths events = [] := by
  simp only [Script.equations, Script.runs_read_iff, Script.runs_log_iff, Script.runs_attempt_iff,
    Script.runs_printAll_iff, Script.runs_finish_iff] at h
  obtain ⟨content, events, rfl, ⟨model, -, rfl, -⟩ | ⟨-, rfl, -⟩⟩ := h
  · rfl
  · rfl

namespace Command

/-- The runs of the program with the given arguments. -/
inductive Runs (arguments : List String) : List FileEvent → ExitStatus → Prop
  | unread {error : UsageError} (misread : parse arguments = .error error) :
      Runs arguments [] .usage
  | command {command : Command} {events : List FileEvent} {status : ExitStatus}
      (read : parse arguments = .ok command)
      (runs : (Script.ofCommand command).Runs events status) : Runs arguments events status

variable {arguments : List String}

theorem eq_help_or_exists_of_ofArguments {signature : Signature}
    {make : Given → Except UsageError Command} {command : Command}
    (h : ofArguments signature make arguments = .ok command) :
    command = .help ∨ ∃ given, make given = .ok command := by
  obtain ⟨given?, -, h⟩ := bind_eq_ok.mp h
  cases given? with
  | none => exact Or.inl (Except.ok.inj h).symm
  | some given => exact Or.inr ⟨given, h⟩

theorem parse_equations_ne_predict (request : PredictArguments) :
    parse ("equations" :: arguments) ≠ .ok (.predict request) := by
  intro h
  have h : ofArguments equationsSignature ofEquationsGiven arguments = .ok (.predict request) := h
  obtain hhelp | ⟨given, hgiven⟩ := eq_help_or_exists_of_ofArguments h
  · contradiction
  · obtain ⟨model, -, hmade⟩ := bind_eq_ok.mp hgiven
    cases hmade

/-- What a run may do to files.  One that fails creates no file, or all but the file for the
equations; one that succeeds in making predictions creates the files that were asked for. -/
structure FilesLaw (arguments : List String) (events : List FileEvent) (status : ExitStatus) :
    Prop where
  failed : status ≠ .success → createdPaths events = [] ∨
    ∃ request, parse arguments = .ok (.predict request) ∧ request.OnlyEquationsRefused events
  succeeded : status = .success → ∀ request, parse arguments = .ok (.predict request) →
    createdPaths events = request.output :: request.equations.toList
  others : (∀ request, parse arguments ≠ .ok (.predict request)) → createdPaths events = []
  equations : arguments.head? = some "equations" → createdPaths events = []

theorem FilesLaw.of_ne_predict (hparse : ∀ request, parse arguments ≠ .ok (.predict request))
    (h : createdPaths events = []) : FilesLaw arguments events status where
  failed _ := Or.inl h
  succeeded _ request hrequest := absurd hrequest (hparse request)
  others _ := h
  equations _ := h

/-- Whatever a system answers, a run does to files what it may do. -/
theorem filesLaw_of_runs (h : Runs arguments events status) : FilesLaw arguments events status := by
  -- Only a prediction saves anything, and it has a law of its own.
  cases h with
  | unread misread => exact .of_ne_predict (by simp [misread]) rfl
  | @command command _ _ read runs =>
      cases command with
      | help =>
          obtain ⟨rfl, rfl⟩ := Script.runs_finish_iff.mp (Script.runs_print_iff.mp runs)
          exact .of_ne_predict (by simp [read]) rfl
      | equations request =>
          exact .of_ne_predict (by simp [read]) (createdPaths_of_runs_equations runs)
      | predict request =>
          have law := PredictArguments.runs_predict_iff.mp runs
          refine ⟨fun hstatus => ?_, fun hstatus other hother => ?_, fun hothers => ?_,
            fun hhead => ?_⟩
          · exact (law.failed hstatus).imp_right fun h => ⟨request, read, h⟩
          · obtain rfl : request = other := by simpa [read] using hother
            exact law.succeeded hstatus
          · exact absurd read (hothers request)
          · obtain ⟨rest, rfl⟩ := List.head?_eq_some_iff.mp hhead
            exact absurd read (parse_equations_ne_predict request)

end Command

/-! ### Files in memory -/

namespace Disk

/-- A disk before and after events that it took part in. -/
inductive Passes : Disk → List FileEvent → Disk → Prop
  | nil (disk : Disk) : Passes disk [] disk
  | read {disk last : Disk} {later : List FileEvent} (path : String)
      (rest : Passes disk later last) : Passes disk (.read path (disk.read path) :: later) last
  | created {disk next last : Disk} {later : List FileEvent} {path text : String}
      (write : disk.write path text = .ok next) (rest : Passes next later last) :
      Passes disk (.created path text :: later) last
  | refused {disk last : Disk} {later : List FileEvent} {path text : String} {error : FileError}
      (write : disk.write path text = .error error) (rest : Passes disk later last) :
      Passes disk (.refused path text error :: later) last

variable {disk last : Disk} {place : String}

theorem Passes.eq_of_createdPaths_eq_nil (h : disk.Passes events last)
    (hnil : createdPaths events = []) : last = disk := by
  induction h with
  | nil => rfl
  | read path rest ih => exact ih hnil
  | created write rest => exact absurd hnil (List.cons_ne_nil _ _)
  | refused write rest ih => exact ih hnil

/-- A disk changes at the places of the created files only, which are where they would have been
before the first of them was created. -/
theorem Passes.exists_of_ne (h : disk.Passes events last)
    (hne : last.files[place]? ≠ disk.files[place]?) :
    ∃ path ∈ createdPaths events, disk.place path = .ok place := by
  induction h with
  | nil => exact absurd rfl hne
  | read path rest ih => exact ih hne
  | refused write rest ih => exact ih hne
  | @created disk next last later path text write rest ih =>
      by_cases hplace : disk.place path = .ok place
      · exact ⟨path, List.mem_cons_self, hplace⟩
      · rw [← getElem?_write write hplace] at hne
        obtain ⟨other, hother, hsame⟩ := ih hne
        exact ⟨other, List.mem_cons_of_mem path hother, (place_write write).mp hsame⟩

end Disk

/-- A script is carried out on a disk by one of its runs. -/
theorem Script.exists_runs (script : Script) (output : String) (disk : Disk) : ∃ events,
    script.Runs events (script.run output disk).status ∧
      disk.Passes events (script.run output disk).disk := by
  -- The induction is for any disk, as a script goes on with the one that a save leaves behind.
  induction script generalizing output disk with
  | finish => exact ⟨[], .finish, .nil disk⟩
  | fail message => exact ⟨[], .fail message, .nil disk⟩
  | print line next ih =>
      obtain ⟨events, runs, passes⟩ := ih (output ++ line ++ "\n") disk
      exact ⟨events, .print line runs, passes⟩
  | log entries next ih =>
      obtain ⟨events, runs, passes⟩ := ih output disk
      exact ⟨events, .log entries runs, passes⟩
  | read path next ih =>
      obtain ⟨events, runs, passes⟩ := ih (disk.read path) output disk
      exact ⟨_, .read path _ runs, .read path passes⟩
  | save path text next ih =>
      cases hwrite : disk.write path text with
      | ok written =>
          obtain ⟨events, runs, passes⟩ := ih (.ok ()) output written
          rw [Script.run, hwrite]
          exact ⟨_, .created path text runs, .created hwrite passes⟩
      | error error =>
          obtain ⟨events, runs, passes⟩ := ih (.error error) output disk
          rw [Script.run, hwrite]
          exact ⟨_, .refused path text error runs, .refused hwrite passes⟩

/-- What a run of the program may do to a disk.  The places of the files are those that the paths
stand for before the run. -/
structure Outcome.FilesLaw (outcome : Outcome) (arguments : List String) (disk : Disk) :
    Prop where
  failed : outcome.status ≠ .success → outcome.disk = disk ∨
    ∃ request, Command.parse arguments = .ok (.predict request) ∧
      request.EquationsRefused disk outcome.disk
  succeeded : outcome.status = .success →
    ∀ place, outcome.disk.files[place]? ≠ disk.files[place]? →
      ∃ request path, Command.parse arguments = .ok (.predict request) ∧
        path ∈ request.output :: request.equations.toList ∧ disk.place path = .ok place
  equations : arguments.head? = some "equations" → outcome.disk = disk

theorem PredictArguments.OnlyEquationsRefused.equationsRefused {request : PredictArguments}
    {disk last : Disk} (h : request.OnlyEquationsRefused events)
    (passes : disk.Passes events last) : request.EquationsRefused disk last := by
  obtain ⟨modelContent, dataContent, predictions, table, path, error, prepares, wanted, rfl⟩ := h
  obtain _ | ⟨_, _ | ⟨_, _ | _ | ⟨written, _ | _ | _ | ⟨refused, _ | _⟩⟩⟩⟩ := passes
  exact ⟨predictions, table, path, error, prepares, wanted, written, refused⟩

theorem Disk.exists_runs_runCommand (disk : Disk) (arguments : List String) : ∃ events,
    Command.Runs arguments events (disk.runCommand arguments).status ∧
      disk.Passes events (disk.runCommand arguments).disk := by
  unfold Disk.runCommand
  cases hparse : Command.parse arguments with
  | ok command =>
      obtain ⟨events, runs, passes⟩ := Script.exists_runs (Script.ofCommand command) "" disk
      exact ⟨events, .command hparse runs, passes⟩
  | error error => exact ⟨[], .unread hparse, .nil disk⟩

/-- Whatever it is given and whatever a system answers, the program leaves files alone if it fails,
unless all that fails is to create the file for the equations; otherwise it creates what it was
asked for and nothing else.  So it does on every disk. -/
theorem files_of_commands (arguments : List String) :
    (∀ events status, Command.Runs arguments events status →
      Command.FilesLaw arguments events status) ∧
    ∀ disk : Disk, (disk.runCommand arguments).FilesLaw arguments disk := by
  refine ⟨fun events status => Command.filesLaw_of_runs, fun disk => ?_⟩
  obtain ⟨events, runs, passes⟩ := disk.exists_runs_runCommand arguments
  -- The law is about the files created; where they are on the disk is told by the way it passes.
  have law := Command.filesLaw_of_runs runs
  refine ⟨fun hstatus => ?_, fun hstatus place hne => ?_, fun hhead => ?_⟩
  · rcases law.failed hstatus with hnil | ⟨request, hparse, hrefused⟩
    · exact Or.inl (passes.eq_of_createdPaths_eq_nil hnil)
    · exact Or.inr ⟨request, hparse, hrefused.equationsRefused passes⟩
  · obtain ⟨path, hpath, hplace⟩ := passes.exists_of_ne hne
    by_cases hpredict : ∃ request, Command.parse arguments = .ok (.predict request)
    · obtain ⟨request, hparse⟩ := hpredict
      exact ⟨request, path, hparse, law.succeeded hstatus request hparse ▸ hpath, hplace⟩
    · rw [law.others (not_exists.mp hpredict)] at hpath
      exact absurd hpath List.not_mem_nil
  · exact passes.eq_of_createdPaths_eq_nil (law.equations hhead)

end ItemScoring
