import HeaderReflection.CommandLine.Reader
import HeaderReflection.Json.Writer
import HeaderReflection.Model.Json
import HeaderReflection.Output
import HeaderReflection.Registration
import HeaderReflection.Report
import HeaderReflection.Settings.Load
import HeaderReflection.WorkingSet.Classes
import HeaderReflection.Yaml.Writer

/-!
# Running the program

A run loads the settings, finds the files to read, parses them and does what the command says. All
commands find the same files but for the output, which only one of them writes. Nothing is written
unless every file could be parsed.
-/

namespace HeaderReflection

/-- What a search for files found, with the sources that it left out. -/
structure Finding (α : Type) where
  /-- The sources that were left out. -/
  skipped : List Skipped
  /-- What was found. -/
  result : Except Failure α

namespace Inputs

/-- Finds the files to read, `output` being the file that is written. -/
def workingSet (fs : FileSystem) (settings : Settings) (output : Option Path) (inputs : Inputs) :
    Finding (WorkingSet × FileCache) :=
  match inputs.gather fs settings output with
  | .error e => ⟨[], .error e⟩
  | .ok gathered =>
    match (Scanner.mk fs settings gathered.directories).run gathered.sources {} with
    | .error e scan => ⟨scan.skipped, .error e⟩
    | .ok _ scan => ⟨scan.skipped, .ok (scan.set, scan.cache)⟩

/-- Finds the files to read and their classes. -/
def classes (fs : FileSystem) (settings : Settings) (output : Option Path) (inputs : Inputs) :
    Finding (WorkingSet × List Model.Class) :=
  match inputs.workingSet fs settings output with
  | ⟨skipped, .error e⟩ => ⟨skipped, .error e⟩
  | ⟨skipped, .ok (set, cache)⟩ =>
    match set.classes fs cache with
    | .error e _ => ⟨skipped, .error e⟩
    | .ok classes _ => ⟨skipped, .ok (set, classes)⟩

end Inputs

/-- The registration code that settings ask for. -/
def Settings.registration (settings : Settings) : Registration where
  marker := settings.marker
  runtimeHeader := settings.runtimeHeader

/-- What came of a command. -/
structure Outcome where
  /-- The files afterwards. -/
  fs : FileSystem
  /-- The sources that were left out. -/
  skipped : List Skipped := []
  /-- What the user is warned of. -/
  warnings : List String := []
  /-- What is printed. -/
  result : Except Failure String

/-- An outcome that leaves the files as they are. -/
def Outcome.ofFinding {α : Type} (fs : FileSystem) (print : α → String) (found : Finding α) :
    Outcome :=
  { fs := fs, skipped := found.skipped, result := found.result.map print }

namespace Inputs

/-- The text that tells whether a file was written, with the number of its classes. -/
def writtenText (output : Path) (count : Nat) (written : Bool) : String :=
  if written then s!"✓ Generated {output.text} ({count} class(es))\n"
  else s!"✓ {output.text} is up to date\n"

/-- The warning that no class is marked. -/
def unmarkedText (settings : Settings) (files : Nat) : String :=
  s!"No classes marked [[{settings.marker.scope}::{settings.marker.name}]] in {files} file(s)"

/-- Writes registration code, or prints it. -/
def generate (fs : FileSystem) (settings : Settings) (output : Path) (printOnly : Bool)
    (inputs : Inputs) : Outcome :=
  match inputs.classes fs settings (some output) with
  | ⟨skipped, .error e⟩ => { fs := fs, skipped := skipped, result := .error e }
  | ⟨skipped, .ok (set, classes)⟩ =>
    let count := (classes.filter (·.isMarked settings.marker)).length
    let warnings := if count = 0 then [unmarkedText settings set.items.length] else []
    let text := settings.registration.write classes
    if printOnly then
      { fs := fs, skipped := skipped, warnings := warnings, result := .ok text }
    else
      let (fs, written) := fs.writeIfChanged output text
      { fs := fs, skipped := skipped, warnings := warnings,
        result := written.map (writtenText output count) }

/-- Files one a line, or all on one line. -/
def filesText (oneLine : Bool) (set : WorkingSet) : String :=
  let texts := set.paths.map Path.text
  if oneLine then Report.lines [";".intercalate texts] else Report.lines texts

/-- Lists the files that are read. -/
def list (fs : FileSystem) (settings : Settings) (oneLine : Bool) (inputs : Inputs) : Outcome :=
  .ofFinding fs (fun found => filesText oneLine found.1) (inputs.workingSet fs settings none)

/-- The model in a form. -/
def modelText (format : Format) (classes : List Model.Class) : String :=
  match format with
  | .json => Json.write (Model.classesToJson classes) ++ "\n"
  | .yaml => Yaml.write (Model.classesToJson classes) ++ "\n"

/-- The classes that are shown: all of them, or the marked ones. -/
def shown (settings : Settings) (markedOnly : Bool) (classes : List Model.Class) :
    List Model.Class :=
  if markedOnly then classes.filter (·.isMarked settings.marker) else classes

/-- Prints the model. -/
def inspect (fs : FileSystem) (settings : Settings) (format : Format) (markedOnly : Bool)
    (inputs : Inputs) : Outcome :=
  .ofFinding fs (fun found => modelText format (shown settings markedOnly found.2))
    (inputs.classes fs settings none)

/-- Does what a command says. -/
def perform (fs : FileSystem) (settings : Settings) (command : Command) (inputs : Inputs) :
    Outcome :=
  match command with
  | .generate output printOnly => inputs.generate fs settings output printOnly
  | .dependencies oneLine => inputs.list fs settings oneLine
  | .inspect format markedOnly => inputs.inspect fs settings format markedOnly

end Inputs

namespace CommandLine

/-- Does what a command line says. -/
def perform (fs : FileSystem) (line : CommandLine) : Outcome :=
  match Settings.load fs line.settings (.ofPlace fs.start) with
  | .error e => { fs := fs, result := .error e }
  | .ok settings => line.inputs.perform fs (line.adjust settings) line.command

/-- The report of an outcome. -/
def report (line : CommandLine) (outcome : Outcome) : Report :=
  let err := (if line.banner then [Report.banner] else []) ++
    (if line.quiet then [] else outcome.skipped.map Report.skippedLine) ++
    outcome.warnings.map Report.warningLine
  match outcome.result with
  | .ok text => ⟨0, text, Report.lines err⟩
  | .error e => ⟨1, "", Report.lines (err ++ Report.failureLines e)⟩

end CommandLine

/-- Runs the program with the words after its name, and gives the files afterwards. -/
def run (fs : FileSystem) (words : List String) : FileSystem × Report :=
  match CommandLine.ofArguments words with
  | .error .version => (fs, .ofVersion)
  | .error .misuse => (fs, .ofMisuse)
  | .ok line =>
    let outcome := line.perform fs
    (outcome.fs, line.report outcome)

end HeaderReflection
