import HeaderReflection.Inputs

/-!
# Command lines

What a user asks of one run of the program.
-/

namespace HeaderReflection

/-- A form in which the model is printed. -/
inductive Format
  | json
  | yaml
  deriving DecidableEq, Repr

/-- What is done with the headers. -/
inductive Command
  /-- Write registration code to a file, or only print it. -/
  | generate (output : Path) (printOnly : Bool)
  /-- List the files that are read, on lines of their own or on one line. -/
  | dependencies (oneLine : Bool)
  /-- Print the model, whole or only its marked classes. -/
  | inspect (format : Format) (markedOnly : Bool)
  deriving DecidableEq, Repr

/-- What a user asks of one run. -/
structure CommandLine where
  /-- Whether the banner is shown. -/
  banner : Bool
  /-- Whether no warnings about sources are shown. -/
  quiet : Bool
  /-- The file with the settings, if one is named. -/
  settings : Option Path
  /-- Whether the includes of included headers are left alone, whatever the settings say. -/
  directOnly : Bool
  /-- Where the headers come from. -/
  inputs : Inputs
  /-- What is done with them. -/
  command : Command
  deriving DecidableEq, Repr

/-- The settings as the command line changes them. -/
def CommandLine.adjust (line : CommandLine) (settings : Settings) : Settings :=
  if line.directOnly then { settings with followIncludes := false } else settings

end HeaderReflection
