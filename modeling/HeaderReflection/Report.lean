import HeaderReflection.Failure
import HeaderReflection.WorkingSet.Scan

/-!
# Reports

What the program prints, and the number with which it ends: 0 after success, 1 after a failure and
2 when the command line was wrong.
-/

namespace HeaderReflection

/-- What the program prints and the number with which it ends. -/
structure Report where
  exit : Nat
  /-- What goes to standard output. -/
  out : String
  /-- What goes to standard error. -/
  err : String
  deriving DecidableEq, Repr

namespace Report

/-- The version of the program. -/
def version : String := "0.1.0"

/-- The version, filled up with blanks. -/
def paddedVersion : String :=
  version ++ String.ofList (List.replicate (8 - version.length) ' ')

/-- The banner. -/
def banner : String := "\n".intercalate [
  "",
  "  (\\",
  "  .'.",
  "  | |",
  "  | |",
  "  |_|--------------------------|",
  "    \\_   Shadow Header Tool    |",
  "      \\_       v" ++ paddedVersion ++ "   |",
  "        \\______________________|",
  ""]

/-- Lines with their ends. -/
def lines (texts : List String) : String := String.join (texts.map (· ++ "\n"))

/-- The line that warns of a source that is left out. -/
def skippedLine (s : Skipped) : String := "[WARN  header_tool::discovery] " ++ s.message

/-- The line of a warning. -/
def warningLine (text : String) : String := "Warning: " ++ text

/-- The lines that tell of a failure. -/
def failureLines (e : Failure) : List String :=
  ["Error: Command failed", "  " ++ e.message] ++ e.causes.map ("  Caused by: " ++ ·)

/-- The report of a command line that asks for the version. -/
def ofVersion : Report := ⟨0, lines ["sht " ++ version], ""⟩

/-- The report of a command line that breaks the rules. -/
def ofMisuse : Report := ⟨2, "", lines ["Usage: sht [OPTIONS] <generate|deps|inspect> [OPTIONS]"]⟩

end Report

end HeaderReflection
