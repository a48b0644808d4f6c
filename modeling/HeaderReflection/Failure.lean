import HeaderReflection.Grammar.Reading
import HeaderReflection.Path

/-!
# Failures

Why a run stops. A failure has one message and, when a file could not be parsed, the texts of what
lies behind it.
-/

namespace HeaderReflection

/-- Why a run stops. -/
inductive Failure
  /-- Nothing says where the input is. -/
  | noInput
  /-- A build folder is given without the target in it. -/
  | noProject
  | noReplyDirectory (directory : Path)
  | noCodemodel (directory : Path)
  | noConfigurations
  | noTarget (name : String)
  | noTargetFile (file : Path)
  | noInputFile (file : Path)
  | noMatches (pattern : String)
  | noSettings (file : Path)
  | unreadable (file : Path)
  /-- A file whose text is not of its format; of C++ the reason is known. -/
  | malformed (file : Path) (cause : Option ParseError)
  | badPattern (pattern : String)
  | noDirectory (directory : Path)
  | unwritable (file : Path)
  deriving DecidableEq, Repr

namespace Failure

/-- The text of a failure. -/
def message : Failure → String
  | noInput => "No input specified: pass --cmake-folder, --file or --source-dir"
  | noProject => "No project specified: --project is required with --cmake-folder"
  | noReplyDirectory directory => s!"CMake API directory not found at {directory.text}"
  | noCodemodel directory => s!"CMake codemodel file not found in {directory.text}"
  | noConfigurations => "CMake codemodel has no configurations"
  | noTarget name => s!"Failed to find project: {name}"
  | noTargetFile file => s!"CMake target file not found at {file.text}"
  | noInputFile file => s!"Input file not found: {file.text}"
  | noMatches pattern => s!"No files match pattern: {pattern}"
  | noSettings file => s!"Config file not found: {file.text}"
  | unreadable file => s!"Failed to read {file.text}"
  | malformed file _ => s!"Failed to parse {file.text}"
  | badPattern pattern => s!"Invalid glob pattern: {pattern}"
  | noDirectory directory => s!"Failed to create directory {directory.text}"
  | unwritable file => s!"Failed to write {file.text}"

/-- The texts of what lies behind a failure. -/
def causes : Failure → List String
  | malformed _ (some cause) => cause.messages
  | _ => []

end Failure

end HeaderReflection
