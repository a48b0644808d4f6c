/-!
# Options

The options that may stand before a command or after it, the names that they go by and the values
that they take.
-/

namespace HeaderReflection

/-- An option. -/
inductive OptionName
  | noBanner
  | verbose
  | quiet
  | settings
  | version
  | target
  | buildFolder
  | file
  | sourceDirectory
  | includeDirectory
  | directOnly
  | output
  | printOnly
  | oneLine
  | format
  | markedOnly
  deriving DecidableEq, Repr

/-- The value of an option. -/
inductive Operand
  | nothing
  | text
  /-- A text that is not empty. -/
  | path
  | format
  deriving DecidableEq, Repr

/-- The commands by name. -/
inductive CommandName
  | generate
  | dependencies
  | inspect
  deriving DecidableEq, Repr

namespace OptionName

/-- The name after two dashes. -/
def long : OptionName → String
  | noBanner => "no-banner"
  | verbose => "verbose"
  | quiet => "quiet"
  | settings => "config"
  | version => "version"
  | target => "project"
  | buildFolder => "cmake-folder"
  | file => "file"
  | sourceDirectory => "source-dir"
  | includeDirectory => "include"
  | directOnly => "no-follow-includes"
  | output => "output"
  | printOnly => "dry-run"
  | oneLine => "inline"
  | format => "format"
  | markedOnly => "reflected-only"

/-- The letter after one dash. -/
def short? : OptionName → Option Char
  | verbose => some 'v'
  | quiet => some 'q'
  | version => some 'V'
  | target => some 'p'
  | file => some 'f'
  | includeDirectory => some 'i'
  | output => some 'o'
  | _ => none

/-- The value that an option takes. -/
def operand : OptionName → Operand
  | settings | buildFolder | sourceDirectory | includeDirectory | output => .path
  | target | file => .text
  | format => .format
  | _ => .nothing

/-- Whether an option may be given more than once. -/
def isRepeatable : OptionName → Bool
  | file | includeDirectory => true
  | _ => false

/-- The options that may stand before a command and after it. -/
def common : List OptionName := [noBanner, verbose, quiet, settings]

/-- The options that tell where headers come from. -/
def ofInputs : List OptionName :=
  [target, buildFolder, file, sourceDirectory, includeDirectory, directOnly]

end OptionName

namespace CommandName

/-- The command that a word names. -/
def ofWord? : String → Option CommandName
  | "generate" | "gen" => some generate
  | "deps" | "dependencies" => some dependencies
  | "inspect" => some inspect
  | _ => none

/-- The options that may stand after a command. -/
def options (c : CommandName) : List OptionName :=
  OptionName.common ++ OptionName.ofInputs ++
    match c with
    | generate => [.output, .printOnly]
    | dependencies => [.oneLine]
    | inspect => [.format, .markedOnly]

end CommandName

end HeaderReflection
