import HeaderReflection.CommandLine
import HeaderReflection.CommandLine.Options

/-!
# Reading command lines

The words before the command are options, and so are those after it. A value stands behind its
option, either in the same word or in the next one, which then starts with no dash unless it is a
dash alone. On each side of the command no option comes twice, but for those that may, and being
verbose and being quiet exclude each other. On either side `--` may only be the last word.
-/

namespace HeaderReflection.CommandLine

/-- Why a command line asks for no run. -/
inductive Stop
  /-- It asks for the version. -/
  | version
  /-- It breaks the rules. -/
  | misuse
  deriving DecidableEq, Repr

/-- Options in order, with their values. -/
abbrev Given := List (OptionName × String)

/-- The form with a name. -/
def formatOf? : String → Option Format
  | "json" => some .json
  | "yaml" => some .yaml
  | _ => none

/-- Whether an option takes a value. -/
def takes (o : OptionName) (value : String) : Bool :=
  match o.operand with
  | .nothing | .text => true
  | .path => value ≠ ""
  | .format => (formatOf? value).isSome

/-- Whether an option is among those given. -/
def has (given : Given) (o : OptionName) : Bool := given.any (·.1 = o)

/-- Adds an option. -/
def add (given : Given) (o : OptionName) (value : String) : Except Stop Given :=
  if o = .version then .error .version
  else if takes o value && (o.isRepeatable || !has given o) then .ok (given ++ [(o, value)])
  else .error .misuse

/-- Reads letters after a dash; an option whose value is to come in the next word is given back. -/
def readLetters (allowed : List OptionName) (given : Given) :
    List Char → Except Stop (Given × Option OptionName)
  | [] => .ok (given, none)
  | letter :: letters =>
    match allowed.find? (·.short? = some letter) with
    | none => .error .misuse
    | some o =>
      if o.operand = .nothing then
        match add given o "" with
        | .error stop => .error stop
        | .ok given => readLetters allowed given letters
      else
        match letters with
        | [] => .ok (given, some o)
        | '=' :: value | value => return (← add given o (String.ofList value), none)

/-- Reads what follows two dashes. -/
def readName (allowed : List OptionName) (given : Given) (text : List Char) :
    Except Stop (Given × Option OptionName) :=
  match allowed.find? (·.long.toList = text.takeWhile (· ≠ '=')), text.dropWhile (· ≠ '=') with
  | none, _ => .error .misuse
  | some o, [] =>
    if o.operand = .nothing then return (← add given o "", none) else .ok (given, some o)
  | some o, _ :: value =>
    if o.operand = .nothing then .error .misuse
    else return (← add given o (String.ofList value), none)

/-- Reads options up to a word that is a command, if commands may come. -/
def readOptions (allowed : List OptionName) (commands : Bool) (given : Given)
    (waiting : Option OptionName) : List String → Except Stop (Given × List String)
  | [] => if waiting.isSome then .error .misuse else .ok (given, [])
  | word :: words =>
    match waiting, word.toList with
    | some _, '-' :: _ :: _ => .error .misuse
    | some o, _ => do readOptions allowed commands (← add given o word) none words
    | none, ['-', '-'] => if words = [] then .ok (given, []) else .error .misuse
    | none, '-' :: '-' :: text => do
      let (given, waiting) ← readName allowed given text
      readOptions allowed commands given waiting words
    | none, '-' :: letter :: letters => do
      let (given, waiting) ← readLetters allowed given (letter :: letters)
      readOptions allowed commands given waiting words
    | none, _ =>
      if commands && (CommandName.ofWord? word).isSome then .ok (given, word :: words)
      else .error .misuse

/-- Whether options exclude each other. -/
def clash (given : Given) : Bool := has given .verbose && has given .quiet

/-- The value of an option. -/
def value? (given : Given) (o : OptionName) : Option String := given.lookup o

/-- The values of an option that may be repeated. -/
def values (given : Given) (o : OptionName) : List String :=
  (given.filter (·.1 = o)).map (·.2)

/-- The inputs that options name. -/
def inputsOf (given : Given) : Inputs where
  target := value? given .target
  buildFolder := (value? given .buildFolder).map Path.mk
  arguments := values given .file
  directory := (value? given .sourceDirectory).map Path.mk
  includeDirectories := (values given .includeDirectory).map Path.mk

/-- The command with its options; only the output has to be named. -/
def commandOf (given : Given) : CommandName → Except Stop Command
  | .generate =>
    match value? given .output with
    | none => .error .misuse
    | some output => .ok (.generate ⟨output⟩ (has given .printOnly))
  | .dependencies => .ok (.dependencies (has given .oneLine))
  | .inspect =>
    .ok (.inspect (((value? given .format).bind formatOf?).getD .json) (has given .markedOnly))

/-- Reads the words after the name of the program. -/
def ofArguments (words : List String) : Except Stop CommandLine := do
  match ← readOptions (.version :: OptionName.common) true [] none words with
  | (_, []) => throw .misuse
  | (before, word :: words) =>
    match CommandName.ofWord? word with
    | none => throw .misuse
    | some name =>
      let (after, _) ← readOptions name.options false [] none words
      if clash before || clash after then throw .misuse
      return {
        banner := !has (before ++ after) .noBanner
        quiet := has (before ++ after) .quiet
        settings := (value? (after ++ before) .settings).map Path.mk
        directOnly := has after .directOnly
        inputs := inputsOf after
        command := ← commandOf after name }

end HeaderReflection.CommandLine
