import HeaderReflection.Failure
import HeaderReflection.Glob.Search
import HeaderReflection.Settings

/-!
# The sources of a run

Sources are named one by one, stood for by patterns, or found below a directory. A pattern has to
stand for at least one file and a named file has to be there. Below a directory every eligible
regular file is a source, in the order of the paths; links are not followed there.
-/

namespace HeaderReflection.Sources

/-- The files that one argument names. -/
def ofArgument (fs : FileSystem) (argument : String) : Except Failure (List Path) :=
  if Glob.isPattern argument then
    match Glob.pattern? argument with
    | none => .error (.badPattern argument)
    | some pattern =>
      match (Glob.search fs pattern).filter fs.isFile with
      | [] => .error (.noMatches argument)
      | files => .ok files
  else if fs.isFile ⟨argument⟩ then .ok [⟨argument⟩]
  else .error (.noInputFile ⟨argument⟩)

/-- The files that several arguments name. -/
def ofArguments (fs : FileSystem) (arguments : List String) : Except Failure (List Path) := do
  return (← arguments.mapM (ofArgument fs)).flatten

mutual

/-- The paths of the regular files of an entry at a path. -/
def filesAt (p : Path) : Entry → List Path
  | .file _ => [p]
  | .link _ => []
  | .directory entries =>
    ((filesOf p entries).mergeSort fun a b => Glob.nameLe a.1 b.1).flatMap (·.2)

/-- The names in a directory, each with the paths of the regular files of its entry. -/
def filesOf (directory : Path) : List (String × Entry) → List (String × List Path)
  | [] => []
  | (name, e) :: entries =>
    (name, filesAt (directory.join ⟨name⟩) e) :: filesOf directory entries

end

/-- The eligible files below a directory. -/
def ofDirectory (fs : FileSystem) (settings : Settings) (directory : Path) :
    Except Failure (List Path) :=
  match fs.entry? directory with
  | some (.directory entries) =>
    .ok ((filesAt directory (.directory entries)).filter settings.isEligible)
  | _ => .error (.noInputFile directory)

end HeaderReflection.Sources
