import HeaderReflection.Failure
import HeaderReflection.FileTree.Locate
import HeaderReflection.Json.Reader

/-!
# Replies of the build system

CMake leaves replies about a project in a directory of the build folder: a codemodel that lists the
targets of each configuration, and a file for each target with its sources and include directories.
Relative paths in a reply start at the root of the project's sources, if the codemodel names it.
-/

namespace HeaderReflection

namespace BuildReply

/-- A target that a codemodel lists. -/
structure TargetReference where
  /-- The name of the target. -/
  name : String
  /-- The reply about it. -/
  file : Path
  deriving DecidableEq, Repr

/-- What the codemodel says. -/
structure Codemodel where
  /-- The root of the project's sources. -/
  root : Option Path
  /-- The targets of each configuration. -/
  configurations : List (List TargetReference)
  deriving DecidableEq, Repr

/-- What the reply about a target says. -/
structure Target where
  /-- The sources in order. -/
  sources : List Path
  /-- The include directories of each group of sources that are compiled alike. -/
  groups : List (List Path)
  deriving DecidableEq, Repr

/-! ## Reading replies -/

/-- The list that a value shows; no value is an empty list. -/
def listOfJson? {α : Type} (item? : Json → Option α) : Option Json → Option (List α)
  | none => some []
  | some value => do (← value.items?).mapM item?

/-- The path of an entry that holds one. -/
def pathOfJson? (value : Json) : Option Path := do
  match ← value.fields? ["path"] with
  | [some path] => return ⟨← path.text?⟩
  | _ => none

/-- The reference to a target that a value shows. -/
def TargetReference.ofJson? (value : Json) : Option TargetReference := do
  match ← value.fields? ["name", "jsonFile"] with
  | [some name, some file] => return ⟨← name.text?, ⟨← file.text?⟩⟩
  | _ => none

/-- The targets of the configuration that a value shows. -/
def configurationOfJson? (value : Json) : Option (List TargetReference) := do
  match ← value.fields? ["targets"] with
  | [targets] => listOfJson? TargetReference.ofJson? targets
  | _ => none

/-- The root of the sources that a value names. -/
def rootOfJson? (value : Json) : Option Path := do
  match ← value.fields? ["source"] with
  | [some source] => return ⟨← source.text?⟩
  | _ => none

/-- The codemodel that a value shows. -/
def Codemodel.ofJson? (value : Json) : Option Codemodel := do
  match ← value.fields? ["paths", "configurations"] with
  | [paths, some configurations] =>
    let root ← match paths with
      | none => some none
      | some .null => some none
      | some value => (rootOfJson? value).map some
    return ⟨root, ← listOfJson? configurationOfJson? (some configurations)⟩
  | _ => none

/-- The include directories of the group that a value shows. -/
def groupOfJson? (value : Json) : Option (List Path) := do
  match ← value.fields? ["includes"] with
  | [includes] => listOfJson? pathOfJson? includes
  | _ => none

/-- The target that a value shows. -/
def Target.ofJson? (value : Json) : Option Target := do
  match ← value.fields? ["sources", "compileGroups"] with
  | [sources, groups] =>
    return ⟨← listOfJson? pathOfJson? sources, ← listOfJson? groupOfJson? groups⟩
  | _ => none

/-- What a file shows. -/
def readFile {α : Type} (fs : FileSystem) (ofJson? : Json → Option α) (file : Path) :
    Except Failure α :=
  match fs.text? file with
  | none => .error (.unreadable file)
  | some text =>
    match (Json.read text).bind ofJson? with
    | none => .error (.malformed file none)
    | some a => .ok a

/-! ## Finding a target -/

/-- How the name of a codemodel starts. -/
def codemodelStart : String := "codemodel-v2"

/-- Whether a file of this name is a codemodel. -/
def isCodemodel (name : String) : Bool :=
  codemodelStart.toList.isPrefixOf name.toList && ".json".toList.isSuffixOf name.toList

/-- The first of several names in the order of names. -/
def firstName? : List String → Option String
  | [] => none
  | name :: names =>
    match firstName? names with
    | none => some name
    | some other => if other < name then some other else some name

/-- The codemodel among the replies in a directory. -/
def loadCodemodel (fs : FileSystem) (directory : Path) : Except Failure Codemodel :=
  match fs.entries? directory with
  | none => .error (.noReplyDirectory directory)
  | some entries =>
    match firstName? ((entries.map (·.1)).filter isCodemodel) with
    | none => .error (.noCodemodel directory)
    | some name => readFile fs Codemodel.ofJson? (directory.join ⟨name⟩)

/-- A target with the root of the sources. -/
def loadTarget (fs : FileSystem) (directory : Path) (name : String) :
    Except Failure (Target × Option Path) := do
  let model ← loadCodemodel fs directory
  match model.configurations with
  | [] => throw .noConfigurations
  | targets :: _ =>
    match targets.find? (·.name = name) with
    | none => throw (.noTarget name)
    | some reference =>
      let file := directory.join reference.file
      if fs.isFile file then return (← readFile fs Target.ofJson? file, model.root)
      else throw (.noTargetFile file)

/-- A path of a reply: a relative one starts at the root of the sources. -/
def resolve (root : Option Path) (p : Path) : Path :=
  match root with
  | some root => root.join p
  | none => p

/-- The sources of a target in order, but for the paths that are excluded. -/
def sources (fs : FileSystem) (directory : Path) (excluded : List Path) (name : String) :
    Except Failure (List Path) := do
  let (target, root) ← loadTarget fs directory name
  return (target.sources.map (resolve root)).filter fun p =>
    !excluded.any fun q => q.components = p.components

/-- The include directories of a target, those of its first group. -/
def includeDirectories (fs : FileSystem) (directory : Path) (name : String) :
    Except Failure (List Path) := do
  let (target, root) ← loadTarget fs directory name
  return (target.groups.head?.getD []).map (resolve root)

end BuildReply

end HeaderReflection
