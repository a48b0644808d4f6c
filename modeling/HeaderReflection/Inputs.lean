import HeaderReflection.BuildReply
import HeaderReflection.Sources

/-!
# The inputs of a run

A run is told where its headers come from: a target of a build folder, files and patterns, a
directory. From this come its sources and its include directories. The file that the run writes is
never one of its sources, under whatever path it is found.
-/

namespace HeaderReflection

/-- Where the headers of a run come from. -/
structure Inputs where
  /-- The target whose sources are taken from the build folder. -/
  target : Option String := none
  /-- The build folder. -/
  buildFolder : Option Path := none
  /-- Files and patterns. -/
  arguments : List String := []
  /-- A directory whose files are sources. -/
  directory : Option Path := none
  /-- Include directories that come after those of the target. -/
  includeDirectories : List Path := []
  deriving DecidableEq, Repr, Inhabited

namespace Inputs

/-- Sources with the directories in which their includes are searched. -/
structure Gathered where
  /-- The sources in order. -/
  sources : List Path
  /-- The include directories in order. -/
  directories : List Path
  deriving DecidableEq, Repr

/-- Whether nothing says where headers come from. -/
def areMissing (inputs : Inputs) : Bool :=
  inputs.buildFolder.isNone && inputs.arguments.isEmpty && inputs.directory.isNone

/-- What the build folder gives, without the sources at the paths that are excluded. -/
def ofBuild (fs : FileSystem) (settings : Settings) (excluded : List Path) (inputs : Inputs) :
    Except Failure Gathered :=
  match inputs.buildFolder, inputs.target with
  | none, _ => .ok ⟨[], []⟩
  | some _, none => .error .noProject
  | some build, some name => do
    let directory := build.join settings.replyDirectory
    return ⟨← BuildReply.sources fs directory excluded name,
      ← BuildReply.includeDirectories fs directory name⟩

/-- The sources that lie below the directory. -/
def inDirectory (fs : FileSystem) (settings : Settings) (inputs : Inputs) :
    Except Failure (List Path) :=
  match inputs.directory with
  | none => .ok []
  | some directory => Sources.ofDirectory fs settings directory

/-- Everything that the inputs give, but for the file that is written. -/
def gather (fs : FileSystem) (settings : Settings) (output : Option Path) (inputs : Inputs) :
    Except Failure Gathered := do
  if inputs.areMissing then throw .noInput
  let output := output.map (Path.ofPlace fs.start).join
  let build ← inputs.ofBuild fs settings output.toList
  let named ← Sources.ofArguments fs inputs.arguments
  let found ← inputs.inDirectory fs settings
  return {
    sources := (build.sources ++ named ++ found).filter fun p =>
      !output.any fun o => fs.identity p = fs.identity o
    directories := build.directories ++ inputs.includeDirectories ++ settings.includeDirectories }

end Inputs

end HeaderReflection
