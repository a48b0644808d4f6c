import HeaderReflection.FileTree.Difference
import HeaderReflection.Run

/-!
# The program

Reads the part of the disk that a run can look at into a file tree, runs, writes what the run
changed and prints its report. That part is the working directory and everything that the command
line, the settings and the build folder name, with all that links in it lead to.
-/

namespace HeaderReflection.Main

/-- The kind of an entry of the disk, links not followed. -/
def kindOf? (place : Place) : IO (Option IO.FS.FileType) := do
  match place.getLast? with
  | none => return some .dir
  | some name =>
    let entry : IO.FS.DirEntry := ⟨(Path.ofPlace place.dropLast).text, name⟩
    match ← entry.path.symlinkMetadata.toBaseIO with
    | .ok data => return some data.type
    | .error _ => return none

/-- The bytes of a file. -/
def bytesAt? (place : Place) : IO (Option ByteArray) := do
  return (← (IO.FS.readBinFile (Path.ofPlace place).text).toBaseIO).toOption

/-- The path of an entry with all links followed. -/
def realPath? (place : Place) : IO (Option Path) := do
  match ← (IO.FS.realPath (Path.ofPlace place).text).toBaseIO with
  | .ok path => return some ⟨path.toString⟩
  | .error _ => return none

/-- The names in a directory. -/
def namesIn (place : Place) : IO (List String) := do
  match ← (do (← IO.FS.realPath (Path.ofPlace place).text).readDir).toBaseIO with
  | .ok entries => return entries.toList.map (·.fileName)
  | .error _ => return []

/-- Reads an entry of the disk; what links lead to is collected. -/
partial def readEntry (place : Place) : StateT (List Path) IO (Option Entry) := do
  match ← kindOf? place with
  | some .file => return (← bytesAt? place).map Entry.file
  | some .symlink =>
    match ← realPath? place with
    | some target =>
      modify (target :: ·)
      return some (.link target.text)
    | none => return none
  | some .dir =>
    let mut entries := []
    for name in ← namesIn place do
      match ← readEntry (place ++ [name]) with
      | some e => entries := (name, e) :: entries
      | none => pure ()
    return some (.directory entries)
  | _ => return none

/-- Adds the entry to which steps lead to a tree, with the directories and links on the way. -/
def addSteps (place : Place) : List String → Entry → StateT (List Path) IO Entry
  | [], tree => do
    match ← readEntry place with
    | some e => return tree.put place e
    | none => return tree
  | step :: steps, tree => do
    if Path.isIdle step then addSteps place steps tree
    else if step = ".." then addSteps place.dropLast steps tree
    else
      let next := place ++ [step]
      match ← kindOf? next with
      | some .dir =>
        let tree := if (tree.find? next).isSome then tree else tree.put next (.directory [])
        addSteps next steps tree
      | some .symlink =>
        match ← realPath? next with
        | some target =>
          modify ((target.join (.ofPieces steps)) :: ·)
          return tree.put next (.link target.text)
        | none => return tree
      | some .file =>
        match ← bytesAt? next with
        | some bytes => return tree.put next (.file bytes)
        | none => return tree
      | _ => return tree

/-- Adds all that paths lead to, unless it lies below what was added before. -/
partial def addPaths (tree : Entry) (done : List Path) : List Path → IO Entry
  | [] => return tree
  | p :: todo => do
    if done.any fun q => q.components.isPrefixOf p.components then addPaths tree done todo
    else
      let (tree, targets) ← (addSteps [] p.pieces tree).run []
      addPaths tree (p :: done) (targets ++ todo)

/-- The part of a pattern before its first directory that is not plain. -/
def plainPart (argument : String) : Path :=
  .ofPieces ((Path.pieces ⟨argument⟩).takeWhile fun piece => !Glob.isPattern piece)

/-- The paths that a command line names. -/
def pathsOf (line : CommandLine) : List Path :=
  line.settings.toList ++ line.inputs.buildFolder.toList ++
    line.inputs.arguments.map plainPart ++ line.inputs.directory.toList ++
    line.inputs.includeDirectories ++
    match line.command with
    | .generate output _ => output.parent?.toList
    | _ => []

/-- The paths that come from the settings and the build folder. -/
def gatheredPaths (fs : FileSystem) (line : CommandLine) : List Path :=
  match Settings.load fs line.settings (.ofPlace fs.start) with
  | .error _ => []
  | .ok settings =>
    match line.inputs.gather fs settings none with
    | .error _ => settings.includeDirectories
    | .ok gathered => gathered.sources.filterMap Path.parent? ++ gathered.directories

/-- The file system that a run of a command line looks at. -/
def observe (line : CommandLine) : IO FileSystem := do
  let here : Path := ⟨(← IO.currentDir).toString⟩
  let start : Place := here.pieces.filter fun piece => !Path.isIdle piece
  let named := here :: (pathsOf line).map here.join
  let fs : FileSystem := ⟨← addPaths (.directory []) [] named, start⟩
  let gathered := (gatheredPaths fs line).map here.join
  return { fs with root := ← addPaths fs.root named gathered }

/-- Writes what a run changed. -/
def commit (changes : List Entry.Change) : IO Unit := do
  for change in changes do
    match change with
    | .directory place => IO.FS.createDirAll (Path.ofPlace place).text
    | .file place bytes => IO.FS.writeBinFile (Path.ofPlace place).text bytes

/-- Prints a report and gives the number with which the program ends. -/
def deliver (report : Report) : IO UInt32 := do
  (← IO.getStderr).putStr report.err
  (← IO.getStdout).putStr report.out
  return report.exit.toUInt32

end HeaderReflection.Main

open HeaderReflection in
/-- Runs the program with the words after its name. -/
def main (words : List String) : IO UInt32 := do
  match CommandLine.ofArguments words with
  | .error .version => Main.deliver .ofVersion
  | .error .misuse => Main.deliver .ofMisuse
  | .ok line =>
    let fs ← Main.observe line
    let outcome := line.perform fs
    match ← (Main.commit (outcome.fs.root.changesFrom [] (some fs.root))).toBaseIO with
    | .ok _ => Main.deliver (line.report outcome)
    | .error e =>
      IO.eprintln e
      return 1
