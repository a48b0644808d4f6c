import HeaderReflection.FileTree

/-!
# Where a path leads

A file system is a file tree with the directory in which relative paths start. Following a path
expands links, at most 40 of them, so a path that runs in a circle leads nowhere. Every step, also
an idle one, needs a directory to start from: that is why `a.h/` and `a.h/..` lead nowhere when
`a.h` is a file.
-/

namespace HeaderReflection

/-- A file tree and the place where relative paths start. -/
structure FileSystem where
  /-- The root directory. -/
  root : Entry
  /-- Where relative paths start. -/
  start : Place

namespace FileSystem

/-- The number of links that one path may run through. -/
def linkLimit : Nat := 40

/-- Follows steps from a place; `onLink` takes over with the place where a link's target starts and
the steps that are left. -/
def walk (root : Entry) (onLink : Place → List String → Option Place) (place : Place) :
    List String → Option Place
  | [] => some place
  | step :: steps =>
    match root.find? place with
    | some (.directory _) =>
      if Path.isIdle step then walk root onLink place steps
      else if step = ".." then walk root onLink place.dropLast steps
      else
        match root.find? (place ++ [step]) with
        | some (.link target) =>
          onLink (if Path.isAbsolute ⟨target⟩ then [] else place) (Path.pieces ⟨target⟩ ++ steps)
        | some _ => walk root onLink (place ++ [step]) steps
        | none => none
    | _ => none

/-- Follows steps from a place through at most so many links. -/
def follow (root : Entry) : Nat → Place → List String → Option Place
  | 0 => walk root fun _ _ => none
  | links + 1 => walk root fun place steps => follow root links place steps

/-- The place where the steps of a path start. -/
def startOf (fs : FileSystem) (p : Path) : Place := if p.isAbsolute then [] else fs.start

/-- The place that a path leads to, all links followed. -/
def locate? (fs : FileSystem) (p : Path) : Option Place :=
  if p.text = "" then none else follow fs.root linkLimit (fs.startOf p) p.pieces

/-- The entry that a path leads to. -/
def entry? (fs : FileSystem) (p : Path) : Option Entry :=
  (fs.locate? p).bind fun place => fs.root.find? place

/-- Whether a path leads anywhere. -/
def exists? (fs : FileSystem) (p : Path) : Bool := (fs.entry? p).isSome

/-- Whether a path leads to a regular file. -/
def isFile (fs : FileSystem) (p : Path) : Bool := (fs.entry? p).any Entry.isFile

/-- Whether a path leads to a directory. -/
def isDirectory (fs : FileSystem) (p : Path) : Bool := (fs.entry? p).any Entry.isDirectory

/-- The bytes of the file that a path leads to. -/
def bytes? (fs : FileSystem) (p : Path) : Option ByteArray :=
  match fs.entry? p with
  | some (.file bytes) => some bytes
  | _ => none

/-- The text of the file that a path leads to, if its bytes are UTF-8. -/
def text? (fs : FileSystem) (p : Path) : Option String := (fs.bytes? p).bind String.fromUTF8?

/-- The named entries of the directory that a path leads to. -/
def entries? (fs : FileSystem) (p : Path) : Option (List (String × Entry)) :=
  match fs.entry? p with
  | some (.directory entries) => some entries
  | _ => none

/-- The steps from the root to where a path leads; a path that leads nowhere is taken as it is
written. Two paths to one entry get the same steps. -/
def identity (fs : FileSystem) (p : Path) : List Path.Component :=
  match fs.locate? p with
  | some place => Path.placeComponents place
  | none => p.components

/-- The steps to every regular file of the tree. -/
def fileIdentities (fs : FileSystem) : List (List Path.Component) :=
  fs.root.files.map Path.placeComponents

theorem identity_mem_of_isFile {fs : FileSystem} {p : Path} (h : fs.isFile p = true) :
    fs.identity p ∈ fs.fileIdentities := by
  unfold isFile entry? at h
  cases hp : fs.locate? p with
  | none => simp [hp] at h
  | some place =>
    simp only [hp, Option.bind_some] at h
    cases he : fs.root.find? place with
    | none => simp [he] at h
    | some e =>
      cases e with
      | file bytes =>
        simp only [identity, hp]
        exact List.mem_map_of_mem (Entry.mem_files_of_find? he)
      | link _ => simp [he, Entry.isFile] at h
      | directory _ => simp [he, Entry.isFile] at h

end FileSystem

end HeaderReflection
