import HeaderReflection.FileTree.Locate

/-!
# Changing a file tree

Directories and files are made where a path leads. A file may be written through a link, also
through one whose target is not there yet.
-/

namespace HeaderReflection.FileSystem

/-- Whether a name may be given to a new entry. -/
def isName (name : String) : Bool :=
  name.utf8ByteSize ≤ 255 && !name.toList.contains '\x00'

/-- The place at which a file written through steps from a place would lie. -/
def walkNew (root : Entry) (onLink : Place → List String → Option Place) (place : Place) :
    List String → Option Place
  | [] => none
  | step :: steps =>
    match root.find? place with
    | some (.directory _) =>
      if Path.isIdle step then walkNew root onLink place steps
      else if step = ".." then walkNew root onLink place.dropLast steps
      else
        match root.find? (place ++ [step]) with
        | some (.link target) =>
          onLink (if Path.isAbsolute ⟨target⟩ then [] else place) (Path.pieces ⟨target⟩ ++ steps)
        | some (.directory _) => walkNew root onLink (place ++ [step]) steps
        | some (.file _) => if steps = [] then some (place ++ [step]) else none
        | none => if steps = [] ∧ isName step then some (place ++ [step]) else none
    | _ => none

/-- As `walkNew`, through at most so many links. -/
def followNew (root : Entry) : Nat → Place → List String → Option Place
  | 0 => walkNew root fun _ _ => none
  | links + 1 => walkNew root fun place steps => followNew root links place steps

/-- Puts an entry at a place. -/
def put (fs : FileSystem) (place : Place) (e : Entry) : FileSystem :=
  { fs with root := fs.root.put place e }

/-- Writes a file where a path leads, in place of one that is there. -/
def write? (fs : FileSystem) (p : Path) (bytes : ByteArray) : Option FileSystem :=
  if p.text = "" then none
  else (followNew fs.root linkLimit (fs.startOf p) p.pieces).map fun place =>
    fs.put place (.file bytes)

/-- The place of a new entry that steps from a place name: its directory is there and the name is
still free. -/
def freePlace? (fs : FileSystem) (place : Place) (steps : List String) : Option Place :=
  match Path.trimPieces steps |>.reverse with
  | [] => none
  | name :: above =>
    if name = ".." ∨ isName name = false then none
    else
      match follow fs.root linkLimit place above.reverse with
      | none => none
      | some directory =>
        match fs.root.find? directory, fs.root.find? (directory ++ [name]) with
        | some (.directory _), none => some (directory ++ [name])
        | _, _ => none

/-- Makes a new entry where a path leads. -/
def make? (fs : FileSystem) (p : Path) (e : Entry) : Option FileSystem :=
  (fs.freePlace? (fs.startOf p) p.pieces).map fun place => fs.put place e

/-- Whether steps from a place lead to a directory. -/
def isDirectoryAt (fs : FileSystem) (place : Place) (steps : List String) : Bool :=
  ((follow fs.root linkLimit place steps).bind fun place => fs.root.find? place).any
    Entry.isDirectory

/-- Makes the directories that the steps after `done` pass through, and tells whether all of them
are there in the end. -/
def makeDirectoriesFrom (fs : FileSystem) (place : Place) (done : List String) :
    List String → FileSystem × Bool
  | [] => (fs, true)
  | step :: steps =>
    if fs.isDirectoryAt place (done ++ [step]) then
      makeDirectoriesFrom fs place (done ++ [step]) steps
    else
      match fs.freePlace? place (done ++ [step]) with
      | none => (fs, false)
      | some new =>
        makeDirectoriesFrom (fs.put new (.directory [])) place (done ++ [step]) steps

/-- Makes a directory and those above it that are missing. Those that were made stay when one
cannot be made. -/
def makeDirectories (fs : FileSystem) (p : Path) : FileSystem × Bool :=
  if p.text = "" then (fs, true) else fs.makeDirectoriesFrom (fs.startOf p) [] p.pieces

end HeaderReflection.FileSystem
