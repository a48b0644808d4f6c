import HeaderReflection.FileTree

/-!
# What one tree has over another

The files and directories that were made or changed on the way from one tree to another, each
directory before what lies in it.
-/

namespace HeaderReflection.Entry

/-- A file or a directory that a tree has over another. -/
inductive Change
  | file (place : Place) (bytes : ByteArray)
  | directory (place : Place)

/-- Whether an entry is a file with the given bytes. -/
def isFileOf (bytes : ByteArray) : Option Entry → Bool
  | some (file old) => old.toList = bytes.toList
  | _ => false

/-- The named entries of a directory; everything else has none. -/
def entriesOf : Option Entry → List (String × Entry)
  | some (directory entries) => entries
  | _ => []

mutual

/-- What an entry at a place has over the entry that was there. -/
def changesFrom (place : Place) (old : Option Entry) : Entry → List Change
  | file bytes => if isFileOf bytes old then [] else [.file place bytes]
  | link _ => []
  | directory entries =>
    (if old.any isDirectory then [] else [.directory place]) ++
      changesIn place (entriesOf old) entries

/-- What the entries of a directory have over those that were there. -/
def changesIn (place : Place) (old : List (String × Entry)) : List (String × Entry) → List Change
  | [] => []
  | (name, e) :: entries =>
    changesFrom (place ++ [name]) (old.lookup name) e ++ changesIn place old entries

end

end HeaderReflection.Entry
