import HeaderReflection.FileTree.Locate
import HeaderReflection.Glob

/-!
# Searching a file tree for a pattern

The paths that a pattern stands for, those of one directory in the order of their names. Links are
followed, but no path runs through more of them than `FileSystem.linkLimit`, so the search ends also
when links run in circles.
-/

namespace HeaderReflection.Glob

/-- Whether a path is that of the directory where paths start. -/
def isHere (p : Path) : Bool := p.components = [.here]

/-- The path of a name in a directory; nothing is written for the directory where paths start. -/
def step (directory : Path) (name : String) : Path :=
  if isHere directory then ⟨name⟩ else directory.join ⟨name⟩

/-- Whether a name comes no later than another in the order of names. -/
def nameLe (a b : String) : Bool := !decide (b < a)

/-- The paths of the entries of a directory, in the order of their names. -/
def children (fs : FileSystem) (directory : Path) : List Path :=
  let names := ((fs.entries? directory).getD []).map (·.1)
  (names.mergeSort nameLe).map (step directory)

/-- More steps down than any path of a tree can take. -/
def depthLimit (fs : FileSystem) : Nat := (FileSystem.linkLimit + 1) * (fs.root.height + 1)

/-- What is found at every entry below a directory, so many levels down. -/
def everywhere (fs : FileSystem) (found : Path → List Path) : Nat → Path → List Path
  | 0, _ => []
  | levels + 1, directory =>
    (children fs directory).flatMap fun child =>
      found child ++ if fs.isDirectory child then everywhere fs found levels child else []

/-- What the parts of a pattern stand for below a directory. -/
def below (fs : FileSystem) (directoriesOnly : Bool) (directory : Path) : List Part → List Path
  | [] => if directoriesOnly && !fs.isDirectory directory then [] else [directory]
  | .name elements :: parts =>
    match literal? elements with
    | some name =>
      let isThere :=
        if name = "." ∨ name = ".." then fs.isDirectory directory
        else fs.exists? (step directory name)
      if isThere then below fs directoriesOnly (step directory name) parts else []
    | none =>
      if fs.isDirectory directory then
        let dots := if elements.head? = some (.char '.') then ["..", "."] else []
        (dots.filter (fun name => standsFor elements name.toList)).flatMap
            (fun name => below fs directoriesOnly (directory.join ⟨name⟩) parts) ++
          ((children fs directory).filter
              fun child => standsFor elements (child.fileName?.getD "").toList).flatMap
            (fun child => below fs directoriesOnly child parts)
      else []
  | .anyDepth :: [] =>
    everywhere fs (fun child => if fs.isDirectory child then [child] else []) (depthLimit fs)
      directory
  | .anyDepth :: .anyDepth :: parts => below fs directoriesOnly directory (.anyDepth :: parts)
  | .anyDepth :: .name elements :: parts =>
    everywhere fs
      (fun child =>
        if standsFor elements (child.fileName?.getD "").toList then
          below fs directoriesOnly child parts
        else [])
      (depthLimit fs) directory

/-- The paths that a pattern stands for. -/
def search (fs : FileSystem) (pattern : Pattern) : List Path :=
  if pattern.parts = [] then []
  else below fs pattern.directoriesOnly ⟨if pattern.absolute then "/" else "."⟩ pattern.parts

end HeaderReflection.Glob
