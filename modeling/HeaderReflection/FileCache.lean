import HeaderReflection.FileTree.Locate

/-!
# The file cache

During a run every file is read at most once. The text of the first successful reading stays, also
when the file changes; a reading that fails leaves no trace. Paths with the same components are the
same file to the cache.
-/

namespace HeaderReflection

/-- The texts read so far. -/
structure FileCache where
  /-- The components of each path that was read with the text that was found there. -/
  entries : List (List Path.Component × String) := []

namespace FileCache

/-- The text that the cache holds for a path. -/
def get? (cache : FileCache) (p : Path) : Option String := cache.entries.lookup p.components

/-- The number of texts. -/
def size (cache : FileCache) : Nat := cache.entries.length

/-- The text of a file, from the cache or else from the file tree. -/
def read? (cache : FileCache) (fs : FileSystem) (p : Path) : Option (String × FileCache) :=
  match cache.get? p with
  | some text => some (text, cache)
  | none => (fs.text? p).map fun text => (text, ⟨(p.components, text) :: cache.entries⟩)

end FileCache

end HeaderReflection
