import HeaderReflection.Failure
import HeaderReflection.FileCache
import HeaderReflection.Model.Extraction
import HeaderReflection.WorkingSet

/-!
# The classes of a working set

The files of a set are read through the cache and parsed in their order. Each class knows the text
by which its file is included. The first file that cannot be read or parsed ends the reading.
-/

namespace HeaderReflection

/-- The classes of several files, with the cache after the last reading. -/
def WorkItem.classesOfAll (fs : FileSystem) :
    List WorkItem → FileCache → EStateM.Result Failure FileCache (List Model.Class)
  | [], cache => .ok [] cache
  | item :: items, cache =>
    match cache.read? fs item.path with
    | none => .error (.unreadable item.path) cache
    | some (text, cache) =>
      match Model.classesOfText item.target text with
      | .error e => .error (.malformed item.path (some e)) cache
      | .ok classes =>
        match classesOfAll fs items cache with
        | .error e cache => .error e cache
        | .ok more cache => .ok (classes ++ more) cache

/-- The classes of the files of a set. -/
def WorkingSet.classes (fs : FileSystem) (set : WorkingSet) (cache : FileCache) :
    EStateM.Result Failure FileCache (List Model.Class) :=
  WorkItem.classesOfAll fs set.items cache

end HeaderReflection
