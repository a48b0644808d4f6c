import HeaderReflection.Path

/-!
# File trees

A file tree is a value: files with their bytes, links with their targets and directories with named
entries. A place is the list of names from the root to an entry, links not followed.
-/

namespace HeaderReflection

/-- An entry of a file tree. -/
inductive Entry
  | file (bytes : ByteArray)
  | link (target : String)
  | directory (entries : List (String × Entry))
  deriving Inhabited

namespace Entry

/-- Whether an entry is a regular file. -/
def isFile : Entry → Bool
  | file _ => true
  | _ => false

/-- Whether an entry is a directory. -/
def isDirectory : Entry → Bool
  | directory _ => true
  | _ => false

/-- The entry at a place below an entry. -/
def find? : Place → Entry → Option Entry
  | [], e => some e
  | name :: place, directory entries =>
    match entries.lookup name with
    | some e => e.find? place
    | none => none
  | _ :: _, _ => none

/-- Sets the entry of a name: in its place if there is one, else at the end. -/
def setName (name : String) (e : Entry) : List (String × Entry) → List (String × Entry)
  | [] => [(name, e)]
  | (n, old) :: entries =>
    if n = name then (name, e) :: entries else (n, old) :: setName name e entries

/-- Puts an entry at a place whose directory is there; otherwise nothing changes. -/
def put : Entry → Place → Entry → Entry
  | _, [], new => new
  | directory entries, name :: place, new =>
    match entries.lookup name with
    | some e => directory (setName name (put e place new) entries)
    | none => if place = [] then directory (setName name new entries) else directory entries
  | e, _ :: _, _ => e

/-- Takes away the entry at a place. -/
def remove : Place → Entry → Entry
  | [name], directory entries => directory (entries.filter (·.1 ≠ name))
  | name :: place, directory entries =>
    match entries.lookup name with
    | some e => directory (setName name (remove place e) entries)
    | none => directory entries
  | _, e => e

/-! ## The files of a tree -/

mutual

/-- The places of all regular files below an entry. -/
def files : Entry → List Place
  | file _ => [[]]
  | link _ => []
  | directory entries => filesIn entries

/-- The places of all regular files below named entries. -/
def filesIn : List (String × Entry) → List Place
  | [] => []
  | (name, e) :: entries => (files e).map (name :: ·) ++ filesIn entries

end

mutual

/-- The number of directories on the longest way down. -/
def height : Entry → Nat
  | file _ => 0
  | link _ => 0
  | directory entries => heightIn entries + 1

/-- The height of the highest of several entries. -/
def heightIn : List (String × Entry) → Nat
  | [] => 0
  | (_, e) :: entries => max e.height (heightIn entries)

end

theorem mem_filesIn {name : String} {entries : List (String × Entry)} {e : Entry} {place : Place}
    (h : entries.lookup name = some e) (hp : place ∈ e.files) :
    name :: place ∈ filesIn entries := by
  induction entries with
  | nil => simp at h
  | cons entry entries ih =>
    obtain ⟨n, old⟩ := entry
    rw [filesIn]
    by_cases hn : name = n
    · subst hn
      simp at h
      subst h
      exact List.mem_append_left _ (List.mem_map_of_mem hp)
    · have : (name == n) = false := by simp [hn]
      simp [List.lookup_cons, this] at h
      exact List.mem_append_right _ (ih h)

/-- Every regular file that can be found is among the files of the tree. -/
theorem mem_files_of_find? {place : Place} {e : Entry} {bytes : ByteArray}
    (h : e.find? place = some (file bytes)) : place ∈ e.files := by
  induction place generalizing e with
  | nil =>
    cases h
    simp [files]
  | cons name place ih =>
    cases e with
    | file _ => simp [find?] at h
    | link _ => simp [find?] at h
    | directory entries =>
      rw [find?] at h
      split at h
      next child hc =>
        rw [files]
        exact mem_filesIn hc (ih h)
      next => simp at h

end Entry

end HeaderReflection
