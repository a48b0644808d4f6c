import HeaderReflection.FileTree.Change
import HeaderReflection.Proofs.FileTree.Below

/-!
# What stands at the places of a tree

A tree is told apart by what stands at each place: a file with its bytes, a link with its target, or
a directory. Something put at an open place, one in a directory and with nothing below it, changes
what stands at this place and at no other (`Entry.node?_put`, `Entry.node?_put_ne`). A path leads to
where it led as long as directories and links stay and files stay files
(`FileSystem.follow_extends`).
-/

namespace HeaderReflection

/-- What stands at one place, without what a directory holds. -/
inductive Node
  | file (bytes : ByteArray)
  | link (target : String)
  | directory

namespace Entry

/-- What an entry is in itself. -/
def node : Entry → Node
  | file bytes => .file bytes
  | link target => .link target
  | directory _ => .directory

/-- What stands at a place below an entry. -/
def node? (root : Entry) (place : Place) : Option Node := (root.find? place).map node

variable {root root' : Entry} {place : Place}

theorem node?_eq_none_iff : root.node? place = none ↔ root.find? place = none :=
  Option.map_eq_none_iff

theorem node?_eq_file_iff {bytes : ByteArray} :
    root.node? place = some (.file bytes) ↔ root.find? place = some (.file bytes) := by
  unfold node?
  cases root.find? place with
  | none => simp
  | some e => cases e <;> simp [node]

theorem node?_eq_link_iff {target : String} :
    root.node? place = some (.link target) ↔ root.find? place = some (.link target) := by
  unfold node?
  cases root.find? place with
  | none => simp
  | some e => cases e <;> simp [node]

theorem node?_eq_directory_iff :
    root.node? place = some .directory ↔
      ∃ entries, root.find? place = some (.directory entries) := by
  unfold node?
  cases root.find? place with
  | none => simp
  | some e => cases e <;> simp [node]

/-! ## Putting at an open place -/

/-- Nothing stands below the entry. -/
def IsLeaf (e : Entry) : Prop := ∀ name place, e.find? (name :: place) = none

theorem isLeaf_file (bytes : ByteArray) : (file bytes).IsLeaf := fun _ _ => rfl

theorem isLeaf_directory : (directory []).IsLeaf := fun _ _ => rfl

/-- The place is in a directory, and nothing stands below it. -/
structure IsOpen (root : Entry) (place : Place) : Prop where
  inDirectory : ∃ above name entries, place = above ++ [name] ∧
    root.find? above = some (directory entries)
  leaf : ∀ old, root.find? place = some old → old.IsLeaf

theorem lookup_setName_self (name : String) (e : Entry) (entries : List (String × Entry)) :
    (setName name e entries).lookup name = some e := by
  induction entries with
  | nil => simp [setName]
  | cons entry entries ih =>
    obtain ⟨n, old⟩ := entry
    by_cases hn : n = name
    · rw [setName, if_pos hn, List.lookup_cons, beq_self_eq_true]
    · have hne : (name == n) = false := beq_eq_false_iff_ne.2 (Ne.symm hn)
      rw [setName, if_neg hn, List.lookup_cons, hne]
      exact ih

theorem lookup_setName_ne {name other : String} (h : other ≠ name) (e : Entry)
    (entries : List (String × Entry)) :
    (setName name e entries).lookup other = entries.lookup other := by
  have hne : (other == name) = false := beq_eq_false_iff_ne.2 h
  induction entries with
  | nil =>
    rw [setName, List.lookup_cons, hne]
  | cons entry entries ih =>
    obtain ⟨n, old⟩ := entry
    by_cases hn : n = name
    · subst hn
      rw [setName, if_pos rfl, List.lookup_cons, List.lookup_cons, hne]
    · rw [setName, if_neg hn, List.lookup_cons, List.lookup_cons, ih]

/-- What is found below a name is found in the entry of that name. -/
theorem find?_directory_cons {name : String} {entries : List (String × Entry)} :
    (directory entries).find? (name :: place) =
      (entries.lookup name).bind fun e => e.find? place := by
  rw [find?]
  cases entries.lookup name <;> rfl

/-- Putting into a directory sets the entry of the name. -/
theorem put_singleton (name : String) (entries : List (String × Entry)) (new : Entry) :
    (directory entries).put [name] new = directory (setName name new entries) := by
  rw [put]
  split
  · rw [put]
  · rw [if_pos rfl]

theorem put_cons {name : String} {entries : List (String × Entry)} {child : Entry}
    (h : entries.lookup name = some child) (place : Place) (new : Entry) :
    (directory entries).put (name :: place) new =
      directory (setName name (child.put place new) entries) := by
  rw [put]
  split
  next found hfound =>
    rw [h] at hfound
    cases hfound
    rfl
  next hnone =>
    rw [h] at hnone
    cases hnone

/-- What was put is there. -/
theorem find?_put_self {above : Place} {name : String} {entries : List (String × Entry)}
    (h : root.find? above = some (directory entries)) (new : Entry) :
    (root.put (above ++ [name]) new).find? (above ++ [name]) = some new := by
  induction above generalizing root with
  | nil =>
    cases h
    rw [List.nil_append, put_singleton, find?_directory_cons, lookup_setName_self]
    rfl
  | cons first above ih =>
    cases root with
    | file bytes => cases h
    | link target => cases h
    | directory children =>
      rw [find?_directory_cons] at h
      obtain ⟨child, hchild, hbelow⟩ := Option.bind_eq_some_iff.1 h
      rw [List.cons_append, put_cons hchild, find?_directory_cons, lookup_setName_self]
      exact ih hbelow

theorem node?_directory_cons {name : String} {entries : List (String × Entry)} :
    (directory entries).node? (name :: place) =
      (entries.lookup name).bind fun e => e.node? place := by
  rw [node?, find?_directory_cons]
  cases entries.lookup name <;> rfl

/-- Whatever else there was is still there, and nothing else is. -/
theorem node?_put_of_ne {above other : Place} {name : String} {entries : List (String × Entry)}
    (h : root.find? above = some (directory entries))
    (hleaf : ∀ old, root.find? (above ++ [name]) = some old → old.IsLeaf) {new : Entry}
    (hnew : new.IsLeaf) (hother : other ≠ above ++ [name]) :
    (root.put (above ++ [name]) new).node? other = root.node? other := by
  induction above generalizing root other with
  | nil =>
    cases h
    rw [List.nil_append, put_singleton]
    cases other with
    | nil => rfl
    | cons n rest =>
      rw [node?_directory_cons, node?_directory_cons]
      by_cases hn : n = name
      · subst hn
        -- only the entry itself is new, and nothing stands below it before and after
        obtain ⟨m, rest, rfl⟩ : ∃ m more, rest = m :: more := by
          cases rest with
          | nil => exact absurd rfl hother
          | cons m more => exact ⟨m, more, rfl⟩
        rw [List.nil_append, find?_directory_cons] at hleaf
        rw [lookup_setName_self, Option.bind_some, node?, hnew]
        cases hlookup : entries.lookup n with
        | none => rfl
        | some old =>
          rw [hlookup] at hleaf
          rw [Option.bind_some, node?, hleaf old rfl]
      · rw [lookup_setName_ne hn]
  | cons first above ih =>
    cases root with
    | file bytes => cases h
    | link target => cases h
    | directory children =>
      rw [find?_directory_cons] at h
      obtain ⟨child, hchild, hbelow⟩ := Option.bind_eq_some_iff.1 h
      rw [List.cons_append, put_cons hchild]
      cases other with
      | nil => rfl
      | cons n rest =>
        rw [node?_directory_cons, node?_directory_cons]
        by_cases hn : n = first
        · subst hn
          rw [lookup_setName_self, hchild, Option.bind_some, Option.bind_some]
          rw [List.cons_append, find?_directory_cons, hchild] at hleaf
          exact ih hbelow hleaf fun hrest => hother (by rw [hrest]; rfl)
        · rw [lookup_setName_ne hn]

/-- **At an open place, what is put is there afterwards.** -/
theorem IsOpen.find?_put (h : root.IsOpen place) (new : Entry) :
    (root.put place new).find? place = some new := by
  obtain ⟨above, name, entries, rfl, habove⟩ := h.inDirectory
  exact find?_put_self habove new

/-- **Putting at an open place changes no other place.** -/
theorem IsOpen.node?_put (h : root.IsOpen place) {new : Entry} (hnew : new.IsLeaf) {other : Place}
    (hother : other ≠ place) : (root.put place new).node? other = root.node? other := by
  obtain ⟨above, name, entries, rfl, habove⟩ := h.inDirectory
  exact node?_put_of_ne habove h.leaf hnew hother

/-! ## Trees that have more -/

/-- Directories and links of one tree are in the other too, and so are its files, perhaps with other
bytes. -/
structure Extends (root root' : Entry) : Prop where
  directory : ∀ place, root.node? place = some .directory → root'.node? place = some .directory
  link : ∀ place target, root.node? place = some (.link target) →
    root'.node? place = some (.link target)
  file : ∀ place bytes, root.node? place = some (.file bytes) →
    ∃ bytes', root'.node? place = some (.file bytes')

theorem Extends.refl (root : Entry) : Extends root root where
  directory _ h := h
  link _ _ h := h
  file _ bytes h := ⟨bytes, h⟩

theorem Extends.trans {root'' : Entry} (h : Extends root root') (h' : Extends root' root'') :
    Extends root root'' where
  directory place hplace := h'.directory place (h.directory place hplace)
  link place target hplace := h'.link place target (h.link place target hplace)
  file place bytes hplace := by
    obtain ⟨bytes', hplace'⟩ := h.file place bytes hplace
    exact h'.file place bytes' hplace'

/-- A new entry, or a file in place of a file, takes nothing away. -/
theorem IsOpen.extends_put (h : root.IsOpen place) {new : Entry} (hnew : new.IsLeaf)
    (hold : root.node? place = none ∨
      (∃ old, root.node? place = some (.file old)) ∧ ∃ bytes, new = .file bytes) :
    Extends root (root.put place new) := by
  -- what is no file is elsewhere
  have hne : ∀ {other : Place} {n : Node}, root.node? other = some n → (∀ bytes, n ≠ .file bytes) →
      other ≠ place := by
    rintro other n hother hn rfl
    rcases hold with hnone | ⟨⟨old, hfile⟩, -⟩
    · rw [hnone] at hother
      cases hother
    · rw [hfile] at hother
      cases hother
      exact hn old rfl
  constructor
  · intro other hother
    rw [h.node?_put hnew (hne hother fun _ hfile => nomatch hfile)]
    exact hother
  · intro other target hother
    rw [h.node?_put hnew (hne hother fun _ hfile => nomatch hfile)]
    exact hother
  · intro other bytes hother
    by_cases hne : other = place
    · subst hne
      rcases hold with hnone | ⟨-, bytes', rfl⟩
      · rw [hnone] at hother; cases hother
      · exact ⟨bytes', node?_eq_file_iff.2 (h.find?_put _)⟩
    · exact ⟨bytes, by rw [h.node?_put hnew hne]; exact hother⟩

end Entry

/-! ## What a path leads to -/

namespace FileSystem

variable {fs : FileSystem} {p : Path}

theorem text_ne_of_locate? {place : Place} (h : fs.locate? p = some place) : p.text ≠ "" := by
  intro htext
  rw [locate?, if_pos htext] at h
  cases h

theorem bytes?_eq_some_iff {bytes : ByteArray} :
    fs.bytes? p = some bytes ↔
      ∃ place, fs.locate? p = some place ∧ fs.root.find? place = some (.file bytes) := by
  have hentry : fs.bytes? p = some bytes ↔ fs.entry? p = some (.file bytes) := by
    unfold bytes?
    cases fs.entry? p with
    | none => simp
    | some e => cases e <;> simp
  rw [hentry, FileSystem.entry?, Option.bind_eq_some_iff]

theorem entries?_eq_some_iff {entries : List (String × Entry)} :
    fs.entries? p = some entries ↔
      ∃ place, fs.locate? p = some place ∧ fs.root.find? place = some (.directory entries) := by
  have hentry : fs.entries? p = some entries ↔ fs.entry? p = some (.directory entries) := by
    unfold entries?
    cases fs.entry? p with
    | none => simp
    | some e => cases e <;> simp
  rw [hentry, FileSystem.entry?, Option.bind_eq_some_iff]

theorem isFile_eq_isSome_bytes? : fs.isFile p = (fs.bytes? p).isSome := by
  unfold isFile bytes?
  cases fs.entry? p with
  | none => rfl
  | some e => cases e <;> rfl

theorem isDirectory_eq_isSome_entries? : fs.isDirectory p = (fs.entries? p).isSome := by
  unfold isDirectory entries?
  cases fs.entry? p with
  | none => rfl
  | some e => cases e <;> rfl

end FileSystem

/-! ## Paths in trees that have more -/

namespace FileSystem

variable {root root' : Entry}

/-- A walk goes on in a tree that has more as it went before. -/
theorem walk_extends (h : Entry.Extends root root')
    {onLink onLink' : Place → List String → Option Place}
    (hlink : ∀ place steps r, onLink place steps = some r → onLink' place steps = some r)
    {place r : Place} {steps : List String} (hwalk : walk root onLink place steps = some r) :
    walk root' onLink' place steps = some r := by
  induction steps generalizing place with
  | nil =>
    cases hwalk
    rfl
  | cons step steps ih =>
    rw [walk] at hwalk ⊢
    split at hwalk
    next entries hplace =>
      obtain ⟨entries', hplace'⟩ := Entry.node?_eq_directory_iff.1
        (h.directory place (Entry.node?_eq_directory_iff.2 ⟨entries, hplace⟩))
      rw [hplace']
      dsimp only
      by_cases hidle : Path.isIdle step = true
      · rw [if_pos hidle] at hwalk ⊢
        exact ih hwalk
      rw [if_neg hidle] at hwalk ⊢
      by_cases hup : step = ".."
      · rw [if_pos hup] at hwalk ⊢
        exact ih hwalk
      rw [if_neg hup] at hwalk ⊢
      cases hnext : root.find? (place ++ [step]) with
      | none =>
        rw [hnext] at hwalk
        cases hwalk
      | some e =>
        rw [hnext] at hwalk
        cases e with
        | link target =>
          have hsame := h.link _ _ (Entry.node?_eq_link_iff.2 hnext)
          rw [Entry.node?_eq_link_iff.1 hsame]
          exact hlink _ _ _ hwalk
        | directory children =>
          obtain ⟨children', hsame⟩ := Entry.node?_eq_directory_iff.1
            (h.directory _ (Entry.node?_eq_directory_iff.2 ⟨children, hnext⟩))
          rw [hsame]
          exact ih hwalk
        | file bytes =>
          obtain ⟨bytes', hsame⟩ := h.file _ _ (Entry.node?_eq_file_iff.2 hnext)
          rw [Entry.node?_eq_file_iff.1 hsame]
          exact ih hwalk
    next => cases hwalk

/-- **A path leads to where it led** in a tree that has more. -/
theorem follow_extends (h : Entry.Extends root root') {links : Nat} {place r : Place}
    {steps : List String} (hfollow : follow root links place steps = some r) :
    follow root' links place steps = some r := by
  induction links generalizing place steps r with
  | zero =>
    rw [follow] at hfollow ⊢
    refine walk_extends h (fun _ _ _ hnone => ?_) hfollow
    cases hnone
  | succ links ih =>
    rw [follow] at hfollow ⊢
    exact walk_extends h (fun _ _ _ hlink => ih hlink) hfollow

end FileSystem

end HeaderReflection
