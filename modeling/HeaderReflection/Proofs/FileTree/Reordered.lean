import HeaderReflection.Proofs.FileTree.WellFormed

/-!
# Trees that are listed in another order

A directory lists its entries in some order, and the same tree may be listed in another one
(`Entry.Reordered`). What stands at a place is the same (`Entry.Reordered.node?_eq`), so every path
leads to where it led (`FileSystem.Reordered.locate?_eq`), to a file with the same bytes or to a
directory with the same names.
-/

namespace HeaderReflection

namespace Entry

/-- The trees are the same but for the order in which each directory lists its entries. -/
inductive Reordered : Entry → Entry → Prop
  | file (bytes : ByteArray) : Reordered (.file bytes) (.file bytes)
  | link (target : String) : Reordered (.link target) (.link target)
  | directory {entries entries' : List (String × Entry)}
      (names : (entries.map Prod.fst).Perm (entries'.map Prod.fst))
      (below : ∀ name e e', (name, e) ∈ entries → (name, e') ∈ entries' → Reordered e e') :
      Reordered (.directory entries) (.directory entries')

variable {root root' : Entry}

/-- An entry of a well-formed directory is told by its name. -/
theorem WellFormed.eq_of_mem {entries : List (String × Entry)} (h : (directory entries).WellFormed)
    {name : String} {e e' : Entry} (he : (name, e) ∈ entries) (he' : (name, e') ∈ entries) :
    e = e' :=
  Option.some.inj ((h.entry he).2.1.symm.trans (h.entry he').2.1)

theorem Reordered.refl (hwell : root.WellFormed) : Reordered root root := by
  induction root using Entry.induct with
  | file bytes => exact .file bytes
  | link target => exact .link target
  | directory entries ih =>
    refine .directory (.refl _) fun name e e' he he' => ?_
    obtain rfl := hwell.eq_of_mem he he'
    exact ih (name, e) he (hwell.entry he).2.2

/-- The entries of a directory may be listed in every order. -/
theorem Reordered.of_perm {entries entries' : List (String × Entry)}
    (hwell : (Entry.directory entries).WellFormed) (h : entries.Perm entries') :
    Reordered (.directory entries) (.directory entries') := by
  refine .directory (h.map _) fun name e e' he he' => ?_
  obtain rfl := hwell.eq_of_mem he (h.mem_iff.2 he')
  exact .refl (hwell.entry he).2.2

theorem isSome_lookup_iff {entries : List (String × Entry)} {name : String} :
    (entries.lookup name).isSome = true ↔ name ∈ entries.map Prod.fst := by
  rw [List.lookup_isSome_iff, List.mem_map]
  exact exists_congr fun entry => and_congr_right fun _ => beq_iff_eq.trans eq_comm

/-- **What stands at a place does not hang on the order of the entries.** -/
theorem Reordered.node?_eq (h : Reordered root root') (hwell : root.WellFormed) (place : Place) :
    root'.node? place = root.node? place := by
  induction place generalizing root root' with
  | nil => cases h <;> rfl
  | cons name place ih =>
    cases h with
    | file bytes => rfl
    | link target => rfl
    | @directory entries entries' names below =>
      have hsame : (entries'.lookup name).isSome = (entries.lookup name).isSome := by
        rw [Bool.eq_iff_iff, isSome_lookup_iff, isSome_lookup_iff, names.mem_iff]
      rw [node?_directory_cons, node?_directory_cons]
      cases hfound : entries.lookup name with
      | none =>
        rw [hfound, Option.isSome_none, Option.isSome_eq_false_iff, Option.isNone_iff_eq_none]
          at hsame
        rw [hsame]
      | some e =>
        rw [hfound] at hsame
        obtain ⟨e', hfound'⟩ := Option.isSome_iff_exists.1 hsame
        have hentry := mem_of_lookup hfound
        rw [hfound']
        exact ih (below name e e' hentry (mem_of_lookup hfound')) (hwell.entry hentry).2.2

/-- A tree with the same at every place takes nothing away. -/
theorem extends_of_node?_eq (h : ∀ place, root'.node? place = root.node? place) :
    Extends root root' where
  directory place hplace := (h place).trans hplace
  link place _ hplace := (h place).trans hplace
  file place bytes hplace := ⟨bytes, (h place).trans hplace⟩

/-- A directory lists the names under which something stands in it. -/
theorem mem_names_iff {place : Place} {entries : List (String × Entry)} {name : String}
    (h : root.find? place = some (directory entries)) :
    name ∈ entries.map Prod.fst ↔ (root.node? (place ++ [name])).isSome = true := by
  have hfind : root.find? (place ++ [name]) = entries.lookup name := by
    rw [find?_append, h, Option.bind_some, find?_directory_cons]
    exact Option.bind_fun_some _
  rw [node?, hfind, Option.isSome_map, isSome_lookup_iff]

end Entry

namespace FileSystem

/-! ## Paths in reordered trees -/

/-- The file trees are the same but for the order in which directories list their entries. -/
structure Reordered (fs fs' : FileSystem) : Prop where
  root : Entry.Reordered fs.root fs'.root
  start : fs'.start = fs.start

variable {fs fs' : FileSystem} (h : fs.Reordered fs') (hwell : fs.root.WellFormed) (p : Path)

include h hwell

/-- **Every path leads to where it led,** in whichever order the directories list their entries. -/
theorem Reordered.locate?_eq : fs'.locate? p = fs.locate? p := by
  have hnodes := h.root.node?_eq hwell
  have hthere := Entry.extends_of_node?_eq hnodes
  have hback := Entry.extends_of_node?_eq fun place => (hnodes place).symm
  rw [locate?, locate?, startOf, startOf, h.start]
  split
  · rfl
  · refine Option.ext fun place => ⟨?_, ?_⟩
    · exact follow_extends hback
    · exact follow_extends hthere

theorem Reordered.bytes?_eq : fs'.bytes? p = fs.bytes? p := by
  refine Option.ext fun bytes => ?_
  simp only [bytes?_eq_some_iff, h.locate?_eq hwell, ← Entry.node?_eq_file_iff,
    h.root.node?_eq hwell]

theorem Reordered.text?_eq : fs'.text? p = fs.text? p := by
  rw [text?, text?, h.bytes?_eq hwell]

theorem Reordered.isFile_eq : fs'.isFile p = fs.isFile p := by
  rw [isFile_eq_isSome_bytes?, isFile_eq_isSome_bytes?, h.bytes?_eq hwell]

/-- **A directory lists the same names.** -/
theorem Reordered.entries?_eq :
    (fs.entries? p = none ∧ fs'.entries? p = none) ∨
      ∃ entries entries', fs.entries? p = some entries ∧ fs'.entries? p = some entries' ∧
        ∀ name, name ∈ entries'.map Prod.fst ↔ name ∈ entries.map Prod.fst := by
  have hnodes := h.root.node?_eq hwell
  have hplaces := h.locate?_eq hwell p
  cases hfound : fs.entries? p with
  | none =>
    refine .inl ⟨rfl, Option.eq_none_iff_forall_not_mem.2 fun entries' hentries' => ?_⟩
    obtain ⟨place, hplace, hfind⟩ := entries?_eq_some_iff.1 hentries'
    obtain ⟨entries, hentries⟩ := Entry.node?_eq_directory_iff.1
      ((hnodes place).symm.trans (Entry.node?_eq_directory_iff.2 ⟨entries', hfind⟩))
    rw [entries?_eq_some_iff.2 ⟨place, hplaces.symm.trans hplace, hentries⟩] at hfound
    cases hfound
  | some entries =>
    obtain ⟨place, hplace, hfind⟩ := entries?_eq_some_iff.1 hfound
    obtain ⟨entries', hfind'⟩ := Entry.node?_eq_directory_iff.1
      ((hnodes place).trans (Entry.node?_eq_directory_iff.2 ⟨entries, hfind⟩))
    refine .inr ⟨entries, entries', rfl,
      entries?_eq_some_iff.2 ⟨place, hplaces.trans hplace, hfind'⟩, fun name => ?_⟩
    rw [Entry.mem_names_iff hfind, Entry.mem_names_iff hfind', hnodes]

end FileSystem

end HeaderReflection
