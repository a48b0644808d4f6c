import HeaderReflection.Proofs.FileTree.Nodes

/-!
# Well-formed file trees

In a file tree each entry of a directory has a name of its own, and no name has a slash in it. So
the list of names that leads to an entry is told by the entry (`Entry.WellFormed.entry`), and what
holds of all entries of a well-formed tree is shown from the leaves up (`Entry.induct`).
-/

namespace HeaderReflection

instance (name : String) : Decidable (Path.IsName name) :=
  decidable_of_iff ('/' ∉ name.toList ∧ Path.isIdle name = false ∧ name ≠ "..")
    ⟨fun ⟨noSlash, busy, ne_up⟩ => ⟨noSlash, busy, ne_up⟩,
      fun h => ⟨h.noSlash, h.busy, h.ne_up⟩⟩

namespace Entry

/-- The entries of every directory have names, and no two of them the same. -/
structure WellFormed (root : Entry) : Prop where
  names : ∀ place entries, root.find? place = some (directory entries) →
    ∀ entry ∈ entries, Path.IsName entry.1
  distinct : ∀ place entries, root.find? place = some (directory entries) →
    (entries.map Prod.fst).Nodup

/-- What holds of files and links, and of a directory when it holds of its entries, holds of every
entry. -/
theorem induct {motive : Entry → Prop} (file : ∀ bytes, motive (.file bytes))
    (link : ∀ target, motive (.link target))
    (directory : ∀ entries, (∀ entry ∈ entries, motive entry.2) → motive (.directory entries))
    (e : Entry) : motive e :=
  @Entry.rec motive (fun entries => ∀ entry ∈ entries, motive entry.2) (fun entry => motive entry.2)
    file link directory (fun _ h => nomatch h)
    (fun _ _ hentry hentries other hother =>
      (List.mem_cons.1 hother).elim (fun hsame => hsame ▸ hentry) (hentries other))
    (fun _ _ h => h) e

theorem mem_of_lookup {name : String} {entries : List (String × Entry)} {e : Entry}
    (h : entries.lookup name = some e) : (name, e) ∈ entries := by
  obtain ⟨before, after, rfl, -⟩ := List.lookup_eq_some_iff.1 h
  exact List.mem_append_right _ List.mem_cons_self

theorem lookup_of_mem {name : String} {entries : List (String × Entry)} {e : Entry}
    (hdistinct : (entries.map Prod.fst).Nodup) (h : (name, e) ∈ entries) :
    entries.lookup name = some e := by
  obtain ⟨before, after, rfl⟩ := List.append_of_mem h
  rw [List.map_append, List.nodup_append] at hdistinct
  refine List.lookup_eq_some_iff.2 ⟨before, after, rfl, fun entry hentry => ?_⟩
  have hne := hdistinct.2.2 entry.1 (List.mem_map_of_mem hentry) name List.mem_cons_self
  simpa using Ne.symm hne

theorem WellFormed.entry {entries : List (String × Entry)} (h : (directory entries).WellFormed)
    {entry : String × Entry} (hentry : entry ∈ entries) :
    Path.IsName entry.1 ∧ entries.lookup entry.1 = some entry.2 ∧ entry.2.WellFormed := by
  have hlookup := lookup_of_mem (h.distinct [] entries rfl) hentry
  have hbelow : ∀ place, (directory entries).find? (entry.1 :: place) = entry.2.find? place := by
    intro place
    rw [find?_directory_cons, hlookup, Option.bind_some]
  exact ⟨h.names [] entries rfl entry hentry, hlookup,
    fun place children hfound => h.names (entry.1 :: place) children (hbelow place ▸ hfound),
    fun place children hfound => h.distinct (entry.1 :: place) children (hbelow place ▸ hfound)⟩

theorem wellFormed_file (bytes : ByteArray) : (file bytes).WellFormed where
  names place entries h := by cases place <;> cases h
  distinct place entries h := by cases place <;> cases h

theorem wellFormed_link (target : String) : (link target).WellFormed where
  names place entries h := by cases place <;> cases h
  distinct place entries h := by cases place <;> cases h

/-- A directory is well-formed when its names are and its entries are. -/
theorem wellFormed_directory {entries : List (String × Entry)}
    (hdistinct : (entries.map Prod.fst).Nodup) (hnames : ∀ entry ∈ entries, Path.IsName entry.1)
    (hentries : ∀ entry ∈ entries, entry.2.WellFormed) : (directory entries).WellFormed where
  names place children h := by
    cases place with
    | nil =>
      cases h
      exact hnames
    | cons name place =>
      rw [find?_directory_cons] at h
      obtain ⟨child, hchild, hbelow⟩ := Option.bind_eq_some_iff.1 h
      exact (hentries _ (mem_of_lookup hchild)).names place children hbelow
  distinct place children h := by
    cases place with
    | nil =>
      cases h
      exact hdistinct
    | cons name place =>
      rw [find?_directory_cons] at h
      obtain ⟨child, hchild, hbelow⟩ := Option.bind_eq_some_iff.1 h
      exact (hentries _ (mem_of_lookup hchild)).distinct place children hbelow

theorem WellFormed.below {root e : Entry} {place : Place} (h : root.WellFormed)
    (hfound : root.find? place = some e) : e.WellFormed where
  names below entries hbelow := h.names (place ++ below) entries (by
    rw [find?_append, hfound]
    exact hbelow)
  distinct below entries hbelow := h.distinct (place ++ below) entries (by
    rw [find?_append, hfound]
    exact hbelow)

/-- What is found is found by names. -/
theorem WellFormed.isName_of_find? {root e : Entry} {place : Place} (h : root.WellFormed)
    (hfound : root.find? place = some e) : ∀ name ∈ place, Path.IsName name := by
  induction place generalizing root with
  | nil => exact fun name hname => nomatch hname
  | cons first place ih =>
    cases root with
    | file bytes => cases hfound
    | link target => cases hfound
    | directory entries =>
      rw [find?_directory_cons] at hfound
      obtain ⟨child, hchild, hbelow⟩ := Option.bind_eq_some_iff.1 hfound
      obtain ⟨hname, -, hwell⟩ := h.entry (mem_of_lookup hchild)
      intro name hmem
      rcases List.mem_cons.1 hmem with rfl | hmem
      · exact hname
      · exact ih hwell hbelow name hmem

end Entry

end HeaderReflection
