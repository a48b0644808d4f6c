import HeaderReflection.Proofs.FileTree.PathOrder
import HeaderReflection.Proofs.FileTree.WellFormed
import HeaderReflection.Sources

/-!
# The files below a directory

A directory is walked depth first, and the entries of each directory are sorted by their names
alone. That is the order of the paths of all files (`Sources.pairwise_filesAt`), because the files
of two entries have paths that part at the names of the entries. Every regular file is met once
(`Sources.ofDirectory_sorted`).
-/

namespace HeaderReflection

namespace Sources

/-! ## Walking a directory -/

theorem filesOf_eq_map (p : Path) (entries : List (String × Entry)) :
    filesOf p entries =
      entries.map fun entry => (entry.1, filesAt (p.join ⟨entry.1⟩) entry.2) := by
  induction entries with
  | nil => rfl
  | cons entry entries ih => rw [filesOf, ih, List.map_cons]

/-- The files of a directory are those of its entries. -/
theorem mem_filesAt_directory {p q : Path} {entries : List (String × Entry)} :
    q ∈ filesAt p (.directory entries) ↔
      ∃ entry ∈ entries, q ∈ filesAt (p.join ⟨entry.1⟩) entry.2 := by
  rw [filesAt, List.mem_flatMap]
  constructor
  · rintro ⟨found, hfound, hq⟩
    rw [List.mem_mergeSort, filesOf_eq_map] at hfound
    obtain ⟨entry, hentry, rfl⟩ := List.mem_map.1 hfound
    exact ⟨entry, hentry, hq⟩
  · rintro ⟨entry, hentry, hq⟩
    refine ⟨(entry.1, filesAt (p.join ⟨entry.1⟩) entry.2), ?_, hq⟩
    rw [List.mem_mergeSort, filesOf_eq_map]
    exact List.mem_map_of_mem hentry

/-- **The paths that a walk lists** go on from where it starts by the names that lead to a regular
file. -/
theorem mem_filesAt_iff {e : Entry} (h : e.WellFormed) {p q : Path} :
    q ∈ filesAt p e ↔ ∃ names bytes, e.find? names = some (.file bytes) ∧ q = p.goOn names := by
  induction e using Entry.induct generalizing p with
  | file bytes =>
    rw [filesAt, List.mem_singleton]
    constructor
    · rintro rfl
      exact ⟨[], bytes, rfl, rfl⟩
    · rintro ⟨names, found, hfound, rfl⟩
      cases names with
      | nil => rfl
      | cons name names => cases hfound
  | link target =>
    rw [filesAt]
    constructor
    · intro hq
      cases hq
    · rintro ⟨names, bytes, hfound, -⟩
      cases names <;> cases hfound
  | directory entries ih =>
    rw [mem_filesAt_directory]
    constructor
    · rintro ⟨entry, hentry, hq⟩
      obtain ⟨-, hlookup, hwell⟩ := h.entry hentry
      obtain ⟨names, bytes, hfound, rfl⟩ := (ih entry hentry hwell).1 hq
      refine ⟨entry.1 :: names, bytes, ?_, rfl⟩
      rw [Entry.find?_directory_cons, hlookup]
      exact hfound
    · rintro ⟨names, bytes, hfound, rfl⟩
      cases names with
      | nil => cases hfound
      | cons name names =>
        rw [Entry.find?_directory_cons] at hfound
        obtain ⟨child, hchild, hbelow⟩ := Option.bind_eq_some_iff.1 hfound
        have hentry := Entry.mem_of_lookup hchild
        obtain ⟨-, -, hwell⟩ := h.entry hentry
        exact ⟨(name, child), hentry, (ih _ hentry hwell).2 ⟨names, bytes, hbelow, rfl⟩⟩

/-- Sorting different names puts each before those that follow it. -/
theorem pairwise_sorted {α : Type} {found : List (String × α)}
    (h : (found.map Prod.fst).Nodup) :
    (found.mergeSort fun a b => Glob.nameLe a.1 b.1).Pairwise fun a b => a.1 < b.1 := by
  have hle : ∀ a b : String, Glob.nameLe a b = true ↔ a ≤ b := by
    intro a b
    rw [Glob.nameLe, Bool.not_eq_true', decide_eq_false_iff_not, String.not_lt]
  have htrans : ∀ a b c : String × α, Glob.nameLe a.1 b.1 = true → Glob.nameLe b.1 c.1 = true →
      Glob.nameLe a.1 c.1 = true := fun a b c hab hbc =>
    (hle _ _).2 (String.le_trans ((hle _ _).1 hab) ((hle _ _).1 hbc))
  have htotal : ∀ a b : String × α, (Glob.nameLe a.1 b.1 || Glob.nameLe b.1 a.1) = true := by
    intro a b
    rw [Bool.or_eq_true, hle, hle]
    exact String.le_total a.1 b.1
  have hsorted := List.pairwise_mergeSort htrans htotal found
  have hdistinct : ((found.mergeSort fun a b => Glob.nameLe a.1 b.1).map Prod.fst).Nodup :=
    ((List.mergeSort_perm _ _).map _).nodup_iff.2 h
  refine hsorted.imp₂ (fun a b hab hne => ?_) (List.pairwise_map.1 hdistinct)
  exact Classical.byContradiction fun hnot =>
    hne (String.le_antisymm ((hle _ _).1 hab) (String.not_lt.1 hnot))

/-- **A walk lists the paths in order.** -/
theorem pairwise_filesAt {e : Entry} (h : e.WellFormed) {p : Path} (hp : p.text ≠ "") :
    (filesAt p e).Pairwise Path.Precedes := by
  induction e using Entry.induct generalizing p with
  | file bytes => exact List.pairwise_singleton _ _
  | link target => exact .nil
  | directory entries ih =>
    rw [filesAt, List.pairwise_flatMap, filesOf_eq_map]
    constructor
    · intro found hfound
      obtain ⟨entry, hentry, rfl⟩ := List.mem_map.1 (List.mem_mergeSort.1 hfound)
      obtain ⟨hname, -, hwell⟩ := h.entry hentry
      exact ih entry hentry hwell (hname.text_join_ne hp)
    · have hdistinct : ((entries.map fun entry =>
          (entry.1, filesAt (p.join ⟨entry.1⟩) entry.2)).map Prod.fst).Nodup := by
        rw [List.map_map]
        exact h.distinct [] entries rfl
      refine (pairwise_sorted hdistinct).imp_of_mem fun ha hb hab x hx y hy => ?_
      obtain ⟨a, hentryA, rfl⟩ := List.mem_map.1 (List.mem_mergeSort.1 ha)
      obtain ⟨b, hentryB, rfl⟩ := List.mem_map.1 (List.mem_mergeSort.1 hb)
      obtain ⟨hnameA, -, hwellA⟩ := h.entry hentryA
      obtain ⟨hnameB, -, hwellB⟩ := h.entry hentryB
      obtain ⟨names, bytes, hfound, rfl⟩ := (mem_filesAt_iff hwellA).1 hx
      obtain ⟨others, bytes', hfound', rfl⟩ := (mem_filesAt_iff hwellB).1 hy
      refine Path.precedes_goOn hp ?_ ?_ hab
      · exact List.forall_mem_cons.2 ⟨hnameA, hwellA.isName_of_find? hfound⟩
      · exact List.forall_mem_cons.2 ⟨hnameB, hwellB.isName_of_find? hfound'⟩

/-- **The sources below a directory are its eligible regular files, in the order of their paths.**
Each is listed once, under the path that goes on from the directory by the names that lead down to
it, and this path leads to it. Nothing else is listed. -/
theorem ofDirectory_sorted {fs : FileSystem} {directory : Path} (hwell : fs.root.WellFormed)
    (hdirectory : fs.isDirectory directory = true) (settings : Settings) :
    ∃ place files, fs.locate? directory = some place ∧
      ofDirectory fs settings directory = .ok files ∧ files.Pairwise Path.Precedes ∧ files.Nodup ∧
      ∀ p, p ∈ files ↔ settings.isEligible p = true ∧ ∃ names bytes, names ≠ [] ∧
        fs.root.find? (place ++ names) = some (.file bytes) ∧
        p = directory.join (.ofPieces names) ∧ fs.locate? p = some (place ++ names) := by
  rw [FileSystem.isDirectory_eq_isSome_entries?] at hdirectory
  obtain ⟨entries, hlisted⟩ := Option.isSome_iff_exists.1 hdirectory
  obtain ⟨place, hplace, hentries⟩ := FileSystem.entries?_eq_some_iff.1 hlisted
  have htext := FileSystem.text_ne_of_locate? hplace
  have hbelow := hwell.below hentries
  have hsorted := (pairwise_filesAt hbelow htext).filter fun p => settings.isEligible p
  refine ⟨place, _, hplace, ?_, hsorted, hsorted.imp fun h => h.ne, fun p => ?_⟩
  · rw [ofDirectory, FileSystem.entry?, hplace, Option.bind_some, hentries]
  · rw [List.mem_filter, mem_filesAt_iff hbelow, and_comm]
    refine and_congr_right fun _ => ⟨?_, ?_⟩
    · rintro ⟨names, bytes, hfound, rfl⟩
      have hnames := hbelow.isName_of_find? hfound
      have hfile : fs.root.find? (place ++ names) = some (.file bytes) := by
        rw [Entry.find?_append, hentries]
        exact hfound
      -- a directory is no file, so there are names
      have hne : names ≠ [] := by
        rintro rfl
        cases hfound
      rw [Path.goOn_eq_join htext hne hnames]
      exact ⟨names, bytes, hne, hfile, rfl, FileSystem.locate?_join hplace hne hnames hfile⟩
    · rintro ⟨names, bytes, hne, hfile, rfl, -⟩
      rw [Entry.find?_append, hentries] at hfile
      have hnames := hbelow.isName_of_find? hfile
      exact ⟨names, bytes, hfile, (Path.goOn_eq_join htext hne hnames).symm⟩

/-- A directory `a` beside a file `a.h`, a file that is not read, and a link to where it stands. -/
def crowded : FileSystem where
  root := .directory [("src", .directory [
    ("z.cpp", .file "".toUTF8), ("a.h", .file "".toUTF8), ("again", .link "."),
    ("a", .directory [("x.h", .file "".toUTF8), ("notes", .file "".toUTF8)])])]
  start := []

theorem wellFormed_crowded : crowded.root.WellFormed := by
  refine Entry.wellFormed_directory (by decide) (by decide)
    (List.forall_mem_cons.2 ⟨?_, List.forall_mem_nil _⟩)
  refine Entry.wellFormed_directory (by decide) (by decide) ?_
  simp only [List.forall_mem_cons, Entry.wellFormed_file, Entry.wellFormed_link, true_and]
  refine ⟨Entry.wellFormed_directory (by decide) (by decide) ?_, List.forall_mem_nil _⟩
  simp only [List.forall_mem_cons, Entry.wellFormed_file, true_and]
  exact List.forall_mem_nil _

theorem ofDirectory_sorted_crowded :
    crowded.root.WellFormed ∧ crowded.isDirectory ⟨"src"⟩ = true ∧
    ∃ place files, crowded.locate? ⟨"src"⟩ = some place ∧
      ofDirectory crowded {} ⟨"src"⟩ = .ok files ∧ files.Pairwise Path.Precedes ∧ files.Nodup ∧
      ∀ p, p ∈ files ↔ ({} : Settings).isEligible p = true ∧ ∃ names bytes, names ≠ [] ∧
        crowded.root.find? (place ++ names) = some (.file bytes) ∧
        p = Path.join ⟨"src"⟩ (.ofPieces names) ∧ crowded.locate? p = some (place ++ names) := by
  have hdirectory : crowded.isDirectory ⟨"src"⟩ = true := by decide +kernel
  exact ⟨wellFormed_crowded, hdirectory, ofDirectory_sorted wellFormed_crowded hdirectory {}⟩

end Sources

end HeaderReflection
