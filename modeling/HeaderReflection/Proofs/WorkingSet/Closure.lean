import HeaderReflection.Proofs.FileTree.Spellings
import HeaderReflection.WorkingSet.Scan

/-!
# What belongs to a working set

The files that a scan should find, told without the scan: the headers among the sources, the files
that the sources include and, if includes are followed, what those files include in turn. Whether
one file includes another depends on its text alone, so it does not matter under which of its paths
a file is met (`Scanner.Includes.of_identity_eq`).
-/

namespace HeaderReflection

namespace Scanner

/-! ## Includes -/

/-- The first include directory that has the target has it at the path. -/
def Resolves (s : Scanner) (target : String) (p : Path) : Prop :=
  ∃ before d after, s.directories = before ++ d :: after ∧ d.join ⟨target⟩ = p ∧
    s.fs.isFile p = true ∧ ∀ e ∈ before, s.fs.isFile (e.join ⟨target⟩) = false

/-- The text of the first file has an include that leads to the second one, which is read. -/
def Includes (s : Scanner) (q p : Path) : Prop :=
  ∃ text target, s.fs.text? q = some text ∧ target ∈ Include.allOfString text ∧
    s.Resolves target p ∧ s.settings.isEligible p = true

/-- The search for an include finds the file that the include leads to. -/
theorem resolve?_eq_some_iff {s : Scanner} {target : String} {p : Path} :
    Include.resolve? s.fs s.directories target = some p ↔ s.Resolves target p := by
  unfold Include.resolve? Resolves
  rw [List.find?_eq_some_iff_append]
  constructor
  · rintro ⟨hfile, before, after, hsplit, hbefore⟩
    obtain ⟨b, rest, hdirectories, hb, hrest⟩ := List.map_eq_append_iff.1 hsplit
    obtain ⟨d, a, hd, hp, -⟩ := List.map_eq_cons_iff.1 hrest
    refine ⟨b, d, a, by rw [hdirectories, hd], hp, hfile, ?_⟩
    intro e he
    have := hbefore (e.join ⟨target⟩) (by rw [← hb]; exact List.mem_map_of_mem he)
    simpa using this
  · rintro ⟨before, d, after, hdirectories, hp, hfile, hbefore⟩
    refine ⟨hfile, before.map fun d => d.join ⟨target⟩, after.map fun d => d.join ⟨target⟩, ?_, ?_⟩
    · rw [hdirectories, List.map_append, List.map_cons, hp]
    · intro q hq
      obtain ⟨e, he, rfl⟩ := List.mem_map.1 hq
      simpa using hbefore e he

theorem Resolves.isFile {s : Scanner} {target : String} {p : Path} (h : s.Resolves target p) :
    s.fs.isFile p = true := by
  obtain ⟨-, -, -, -, -, hfile, -⟩ := h
  exact hfile

/-- A target leads to one file at most. -/
theorem Resolves.unique {s : Scanner} {target : String} {p q : Path} (hp : s.Resolves target p)
    (hq : s.Resolves target q) : p = q := by
  have h := resolve?_eq_some_iff.2 hp
  rw [resolve?_eq_some_iff.2 hq] at h
  exact (Option.some.inj h).symm

/-- A file includes the same files under each of its paths. -/
theorem Includes.of_identity_eq {s : Scanner} {q q' p : Path} (h : s.Includes q p)
    (hfile : s.fs.isFile q' = true) (hsame : s.fs.identity q' = s.fs.identity q) :
    s.Includes q' p := by
  obtain ⟨text, target, htext, hrest⟩ := h
  refine ⟨text, target, ?_, hrest⟩
  rw [FileSystem.text?_eq_of_identity_eq hfile (FileSystem.isFile_of_text? htext) hsame]
  exact htext

/-! ## The closure of the sources -/

/-- One of the sources that is read and that is there. -/
structure IsSource (s : Scanner) (sources : List Path) (p : Path) : Prop where
  mem : p ∈ sources
  eligible : s.settings.isEligible p = true
  isFile : s.fs.isFile p = true

/-- The files that a run from some sources is about. -/
inductive Closure (s : Scanner) (sources : List Path) : Path → Prop
  | header {p : Path} (hp : s.IsSource sources p) (hheader : isHeader p = true) :
      Closure s sources p
  | included {q p : Path} (hq : s.IsSource sources q) (h : s.Includes q p) : Closure s sources p
  | followed {q p : Path} (hfollow : s.settings.followIncludes = true)
      (hq : Closure s sources q) (h : s.Includes q p) : Closure s sources p

/-- The files whose includes are looked for. -/
def Reads (s : Scanner) (sources : List Path) (p : Path) : Prop :=
  s.IsSource sources p ∨ s.settings.followIncludes = true ∧ s.Closure sources p

theorem Includes.isFile {s : Scanner} {q p : Path} (h : s.Includes q p) :
    s.fs.isFile p = true := by
  obtain ⟨text, target, -, -, hresolves, -⟩ := h
  exact hresolves.isFile

theorem Closure.isFile {s : Scanner} {sources : List Path} {p : Path}
    (h : s.Closure sources p) : s.fs.isFile p = true := by
  cases h with
  | header hp _ => exact hp.isFile
  | included _ h => exact h.isFile
  | followed _ _ h => exact h.isFile

theorem Reads.isFile {s : Scanner} {sources : List Path} {p : Path} (h : s.Reads sources p) :
    s.fs.isFile p = true := by
  rcases h with h | ⟨-, h⟩
  · exact h.isFile
  · exact h.isFile

/-- What a file whose includes are looked for includes is in the closure. -/
theorem Reads.closure {s : Scanner} {sources : List Path} {q p : Path} (h : s.Reads sources q)
    (hp : s.Includes q p) : s.Closure sources p := by
  rcases h with h | ⟨hfollow, h⟩
  · exact .included h hp
  · exact .followed hfollow h hp

theorem Closure.mono {s : Scanner} {sources sources' : List Path}
    (hsub : ∀ p ∈ sources, p ∈ sources') {p : Path} (h : s.Closure sources p) :
    s.Closure sources' p := by
  have hsource : ∀ {q}, s.IsSource sources q → s.IsSource sources' q := by
    intro q hq
    exact ⟨hsub q hq.mem, hq.eligible, hq.isFile⟩
  induction h with
  | header hp hheader => exact .header (hsource hp) hheader
  | included hq h => exact .included (hsource hq) h
  | followed hfollow _ h ih => exact .followed hfollow ih h

theorem Reads.mono {s : Scanner} {sources sources' : List Path}
    (hsub : ∀ p ∈ sources, p ∈ sources') {p : Path} (h : s.Reads sources p) :
    s.Reads sources' p := by
  rcases h with h | ⟨hfollow, h⟩
  · exact .inl ⟨hsub p h.mem, h.eligible, h.isFile⟩
  · exact .inr ⟨hfollow, h.mono hsub⟩

/-- The first source is taken, and then the others unless that has failed. -/
theorem scanSources_cons (s : Scanner) (source : Path) (todo : List Path) (scan : Scan) :
    s.scanSources (source :: todo) scan =
      match s.scanSource source scan with
      | .error e next => .error e next
      | .ok _ next => s.scanSources todo next := by
  refine (scanSources.eq_def s (source :: todo) scan).trans ?_
  cases htake : s.scanSource source scan with
  | ok u next => simp only [htake]
  | error e next => simp only [htake]

end Scanner

/-! ## The canonical paths of a set -/

namespace WorkingSet

/-- The canonical paths of the files. -/
def identities (fs : FileSystem) (set : WorkingSet) : List (List Path.Component) :=
  set.paths.map fs.identity

/-- The second set has all the files of the first one. -/
def Grows (fs : FileSystem) (set next : WorkingSet) : Prop :=
  ∀ i ∈ set.identities fs, i ∈ next.identities fs

theorem Grows.refl (fs : FileSystem) (set : WorkingSet) : set.Grows fs set := fun _ hi => hi

theorem Grows.trans {fs : FileSystem} {set mid next : WorkingSet} (h₁ : set.Grows fs mid)
    (h₂ : mid.Grows fs next) : set.Grows fs next := fun i hi => h₂ i (h₁ i hi)

/-- The set has each file once, and knows which files it has. -/
structure Keyed (fs : FileSystem) (set : WorkingSet) : Prop where
  seen : ∀ i, i ∈ set.seen ↔ i ∈ set.identities fs
  nodup : (set.identities fs).Nodup

theorem keyed_empty (fs : FileSystem) : Keyed fs {} := by
  refine ⟨fun i => ?_, List.nodup_nil⟩
  simp [identities, paths]

theorem paths_insert (fs : FileSystem) (p : Path) (target : String) (set : WorkingSet) :
    (set.insert fs p target).1.paths =
      set.paths ++ if (set.insert fs p target).2 then [p] else [] := by
  unfold insert
  split
  · exact (List.append_nil _).symm
  · simp [paths]

theorem identities_insert (fs : FileSystem) (p : Path) (target : String) (set : WorkingSet) :
    (set.insert fs p target).1.identities fs =
      set.identities fs ++ if (set.insert fs p target).2 then [fs.identity p] else [] := by
  rw [identities, paths_insert, List.map_append]
  split <;> rfl

theorem grows_insert (fs : FileSystem) (p : Path) (target : String) (set : WorkingSet) :
    set.Grows fs (set.insert fs p target).1 := by
  intro i hi
  rw [identities_insert]
  exact List.mem_append_left _ hi

/-- Adding a file to a set that knows its files gives such a set, with the file in it. -/
theorem Keyed.insert {fs : FileSystem} {set : WorkingSet} (h : set.Keyed fs) (p : Path)
    (target : String) :
    (set.insert fs p target).1.Keyed fs ∧
      fs.identity p ∈ (set.insert fs p target).1.identities fs := by
  have hidentities := identities_insert fs p target set
  unfold WorkingSet.insert at hidentities ⊢
  by_cases hseen : fs.identity p ∈ set.seen
  · rw [if_pos (by simpa using hseen)]
    exact ⟨h, (h.seen _).1 hseen⟩
  · rw [if_neg (by simpa using hseen)] at hidentities ⊢
    simp only [if_true] at hidentities
    refine ⟨⟨fun i => ?_, ?_⟩, ?_⟩
    · rw [hidentities, List.mem_append, List.mem_singleton, List.mem_cons, h.seen]
      exact Or.comm
    · rw [hidentities, List.nodup_append]
      refine ⟨h.nodup, List.pairwise_singleton _ _, ?_⟩
      intro i hi j hj hij
      rw [hij, List.mem_singleton.1 hj] at hi
      exact hseen ((h.seen _).2 hi)
    · rw [hidentities]
      exact List.mem_append_right _ List.mem_cons_self

end WorkingSet

end HeaderReflection
