import HeaderReflection.FileCache

/-!
# Spellings of a path

One file has many paths. Paths with the same components may still behave differently, because every
idle step needs a directory to start from: `a.h/` leads nowhere when `a.h` is a file. But when both
lead somewhere they lead to the same place (`FileSystem.locate?_unique`). So a cache that knows
paths by their components never mixes up two files.
-/

namespace HeaderReflection

/-! ## Steps without idle ones -/

namespace Path

/-- The second list of steps is the first one without some of its idle steps. -/
inductive Thinner : List String → List String → Prop
  | nil : Thinner [] []
  | keep (step : String) {steps thin : List String} (h : Thinner steps thin) :
      Thinner (step :: steps) (step :: thin)
  | drop {step : String} {steps thin : List String} (hidle : isIdle step = true)
      (h : Thinner steps thin) : Thinner (step :: steps) thin

theorem Thinner.refl (steps : List String) : Thinner steps steps := by
  induction steps with
  | nil => exact .nil
  | cons step steps ih => exact .keep step ih

theorem Thinner.append_left (before : List String) {steps thin : List String}
    (h : Thinner steps thin) : Thinner (before ++ steps) (before ++ thin) := by
  induction before with
  | nil => exact h
  | cons step before ih => exact .keep step ih

/-- The steps that lead anywhere. -/
def busySteps (steps : List String) : List String := steps.filter fun step => !isIdle step

theorem thinner_busySteps (steps : List String) : Thinner steps (busySteps steps) := by
  induction steps with
  | nil => exact .nil
  | cons step steps ih =>
    by_cases h : isIdle step = true
    · rw [busySteps, List.filter_cons_of_neg (by simp [h])]
      exact .drop h ih
    · rw [busySteps, List.filter_cons_of_pos (by simp [h])]
      exact .keep step ih

/-- The text between slashes that a component stands for. -/
def Component.piece : Component → String
  | root => ""
  | here => "."
  | up => ".."
  | name text => text

theorem map_piece_filterMap (pieces : List String) :
    (pieces.filterMap component?).map Component.piece = busySteps pieces := by
  induction pieces with
  | nil => rfl
  | cons piece pieces ih =>
    by_cases hidle : isIdle piece = true
    · rw [busySteps, List.filter_cons_of_neg (by simp [hidle]),
        List.filterMap_cons_none (by simp [component?, hidle])]
      exact ih
    · have hpiece : ∃ c, component? piece = some c ∧ c.piece = piece := by
        by_cases hup : piece = ".."
        · exact ⟨.up, by simp [component?, hup, isIdle], hup.symm⟩
        · exact ⟨.name piece, by simp [component?, hidle, hup], rfl⟩
      obtain ⟨c, hc, hcp⟩ := hpiece
      rw [busySteps, List.filter_cons_of_pos (by simp [hidle]), List.filterMap_cons_some hc,
        List.map_cons, hcp, ih]
      rfl

/-- The components of a path hold its steps that lead anywhere. -/
theorem busySteps_components (p : Path) :
    busySteps (p.components.map Component.piece) = busySteps p.pieces := by
  have htwice : busySteps (busySteps p.pieces) = busySteps p.pieces := by
    simp [busySteps, List.filter_filter]
  unfold components
  split
  · rw [List.map_cons, map_piece_filterMap, busySteps, List.filter_cons_of_neg (by decide)]
    exact htwice
  · split
    · rw [List.map_cons, map_piece_filterMap, busySteps, List.filter_cons_of_neg (by decide)]
      exact htwice
    · rw [map_piece_filterMap]
      exact htwice

/-- The components of a path tell whether it starts at the root. -/
theorem root_mem_components {p : Path} : Component.root ∈ p.components ↔ p.isAbsolute = true := by
  have hrelative : Component.root ∉ p.pieces.filterMap component? := by
    intro h
    obtain ⟨piece, -, hpiece⟩ := List.mem_filterMap.1 h
    unfold component? at hpiece
    split at hpiece
    · cases hpiece
    · split at hpiece <;> cases hpiece
  unfold components
  split
  next habsolute => exact ⟨fun _ => habsolute, fun _ => List.mem_cons_self⟩
  next habsolute =>
    split
    · refine ⟨fun h => ?_, fun h => absurd h habsolute⟩
      rcases List.mem_cons.1 h with h | h
      · cases h
      · exact absurd h hrelative
    · exact ⟨fun h => absurd h hrelative, fun h => absurd h habsolute⟩

end Path

/-! ## Following a path -/

namespace FileSystem

/-- Fewer idle steps lead to the same place, when the longer way leads anywhere. -/
theorem walk_thinner {root : Entry} {onLink onLink' : Place → List String → Option Place}
    (hlink : ∀ (place : Place) (steps thin : List String) (r : Place), Path.Thinner steps thin →
      onLink place steps = some r → onLink' place thin = some r)
    {steps thin : List String} (hthin : Path.Thinner steps thin) {place r : Place}
    (h : walk root onLink place steps = some r) : walk root onLink' place thin = some r := by
  induction hthin generalizing place with
  | nil => exact h
  | drop hidle _ ih =>
    rw [walk] at h
    split at h
    · rw [if_pos hidle] at h
      exact ih h
    · cases h
  | @keep step steps thin hsteps ih =>
    rw [walk] at h ⊢
    split at h
    · by_cases hidle : Path.isIdle step = true
      · rw [if_pos hidle] at h ⊢
        exact ih h
      rw [if_neg hidle] at h ⊢
      by_cases hup : step = ".."
      · rw [if_pos hup] at h ⊢
        exact ih h
      rw [if_neg hup] at h ⊢
      split at h
      · exact hlink _ _ _ _ (hsteps.append_left _) h
      · exact ih h
      · cases h
    · cases h

theorem follow_thinner {root : Entry} {links : Nat} {steps thin : List String}
    (hthin : Path.Thinner steps thin) {place r : Place}
    (h : follow root links place steps = some r) : follow root links place thin = some r := by
  induction links generalizing place r steps thin with
  | zero =>
    rw [follow] at h ⊢
    refine walk_thinner (fun _ _ _ _ _ hnone => ?_) hthin h
    cases hnone
  | succ links ih =>
    rw [follow] at h ⊢
    refine walk_thinner (fun _ _ _ _ hsteps hfollow => ?_) hthin h
    exact ih hsteps hfollow

/-- **Two spellings of one path lead to one place**, if both lead anywhere. -/
theorem locate?_unique {fs : FileSystem} {p q : Path} {a b : Place}
    (h : p.components = q.components) (hp : fs.locate? p = some a) (hq : fs.locate? q = some b) :
    a = b := by
  have hbusy : Path.busySteps p.pieces = Path.busySteps q.pieces := by
    rw [← Path.busySteps_components, ← Path.busySteps_components, h]
  have hstart : fs.startOf p = fs.startOf q := by
    have habsolute : p.isAbsolute = q.isAbsolute := by
      rw [Bool.eq_iff_iff, ← Path.root_mem_components, ← Path.root_mem_components, h]
    rw [startOf, startOf, habsolute]
  unfold locate? at hp hq
  split at hp
  · cases hp
  split at hq
  · cases hq
  have ha := follow_thinner (Path.thinner_busySteps _) hp
  have hb := follow_thinner (Path.thinner_busySteps _) hq
  rw [hbusy, hstart, hb] at ha
  exact (Option.some.inj ha).symm

/-! ## Files under several paths -/

/-- A regular file is somewhere, and what is there is a file. -/
theorem exists_bytes_of_isFile {fs : FileSystem} {p : Path} (h : fs.isFile p = true) :
    ∃ place bytes, fs.locate? p = some place ∧ fs.root.find? place = some (.file bytes) := by
  unfold isFile entry? at h
  cases hp : fs.locate? p with
  | none => simp [hp] at h
  | some place =>
    simp only [hp, Option.bind_some] at h
    cases he : fs.root.find? place with
    | none => simp [he] at h
    | some e =>
      cases e with
      | file bytes => exact ⟨place, bytes, rfl, he⟩
      | link target => simp [he, Entry.isFile] at h
      | directory entries => simp [he, Entry.isFile] at h

theorem isFile_of_text? {fs : FileSystem} {p : Path} {text : String}
    (h : fs.text? p = some text) : fs.isFile p = true := by
  unfold text? bytes? at h
  unfold isFile
  split at h
  next bytes hbytes => simp [hbytes, Entry.isFile]
  next => simp at h

theorem text?_congr {fs : FileSystem} {p q : Path} (h : fs.locate? p = fs.locate? q) :
    fs.text? p = fs.text? q := by
  simp only [text?, bytes?, entry?, h]

/-- Files with the same canonical path have the same text. -/
theorem text?_eq_of_identity_eq {fs : FileSystem} {p q : Path} (hp : fs.isFile p = true)
    (hq : fs.isFile q = true) (h : fs.identity p = fs.identity q) : fs.text? p = fs.text? q := by
  obtain ⟨a, -, ha, -⟩ := exists_bytes_of_isFile hp
  obtain ⟨b, -, hb, -⟩ := exists_bytes_of_isFile hq
  simp only [identity, ha, hb, Path.placeComponents, List.cons.injEq, true_and] at h
  have hab : a = b := by
    refine (List.map_inj_right ?_).1 h
    intro x y hxy
    cases hxy
    rfl
  exact text?_congr (by rw [ha, hb, hab])

/-- Files with the same components have the same text. -/
theorem text?_eq_of_components_eq {fs : FileSystem} {p q : Path} (hp : fs.isFile p = true)
    (hq : fs.isFile q = true) (h : p.components = q.components) : fs.text? p = fs.text? q := by
  obtain ⟨a, -, ha, -⟩ := exists_bytes_of_isFile hp
  obtain ⟨b, -, hb, -⟩ := exists_bytes_of_isFile hq
  exact text?_congr (by rw [ha, hb, locate?_unique h ha hb])

/-- Whether every regular file of the tree holds a text. -/
def isReadable (fs : FileSystem) : Bool :=
  fs.root.files.all fun place =>
    match fs.root.find? place with
    | some (.file bytes) => (String.fromUTF8? bytes).isSome
    | _ => true

theorem text_of_isFile {fs : FileSystem} (hreadable : fs.isReadable = true) {p : Path}
    (h : fs.isFile p = true) : ∃ text, fs.text? p = some text := by
  obtain ⟨place, bytes, hplace, hbytes⟩ := exists_bytes_of_isFile h
  have hsome := List.all_eq_true.1 hreadable place (Entry.mem_files_of_find? hbytes)
  simp only [hbytes] at hsome
  obtain ⟨text, htext⟩ := Option.isSome_iff_exists.1 hsome
  refine ⟨text, ?_⟩
  simp only [text?, bytes?, entry?, hplace, Option.bind_some, hbytes, htext]

end FileSystem

/-! ## Caches that agree with the files -/

namespace FileCache

/-- Whatever the cache holds for the path of a regular file is the text of that file. -/
def Agrees (fs : FileSystem) (cache : FileCache) : Prop :=
  ∀ p text, fs.isFile p = true → cache.get? p = some text → fs.text? p = some text

theorem agrees_empty (fs : FileSystem) : Agrees fs {} := by
  intro p text _ h
  cases h

/-- Reading a file through a cache that agrees gives its text, and the cache still agrees. -/
theorem read?_of_agrees {fs : FileSystem} {cache : FileCache} {p : Path} {text : String}
    (hcache : Agrees fs cache) (htext : fs.text? p = some text) :
    ∃ cache', cache.read? fs p = some (text, cache') ∧ Agrees fs cache' := by
  have hfile := FileSystem.isFile_of_text? htext
  unfold read?
  cases hget : cache.get? p with
  | some held =>
    have hheld := hcache p held hfile hget
    rw [htext] at hheld
    cases hheld
    exact ⟨cache, rfl, hcache⟩
  | none =>
    refine ⟨⟨(p.components, text) :: cache.entries⟩, by simp [htext], ?_⟩
    intro q found hq hfound
    rw [get?, List.lookup_cons] at hfound
    by_cases hsame : q.components = p.components
    · simp only [hsame, beq_self_eq_true, Option.some.injEq] at hfound
      rw [FileSystem.text?_eq_of_components_eq hq hfile hsame, htext, hfound]
    · simp only [beq_eq_false_iff_ne.2 hsame] at hfound
      exact hcache q found hq hfound

/-- What is read of a file through a cache that agrees is its text. -/
theorem text?_of_read? {fs : FileSystem} {cache cache' : FileCache} {p : Path} {text : String}
    (hcache : Agrees fs cache) (hfile : fs.isFile p = true)
    (h : cache.read? fs p = some (text, cache')) : fs.text? p = some text ∧ Agrees fs cache' := by
  have htext : ∃ found, fs.text? p = some found := by
    unfold read? at h
    cases hget : cache.get? p with
    | some held => exact ⟨held, hcache p held hfile hget⟩
    | none =>
      rw [hget] at h
      obtain ⟨found, hfound, -⟩ := Option.map_eq_some_iff.1 h
      exact ⟨found, hfound⟩
  obtain ⟨found, hfound⟩ := htext
  obtain ⟨cache'', hread, hagrees⟩ := read?_of_agrees hcache hfound
  rw [h] at hread
  cases hread
  exact ⟨hfound, hagrees⟩

theorem text?_of_read?_eq_none {fs : FileSystem} {cache : FileCache} {p : Path}
    (h : cache.read? fs p = none) : fs.text? p = none := by
  unfold read? at h
  split at h
  · cases h
  · exact Option.map_eq_none_iff.1 h

end FileCache

end HeaderReflection
