import HeaderReflection.Proofs.FileTree.Below
import HeaderReflection.Proofs.WorkingSet.Closure

/-!
# The text by which a file is included

A scan records for every file the text by which generated code includes it. A file that was found by
an include gets the text of that include. A header among the sources gets its path below the first
include directory that it lies in. The second text is made without a search, so it leads back to the
header only as long as no earlier include directory has another file under it
(`Scanner.leadsBack_iff`).
-/

namespace HeaderReflection

namespace Scanner

variable {s : Scanner} {sources : List Path}

/-! ## What a scan adds -/

/-- What holds of a set when a scan may add a file to it holds of it afterwards. -/
structure Stable (s : Scanner) (sources : List Path) (good : WorkingSet → Prop) : Prop where
  /-- A file is found by an include. -/
  included : ∀ set target p, good set → s.Resolves target p → good (set.insert s.fs p target).1
  /-- A header is a source. -/
  given : ∀ set p, good set → s.IsSource sources p → isHeader p = true →
    good (set.insert s.fs p (Include.textFor s.fs s.directories p)).1

variable {good : WorkingSet → Prop}

theorem Stable.addIncludes (h : s.Stable sources good) {set : WorkingSet} (targets : List String)
    (hset : good set) : good (s.addIncludes set targets).1 := by
  fun_induction Scanner.addIncludes s set targets with
  | case1 => exact hset
  | case2 _ _ _ _ ih => exact ih hset
  | case3 set target targets p hp _ added more ih =>
    exact ih (h.included set target p hset (resolve?_eq_some_iff.1 hp))
  | case4 _ _ _ _ _ _ ih => exact ih hset

theorem Stable.scanFile (h : s.Stable sources good) (p : Path) (scan : Scan)
    (hset : good scan.set) : good (s.scanFile p scan).reached.set := by
  unfold Scanner.scanFile
  split
  · exact hset
  · exact h.addIncludes _ hset

theorem Stable.scanSource (h : s.Stable sources good) {source : Path} {scan : Scan}
    (hmem : source ∈ sources) (hset : good scan.set) :
    good (s.scanSource source scan).reached.set := by
  unfold Scanner.scanSource
  split
  · exact hset
  next heligible =>
  split
  · exact hset
  next hfile =>
  split
  next hheader =>
    have hsource : s.IsSource sources source :=
      ⟨hmem, by simpa using heligible, by simpa using hfile⟩
    exact h.scanFile source _ (h.given _ source hset hsource hheader)
  next => exact h.scanFile source scan hset

theorem Stable.scanSources (h : s.Stable sources good) (todo : List Path)
    (hsub : ∀ p ∈ todo, p ∈ sources) (scan : Scan) (hset : good scan.set) :
    good (s.scanSources todo scan).reached.set := by
  induction todo generalizing scan with
  | nil => exact hset
  | cons source todo ih =>
    have hfirst := h.scanSource (hsub source List.mem_cons_self) hset
    rw [scanSources_cons]
    cases htake : s.scanSource source scan with
    | error e next =>
      rw [htake] at hfirst
      exact hfirst
    | ok u next =>
      rw [htake] at hfirst
      exact ih (fun p hp => hsub p (List.mem_cons_of_mem _ hp)) next hfirst

theorem Stable.drain (h : s.Stable sources good) {scan : Scan} (hset : good scan.set) :
    good (s.drain scan).reached.set := by
  fun_induction Scanner.drain s scan with
  | case1 scan hempty => exact hset
  | case2 scan p queue hqueue e next herror =>
    have hfirst := h.scanFile p { scan with queue := queue } hset
    rw [herror] at hfirst
    exact hfirst
  | case3 scan p queue hqueue _ next hok ih =>
    have hfirst := h.scanFile p { scan with queue := queue } hset
    rw [hok] at hfirst
    exact ih hfirst

/-- What is stable and holds at the start holds of the set that a scan reaches, also if it fails. -/
theorem Stable.run (h : s.Stable sources good) (hstart : good {}) (cache : FileCache) :
    good (s.run sources cache).reached.set := by
  have hsources := h.scanSources sources (fun _ hp => hp) { cache := cache } hstart
  unfold Scanner.run
  cases hreached : s.scanSources sources { cache := cache } with
  | error e reached =>
    rw [hreached] at hsources
    exact hsources
  | ok u reached =>
    rw [hreached] at hsources
    exact h.drain hsources

/-! ## What is recorded -/

/-- How a file comes to its text. -/
inductive Recorded (s : Scanner) (sources : List Path) (item : WorkItem) : Prop
  | included (h : s.Resolves item.target item.path)
  | given (hsource : s.IsSource sources item.path) (hheader : isHeader item.path = true)
      (htarget : item.target = Include.textFor s.fs s.directories item.path)

theorem mem_items_insert {fs : FileSystem} {p : Path} {target : String} {set : WorkingSet}
    {item : WorkItem} (h : item ∈ (set.insert fs p target).1.items) :
    item ∈ set.items ∨ item = ⟨p, target⟩ := by
  unfold WorkingSet.insert at h
  split at h
  · exact .inl h
  · exact (List.mem_append.1 h).imp_right List.mem_singleton.1

theorem stable_recorded (s : Scanner) (sources : List Path) :
    s.Stable sources fun set => ∀ item ∈ set.items, s.Recorded sources item := by
  refine ⟨?_, ?_⟩
  · intro set target p hset hresolves item hitem
    rcases mem_items_insert hitem with hitem | rfl
    · exact hset item hitem
    · exact .included hresolves
  · intro set p hset hsource hheader item hitem
    rcases mem_items_insert hitem with hitem | rfl
    · exact hset item hitem
    · exact .given hsource hheader rfl

theorem recorded_of_run {cache : FileCache} {scan : Scan} (h : s.run sources cache = .ok () scan) :
    ∀ item ∈ scan.set.items, s.Recorded sources item := by
  have hrun := (stable_recorded s sources).run (by simp) cache
  rwa [h] at hrun

/-! ## Where a text leads -/

/-- The text of a file leads to the file. -/
def LeadsBack (s : Scanner) (item : WorkItem) : Prop :=
  ∃ p, Include.resolve? s.fs s.directories item.target = some p ∧
    s.fs.identity p = s.fs.identity item.path

theorem Recorded.leadsBack {item : WorkItem} (h : s.Recorded sources item)
    (hnot : item.path ∉ sources) : s.LeadsBack item := by
  cases h with
  | included h => exact ⟨item.path, resolve?_eq_some_iff.2 h, rfl⟩
  | given hsource => exact absurd hsource.mem hnot

/-- A path leads to a place at or above another one. -/
def IsAbove (fs : FileSystem) (d : Path) (place : Place) : Prop :=
  ∃ above, fs.locate? d = some above ∧ above <+: place

/-- The first include directory at or above a place is `d`, and `names` lead from there down to the
place. -/
structure LiesIn (s : Scanner) (place : Place) (before : List Path) (d : Path)
    (names : List String) : Prop where
  directories : ∃ after, s.directories = before ++ d :: after
  reaches : ∃ above, s.fs.locate? d = some above ∧ above ++ names = place
  first : ∀ e ∈ before, ¬IsAbove s.fs e place

/-- A place below an include directory lies in a first one. -/
theorem exists_liesIn {d : Path} {place : Place} (hd : d ∈ s.directories)
    (habove : IsAbove s.fs d place) : ∃ before first names, s.LiesIn place before first names := by
  classical
  have hfound : (s.directories.find? fun e => decide (IsAbove s.fs e place)).isSome := by
    rw [List.find?_isSome]
    exact ⟨d, hd, decide_eq_true habove⟩
  obtain ⟨first, hfirst⟩ := Option.isSome_iff_exists.1 hfound
  obtain ⟨hreaches, before, after, hsplit, hbefore⟩ := List.find?_eq_some_iff_append.1 hfirst
  obtain ⟨above, hplace, names, hnames⟩ := of_decide_eq_true hreaches
  exact ⟨before, first, names, ⟨after, hsplit⟩, ⟨above, hplace, hnames⟩,
    fun e he => by simpa using hbefore e he⟩

theorem resolve?_append (fs : FileSystem) (before after : List Path) (target : String) :
    Include.resolve? fs (before ++ after) target =
      (Include.resolve? fs before target).or (Include.resolve? fs after target) := by
  rw [Include.resolve?, List.map_append, List.find?_append]
  rfl

/-- Texts without backslashes are recorded as they are. -/
theorem map_slashes_ofPieces {names : List String} (h : ∀ name ∈ names, '\\' ∉ name.toList) :
    (Path.ofPieces names).text.map (fun c => if c = '\\' then '/' else c) =
      (Path.ofPieces names).text := by
  refine String.toList_inj.1 ?_
  rw [String.toList_map, Path.ofPieces, Path.toList_intercalate_slash]
  refine (List.map_congr_left fun c hc => ?_).trans (List.map_id _)
  rw [if_neg, id]
  rintro rfl
  rcases Text.mem_intercalate hc with hc | ⟨piece, hpiece, hc⟩
  · cases hc
  · obtain ⟨name, hname, rfl⟩ := List.mem_map.1 hpiece
    exact h name hname hc

/-- The text for a header are the names from the first include directory down to it. -/
theorem textFor_of_liesIn {p d : Path} {place : Place} {before : List Path} {names : List String}
    (hstart : ∀ name ∈ s.fs.start, Path.IsName name) (hp : s.fs.locate? p = some place)
    (hin : s.LiesIn place before d names) (hplain : ∀ name ∈ names, '\\' ∉ name.toList) :
    Include.textFor s.fs s.directories p = (Path.ofPieces names).text := by
  obtain ⟨after, hdirectories⟩ := hin.directories
  obtain ⟨above, hd, rfl⟩ := hin.reaches
  have hplace := FileSystem.isName_of_locate? hstart hp
  have hcanonical : Include.canonical s.fs p = .ofPlace (above ++ names) := by
    rw [Include.canonical, hp]
  have hbefore : (before.findSome? fun e =>
      (s.fs.locate? e).bind fun place => (Path.ofPlace (above ++ names)).below? place) = none := by
    rw [List.findSome?_eq_none_iff]
    intro e he
    cases hlocate : s.fs.locate? e with
    | none => rfl
    | some place =>
      refine Path.below?_eq_none hplace fun hreaches => ?_
      exact hin.first e he ⟨place, hlocate, hreaches⟩
  have hbelow : (Path.ofPlace (above ++ names)).below? above = some (.ofPieces names) :=
    Path.below?_append (fun name hname => hplace name (List.mem_append_left _ hname))
      (fun name hname => hplace name (List.mem_append_right _ hname))
  have hfound : (s.directories.findSome? fun e =>
      (s.fs.locate? e).bind fun place => (Path.ofPlace (above ++ names)).below? place) =
      some (.ofPieces names) := by
    rw [hdirectories, List.findSome?_append, hbefore, Option.none_or, List.findSome?_cons, hd,
      Option.bind_some, hbelow]
  unfold Include.textFor
  rw [hcanonical, hfound]
  exact map_slashes_ofPieces hplain

/-- The directory that a file lies in has the file under the names from there down to it. -/
theorem resolve?_of_liesIn {p d : Path} (after : List Path) {above : Place} {names : List String}
    (hstart : ∀ name ∈ s.fs.start, Path.IsName name)
    (hd : s.fs.locate? d = some above) (hp : s.fs.locate? p = some (above ++ names))
    (hfile : s.fs.isFile p = true) (hne : names ≠ []) :
    Include.resolve? s.fs (d :: after) (Path.ofPieces names).text =
        some (d.join (.ofPieces names)) ∧
      s.fs.identity (d.join (.ofPieces names)) = s.fs.identity p := by
  obtain ⟨place, bytes, hplace, hbytes⟩ := FileSystem.exists_bytes_of_isFile hfile
  rw [hp] at hplace
  cases hplace
  have hnames := FileSystem.isName_of_locate? hstart hp
  have hjoin := FileSystem.locate?_join hd hne
    (fun name hname => hnames name (List.mem_append_right _ hname)) hbytes
  refine ⟨?_, ?_⟩
  · rw [Include.resolve?, List.map_cons, List.find?_cons_of_pos]
    rw [FileSystem.isFile, FileSystem.entry?, hjoin, Option.bind_some, hbytes]
    rfl
  · rw [FileSystem.identity, FileSystem.identity, hjoin, hp]

/-- **When a recorded text leads back to its file.** Whatever was found by an include leads back.
A file that lies below an include directory, with no backslash on the way down, leads back exactly
when the include directories before that one have no other file under its text. -/
theorem leadsBack_iff {cache : FileCache} {scan : Scan} {item : WorkItem} {d : Path} {place : Place}
    (hstart : ∀ name ∈ s.fs.start, Path.IsName name) (hrun : s.run sources cache = .ok () scan)
    (hitem : item ∈ scan.set.items) (hplace : s.fs.locate? item.path = some place)
    (hd : d ∈ s.directories) (habove : IsAbove s.fs d place) :
    (item.path ∉ sources → s.LeadsBack item) ∧
      ∃ before first names, s.LiesIn place before first names ∧
        (names ≠ [] → (∀ name ∈ names, '\\' ∉ name.toList) →
          (s.LeadsBack item ↔ ∀ p, Include.resolve? s.fs before item.target = some p →
            s.fs.identity p = s.fs.identity item.path)) := by
  have hrecorded := recorded_of_run hrun item hitem
  refine ⟨hrecorded.leadsBack, ?_⟩
  obtain ⟨before, first, names, hin⟩ := exists_liesIn hd habove
  refine ⟨before, first, names, hin, fun hne hplain => ?_⟩
  obtain ⟨after, hdirectories⟩ := hin.directories
  obtain ⟨above, hfirst, hnames⟩ := hin.reaches
  have hbelow : s.fs.locate? item.path = some (above ++ names) := by rw [hplace, hnames]
  have hsearch := resolve?_append s.fs before (first :: after) item.target
  rw [← hdirectories] at hsearch
  cases hrecorded with
  | included hresolves =>
    have hfound := resolve?_eq_some_iff.2 hresolves
    refine iff_of_true ⟨item.path, hfound, rfl⟩ ?_
    intro p hp
    rw [hp, hfound, Option.some_or] at hsearch
    cases hsearch
    rfl
  | given hsource _ htarget =>
    rw [textFor_of_liesIn hstart hplace hin hplain] at htarget
    obtain ⟨hfound, hsame⟩ := resolve?_of_liesIn after hstart hfirst hbelow hsource.isFile hne
    rw [← htarget] at hfound
    rw [hfound] at hsearch
    rw [LeadsBack, hsearch]
    cases Include.resolve? s.fs before item.target with
    | none => simpa using hsame
    | some p => simp

/-! ## Two headers of one name -/

/-- Two include directories with a header of one name, and a source that includes it. -/
def twins : Scanner where
  fs := ⟨.directory [("work", .directory [
    ("first", .directory [("x.h", .file "class First;\n".toUTF8)]),
    ("second", .directory [("x.h", .file "class Second;\n".toUTF8)]),
    ("main.cpp", .file "#include <x.h>\n".toUTF8)])], ["work"]⟩
  settings := {}
  directories := [⟨"first"⟩, ⟨"second"⟩]

/-- The header of the second directory, as it is recorded when it is a source. -/
def twin : WorkItem := ⟨⟨"second/x.h"⟩, "x.h"⟩

/-- The files that were found, unless the scan failed. -/
def items? : ScanResult → Option (List WorkItem)
  | .ok _ scan => some scan.set.items
  | .error _ _ => none

theorem exists_of_items? {r : ScanResult} {items : List WorkItem} (h : items? r = some items) :
    ∃ scan, r = .ok () scan ∧ scan.set.items = items := by
  cases r with
  | ok u scan => exact ⟨scan, rfl, Option.some.inj h⟩
  | error e scan => cases h

theorem leadsBack_iff_twins :
    ∃ scan, twins.run [twin.path, ⟨"main.cpp"⟩] {} = .ok () scan ∧
      scan.set.items = [twin, ⟨⟨"first/x.h"⟩, "x.h"⟩] ∧
      (twin.path ∉ [twin.path, ⟨"main.cpp"⟩] → twins.LeadsBack twin) ∧
      ∃ before first names, twins.LiesIn ["work", "second", "x.h"] before first names ∧
        (names ≠ [] → (∀ name ∈ names, '\\' ∉ name.toList) →
          (twins.LeadsBack twin ↔ ∀ p, Include.resolve? twins.fs before twin.target = some p →
            twins.fs.identity p = twins.fs.identity twin.path)) := by
  obtain ⟨scan, hrun, hitems⟩ : ∃ scan, twins.run [twin.path, ⟨"main.cpp"⟩] {} = .ok () scan ∧
      scan.set.items = [twin, ⟨⟨"first/x.h"⟩, "x.h"⟩] := exists_of_items? (by decide +kernel)
  have hstart : ∀ name ∈ twins.fs.start, Path.IsName name := by
    intro name hname
    rw [List.mem_singleton.1 hname]
    exact ⟨by decide, by decide, by decide⟩
  have hplace : twins.fs.locate? twin.path = some ["work", "second", "x.h"] := by decide +kernel
  have habove : IsAbove twins.fs ⟨"second"⟩ ["work", "second", "x.h"] :=
    ⟨["work", "second"], by decide +kernel, ["x.h"], rfl⟩
  have hd : (⟨"second"⟩ : Path) ∈ twins.directories := by decide
  exact ⟨scan, hrun, hitems,
    leadsBack_iff hstart hrun (by rw [hitems]; exact List.mem_cons_self) hplace hd habove⟩

/-- **A recorded text need not lead back to its file**, also below an include directory. -/
theorem not_forall_leadsBack :
    ¬∀ (s : Scanner) (sources : List Path) (scan : Scan) (item : WorkItem) (d : Path)
      (place : Place), s.run sources {} = .ok () scan → item ∈ scan.set.items →
      s.fs.locate? item.path = some place → d ∈ s.directories → s.fs.locate? d ≠ some place →
      IsAbove s.fs d place → s.LeadsBack item := by
  intro hleads
  obtain ⟨scan, hrun, hitems⟩ : ∃ scan, twins.run [twin.path] {} = .ok () scan ∧
      scan.set.items = [twin] := exists_of_items? (by decide +kernel)
  have hplace : twins.fs.locate? twin.path = some ["work", "second", "x.h"] := by decide +kernel
  have habove : IsAbove twins.fs ⟨"second"⟩ ["work", "second", "x.h"] :=
    ⟨["work", "second"], by decide +kernel, ["x.h"], rfl⟩
  obtain ⟨p, hp, hsame⟩ := hleads twins _ scan twin ⟨"second"⟩ _ hrun
    (by rw [hitems]; exact List.mem_cons_self) hplace (by decide) (by decide +kernel) habove
  have hfirst : Include.resolve? twins.fs twins.directories twin.target = some ⟨"first/x.h"⟩ := by
    decide +kernel
  rw [hfirst] at hp
  cases hp
  exact absurd hsame (by decide +kernel)

end Scanner

end HeaderReflection
