import HeaderReflection.Proofs.WorkingSet.Complete
import HeaderReflection.Run

/-!
# The file that is written

A run leaves the file that it writes out of its sources, under whatever path it is offered. It does
not look at that file again when it searches includes. So the file comes back into the working set
exactly when a file whose includes are looked for includes it (`Inputs.avoids_output_iff`).
-/

namespace HeaderReflection

/-- No file of the set is the one at a path, under whatever path it was found. -/
def WorkingSet.Avoids (fs : FileSystem) (set : WorkingSet) (p : Path) : Prop :=
  ∀ item ∈ set.items, fs.identity item.path ≠ fs.identity p

theorem WorkingSet.avoids_iff {fs : FileSystem} {set : WorkingSet} {p : Path} :
    set.Avoids fs p ↔ fs.identity p ∉ set.identities fs := by
  simp only [Avoids, identities, paths, List.map_map, List.mem_map, Function.comp_apply,
    not_exists, not_and]

/-- If no source is the file at a path, the closure has it only where it is included. -/
theorem Scanner.closure_iff_includes {s : Scanner} {sources : List Path} {i : List Path.Component}
    (hsources : ∀ source ∈ sources, s.fs.identity source ≠ i) :
    (∃ p, s.Closure sources p ∧ s.fs.identity p = i) ↔
      ∃ q p, s.Reads sources q ∧ s.Includes q p ∧ s.fs.identity p = i := by
  constructor
  · rintro ⟨p, hp, hpi⟩
    cases hp with
    | header hsource _ => exact absurd hpi (hsources p hsource.mem)
    | included hq h => exact ⟨_, p, .inl hq, h, hpi⟩
    | followed hfollow hq h => exact ⟨_, p, .inr ⟨hfollow, hq⟩, h, hpi⟩
  · rintro ⟨q, p, hq, h, hpi⟩
    exact ⟨p, hq.closure h, hpi⟩

/-- The paths of the files that were found. -/
def Finding.paths? (found : Finding (WorkingSet × FileCache)) : Option (List Path) :=
  found.result.toOption.map fun set => set.1.paths

theorem Finding.exists_of_paths? {found : Finding (WorkingSet × FileCache)} {paths : List Path}
    (h : found.paths? = some paths) :
    ∃ set cache, found.result = .ok (set, cache) ∧ set.paths = paths := by
  obtain ⟨⟨set, cache⟩, hset, hpaths⟩ := Option.map_eq_some_iff.1 h
  refine ⟨set, cache, ?_, hpaths⟩
  cases hresult : found.result with
  | error e => simp [hresult, Except.toOption] at hset
  | ok v =>
    simp only [hresult, Except.toOption, Option.some.injEq] at hset
    rw [hset]

namespace Inputs

/-- The scan over what was gathered. -/
abbrev Gathered.scanner (fs : FileSystem) (settings : Settings) (gathered : Gathered) : Scanner :=
  ⟨fs, settings, gathered.directories⟩

/-- The path of the file that is written, from the root on. -/
def writtenPath (fs : FileSystem) (output : Path) : Path := (Path.ofPlace fs.start).join output

/-- The file that is written is no source, wherever the sources come from. -/
theorem source_ne_output {fs : FileSystem} {settings : Settings} {inputs : Inputs} {output : Path}
    {gathered : Gathered} (h : inputs.gather fs settings (some output) = .ok gathered) :
    ∀ source ∈ gathered.sources, fs.identity source ≠ fs.identity (writtenPath fs output) := by
  unfold gather at h
  simp only [bind, Except.bind, pure, Except.pure] at h
  split at h
  · cases h
  split at h
  · cases h
  split at h
  · cases h
  split at h
  · cases h
  cases h
  intro source hsource
  simpa [writtenPath] using (List.mem_filter.1 hsource).2

/-- What a run finds is what a scan of the gathered sources finds. -/
theorem run_of_workingSet {fs : FileSystem} {settings : Settings} {inputs : Inputs}
    {output : Option Path} {set : WorkingSet} {cache : FileCache}
    (h : (inputs.workingSet fs settings output).result = .ok (set, cache)) :
    ∃ gathered scan, inputs.gather fs settings output = .ok gathered ∧
      (gathered.scanner fs settings).run gathered.sources {} = .ok () scan ∧
      scan.set = set := by
  unfold workingSet at h
  split at h
  · cases h
  next gathered hgather =>
  split at h
  · cases h
  next scan hrun =>
  cases h
  exact ⟨gathered, scan, hgather, hrun, rfl⟩

/-- **When the file that is written is no input of the run.** It is never taken as a source. The
working set is free of it exactly when no file whose includes are looked for includes it. -/
theorem avoids_output_iff {fs : FileSystem} {settings : Settings} {inputs : Inputs} {output : Path}
    {set : WorkingSet} {cache : FileCache}
    (h : (inputs.workingSet fs settings (some output)).result = .ok (set, cache)) :
    ∃ gathered, inputs.gather fs settings (some output) = .ok gathered ∧
      (∀ source ∈ gathered.sources, fs.identity source ≠ fs.identity (writtenPath fs output)) ∧
      (set.Avoids fs (writtenPath fs output) ↔
        ∀ q p, (gathered.scanner fs settings).Reads gathered.sources q →
          (gathered.scanner fs settings).Includes q p →
          fs.identity p ≠ fs.identity (writtenPath fs output)) := by
  obtain ⟨gathered, scan, hgather, hrun, rfl⟩ := run_of_workingSet h
  have hsources := source_ne_output hgather
  refine ⟨gathered, hgather, hsources, ?_⟩
  have hclosure := Scanner.closure_of_run (FileCache.agrees_empty fs) hrun
  rw [WorkingSet.avoids_iff, hclosure, Scanner.closure_iff_includes hsources]
  simp only [not_exists, not_and, ne_eq]

/-- A file to write that has a second path, which is offered as a source, and a source that includes
it or another file. -/
def offered (included : String) : FileSystem where
  root := .directory [
    ("main.cpp", .file ("#include \"" ++ included ++ "\"\n").toUTF8),
    ("other.h", .file "class Other;\n".toUTF8),
    ("written.h", .file "class Written;\n".toUTF8),
    ("link.h", .link "written.h")]
  start := []

/-- The sources and include directories of a run over that tree. -/
def offering : Inputs where
  arguments := ["main.cpp", "link.h"]
  includeDirectories := [⟨"."⟩]

theorem avoids_output_iff_linked :
    ∃ set cache, (offering.workingSet (offered "other.h") {} (some ⟨"written.h"⟩)).result =
        .ok (set, cache) ∧
      set.paths = [⟨"./other.h"⟩] ∧
      ∃ gathered, offering.gather (offered "other.h") {} (some ⟨"written.h"⟩) = .ok gathered ∧
        (∀ source ∈ gathered.sources, (offered "other.h").identity source ≠
          (offered "other.h").identity (writtenPath (offered "other.h") ⟨"written.h"⟩)) ∧
        (set.Avoids (offered "other.h") (writtenPath (offered "other.h") ⟨"written.h"⟩) ↔
          ∀ q p, (gathered.scanner (offered "other.h") {}).Reads gathered.sources q →
            (gathered.scanner (offered "other.h") {}).Includes q p →
            (offered "other.h").identity p ≠
              (offered "other.h").identity (writtenPath (offered "other.h") ⟨"written.h"⟩)) := by
  have hpaths : (offering.workingSet (offered "other.h") {} (some ⟨"written.h"⟩)).paths? =
      some [⟨"./other.h"⟩] := by decide +kernel
  obtain ⟨set, cache, hresult, hset⟩ := Finding.exists_of_paths? hpaths
  exact ⟨set, cache, hresult, hset, avoids_output_iff hresult⟩

/-- **The file that is written can be an input of its own run.** Here a source includes it. -/
theorem not_forall_avoids_output :
    ¬∀ (fs : FileSystem) (settings : Settings) (inputs : Inputs) (output : Path) (set : WorkingSet)
      (cache : FileCache), (inputs.workingSet fs settings (some output)).result = .ok (set, cache) →
      set.Avoids fs (writtenPath fs output) := by
  intro havoids
  have hpaths : (offering.workingSet (offered "written.h") {} (some ⟨"written.h"⟩)).paths? =
      some [⟨"./written.h"⟩] := by decide +kernel
  obtain ⟨set, cache, hresult, hset⟩ := Finding.exists_of_paths? hpaths
  have hwritten := WorkingSet.avoids_iff.1 (havoids _ _ _ _ set cache hresult)
  rw [WorkingSet.identities, hset] at hwritten
  exact hwritten (by decide +kernel)

end Inputs

end HeaderReflection
