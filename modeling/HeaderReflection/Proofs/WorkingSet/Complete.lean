import HeaderReflection.Proofs.WorkingSet.Closure

/-!
# A scan finds the closure of its sources

A source is scanned at once, an included file when its turn comes, and either may be met first,
under any of its paths. The invariant of the scan (`Scan.Inv`) relates the three things it keeps:
whatever is in the set belongs to the closure, and what the files in the set include is in the set
too, except for the files that still wait. When nobody waits any more, the set is the closure. The
scan fails only at a file that it has to read and that has no text (`Scanner.EndsIn`).
-/

namespace HeaderReflection

namespace Scanner

/-- Everything that a file includes is in the set. -/
def Covered (s : Scanner) (set : WorkingSet) (q : Path) : Prop :=
  ∀ p, s.Includes q p → s.fs.identity p ∈ set.identities s.fs

theorem Covered.mono {s : Scanner} {set next : WorkingSet} {q : Path} (h : s.Covered set q)
    (hgrow : set.Grows s.fs next) : s.Covered next q := by
  intro p hp
  exact hgrow _ (h p hp)

/-! ## Adding the includes of a text -/

/-- What adding the files that some targets lead to makes of a set. -/
structure Adds (s : Scanner) (targets : List String) (set : WorkingSet)
    (added : WorkingSet × List Path) : Prop where
  keyed : added.1.Keyed s.fs
  paths : added.1.paths = set.paths ++ added.2
  sound : ∀ p ∈ added.2, ∃ target ∈ targets, s.Resolves target p ∧
    s.settings.isEligible p = true
  complete : ∀ target ∈ targets, ∀ p, s.Resolves target p → s.settings.isEligible p = true →
    s.fs.identity p ∈ added.1.identities s.fs

theorem Adds.grow {s : Scanner} {targets : List String} {set : WorkingSet}
    {added : WorkingSet × List Path} (h : s.Adds targets set added) :
    set.Grows s.fs added.1 := by
  intro i hi
  rw [WorkingSet.identities, h.paths, List.map_append]
  exact List.mem_append_left _ hi

/-- A target that leads to no file that is read adds nothing. -/
theorem Adds.skip {s : Scanner} {target : String} {targets : List String} {set : WorkingSet}
    {added : WorkingSet × List Path} (h : s.Adds targets set added)
    (hnone : ∀ p, s.Resolves target p → s.settings.isEligible p = false) :
    s.Adds (target :: targets) set added := by
  refine ⟨h.keyed, h.paths, ?_, ?_⟩
  · intro p hp
    obtain ⟨t, ht, hsound⟩ := h.sound p hp
    exact ⟨t, List.mem_cons_of_mem _ ht, hsound⟩
  · intro t ht p hp heligible
    rcases List.mem_cons.1 ht with rfl | ht
    · rw [hnone p hp] at heligible
      cases heligible
    · exact h.complete t ht p hp heligible

/-- A target that leads to a file that is read adds the file before the others. -/
theorem Adds.insert {s : Scanner} {target : String} {targets : List String} {set : WorkingSet}
    {p : Path} {added : WorkingSet × List Path} (hset : set.Keyed s.fs)
    (hp : s.Resolves target p) (heligible : s.settings.isEligible p = true)
    (h : s.Adds targets (set.insert s.fs p target).1 added) :
    s.Adds (target :: targets) set
      (added.1, if (set.insert s.fs p target).2 then p :: added.2 else added.2) := by
  refine ⟨h.keyed, ?_, ?_, ?_⟩
  · show added.1.paths = _
    rw [h.paths, WorkingSet.paths_insert, List.append_assoc]
    split <;> rfl
  · intro q hq
    have hq : q = p ∨ q ∈ added.2 := by
      split at hq
      · exact List.mem_cons.1 hq
      · exact .inr hq
    rcases hq with rfl | hq
    · exact ⟨target, List.mem_cons_self, hp, heligible⟩
    · obtain ⟨t, ht, hsound⟩ := h.sound q hq
      exact ⟨t, List.mem_cons_of_mem _ ht, hsound⟩
  · intro t ht q hq heligible'
    rcases List.mem_cons.1 ht with rfl | ht
    · rw [hq.unique hp]
      exact h.grow _ (hset.insert p t).2
    · exact h.complete t ht q hq heligible'

theorem adds_addIncludes (s : Scanner) (targets : List String) {set : WorkingSet}
    (h : set.Keyed s.fs) : s.Adds targets set (s.addIncludes set targets) := by
  induction targets generalizing set with
  | nil =>
    refine ⟨h, (List.append_nil _).symm, ?_, ?_⟩
    · intro p hp
      cases hp
    · intro target htarget
      cases htarget
  | cons target targets ih =>
    rw [addIncludes]
    split
    next hnone =>
      refine (ih h).skip ?_
      intro p hp
      rw [resolve?_eq_some_iff.2 hp] at hnone
      cases hnone
    next p hsome =>
      have hp := resolve?_eq_some_iff.1 hsome
      by_cases heligible : s.settings.isEligible p = true
      · rw [if_pos heligible]
        exact Adds.insert h hp heligible (ih (h.insert p target).1)
      · rw [if_neg heligible]
        refine (ih h).skip ?_
        intro q hq
        rw [hq.unique hp]
        exact Bool.eq_false_iff.2 heligible

end Scanner

/-! ## The invariant of a scan -/

/-- What holds of a scan whenever the includes of some waiting files are still to be added. -/
structure Scan.Inv (s : Scanner) (sources waiting : List Path) (scan : Scan) : Prop where
  cache : scan.cache.Agrees s.fs
  keyed : scan.set.Keyed s.fs
  sound : ∀ p ∈ scan.set.paths, s.Closure sources p
  queued : ∀ p ∈ scan.queue, s.settings.followIncludes = true ∧ s.Closure sources p
  covered : s.settings.followIncludes = true →
    ∀ p ∈ scan.set.paths, p ∈ waiting ∨ s.Covered scan.set p

theorem Scan.inv_start {s : Scanner} {sources : List Path} {cache : FileCache}
    (hcache : cache.Agrees s.fs) : Scan.Inv s sources [] { cache := cache } := by
  refine ⟨hcache, WorkingSet.keyed_empty s.fs, ?_, ?_, ?_⟩
  · intro p hp
    cases hp
  · intro p hp
    cases hp
  · intro _ p hp
    cases hp

/-- Files whose includes have been added wait no more. -/
theorem Scan.Inv.arrived {s : Scanner} {sources waiting : List Path} {scan : Scan} {p : Path}
    (h : Scan.Inv s sources (p :: waiting) scan) (hp : s.Covered scan.set p) :
    Scan.Inv s sources waiting scan := by
  refine ⟨h.cache, h.keyed, h.sound, h.queued, ?_⟩
  intro hfollow q hq
  rcases h.covered hfollow q hq with hq | hq
  · rcases List.mem_cons.1 hq with rfl | hq
    · exact .inr hp
    · exact .inl hq
  · exact .inr hq

namespace Scanner

variable {s : Scanner} {sources : List Path}

/-- What a part of a scan comes to: it ends where something holds, or it fails at a file whose
includes are looked for and that has no text. -/
def EndsIn (s : Scanner) (sources : List Path) (good : Scan → Prop) : ScanResult → Prop
  | .ok _ next => good next
  | .error e _ => ∃ p, e = .unreadable p ∧ s.Reads sources p ∧ s.fs.text? p = none

theorem EndsIn.imp {good good' : Scan → Prop} {r : ScanResult} (h : s.EndsIn sources good r)
    (himp : ∀ next, good next → good' next) : s.EndsIn sources good' r := by
  cases r with
  | ok u next => exact himp next h
  | error e next => exact h

/-- Where all files can be read, a scan does not fail. -/
theorem EndsIn.exists_ok {good : Scan → Prop} {r : ScanResult} (h : s.EndsIn sources good r)
    (hread : ∀ p, s.Reads sources p → ∃ text, s.fs.text? p = some text) :
    ∃ next, r = .ok () next ∧ good next := by
  cases r with
  | ok u next => exact ⟨next, rfl, h⟩
  | error e next =>
    obtain ⟨p, -, hp, hnone⟩ := h
    obtain ⟨text, htext⟩ := hread p hp
    rw [htext] at hnone
    cases hnone

/-- Scanning a file adds what it includes, and keeps the invariant. -/
theorem scanFile_of_inv {p : Path} (scan : Scan)
    (h : Scan.Inv s sources (p :: scan.queue) scan) (hread : s.Reads sources p) :
    s.EndsIn sources (fun next => Scan.Inv s sources next.queue next ∧ s.Covered next.set p ∧
      scan.set.Grows s.fs next.set) (s.scanFile p scan) := by
  unfold scanFile
  split
  next hcache => exact ⟨p, rfl, hread, FileCache.text?_of_read?_eq_none hcache⟩
  next text cache hcache =>
  obtain ⟨htext, hagrees⟩ := FileCache.text?_of_read? h.cache hread.isFile hcache
  have hadds := s.adds_addIncludes (Include.allOfString text) h.keyed
  have hsound : ∀ q ∈ (s.addIncludes scan.set (Include.allOfString text)).2,
      s.Closure sources q := by
    intro q hq
    obtain ⟨target, htarget, hresolves, heligible⟩ := hadds.sound q hq
    exact hread.closure ⟨text, target, htext, htarget, hresolves, heligible⟩
  have hcovered : s.Covered (s.addIncludes scan.set (Include.allOfString text)).1 p := by
    rintro q ⟨text', target, htext', htarget, hresolves, heligible⟩
    rw [htext] at htext'
    cases htext'
    exact hadds.complete target htarget q hresolves heligible
  refine ⟨Scan.Inv.arrived (p := p) ?_ hcovered, hcovered, hadds.grow⟩
  refine ⟨hagrees, hadds.keyed, ?_, ?_, ?_⟩
  · intro q hq
    rcases List.mem_append.1 (hadds.paths ▸ hq) with hq | hq
    · exact h.sound q hq
    · exact hsound q hq
  · intro q hq
    rcases List.mem_append.1 hq with hq | hq
    · exact h.queued q hq
    · split at hq
      next hfollow => exact ⟨hfollow, hsound q hq⟩
      next => cases hq
  · -- A file that is new waits, because includes are followed; the others wait or are covered.
    intro hfollow q hq
    rcases List.mem_append.1 (hadds.paths ▸ hq) with hq | hq
    · rcases h.covered hfollow q hq with hq | hq
      · rcases List.mem_cons.1 hq with rfl | hq
        · exact .inl List.mem_cons_self
        · exact .inl (List.mem_cons_of_mem _ (List.mem_append_left _ hq))
      · exact .inr (hq.mono hadds.grow)
    · refine .inl (List.mem_cons_of_mem _ (List.mem_append_right _ ?_))
      rw [if_pos hfollow]
      exact hq

/-- What a set has to have of a source that was scanned. -/
structure Taken (s : Scanner) (set : WorkingSet) (source : Path) : Prop where
  header : isHeader source = true → s.fs.identity source ∈ set.identities s.fs
  covered : s.Covered set source

theorem Taken.mono {set next : WorkingSet} {source : Path} (h : s.Taken set source)
    (hgrow : set.Grows s.fs next) : s.Taken next source :=
  ⟨fun hheader => hgrow _ (h.header hheader), h.covered.mono hgrow⟩

/-- A header among the sources waits from when it is added until it is scanned. -/
theorem inv_insert_source {source : Path} {scan : Scan} (target : String)
    (h : Scan.Inv s sources scan.queue scan) (hsource : s.IsSource sources source)
    (hheader : isHeader source = true) :
    Scan.Inv s sources (source :: scan.queue)
      { scan with set := (scan.set.insert s.fs source target).1 } := by
  have hgrow := WorkingSet.grows_insert s.fs source target scan.set
  have hpaths : ∀ p ∈ (scan.set.insert s.fs source target).1.paths,
      p ∈ scan.set.paths ∨ p = source := by
    intro p hp
    rw [WorkingSet.paths_insert, List.mem_append] at hp
    refine hp.imp_right fun hp => ?_
    split at hp
    · exact List.mem_singleton.1 hp
    · cases hp
  refine ⟨h.cache, (h.keyed.insert source target).1, ?_, h.queued, ?_⟩
  · intro p hp
    rcases hpaths p hp with hp | rfl
    · exact h.sound p hp
    · exact .header hsource hheader
  · intro hfollow p hp
    rcases hpaths p hp with hp | rfl
    · refine (h.covered hfollow p hp).imp ?_ ?_
      · exact List.mem_cons_of_mem _
      · exact fun hp => hp.mono hgrow
    · exact .inl List.mem_cons_self

/-- Taking a source takes it if it is read and there, and else changes nothing. -/
theorem scanSource_of_inv {source : Path} {scan : Scan}
    (h : Scan.Inv s sources scan.queue scan) (hmem : source ∈ sources) :
    s.EndsIn sources (fun next => Scan.Inv s sources next.queue next ∧
      (s.IsSource sources source → s.Taken next.set source) ∧ scan.set.Grows s.fs next.set)
      (s.scanSource source scan) := by
  unfold scanSource
  by_cases heligible : s.settings.isEligible source = true
  · rw [if_neg (by simp [heligible])]
    by_cases hfile : s.fs.isFile source = true
    · rw [if_neg (by simp [hfile])]
      have hsource : s.IsSource sources source := ⟨hmem, heligible, hfile⟩
      by_cases hheader : isHeader source = true
      · rw [if_pos hheader]
        have hinv := inv_insert_source (Include.textFor s.fs s.directories source) h hsource hheader
        refine (scanFile_of_inv { scan with set := (scan.set.insert s.fs source _).1 } hinv
          (.inl hsource)).imp ?_
        rintro next ⟨hnext, hcovered, hgrow⟩
        refine ⟨hnext, fun _ => ⟨fun _ => ?_, hcovered⟩, ?_⟩
        · exact hgrow _ (h.keyed.insert source _).2
        · exact (WorkingSet.grows_insert s.fs source _ scan.set).trans hgrow
      · rw [if_neg hheader]
        have hinv : Scan.Inv s sources (source :: scan.queue) scan := by
          refine ⟨h.cache, h.keyed, h.sound, h.queued, ?_⟩
          intro hfollow p hp
          exact (h.covered hfollow p hp).imp_left (List.mem_cons_of_mem _)
        refine (scanFile_of_inv _ hinv (.inl hsource)).imp ?_
        rintro next ⟨hnext, hcovered, hgrow⟩
        exact ⟨hnext, fun _ => ⟨fun hnot => absurd hnot hheader, hcovered⟩, hgrow⟩
    · rw [if_pos (by simp [hfile])]
      refine ⟨⟨h.cache, h.keyed, h.sound, h.queued, h.covered⟩, ?_, WorkingSet.Grows.refl _ _⟩
      intro hsource
      exact absurd hsource.isFile hfile
  · rw [if_pos (by simp [heligible])]
    refine ⟨⟨h.cache, h.keyed, h.sound, h.queued, h.covered⟩, ?_, WorkingSet.Grows.refl _ _⟩
    intro hsource
    exact absurd hsource.eligible heligible

/-- Every source of a list has been taken when the list is through. -/
theorem scanSources_of_inv (todo : List Path) (hsub : ∀ p ∈ todo, p ∈ sources) (scan : Scan)
    (h : Scan.Inv s sources scan.queue scan) :
    s.EndsIn sources (fun next => Scan.Inv s sources next.queue next ∧
      (∀ source ∈ todo, s.IsSource sources source → s.Taken next.set source) ∧
      scan.set.Grows s.fs next.set) (s.scanSources todo scan) := by
  induction todo generalizing scan with
  | nil =>
    refine ⟨h, ?_, WorkingSet.Grows.refl _ _⟩
    intro source hmem
    cases hmem
  | cons source todo ih =>
    have hfirst := scanSource_of_inv h (hsub source List.mem_cons_self)
    rw [scanSources_cons]
    cases htake : s.scanSource source scan with
    | error e next =>
      rw [htake] at hfirst
      exact hfirst
    | ok u next =>
      rw [htake] at hfirst
      obtain ⟨hnext, htaken, hgrow⟩ := hfirst
      refine (ih (fun p hp => hsub p (List.mem_cons_of_mem _ hp)) next hnext).imp ?_
      rintro last ⟨hlast, htakens, hgrows⟩
      refine ⟨hlast, ?_, hgrow.trans hgrows⟩
      intro p hp hsource
      rcases List.mem_cons.1 hp with rfl | hp
      · exact (htaken hsource).mono hgrows
      · exact htakens p hp hsource

/-- The first file of the queue is scanned like any other. -/
theorem scanFile_first {p : Path} {queue : List Path} {scan : Scan}
    (h : Scan.Inv s sources scan.queue scan) (hqueue : scan.queue = p :: queue) :
    s.EndsIn sources (fun next => Scan.Inv s sources next.queue next ∧
      scan.set.Grows s.fs next.set) (s.scanFile p { scan with queue := queue }) := by
  have hp : s.Reads sources p := .inr (h.queued p (by simp [hqueue]))
  have hinv : Scan.Inv s sources (p :: queue) { scan with queue := queue } := by
    refine ⟨h.cache, h.keyed, h.sound, ?_, hqueue ▸ h.covered⟩
    intro q hq
    exact h.queued q (by simp [hqueue, hq])
  refine (scanFile_of_inv { scan with queue := queue } hinv hp).imp ?_
  rintro next ⟨hnext, -, hgrow⟩
  exact ⟨hnext, hgrow⟩

/-- When the queue has run empty no file waits. -/
theorem drain_of_inv {scan : Scan} (h : Scan.Inv s sources scan.queue scan) :
    s.EndsIn sources (fun last => Scan.Inv s sources [] last ∧ scan.set.Grows s.fs last.set)
      (s.drain scan) := by
  fun_induction drain s scan with
  | case1 scan hempty =>
    rw [hempty] at h
    exact ⟨h, WorkingSet.Grows.refl _ _⟩
  | case2 scan p queue hqueue e next herror =>
    have hfirst := scanFile_first h hqueue
    rw [herror] at hfirst
    exact hfirst
  | case3 scan p queue hqueue _ next hok ih =>
    have hfirst := scanFile_first h hqueue
    rw [hok] at hfirst
    obtain ⟨hnext, hgrow⟩ := hfirst
    refine (ih hnext).imp ?_
    rintro last ⟨hinv, hgrows⟩
    exact ⟨hinv, hgrow.trans hgrows⟩

/-! ## The result of a scan -/

/-- A set in which no file waits has the whole closure of the sources that were taken. -/
theorem identity_mem_of_closure {scan : Scan} (h : Scan.Inv s sources [] scan)
    (htaken : ∀ source ∈ sources, s.IsSource sources source → s.Taken scan.set source)
    {p : Path} (hp : s.Closure sources p) :
    s.fs.identity p ∈ scan.set.identities s.fs := by
  induction hp with
  | header hp hheader => exact (htaken _ hp.mem hp).header hheader
  | included hq hinclude => exact (htaken _ hq.mem hq).covered _ hinclude
  | followed hfollow hq hinclude ih =>
    -- The set may have the file under another path, which is the one that was scanned.
    obtain ⟨q', hq', hsame⟩ := List.mem_map.1 ih
    have hcovered : s.Covered scan.set q' := by
      rcases h.covered hfollow q' hq' with hwaits | hcovered
      · cases hwaits
      · exact hcovered
    exact hcovered _ (hinclude.of_identity_eq (h.sound q' hq').isFile hsame)

/-- A scan that does not fail finds the closure, each file once. -/
theorem run_of_agrees {cache : FileCache} (hcache : cache.Agrees s.fs) :
    s.EndsIn sources (fun scan => (scan.set.identities s.fs).Nodup ∧
      ∀ i, i ∈ scan.set.identities s.fs ↔ ∃ p, s.Closure sources p ∧ s.fs.identity p = i)
      (s.run sources cache) := by
  have hsources :=
    scanSources_of_inv sources (fun _ hp => hp) { cache := cache } (Scan.inv_start hcache)
  rw [run]
  cases hreached : s.scanSources sources { cache := cache } with
  | error e reached =>
    rw [hreached] at hsources
    exact hsources
  | ok u reached =>
    rw [hreached] at hsources
    obtain ⟨hinv, htaken, -⟩ := hsources
    refine (drain_of_inv hinv).imp ?_
    rintro scan ⟨hlast, hgrow⟩
    refine ⟨hlast.keyed.nodup, fun i => ⟨?_, ?_⟩⟩
    · intro hi
      obtain ⟨p, hp, hpi⟩ := List.mem_map.1 hi
      exact ⟨p, hlast.sound p hp, hpi⟩
    · rintro ⟨p, hp, rfl⟩
      refine identity_mem_of_closure hlast ?_ hp
      intro source hmem hsource
      exact (htaken source hmem hsource).mono hgrow

/-- What a scan found when it did not fail. -/
theorem closure_of_run {cache : FileCache} {scan : Scan} (hcache : cache.Agrees s.fs)
    (h : s.run sources cache = .ok () scan) :
    ∀ i, i ∈ scan.set.identities s.fs ↔ ∃ p, s.Closure sources p ∧ s.fs.identity p = i := by
  intro i
  have hends : s.EndsIn sources _ (s.run sources cache) := run_of_agrees hcache
  rw [h] at hends
  exact hends.2 i

/-- A scan whose files can be read finds the closure, each file once. -/
theorem run_closure {cache : FileCache} (hcache : cache.Agrees s.fs)
    (hread : ∀ p, s.Reads sources p → ∃ text, s.fs.text? p = some text) :
    ∃ scan, s.run sources cache = .ok () scan ∧ (scan.set.identities s.fs).Nodup ∧
      ∀ i, i ∈ scan.set.identities s.fs ↔ ∃ p, s.Closure sources p ∧ s.fs.identity p = i :=
  (run_of_agrees hcache).exists_ok hread

/-- Two headers that include each other, one of which has a second path, and a source. -/
def crossed : Scanner where
  fs := ⟨.directory [
    ("inc", .directory [
      ("a.h", .file "#include <b.h>\n#include <a.h>\n".toUTF8),
      ("b.h", .file "#include \"link.h\"\n".toUTF8),
      ("link.h", .link "a.h")]),
    ("main.cpp", .file "#include <link.h>\n#include <gone.h>\n".toUTF8)], []⟩
  settings := {}
  directories := [⟨"/none"⟩, ⟨"/inc"⟩]

/-- **The working set is the include closure of the sources.** The scan ends, has each file of the
closure once under its canonical path and no other file, and has the same files for every order of
the sources. -/
theorem run_is_include_closure (s : Scanner) (sources : List Path) (cache : FileCache)
    (hcache : cache.Agrees s.fs)
    (hread : ∀ p, s.Reads sources p → ∃ text, s.fs.text? p = some text) :
    ∃ scan, s.run sources cache = .ok () scan ∧ (scan.set.identities s.fs).Nodup ∧
      (∀ i, i ∈ scan.set.identities s.fs ↔ ∃ p, s.Closure sources p ∧ s.fs.identity p = i) ∧
      ∀ sources' cache', sources.Perm sources' → cache'.Agrees s.fs →
        ∃ scan', s.run sources' cache' = .ok () scan' ∧
          (scan.set.identities s.fs).Perm (scan'.set.identities s.fs) := by
  obtain ⟨scan, hrun, hnodup, hclosure⟩ := run_closure hcache hread
  refine ⟨scan, hrun, hnodup, hclosure, ?_⟩
  intro sources' cache' hperm hcache'
  have hread' : ∀ p, s.Reads sources' p → ∃ text, s.fs.text? p = some text := by
    intro p hp
    exact hread p (hp.mono fun q hq => hperm.mem_iff.2 hq)
  obtain ⟨scan', hrun', hnodup', hclosure'⟩ := run_closure hcache' hread'
  refine ⟨scan', hrun', (List.perm_ext_iff_of_nodup hnodup hnodup').2 ?_⟩
  intro i
  rw [hclosure, hclosure']
  constructor
  · rintro ⟨p, hp, hpi⟩
    exact ⟨p, hp.mono fun q hq => hperm.mem_iff.1 hq, hpi⟩
  · rintro ⟨p, hp, hpi⟩
    exact ⟨p, hp.mono fun q hq => hperm.mem_iff.2 hq, hpi⟩

theorem run_is_include_closure_crossed :
    (crossed.run [⟨"/main.cpp"⟩, ⟨"inc/a.h"⟩] {}).reached.set.paths =
        [⟨"/inc/link.h"⟩, ⟨"/inc/b.h"⟩] ∧
      ∃ scan, crossed.run [⟨"/main.cpp"⟩, ⟨"inc/a.h"⟩] {} = .ok () scan ∧
        (scan.set.identities crossed.fs).Nodup ∧
        (∀ i, i ∈ scan.set.identities crossed.fs ↔
          ∃ p, crossed.Closure [⟨"/main.cpp"⟩, ⟨"inc/a.h"⟩] p ∧ crossed.fs.identity p = i) ∧
        ∀ sources' cache', [⟨"/main.cpp"⟩, ⟨"inc/a.h"⟩].Perm sources' →
          cache'.Agrees crossed.fs →
          ∃ scan', crossed.run sources' cache' = .ok () scan' ∧
            (scan.set.identities crossed.fs).Perm (scan'.set.identities crossed.fs) := by
  refine ⟨by decide +kernel, run_is_include_closure crossed _ {} (FileCache.agrees_empty _) ?_⟩
  intro p hp
  exact FileSystem.text_of_isFile (by decide +kernel) hp.isFile

end Scanner

end HeaderReflection
