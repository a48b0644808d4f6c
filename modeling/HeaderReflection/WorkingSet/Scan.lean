import HeaderReflection.Failure
import HeaderReflection.FileCache
import HeaderReflection.Include.Directive
import HeaderReflection.Include.Search
import HeaderReflection.Settings
import HeaderReflection.WorkingSet

/-!
# Finding the files of a run

The sources are taken in order: a header among them is a file of the run itself, and the includes
of every source are. The headers that are found this way wait in a queue until their own includes
are added, if the settings say so. Every header that waits was new to the working set, so the scan
ends on any tree of files, also when headers include each other.
-/

namespace HeaderReflection

/-- What a scan looks at. -/
structure Scanner where
  /-- The files as they are. -/
  fs : FileSystem
  /-- What the run was told. -/
  settings : Settings
  /-- The include directories in order. -/
  directories : List Path

/-- Why a source is left out. -/
inductive Skipped
  | notEligible (source : Path)
  | notFound (source : Path)
  deriving DecidableEq, Repr

/-- The text of a warning. -/
def Skipped.message : Skipped → String
  | notEligible source => s!"skipping {source.text}: not a C++ source or header"
  | notFound source => s!"skipping {source.text}: file not found"

/-- How far a scan has come. -/
structure Scan where
  /-- The files found so far. -/
  set : WorkingSet := {}
  /-- The texts read so far. -/
  cache : FileCache := {}
  /-- The headers whose includes are still to be added. -/
  queue : List Path := []
  /-- The sources left out so far. -/
  skipped : List Skipped := []

/-- What a step of a scan gives. -/
abbrev ScanResult := EStateM.Result Failure Scan Unit

/-- How far a scan has come, whether or not it failed. -/
def ScanResult.reached : ScanResult → Scan
  | .ok _ scan => scan
  | .error _ scan => scan

namespace Scanner

/-- Adds included files to a set, and gives the paths of those that are new. -/
def addIncludes (s : Scanner) (set : WorkingSet) : List String → WorkingSet × List Path
  | [] => (set, [])
  | target :: targets =>
    match Include.resolve? s.fs s.directories target with
    | none => addIncludes s set targets
    | some p =>
      if s.settings.isEligible p then
        let added := set.insert s.fs p target
        let more := addIncludes s added.1 targets
        (more.1, if added.2 then p :: more.2 else more.2)
      else addIncludes s set targets

/-- The number of new files is at most the number of files that the set lacked and lacks no
more. -/
theorem unseen_addIncludes (s : Scanner) (set : WorkingSet) (targets : List String) :
    (s.addIncludes set targets).1.unseen s.fs + (s.addIncludes set targets).2.length ≤
      set.unseen s.fs := by
  fun_induction addIncludes s set targets with
  | case1 => simp
  | case2 _ _ _ _ ih => exact ih
  | case3 set target targets p hp _ added more ih =>
    have hle := WorkingSet.unseen_insert_le s.fs p target set
    by_cases hnew : added.2 = true
    · have hlt := WorkingSet.unseen_insert_lt (Include.isFile_of_resolve? hp) hnew
      simp only [hnew, if_true, List.length_cons, more]
      simp only [added] at *
      omega
    · simp only [hnew, more]
      simp only [added] at *
      simp
      omega
  | case4 _ _ _ _ _ _ ih => exact ih

/-- Adds the includes of a file. -/
def scanFile (s : Scanner) (p : Path) (scan : Scan) : ScanResult :=
  match scan.cache.read? s.fs p with
  | none => .error (.unreadable p) scan
  | some (text, cache) =>
    let added := s.addIncludes scan.set (Include.allOfString text)
    .ok () { scan with
      set := added.1
      cache := cache
      queue := scan.queue ++ (if s.settings.followIncludes then added.2 else []) }

/-- Each header that comes to the queue is paid for by a file that the set lacked. -/
theorem measure_scanFile {s : Scanner} {p : Path} {scan next : Scan} {u : Unit}
    (h : s.scanFile p scan = .ok u next) :
    2 * next.set.unseen s.fs + next.queue.length ≤
      2 * scan.set.unseen s.fs + scan.queue.length := by
  unfold scanFile at h
  split at h
  · cases h
  next text cache _ =>
    cases h
    have := unseen_addIncludes s scan.set (Include.allOfString text)
    simp only [List.length_append]
    split <;> simp <;> omega

/-- Whether the extension of a path is that of a header. -/
def isHeader (p : Path) : Bool := p.extension?.any fun e => e.toList.head? = some 'h'

/-- Takes one source. -/
def scanSource (s : Scanner) (source : Path) (scan : Scan) : ScanResult :=
  if !s.settings.isEligible source then
    .ok () { scan with skipped := scan.skipped ++ [.notEligible source] }
  else if !s.fs.isFile source then
    .ok () { scan with skipped := scan.skipped ++ [.notFound source] }
  else if isHeader source then
    let added := scan.set.insert s.fs source (Include.textFor s.fs s.directories source)
    s.scanFile source { scan with set := added.1 }
  else s.scanFile source scan

/-- Takes the sources in order. -/
def scanSources (s : Scanner) : List Path → Scan → ScanResult
  | [], scan => .ok () scan
  | source :: sources, scan =>
    match s.scanSource source scan with
    | .error e scan => .error e scan
    | .ok _ scan => scanSources s sources scan

/-- Takes the headers that wait, until none is left. -/
def drain (s : Scanner) (scan : Scan) : ScanResult :=
  match _hq : scan.queue with
  | [] => .ok () scan
  | p :: queue =>
    match _h : s.scanFile p { scan with queue := queue } with
    | .error e next => .error e next
    | .ok _ next => drain s next
termination_by 2 * scan.set.unseen s.fs + scan.queue.length
decreasing_by
  have := measure_scanFile _h
  simp [_hq] at *
  omega

/-- Finds the files of a run from its sources. -/
def run (s : Scanner) (sources : List Path) (cache : FileCache) : ScanResult :=
  match s.scanSources sources { cache := cache } with
  | .error e scan => .error e scan
  | .ok _ scan => s.drain scan

end Scanner

end HeaderReflection
