import HeaderReflection.Proofs.WorkingSet.LeftOut
import HeaderReflection.Proofs.WorkingSet.Output
import Mathlib.Data.List.Forall2

/-!
# What the commands have in common

The command that writes registration code leaves out the file that it writes; the others do not know
that file. Where it is no source anyway, all commands find the same files in the same order and the
same classes in them, or end in the same failure (`Inputs.workingSet_eq`). So the code that is
printed is the code of the classes that are shown, and these stand in the files that are listed
(`CommandLine.commands_agree`).

The file that is written is looked for twice: among the sources of the build by its components, and
among all sources by its canonical path. The two differ for a path that leads nowhere because a
slash ends it, although its components are those of a source behind a link.
-/

namespace HeaderReflection

namespace Inputs

variable {fs : FileSystem} {settings : Settings} {inputs : Inputs} {output : Path}

/-! ## Sources with and without the output -/

/-- What is excluded is taken from the sources of the build. -/
theorem ofBuild_excluded (excluded : List Path) :
    inputs.ofBuild fs settings excluded =
      (inputs.ofBuild fs settings []).map fun build =>
        { build with sources := build.sources.filter fun p =>
            !excluded.any fun q => q.components = p.components } := by
  unfold ofBuild
  split
  · rfl
  · rfl
  next build name hbuild hname =>
    simp only [BuildReply.sources, bind, Except.bind, pure, Except.pure]
    cases BuildReply.loadTarget fs (build.join settings.replyDirectory) name with
    | error e => rfl
    | ok target =>
      dsimp only
      cases BuildReply.includeDirectories fs (build.join settings.replyDirectory) name with
      | error e => rfl
      | ok directories => simp [Except.map]

/-- The path is that of the file to write, or it is spelled like it and comes from the build. -/
def IsOutput (fs : FileSystem) (settings : Settings) (inputs : Inputs) (output source : Path) :
    Prop :=
  fs.identity source = fs.identity (writtenPath fs output) ∨
    ∃ build, inputs.ofBuild fs settings [] = .ok build ∧ source ∈ build.sources ∧
      source.components = (writtenPath fs output).components

/-- The inputs give the same with and without an output, but for sources that are the output. -/
theorem gather_some (fs : FileSystem) (settings : Settings) (inputs : Inputs) (output : Path) :
    match inputs.gather fs settings none with
    | .error e => inputs.gather fs settings (some output) = .error e
    | .ok gathered =>
      ∃ sources, inputs.gather fs settings (some output) = .ok ⟨sources, gathered.directories⟩ ∧
        Leaves (IsOutput fs settings inputs output) gathered.sources sources := by
  unfold gather
  simp only [bind, Except.bind, pure, Except.pure, Option.map_none, Option.map_some,
    Option.toList_none, Option.toList_some]
  rw [ofBuild_excluded [_]]
  by_cases hmissing : inputs.areMissing = true
  · simp only [hmissing, if_true]
    rfl
  simp only [hmissing]
  cases hbuild : inputs.ofBuild fs settings [] with
  | error e => rfl
  | ok build =>
    cases Sources.ofArguments fs inputs.arguments with
    | error e => rfl
    | ok named =>
      cases inputs.inDirectory fs settings with
      | error e => rfl
      | ok found =>
        refine ⟨_, rfl, ?_⟩
        have hspelled : Leaves (IsOutput fs settings inputs output)
            (build.sources ++ named ++ found)
            ((build.sources.filter fun p =>
              !([(Path.ofPlace fs.start).join output] : List Path).any fun q =>
                q.components = p.components) ++ named ++ found) := by
          refine .append (.append (.filter fun source hsource hleft => ?_) (.refl _ _)) (.refl _ _)
          have hsame : (writtenPath fs output).components = source.components := by
            simpa [writtenPath] using hleft
          exact .inr ⟨build, hbuild, hsource, hsame.symm⟩
        have hcanonical : ∀ sources : List Path, Leaves (IsOutput fs settings inputs output) sources
            (sources.filter fun p => !(some ((Path.ofPlace fs.start).join output)).any fun o =>
              fs.identity p = fs.identity o) := by
          refine fun sources => Leaves.filter fun source _ hleft => .inl ?_
          simpa [writtenPath] using hleft
        have hall : (build.sources ++ named ++ found).filter
            (fun p => !(none : Option Path).any fun o => fs.identity p = fs.identity o) =
              build.sources ++ named ++ found := List.filter_eq_self.2 fun _ _ => rfl
        rw [hall]
        exact hspelled.trans (hcanonical _)

/-- No source is the file to write, and none that the build names and that is there is spelled like
it. -/
structure Spares (fs : FileSystem) (settings : Settings) (inputs : Inputs) (output : Path) :
    Prop where
  canonical : ∀ gathered, inputs.gather fs settings none = .ok gathered →
    ∀ source ∈ gathered.sources, fs.identity source ≠ fs.identity (writtenPath fs output)
  spelled : ∀ build, inputs.ofBuild fs settings [] = .ok build → ∀ source ∈ build.sources,
    fs.isFile source = true → source.components ≠ (writtenPath fs output).components

/-- What holds of a result is decided where there is one. -/
instance {ε α : Type} {p : α → Prop} [∀ a, Decidable (p a)] :
    ∀ x : Except ε α, Decidable (∀ a, x = .ok a → p a)
  | .error _ => .isTrue nofun
  | .ok a => decidable_of_iff (p a) ⟨fun h _ hx => Except.ok.inj hx ▸ h, fun h => h a rfl⟩

instance : Decidable (inputs.Spares fs settings output) :=
  decidable_of_iff (_ ∧ _) ⟨fun h => ⟨h.1, h.2⟩, fun h => ⟨h.canonical, h.spelled⟩⟩

/-! ## The same files -/

/-- What a run finds, in terms of its scan. -/
theorem result_workingSet (output : Option Path) :
    (inputs.workingSet fs settings output).result =
      match inputs.gather fs settings output with
      | .error e => .error e
      | .ok gathered =>
        match (gathered.scanner fs settings).run gathered.sources {} with
        | .error e _ => .error e
        | .ok _ scan => .ok (scan.set, scan.cache) := by
  unfold workingSet
  cases inputs.gather fs settings output with
  | error e => rfl
  | ok gathered =>
    dsimp only [Gathered.scanner]
    cases Scanner.run _ gathered.sources {} with
    | error e scan => rfl
    | ok u scan => rfl

/-- **If the output is no source, it makes no difference to what a run finds.** -/
theorem workingSet_eq (h : inputs.Spares fs settings output) :
    (inputs.workingSet fs settings (some output)).result =
      (inputs.workingSet fs settings none).result := by
  have hgather := gather_some fs settings inputs output
  rw [result_workingSet, result_workingSet]
  cases hnone : inputs.gather fs settings none with
  | error e =>
    rw [hnone] at hgather
    rw [hgather]
  | ok gathered =>
    rw [hnone] at hgather
    obtain ⟨sources, hsome, hleaves⟩ := hgather
    have hfiles : Leaves (fun p => fs.isFile p = false) gathered.sources sources := by
      refine hleaves.imp fun source hsource houtput => ?_
      rcases houtput with hsame | ⟨build, hbuild, hmem, hspelled⟩
      · exact absurd hsame (h.canonical gathered hnone source hsource)
      · refine eq_false_of_ne_true fun hfile => ?_
        exact h.spelled build hbuild source hmem hfile hspelled
    have hagree := Scanner.run_leaves (s := gathered.scanner fs settings) hfiles {}
    rw [hsome]
    dsimp only [Gathered.scanner] at hagree ⊢
    generalize Scanner.run _ gathered.sources {} = left at hagree ⊢
    generalize Scanner.run _ sources {} = right at hagree ⊢
    cases hagree with
    | ok hsame =>
      dsimp only
      rw [hsame.set, hsame.cache]
    | error e hsame => rfl

/-! ## The same classes -/

theorem result_classes (output : Option Path) :
    (inputs.classes fs settings output).result =
      match (inputs.workingSet fs settings output).result with
      | .error e => .error e
      | .ok (set, cache) =>
        match set.classes fs cache with
        | .error e _ => .error e
        | .ok classes _ => .ok (set, classes) := by
  unfold classes
  cases inputs.workingSet fs settings output with
  | mk skipped result =>
    cases result with
    | error e => rfl
    | ok found =>
      obtain ⟨set, cache⟩ := found
      dsimp only
      cases set.classes fs cache with
      | error e cache => rfl
      | ok classes cache => rfl

theorem result_generate :
    (inputs.generate fs settings output true).result =
      (inputs.classes fs settings (some output)).result.map fun found =>
        settings.registration.write found.2 := by
  unfold generate
  cases inputs.classes fs settings (some output) with
  | mk skipped result =>
    cases result with
    | error e => rfl
    | ok found => rfl

end Inputs

/-- A file has a text, and these are the classes in it. -/
def WorkItem.Parses (fs : FileSystem) (item : WorkItem) (classes : List Model.Class) : Prop :=
  ∃ text, fs.text? item.path = some text ∧ Model.classesOfText item.target text = .ok classes

/-- The classes of several files are those of each file, in the order of the files. -/
theorem WorkItem.forall_parses {fs : FileSystem} {items : List WorkItem} {cache last : FileCache}
    {classes : List Model.Class} (hcache : cache.Agrees fs)
    (hfiles : ∀ item ∈ items, fs.isFile item.path = true)
    (h : classesOfAll fs items cache = .ok classes last) :
    ∃ parsed, List.Forall₂ (Parses fs) items parsed ∧ classes = parsed.flatten := by
  induction items generalizing cache classes with
  | nil =>
    cases h
    exact ⟨[], .nil, rfl⟩
  | cons item items ih =>
    rw [classesOfAll] at h
    split at h
    next => cases h
    next text cache' hread =>
    split at h
    next => cases h
    next found hfound =>
    split at h
    next => cases h
    next more cache'' hmore =>
      cases h
      obtain ⟨hitem, hitems⟩ := List.forall_mem_cons.1 hfiles
      obtain ⟨htext, hagrees⟩ := FileCache.text?_of_read? hcache hitem hread
      obtain ⟨parsed, hparsed, rfl⟩ := ih hagrees hitems hmore
      exact ⟨found :: parsed, .cons ⟨text, htext, hfound⟩ hparsed, rfl⟩

/-- What a scan found can be read: the texts that it kept are those of the files, and all that it
found are files. -/
theorem Scanner.found_of_run {s : Scanner} {sources : List Path} {scan : Scan}
    (h : s.run sources {} = .ok () scan) :
    scan.cache.Agrees s.fs ∧ ∀ item ∈ scan.set.items, s.fs.isFile item.path = true := by
  have hsources := scanSources_of_inv sources (fun _ hp => hp) {}
    (Scan.inv_start (FileCache.agrees_empty s.fs))
  rw [run] at h
  cases hreached : s.scanSources sources {} with
  | error e reached =>
    rw [hreached] at h
    cases h
  | ok u reached =>
    rw [hreached] at h hsources
    have hlast := drain_of_inv hsources.1
    rw [show s.drain reached = _ from h] at hlast
    refine ⟨hlast.1.cache, fun item hitem => ?_⟩
    exact (hlast.1.sound item.path (List.mem_map_of_mem hitem)).isFile

namespace Inputs

variable {fs : FileSystem} {settings : Settings} {inputs : Inputs}

/-- The classes that a run finds are those of the files of its working set, in their order. -/
theorem forall_parses_of_classes {output : Option Path} {set : WorkingSet}
    {classes : List Model.Class}
    (h : (inputs.classes fs settings output).result = .ok (set, classes)) :
    (∃ cache, (inputs.workingSet fs settings output).result = .ok (set, cache)) ∧
      ∃ parsed, List.Forall₂ (WorkItem.Parses fs) set.items parsed ∧ classes = parsed.flatten := by
  rw [result_classes, result_workingSet] at h
  rw [result_workingSet]
  cases hgather : inputs.gather fs settings output with
  | error e =>
    rw [hgather] at h
    cases h
  | ok gathered =>
    simp only [hgather] at h ⊢
    cases hrun : (gathered.scanner fs settings).run gathered.sources {} with
    | error e scan =>
      rw [hrun] at h
      cases h
    | ok u scan =>
      simp only [hrun] at h ⊢
      obtain ⟨hcache, hfiles⟩ := Scanner.found_of_run hrun
      cases hclasses : scan.set.classes fs scan.cache with
      | error e last =>
        rw [hclasses] at h
        cases h
      | ok all last =>
        rw [hclasses] at h
        cases h
        exact ⟨⟨scan.cache, rfl⟩, WorkItem.forall_parses hcache hfiles hclasses⟩

/-- The output makes no difference to the classes either. -/
theorem classes_eq {output : Path} (h : inputs.Spares fs settings output) :
    (inputs.classes fs settings (some output)).result =
      (inputs.classes fs settings none).result := by
  rw [result_classes, result_classes, workingSet_eq h]

end Inputs

/-! ## What the commands print -/

/-- Classes that are not marked leave no trace in the code. -/
theorem Registration.write_marked (r : Registration) (classes : List Model.Class) :
    r.write (classes.filter (·.isMarked r.marker)) = r.write classes := by
  simp only [write, List.filter_filter, Bool.and_self]

namespace CommandLine

/-- What a command comes to with the settings and inputs of a command line. -/
def resultOf (fs : FileSystem) (line : CommandLine) (command : Command) : Except Failure String :=
  ({ line with command := command }.perform fs).result

variable {fs : FileSystem} {line : CommandLine} {settings : Settings}

theorem resultOf_of_loadError {e : Failure}
    (h : Settings.load fs line.settings (.ofPlace fs.start) = .error e) (command : Command) :
    line.resultOf fs command = .error e := by
  simp only [resultOf, perform, h]

theorem resultOf_of_load (h : Settings.load fs line.settings (.ofPlace fs.start) = .ok settings)
    (command : Command) :
    line.resultOf fs command =
      (line.inputs.perform fs (line.adjust settings) command).result := by
  simp only [resultOf, perform, h]
  rfl

theorem adjust_registration (line : CommandLine) (settings : Settings) :
    (line.adjust settings).registration = settings.registration := by
  unfold adjust
  split
  · rfl
  · rfl

/-- **Code that is printed is the code of the classes that are shown.** Where the output is no
source, printing the code and showing the marked classes end in the same failure, or succeed both.
Then the classes are those of the files that are listed, in the order of the list. -/
theorem commands_agree {output : Path}
    (h : ∀ settings, Settings.load fs line.settings (.ofPlace fs.start) = .ok settings →
      line.inputs.Spares fs (line.adjust settings) output)
    (format : Format) (oneLine : Bool) :
    (∀ e, line.resultOf fs (.generate output true) = .error e ↔
      line.resultOf fs (.inspect format true) = .error e) ∧
    ∀ text, line.resultOf fs (.generate output true) = .ok text →
      ∃ settings set parsed marked,
        Settings.load fs line.settings (.ofPlace fs.start) = .ok settings ∧
        line.resultOf fs (.dependencies oneLine) = .ok (Inputs.filesText oneLine set) ∧
        List.Forall₂ (WorkItem.Parses fs) set.items parsed ∧
        marked = parsed.flatten.filter (·.isMarked settings.marker) ∧
        line.resultOf fs (.inspect format true) = .ok (Inputs.modelText format marked) ∧
        text = settings.registration.write marked := by
  cases hload : Settings.load fs line.settings (.ofPlace fs.start) with
  | error e =>
    have hfails := resultOf_of_loadError hload
    refine ⟨fun e' => by rw [hfails, hfails], fun text htext => ?_⟩
    rw [hfails] at htext
    cases htext
  | ok settings =>
    have hgenerate : line.resultOf fs (.generate output true) =
        (line.inputs.classes fs (line.adjust settings) none).result.map fun found =>
          (line.adjust settings).registration.write found.2 := by
      rw [resultOf_of_load hload, Inputs.perform, Inputs.result_generate,
        Inputs.classes_eq (h settings hload)]
    have hinspect : line.resultOf fs (.inspect format true) =
        (line.inputs.classes fs (line.adjust settings) none).result.map fun found =>
          Inputs.modelText format (Inputs.shown (line.adjust settings) true found.2) :=
      resultOf_of_load hload _
    have hlist : line.resultOf fs (.dependencies oneLine) =
        (line.inputs.workingSet fs (line.adjust settings) none).result.map fun found =>
          Inputs.filesText oneLine found.1 :=
      resultOf_of_load hload _
    rw [hgenerate, hinspect, hlist]
    cases hfound : (line.inputs.classes fs (line.adjust settings) none).result with
    | error e => exact ⟨fun _ => Iff.rfl, fun _ htext => nomatch htext⟩
    | ok found =>
      obtain ⟨set, classes⟩ := found
      obtain ⟨⟨cache, hset⟩, parsed, hparsed, rfl⟩ := Inputs.forall_parses_of_classes hfound
      refine ⟨fun _ => ⟨nofun, nofun⟩, fun text htext => ?_⟩
      cases htext
      have hregistration := adjust_registration line settings
      have hmarker : (line.adjust settings).marker = settings.marker :=
        congrArg Registration.marker hregistration
      refine ⟨settings, set, parsed, _, rfl, by rw [hset]; rfl, hparsed, rfl, ?_, ?_⟩
      · rw [← hmarker]
        rfl
      · rw [hregistration]
        exact (settings.registration.write_marked parsed.flatten).symm

/-- A tree with two headers, one of which includes the other. -/
def twoHeaders : FileSystem where
  root := .directory [
    ("a.h", .file "#include \"b.h\"\nclass [[SH::Reflect]] A \x7b\x7d;\nclass C;\n".toUTF8),
    ("b.h", .file "class [[SH::Reflect]] B \x7b\x7d;\n".toUTF8)]
  start := []

/-- A command line over that tree. -/
def ofTwoHeaders : CommandLine where
  banner := false
  quiet := false
  settings := none
  directOnly := false
  inputs := { arguments := ["a.h"], includeDirectories := [⟨"."⟩] }
  command := .dependencies false

theorem commands_agree_of_twoHeaders :
    (∀ settings, Settings.load twoHeaders ofTwoHeaders.settings (.ofPlace twoHeaders.start) =
        .ok settings →
      ofTwoHeaders.inputs.Spares twoHeaders (ofTwoHeaders.adjust settings) ⟨"out.cpp"⟩) ∧
    (ofTwoHeaders.resultOf twoHeaders (.generate ⟨"out.cpp"⟩ true)).isOk = true ∧
    (∀ e, ofTwoHeaders.resultOf twoHeaders (.generate ⟨"out.cpp"⟩ true) = .error e ↔
      ofTwoHeaders.resultOf twoHeaders (.inspect .json true) = .error e) ∧
    ∀ text, ofTwoHeaders.resultOf twoHeaders (.generate ⟨"out.cpp"⟩ true) = .ok text →
      ∃ settings set parsed marked,
        Settings.load twoHeaders ofTwoHeaders.settings (.ofPlace twoHeaders.start) = .ok settings ∧
        ofTwoHeaders.resultOf twoHeaders (.dependencies true) = .ok (Inputs.filesText true set) ∧
        List.Forall₂ (WorkItem.Parses twoHeaders) set.items parsed ∧
        marked = parsed.flatten.filter (·.isMarked settings.marker) ∧
        ofTwoHeaders.resultOf twoHeaders (.inspect .json true) =
          .ok (Inputs.modelText .json marked) ∧
        text = settings.registration.write marked := by
  have hspares : ∀ settings,
      Settings.load twoHeaders ofTwoHeaders.settings (.ofPlace twoHeaders.start) = .ok settings →
      ofTwoHeaders.inputs.Spares twoHeaders (ofTwoHeaders.adjust settings) ⟨"out.cpp"⟩ := by
    decide +kernel
  exact ⟨hspares, by decide +kernel, commands_agree hspares .json true⟩

/-- A tree with a header behind a link, which a target of a build folder names. -/
def linkedHeader : FileSystem where
  root := .directory [
    ("real", .directory [("x.h", .file "class [[SH::Reflect]] A \x7b\x7d;\n".toUTF8)]),
    ("link", .link "real"),
    ("build", .directory [(".cmake", .directory [("api", .directory [("v1", .directory [("reply",
      .directory [
        ("codemodel-v2-1.json", .file ("\x7b\"paths\": \x7b\"source\": \"/\"\x7d, " ++
          "\"configurations\": [\x7b\"targets\": [" ++
          "\x7b\"name\": \"t\", \"jsonFile\": \"t.json\"\x7d]\x7d]\x7d").toUTF8),
        ("t.json", .file
          "\x7b\"sources\": [\x7b\"path\": \"link/x.h\"\x7d]\x7d".toUTF8)])])])])])]
  start := []

/-- A command line over that target. -/
def ofLinkedHeader : CommandLine :=
  { ofTwoHeaders with inputs := { target := some "t", buildFolder := some ⟨"build"⟩ } }

/-- **The canonical paths of the sources do not tell whether the commands agree.** A path that ends
in a slash leads to no file, so it is no canonical path of a source. It has the components of the
path without the slash, and the sources of a build are compared by these. -/
theorem not_forall_commands_agree :
    ¬∀ (fs : FileSystem) (line : CommandLine) (output : Path) (settings : Settings)
      (set : WorkingSet) (classes : List Model.Class),
      Settings.load fs line.settings (.ofPlace fs.start) = .ok settings →
      (∀ gathered, line.inputs.gather fs (line.adjust settings) none = .ok gathered →
        ∀ source ∈ gathered.sources,
          fs.identity source ≠ fs.identity (Inputs.writtenPath fs output)) →
      (line.inputs.classes fs (line.adjust settings) none).result = .ok (set, classes) →
      line.resultOf fs (.generate output true) =
        .ok (settings.registration.write (classes.filter (·.isMarked settings.marker))) := by
  intro h
  have hload : Settings.load linkedHeader ofLinkedHeader.settings (.ofPlace linkedHeader.start) =
      .ok {} := by decide +kernel
  have hcanonical : ∀ gathered, ofLinkedHeader.inputs.gather linkedHeader {} none = .ok gathered →
      ∀ source ∈ gathered.sources, linkedHeader.identity source ≠
        linkedHeader.identity (Inputs.writtenPath linkedHeader ⟨"link/x.h/"⟩) := by
    decide +kernel
  have hfinds : (ofLinkedHeader.inputs.classes linkedHeader {} none).result.isOk = true := by
    decide +kernel
  have hdiffers : ofLinkedHeader.resultOf linkedHeader (.generate ⟨"link/x.h/"⟩ true) ≠
      (ofLinkedHeader.inputs.classes linkedHeader {} none).result.map fun found =>
        ({} : Settings).registration.write (found.2.filter (·.isMarked {})) := by
    decide +kernel
  cases hfound : (ofLinkedHeader.inputs.classes linkedHeader {} none).result with
  | error e =>
    rw [hfound] at hfinds
    cases hfinds
  | ok found =>
    rw [hfound] at hdiffers
    exact hdiffers (h _ _ _ _ _ _ hload hcanonical hfound)

end CommandLine

end HeaderReflection
