import HeaderReflection.Output
import HeaderReflection.Proofs.FileTree.Nodes

/-!
# What writing the output changes

Writing a file changes the place that its path leads to afterwards, where there was a file or
nothing before (`FileSystem.write_spec`). Making directories adds directories at places that a front
part of the path leads to (`FileSystem.MakesAbove`). So when the output is written, everything else
stays as it was, and the text is read back under the path of the output
(`FileSystem.writeIfChanged_spec`).
-/

namespace HeaderReflection

namespace FileSystem

variable {root root' : Entry}

/-! ## Where a file is written -/

/-- A file is written at an open place, over a file or over nothing. -/
structure IsWritable (root : Entry) (place : Place) : Prop where
  isOpen : root.IsOpen place
  old : root.node? place = none ∨ ∃ bytes, root.node? place = some (.file bytes)

/-- A name in a directory is writable if it is free or that of a file. -/
theorem isWritable_name {place : Place} {step : String} {entries : List (String × Entry)}
    (hplace : root.find? place = some (.directory entries))
    (hold : root.find? (place ++ [step]) = none ∨
      ∃ bytes, root.find? (place ++ [step]) = some (.file bytes)) :
    IsWritable root (place ++ [step]) where
  isOpen := by
    refine ⟨⟨place, step, entries, rfl, hplace⟩, fun old hfound => ?_⟩
    rcases hold with hnone | ⟨bytes, hfile⟩
    · rw [hnone] at hfound
      cases hfound
    · rw [hfile] at hfound
      cases hfound
      exact Entry.isLeaf_file bytes
  old := hold.imp Entry.node?_eq_none_iff.2 fun ⟨bytes, hfile⟩ =>
    ⟨bytes, Entry.node?_eq_file_iff.2 hfile⟩

theorem isWritable_of_walkNew {onLink : Place → List String → Option Place}
    (hlink : ∀ place steps r, onLink place steps = some r → IsWritable root r) {place r : Place}
    {steps : List String} (h : walkNew root onLink place steps = some r) : IsWritable root r := by
  induction steps generalizing place with
  | nil => cases h
  | cons step steps ih =>
    rw [walkNew] at h
    split at h
    next entries hplace =>
      by_cases hidle : Path.isIdle step = true
      · rw [if_pos hidle] at h
        exact ih h
      rw [if_neg hidle] at h
      by_cases hup : step = ".."
      · rw [if_pos hup] at h
        exact ih h
      rw [if_neg hup] at h
      split at h
      next target hnext => exact hlink _ _ _ h
      next children hnext => exact ih h
      next bytes hnext =>
        split at h
        · cases h
          exact isWritable_name hplace (.inr ⟨bytes, hnext⟩)
        · cases h
      next hnext =>
        split at h
        · cases h
          exact isWritable_name hplace (.inl hnext)
        · cases h
    next => cases h

theorem isWritable_of_followNew {links : Nat} {place r : Place} {steps : List String}
    (h : followNew root links place steps = some r) : IsWritable root r := by
  induction links generalizing place steps r with
  | zero =>
    rw [followNew] at h
    refine isWritable_of_walkNew (fun _ _ _ hnone => ?_) h
    cases hnone
  | succ links ih =>
    rw [followNew] at h
    exact isWritable_of_walkNew (fun _ _ _ hlink => ih hlink) h

/-- Once the file is there, a walk comes to where it was to be written. -/
theorem walk_of_walkNew (h : Entry.Extends root root') {r : Place} {bytes : ByteArray}
    (hr : root'.find? r = some (.file bytes)) {onLink onLink' : Place → List String → Option Place}
    (hlink : ∀ place steps, onLink place steps = some r → onLink' place steps = some r)
    {place : Place} {steps : List String} (hwalk : walkNew root onLink place steps = some r) :
    walk root' onLink' place steps = some r := by
  induction steps generalizing place with
  | nil => cases hwalk
  | cons step steps ih =>
    rw [walkNew] at hwalk
    rw [walk]
    split at hwalk
    next entries hplace =>
      obtain ⟨entries', hplace'⟩ := Entry.node?_eq_directory_iff.1
        (h.directory place (Entry.node?_eq_directory_iff.2 ⟨entries, hplace⟩))
      rw [hplace']
      dsimp only
      by_cases hidle : Path.isIdle step = true
      · rw [if_pos hidle] at hwalk ⊢
        exact ih hwalk
      rw [if_neg hidle] at hwalk ⊢
      by_cases hup : step = ".."
      · rw [if_pos hup] at hwalk ⊢
        exact ih hwalk
      rw [if_neg hup] at hwalk ⊢
      split at hwalk
      next target hnext =>
        have hsame := h.link _ _ (Entry.node?_eq_link_iff.2 hnext)
        rw [Entry.node?_eq_link_iff.1 hsame]
        exact hlink _ _ hwalk
      next children hnext =>
        obtain ⟨children', hsame⟩ := Entry.node?_eq_directory_iff.1
          (h.directory _ (Entry.node?_eq_directory_iff.2 ⟨children, hnext⟩))
        rw [hsame]
        exact ih hwalk
      next old hnext =>
        split at hwalk
        next hlast =>
          cases hwalk
          rw [hr, hlast]
          rfl
        next => cases hwalk
      next hnext =>
        split at hwalk
        next hlast =>
          cases hwalk
          rw [hr, hlast.1]
          rfl
        next => cases hwalk
    next => cases hwalk

theorem follow_of_followNew (h : Entry.Extends root root') {links : Nat} {place r : Place}
    {steps : List String} {bytes : ByteArray} (hr : root'.find? r = some (.file bytes))
    (hfollow : followNew root links place steps = some r) :
    follow root' links place steps = some r := by
  induction links generalizing place steps with
  | zero =>
    rw [followNew] at hfollow
    rw [follow]
    refine walk_of_walkNew h hr (fun _ _ hnone => ?_) hfollow
    cases hnone
  | succ links ih =>
    rw [followNew] at hfollow
    rw [follow]
    exact walk_of_walkNew h hr (fun _ _ hlink => ih hlink) hfollow

/-- **A file that is written is found again under its path,** with its bytes, and no other place is
changed. -/
theorem write_spec {fs fs' : FileSystem} {p : Path} {bytes : ByteArray}
    (h : fs.write? p bytes = some fs') :
    fs'.start = fs.start ∧ Entry.Extends fs.root fs'.root ∧
      ∃ place, fs'.locate? p = some place ∧ fs'.root.find? place = some (.file bytes) ∧
        (fs.root.node? place = none ∨ ∃ old, fs.root.node? place = some (.file old)) ∧
        ∀ other, other ≠ place → fs'.root.node? other = fs.root.node? other := by
  unfold write? at h
  split at h
  · cases h
  next htext =>
  obtain ⟨place, hplace, rfl⟩ := Option.map_eq_some_iff.1 h
  have hwritable := isWritable_of_followNew hplace
  have hnew : (Entry.file bytes).IsLeaf := Entry.isLeaf_file bytes
  have hfound := hwritable.isOpen.find?_put (.file bytes)
  have hextends : Entry.Extends fs.root (fs.root.put place (.file bytes)) :=
    hwritable.isOpen.extends_put hnew (hwritable.old.imp_right fun hold => ⟨hold, bytes, rfl⟩)
  refine ⟨rfl, hextends, place, ?_, hfound, hwritable.old, fun other hother => ?_⟩
  · rw [locate?, if_neg htext]
    exact follow_of_followNew hextends hfound hplace
  · exact hwritable.isOpen.node?_put hnew hother

/-! ## Where directories are made -/

/-- Front parts of the steps from a place that lead to another place. -/
def LeadsAbove (root : Entry) (start : Place) (steps : List String) (place : Place) : Prop :=
  ∃ front, front <+: steps ∧ follow root linkLimit start front = some place

/-- One tree has all that another one has, and besides only directories that front parts of the
steps lead to. -/
structure MakesAlong (start : Place) (steps : List String) (root root' : Entry) : Prop where
  keeps : Entry.Extends root root'
  nodes : ∀ place, root'.node? place = root.node? place ∨
    root.node? place = none ∧ root'.node? place = some .directory ∧
      LeadsAbove root' start steps place

theorem MakesAlong.refl (start : Place) (steps : List String) (root : Entry) :
    MakesAlong start steps root root where
  keeps := .refl root
  nodes _ := .inl rfl

theorem MakesAlong.trans {start : Place} {steps : List String} {root'' : Entry}
    (h : MakesAlong start steps root root') (h' : MakesAlong start steps root' root'') :
    MakesAlong start steps root root'' where
  keeps := h.keeps.trans h'.keeps
  nodes place := by
    rcases h'.nodes place with hsame' | ⟨hnone', hmade', habove'⟩
    · rcases h.nodes place with hsame | ⟨hnone, hmade, front, hfront, hleads⟩
      · exact .inl (hsame'.trans hsame)
      · exact .inr ⟨hnone, hsame'.trans hmade, front, hfront, follow_extends h'.keeps hleads⟩
    · rcases h.nodes place with hsame | ⟨-, hmade, -⟩
      · exact .inr ⟨hsame.symm.trans hnone', hmade', habove'⟩
      · rw [hmade] at hnone'
        cases hnone'

/-- Idle steps lead nowhere else. -/
theorem walk_idle {onLink : Place → List String → Option Place} {place : Place}
    {steps : List String} (hplace : root.node? place = some .directory)
    (h : ∀ step ∈ steps, Path.isIdle step = true) : walk root onLink place steps = some place := by
  obtain ⟨entries, hentries⟩ := Entry.node?_eq_directory_iff.1 hplace
  induction steps with
  | nil => rfl
  | cons step steps ih =>
    rw [walk, hentries]
    dsimp only
    rw [if_pos (h step List.mem_cons_self)]
    exact ih fun s hs => h s (List.mem_cons_of_mem _ hs)

/-- The steps up to the last one that leads somewhere, and idle steps after it. -/
theorem trimPieces_append (steps : List String) :
    ∃ idle, steps = Path.trimPieces steps ++ idle ∧ ∀ step ∈ idle, Path.isIdle step = true := by
  refine ⟨(steps.reverse.takeWhile Path.isIdle).reverse, ?_, ?_⟩
  · rw [Path.trimPieces, ← List.reverse_append, List.takeWhile_append_dropWhile,
      List.reverse_reverse]
  · intro step hstep
    exact List.all_eq_true.1 List.all_takeWhile step (List.mem_reverse.1 hstep)

/-- The last step that is left leads somewhere. -/
theorem not_isIdle_of_trimPieces {steps above : List String} {name : String}
    (h : (Path.trimPieces steps).reverse = name :: above) : Path.isIdle name = false := by
  rw [Path.trimPieces, List.reverse_reverse] at h
  have hnot := List.head?_dropWhile_not Path.isIdle steps.reverse
  rw [h] at hnot
  exact hnot

/-- **A free place is open, and once a directory is made there, the steps lead to it.** -/
theorem freePlace_spec {fs : FileSystem} {start new : Place} {steps : List String}
    (h : fs.freePlace? start steps = some new) :
    fs.root.IsOpen new ∧ fs.root.node? new = none ∧
      ∀ root', Entry.Extends fs.root root' → root'.node? new = some .directory →
        follow root' linkLimit start steps = some new := by
  unfold freePlace? at h
  split at h
  · cases h
  next name above hsteps =>
  split at h
  · cases h
  next hname =>
  split at h
  · cases h
  next directory hdirectory =>
  split at h
  next entries hentries hfree =>
    cases h
    have hnone := Entry.node?_eq_none_iff.2 hfree
    refine ⟨(isWritable_name hentries (.inl hfree)).isOpen, hnone, fun root' hextends hmade => ?_⟩
    obtain ⟨idle, hidle, hidleSteps⟩ := trimPieces_append steps
    have htrimmed : Path.trimPieces steps = above.reverse ++ [name] := by
      rw [← List.reverse_reverse (Path.trimPieces steps), hsteps, List.reverse_cons]
    rw [hidle, htrimmed, List.append_assoc]
    refine follow_append (fun links => ?_) linkLimit (follow_extends hextends hdirectory)
    -- from the directory the name leads to the new place, where idle steps stay
    obtain ⟨entries', hentries'⟩ := Entry.node?_eq_directory_iff.1
      (hextends.directory _ (Entry.node?_eq_directory_iff.2 ⟨entries, hentries⟩))
    obtain ⟨made, hmade'⟩ := Entry.node?_eq_directory_iff.1 hmade
    have hbusy := not_isIdle_of_trimPieces hsteps
    rw [not_or] at hname
    have hwalk : ∀ onLink, walk root' onLink directory ([name] ++ idle) =
        some (directory ++ [name]) := by
      intro onLink
      rw [List.singleton_append, walk, hentries']
      dsimp only
      rw [if_neg (by rw [hbusy]; exact Bool.false_ne_true), if_neg hname.1, hmade']
      exact walk_idle hmade hidleSteps
    cases links with
    | zero => exact hwalk _
    | succ links => exact hwalk _
  next => cases h

theorem makeDirectoriesFrom_spec {fs fs' : FileSystem} {start : Place} {done steps : List String}
    {made : Bool} (h : fs.makeDirectoriesFrom start done steps = (fs', made)) :
    fs'.start = fs.start ∧ MakesAlong start (done ++ steps) fs.root fs'.root := by
  induction steps generalizing fs done with
  | nil =>
    cases h
    exact ⟨rfl, .refl _ _ _⟩
  | cons step steps ih =>
    have happend : done ++ step :: steps = (done ++ [step]) ++ steps := by
      rw [List.append_assoc, List.singleton_append]
    rw [makeDirectoriesFrom] at h
    rw [happend]
    split at h
    · exact ih h
    split at h
    next =>
      cases h
      exact ⟨rfl, .refl _ _ _⟩
    next new hnew =>
      obtain ⟨hopen, hfree, hleads⟩ := freePlace_spec hnew
      obtain ⟨hstart, hmore⟩ := ih h
      have hdirectory := Entry.isLeaf_directory
      have hextends : Entry.Extends fs.root (fs.root.put new (.directory [])) :=
        hopen.extends_put hdirectory (.inl hfree)
      have hmade : (fs.root.put new (.directory [])).node? new = some .directory :=
        Entry.node?_eq_directory_iff.2 ⟨[], hopen.find?_put _⟩
      refine ⟨hstart, .trans ⟨hextends, fun place => ?_⟩ hmore⟩
      by_cases hplace : place = new
      · subst hplace
        exact .inr ⟨hfree, hmade, done ++ [step], List.prefix_append _ _,
          hleads _ hextends hmade⟩
      · exact .inl (hopen.node?_put hdirectory hplace)

/-- **Making directories only adds directories,** at places that front parts of the path lead to. -/
theorem makeDirectories_spec {fs fs' : FileSystem} {d : Path} {made : Bool}
    (h : fs.makeDirectories d = (fs', made)) :
    fs'.start = fs.start ∧ MakesAlong (fs.startOf d) d.pieces fs.root fs'.root := by
  unfold makeDirectories at h
  split at h
  · cases h
    exact ⟨rfl, .refl _ _ _⟩
  · exact makeDirectoriesFrom_spec h

/-! ## The output -/

/-- A front part of the path of a file's directory leads to this place. -/
def LiesAbove (fs : FileSystem) (p : Path) (place : Place) : Prop :=
  ∃ d, p.parent? = some d ∧ LeadsAbove fs.root (fs.startOf d) d.pieces place

/-- Nothing is changed but missing directories above a file, which are there afterwards. -/
structure MakesAbove (p : Path) (fs fs' : FileSystem) : Prop where
  start : fs'.start = fs.start
  keeps : Entry.Extends fs.root fs'.root
  nodes : ∀ place, fs'.root.node? place = fs.root.node? place ∨
    fs.root.node? place = none ∧ fs'.root.node? place = some .directory ∧ fs'.LiesAbove p place

/-- Nothing is changed but the file that a path leads to afterwards, where there was a file or
nothing before, and missing directories above it, which are there afterwards. -/
structure ChangesOnly (p : Path) (fs fs' : FileSystem) : Prop where
  start : fs'.start = fs.start
  nodes : ∀ place, fs'.root.node? place = fs.root.node? place ∨
    (fs'.locate? p = some place ∧ (∃ bytes, fs'.root.node? place = some (.file bytes)) ∧
      (fs.root.node? place = none ∨ ∃ old, fs.root.node? place = some (.file old))) ∨
    (fs.root.node? place = none ∧ fs'.root.node? place = some .directory ∧ fs'.LiesAbove p place)

theorem MakesAbove.refl (p : Path) (fs : FileSystem) : MakesAbove p fs fs where
  start := rfl
  keeps := .refl _
  nodes _ := .inl rfl

theorem MakesAbove.changesOnly {p : Path} {fs fs' : FileSystem} (h : MakesAbove p fs fs') :
    ChangesOnly p fs fs' where
  start := h.start
  nodes place := (h.nodes place).imp_right .inr

/-- Making the directories above a file can fail for one of them alone. -/
theorem prepare_spec {fs fs' : FileSystem} {p : Path} {failure : Option Failure}
    (h : fs.prepare p = (fs', failure)) :
    MakesAbove p fs fs' ∧ ∀ e ∈ failure, ∃ d, p.parent? = some d ∧ e = .noDirectory d := by
  unfold prepare at h
  split at h
  · cases h
    exact ⟨.refl _ _, fun _ he => nomatch he⟩
  next d hparent =>
  have hmakes : ∀ {made : FileSystem} {all : Bool}, fs.makeDirectories d = (made, all) →
      MakesAbove p fs made := by
    intro made all hmake
    obtain ⟨hstart, hmade⟩ := makeDirectories_spec hmake
    have hfrom : made.startOf d = fs.startOf d := by
      rw [startOf, startOf, hstart]
    refine ⟨hstart, hmade.keeps, fun place => (hmade.nodes place).imp_right ?_⟩
    rintro ⟨hnone, hdirectory, habove⟩
    exact ⟨hnone, hdirectory, d, hparent, by rw [hfrom]; exact habove⟩
  split at h
  next made hmake =>
    cases h
    exact ⟨hmakes hmake, fun _ he => nomatch he⟩
  next made hmake =>
    cases h
    refine ⟨hmakes hmake, fun e he => ?_⟩
    cases he
    exact ⟨d, hparent, rfl⟩

/-- The file is written after the directories above it are made. -/
theorem MakesAbove.write {fs mid fs' : FileSystem} {p : Path} {bytes : ByteArray}
    (h : MakesAbove p fs mid) (hwrite : mid.write? p bytes = some fs') : ChangesOnly p fs fs' := by
  obtain ⟨hstart, hextends, written, hlocate, hfile, hold, hother⟩ := write_spec hwrite
  refine ⟨hstart.trans h.start, fun place => ?_⟩
  by_cases hplace : place = written
  · subst hplace
    refine .inr (.inl ⟨hlocate, ⟨bytes, Entry.node?_eq_file_iff.2 hfile⟩, ?_⟩)
    -- no directory was made where the file is written
    rcases h.nodes place with hsame | ⟨-, hmade, -⟩
    · rw [← hsame]
      exact hold
    · rcases hold with hnone | ⟨old, hold⟩
      · rw [hmade] at hnone
        cases hnone
      · rw [hmade] at hold
        cases hold
  · rw [hother place hplace]
    rcases h.nodes place with hsame | ⟨hnone, hmade, d, hparent, front, hfront, hleads⟩
    · exact .inl hsame
    · refine .inr (.inr ⟨hnone, hmade, d, hparent, front, hfront, ?_⟩)
      have hfrom : fs'.startOf d = mid.startOf d := by
        rw [startOf, startOf, hstart]
      rw [hfrom]
      exact follow_extends hextends hleads

/-! ## Writing unless the file holds the text -/

theorem fromUTF8?_toUTF8 (text : String) : String.fromUTF8? text.toUTF8 = some text := by
  unfold String.fromUTF8?
  rw [String.toUTF8_eq_toByteArray, dif_pos text.isValidUTF8]
  rfl

theorem text?_of_bytes? {fs : FileSystem} {p : Path} {text : String}
    (h : fs.bytes? p = some text.toUTF8) : fs.text? p = some text := by
  rw [text?, h]
  exact fromUTF8?_toUTF8 text

/-- No file with other bytes than those of a text is taken for one that holds it. -/
def NoCollision (fs : FileSystem) (p : Path) (text : String) : Prop :=
  ∀ bytes, fs.bytes? p = some bytes →
    Sha256.hexDigest bytes = Sha256.hexDigest text.toUTF8 → bytes = text.toUTF8

theorem bytes?_of_holds {fs : FileSystem} {p : Path} {text : String} (h : fs.holds p text = true)
    (hcollision : fs.NoCollision p text) : fs.bytes? p = some text.toUTF8 := by
  obtain ⟨bytes, hbytes, hdigest⟩ := (Option.any_eq_true _ _).1 h
  rw [hbytes, hcollision bytes hbytes (of_decide_eq_true hdigest)]

/-- **The ways in which writing unless a file holds the text can end.** The file holds it, and
nothing is done. Or a directory above it cannot be made, or the file cannot be written, and only
directories were made. Or it is written after the directories above it were made. -/
theorem writeIfChanged_cases {fs fs' : FileSystem} {p : Path} {text : String}
    {result : Except Failure Bool} (h : fs.writeIfChanged p text = (fs', result)) :
    (fs.holds p text = true ∧ fs' = fs ∧ result = .ok false) ∨
      fs.holds p text = false ∧
        ((MakesAbove p fs fs' ∧ ∃ e, result = .error e ∧
            ((∃ d, p.parent? = some d ∧ e = .noDirectory d) ∨ e = .unwritable p)) ∨
          ∃ mid, MakesAbove p fs mid ∧ mid.write? p text.toUTF8 = some fs' ∧
            result = .ok true) := by
  unfold writeIfChanged at h
  split at h
  next hholds =>
    cases h
    exact .inl ⟨hholds, rfl, rfl⟩
  next hholds =>
  refine .inr ⟨Bool.eq_false_iff.2 hholds, ?_⟩
  split at h
  next mid failure hprepare =>
    cases h
    obtain ⟨hmakes, hfailure⟩ := prepare_spec hprepare
    exact .inl ⟨hmakes, failure, rfl, .inl (hfailure failure rfl)⟩
  next mid hprepare =>
    obtain ⟨hmakes, -⟩ := prepare_spec hprepare
    split at h
    next written hwrite =>
      cases h
      exact .inr ⟨mid, hmakes, hwrite, rfl⟩
    next =>
      cases h
      exact .inl ⟨hmakes, _, rfl, .inr rfl⟩

/-- A file that is written has the bytes afterwards. -/
theorem bytes?_of_write? {fs fs' : FileSystem} {p : Path} {bytes : ByteArray}
    (h : fs.write? p bytes = some fs') : fs'.bytes? p = some bytes := by
  obtain ⟨-, -, place, hlocate, hfile, -⟩ := write_spec h
  exact bytes?_eq_some_iff.2 ⟨place, hlocate, hfile⟩

/-- **Writing the output changes the output and missing directories above it alone.** When it does
not fail, the text is read back. -/
theorem writeIfChanged_spec {fs fs' : FileSystem} {p : Path} {text : String}
    {result : Except Failure Bool} (h : fs.writeIfChanged p text = (fs', result)) :
    ChangesOnly p fs fs' ∧
      match result with
      | .ok _ => fs.NoCollision p text → fs'.text? p = some text
      | .error e => (∃ d, p.parent? = some d ∧ e = .noDirectory d) ∨ e = .unwritable p := by
  rcases writeIfChanged_cases h with
    ⟨hholds, rfl, rfl⟩ | ⟨-, ⟨hmakes, e, rfl, he⟩ | ⟨mid, hmakes, hwrite, rfl⟩⟩
  · exact ⟨(MakesAbove.refl p fs').changesOnly,
      fun hcollision => text?_of_bytes? (bytes?_of_holds hholds hcollision)⟩
  · exact ⟨hmakes.changesOnly, he⟩
  · exact ⟨hmakes.write hwrite, fun _ => text?_of_bytes? (bytes?_of_write? hwrite)⟩

end FileSystem

end HeaderReflection
