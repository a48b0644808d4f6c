import Mathlib.Data.List.Basic
import HeaderReflection.BuildReply
import HeaderReflection.Proofs.FileTree.PathOrder
import HeaderReflection.Proofs.FileTree.Reordered

/-!
# Loading a target

The codemodel of a reply leads to the file of a target, and each step on this way may fail. A
failure is that of the first step that fails (`BuildReply.LoadFails`), and when no step fails there
is one target (`BuildReply.Loads`). The codemodel is the entry whose path comes first, so it makes
no difference in which order the directory lists its entries. Both what is compiled and where it
includes from are read off the target that is loaded (`BuildReply.loading_spec`).
-/

namespace HeaderReflection.BuildReply

variable {α : Type} {fs : FileSystem} {directory file : Path} {ofJson? : Json → Option α} {a : α}
  {name : String} {e : Failure}

theorem map_eq_ok_iff {β : Type} {f : α → β} {x : Except Failure α} {b : β} :
    x.map f = .ok b ↔ ∃ a, x = .ok a ∧ b = f a := by
  cases x with
  | error e => exact ⟨nofun, nofun⟩
  | ok a =>
    constructor
    · intro h
      cases h
      exact ⟨a, rfl, rfl⟩
    · rintro ⟨a', ha, rfl⟩
      cases ha
      rfl

theorem map_eq_error_iff {β : Type} {f : α → β} {x : Except Failure α} :
    x.map f = .error e ↔ x = .error e := by
  cases x with
  | error e' => rw [Except.map, Except.error.injEq, Except.error.injEq]
  | ok a => exact ⟨nofun, nofun⟩

/-! ## Reading a file -/

/-- The file holds a text that shows the value. -/
def Shows (fs : FileSystem) (ofJson? : Json → Option α) (file : Path) (a : α) : Prop :=
  ∃ text value, fs.text? file = some text ∧ Json.read text = some value ∧ ofJson? value = some a

/-- Why a file shows nothing. -/
inductive ReadFails (fs : FileSystem) (ofJson? : Json → Option α) (file : Path) : Failure → Prop
  | unreadable (h : fs.text? file = none) : ReadFails fs ofJson? file (.unreadable file)
  | malformed {text : String} (htext : fs.text? file = some text)
      (h : ∀ value a, Json.read text = some value → ofJson? value ≠ some a) :
      ReadFails fs ofJson? file (.malformed file none)

theorem readFile_eq_ok_iff : readFile fs ofJson? file = .ok a ↔ Shows fs ofJson? file a := by
  constructor
  · intro h
    unfold readFile at h
    split at h
    · cases h
    next text htext =>
      split at h
      · cases h
      next found hfound =>
        cases h
        obtain ⟨value, hvalue, hshown⟩ := Option.bind_eq_some_iff.1 hfound
        exact ⟨text, value, htext, hvalue, hshown⟩
  · rintro ⟨text, value, htext, hvalue, hshown⟩
    have hread : (Json.read text).bind ofJson? = some a := by rw [hvalue, Option.bind_some, hshown]
    simp only [readFile, htext, hread]

theorem readFile_eq_error_iff :
    readFile fs ofJson? file = .error e ↔ ReadFails fs ofJson? file e := by
  constructor
  · intro h
    unfold readFile at h
    split at h
    next htext =>
      cases h
      exact .unreadable htext
    next text htext =>
      split at h
      next hnone =>
        cases h
        exact .malformed htext fun value a hvalue =>
          Option.bind_eq_none_iff.1 hnone value hvalue ▸ nofun
      · cases h
  · rintro (htext | ⟨htext, hnone⟩)
    · rw [readFile, htext]
    · have hread := Option.bind_eq_none_iff.2 fun value hvalue =>
        Option.eq_none_iff_forall_not_mem.2 fun a ha => hnone value a hvalue ha
      simp only [readFile, htext, hread]

/-! ## The codemodel of a directory -/

/-- A codemodel has a name of this form. -/
def IsCodemodelName (name : String) : Prop := ∃ middle, name = "codemodel-v2" ++ middle ++ ".json"

/-- The directory lists an entry of this name. -/
def Lists (fs : FileSystem) (directory : Path) (name : String) : Prop :=
  ∃ entries, fs.entries? directory = some entries ∧ name ∈ entries.map Prod.fst

/-- Of the entries with the name of a codemodel, the one of this name has the first path. -/
structure IsFirstCodemodel (fs : FileSystem) (directory : Path) (name : String) : Prop where
  lists : Lists fs directory name
  named : IsCodemodelName name
  first : ∀ other, Lists fs directory other → IsCodemodelName other → other ≠ name →
    (directory.join ⟨name⟩).Precedes (directory.join ⟨other⟩)

/-- The start and the end of the name of a codemodel have no characters in common. -/
theorem isCodemodel_iff : isCodemodel name = true ↔ IsCodemodelName name := by
  rw [isCodemodel, Bool.and_eq_true, List.isPrefixOf_iff_prefix, List.isSuffixOf_iff_suffix]
  constructor
  · rintro ⟨⟨rest, hrest⟩, ⟨front, hfront⟩⟩
    rcases List.append_eq_append_iff.1 (hfront.trans hrest.symm) with
      ⟨shared, hstart, hend⟩ | ⟨middle, -, rfl⟩
    · cases shared with
      | nil =>
        obtain rfl : ".json".toList = rest := hend
        exact ⟨"", String.toList_injective hrest.symm⟩
      | cons c shared =>
        obtain ⟨rfl, -⟩ : c = '.' ∧ _ := List.cons.inj hend.symm
        have hdot : '.' ∈ codemodelStart.toList :=
          hstart ▸ List.mem_append_right _ List.mem_cons_self
        exact absurd hdot (by decide)
    · refine ⟨String.ofList middle, String.toList_injective ?_⟩
      rw [← hrest, ← List.append_assoc]
      simp only [codemodelStart, String.toList_append, String.toList_ofList]
  · rintro ⟨middle, rfl⟩
    rw [String.toList_append, String.toList_append]
    exact ⟨⟨_, (List.append_assoc _ _ _).symm⟩, ⟨_, rfl⟩⟩

theorem firstName?_eq_none_iff {names : List String} : firstName? names = none ↔ names = [] := by
  cases names with
  | nil => exact ⟨fun _ => rfl, fun _ => rfl⟩
  | cons name names =>
    rw [firstName?]
    split
    · exact ⟨nofun, nofun⟩
    · split <;> exact ⟨nofun, nofun⟩

/-- No name comes before the first one. -/
theorem firstName?_spec {names : List String} (h : firstName? names = some name) :
    name ∈ names ∧ ∀ other ∈ names, ¬other < name := by
  induction names generalizing name with
  | nil => cases h
  | cons n names ih =>
    rw [firstName?] at h
    split at h
    next hnone =>
      cases h
      rw [firstName?_eq_none_iff.1 hnone]
      exact ⟨List.mem_singleton_self _,
        fun _ hother => List.mem_singleton.1 hother ▸ String.lt_irrefl _⟩
    next other hother =>
      obtain ⟨hmem, hall⟩ := ih hother
      split at h
      next hlt =>
        cases h
        exact ⟨List.mem_cons_of_mem _ hmem, List.forall_mem_cons.2 ⟨String.lt_asymm hlt, hall⟩⟩
      next hnot =>
        cases h
        refine ⟨List.mem_cons_self, List.forall_mem_cons.2 ⟨String.lt_irrefl _, fun m hm hlt => ?_⟩⟩
        exact String.not_lt.2
          (String.le_trans (String.not_lt.1 hnot) (String.not_lt.1 (hall m hm))) hlt

section

variable (hwell : fs.root.WellFormed)

include hwell

/-- Entries of the directory are in the order of their names. -/
theorem Lists.precedes_iff {other : String} (h : Lists fs directory name)
    (hother : Lists fs directory other) :
    (directory.join ⟨name⟩).Precedes (directory.join ⟨other⟩) ↔ name < other := by
  have hname : ∀ n, Lists fs directory n → directory.text ≠ "" ∧ Path.IsName n := by
    rintro n ⟨entries, hentries, hn⟩
    obtain ⟨place, hplace, hfound⟩ := FileSystem.entries?_eq_some_iff.1 hentries
    obtain ⟨entry, hentry, rfl⟩ := List.mem_map.1 hn
    exact ⟨FileSystem.text_ne_of_locate? hplace, hwell.names place entries hfound entry hentry⟩
  exact Path.precedes_join_iff (hname name h).1 (hname name h).2 (hname other hother).2

/-- At most one codemodel is the first one. -/
theorem IsFirstCodemodel.unique {other : String} (h : IsFirstCodemodel fs directory name)
    (hother : IsFirstCodemodel fs directory other) : name = other := by
  refine Classical.byContradiction fun hne => ?_
  have hlt := (h.lists.precedes_iff hwell hother.lists).1
    (h.first other hother.lists hother.named (Ne.symm hne))
  have hgt := (hother.lists.precedes_iff hwell h.lists).1 (hother.first name h.lists h.named hne)
  exact String.lt_asymm hlt hgt

/-- The first codemodel has the first name. -/
theorem isFirstCodemodel_of_firstName? {entries : List (String × Entry)}
    (hentries : fs.entries? directory = some entries)
    (h : firstName? ((entries.map (·.1)).filter isCodemodel) = some name) :
    IsFirstCodemodel fs directory name := by
  obtain ⟨hmem, hall⟩ := firstName?_spec h
  obtain ⟨hlisted, hnamed⟩ := List.mem_filter.1 hmem
  have hlists : Lists fs directory name := ⟨entries, hentries, hlisted⟩
  refine ⟨hlists, isCodemodel_iff.1 hnamed, fun other hother hcodemodel hne => ?_⟩
  rw [hlists.precedes_iff hwell hother]
  obtain ⟨entries', hentries', hmem'⟩ := hother
  obtain rfl : entries = entries' := Option.some.inj (hentries.symm.trans hentries')
  have hle := String.not_lt.1 (hall other (List.mem_filter.2 ⟨hmem', isCodemodel_iff.2 hcodemodel⟩))
  exact Classical.byContradiction fun hnot => hne (String.le_antisymm (String.not_lt.1 hnot) hle)

theorem loadCodemodel_of_isFirst (h : IsFirstCodemodel fs directory name) :
    loadCodemodel fs directory = readFile fs Codemodel.ofJson? (directory.join ⟨name⟩) := by
  obtain ⟨entries, hentries, hlisted⟩ := h.lists
  have hmem : name ∈ (entries.map (·.1)).filter isCodemodel :=
    List.mem_filter.2 ⟨hlisted, isCodemodel_iff.2 h.named⟩
  cases hfirst : firstName? ((entries.map (·.1)).filter isCodemodel) with
  | none =>
    rw [firstName?_eq_none_iff.1 hfirst] at hmem
    cases hmem
  | some first =>
    obtain rfl := h.unique hwell (isFirstCodemodel_of_firstName? hwell hentries hfirst)
    simp only [loadCodemodel, hentries, hfirst]

end

theorem loadCodemodel_of_not_directory (h : fs.isDirectory directory = false) :
    loadCodemodel fs directory = .error (.noReplyDirectory directory) := by
  rw [FileSystem.isDirectory_eq_isSome_entries?, Option.isSome_eq_false_iff,
    Option.isNone_iff_eq_none] at h
  rw [loadCodemodel, h]

theorem loadCodemodel_of_none (h : fs.isDirectory directory = true)
    (hnone : ∀ name, Lists fs directory name → ¬IsCodemodelName name) :
    loadCodemodel fs directory = .error (.noCodemodel directory) := by
  rw [FileSystem.isDirectory_eq_isSome_entries?] at h
  obtain ⟨entries, hentries⟩ := Option.isSome_iff_exists.1 h
  have hnil : (entries.map (·.1)).filter isCodemodel = [] :=
    List.filter_eq_nil_iff.2 fun name hlisted hcodemodel =>
      hnone name ⟨entries, hentries, hlisted⟩ (isCodemodel_iff.1 hcodemodel)
  simp only [loadCodemodel, hentries, hnil, firstName?]

/-- A path leads to no directory, to one without a codemodel, or to one with a first codemodel. -/
theorem codemodel_cases (hwell : fs.root.WellFormed) (directory : Path) :
    fs.isDirectory directory = false ∨
      (fs.isDirectory directory = true ∧ ∀ name, Lists fs directory name → ¬IsCodemodelName name) ∨
      ∃ name, IsFirstCodemodel fs directory name := by
  rw [FileSystem.isDirectory_eq_isSome_entries?]
  cases hentries : fs.entries? directory with
  | none => exact .inl rfl
  | some entries =>
    refine .inr ?_
    cases hfirst : firstName? ((entries.map (·.1)).filter isCodemodel) with
    | none =>
      refine .inl ⟨rfl, fun name ⟨entries', hentries', hlisted⟩ hcodemodel => ?_⟩
      obtain rfl : entries = entries' := Option.some.inj (hentries.symm.trans hentries')
      have hnil := firstName?_eq_none_iff.1 hfirst
      exact List.filter_eq_nil_iff.1 hnil name hlisted (isCodemodel_iff.2 hcodemodel)
    | some name => exact .inr ⟨name, isFirstCodemodel_of_firstName? hwell hentries hfirst⟩

/-- The directory has this codemodel. -/
def HasCodemodel (fs : FileSystem) (directory : Path) (model : Codemodel) : Prop :=
  ∃ name, IsFirstCodemodel fs directory name ∧
    Shows fs Codemodel.ofJson? (directory.join ⟨name⟩) model

/-- Why a directory has no codemodel. -/
inductive CodemodelFails (fs : FileSystem) (directory : Path) : Failure → Prop
  | noReplyDirectory (h : fs.isDirectory directory = false) :
      CodemodelFails fs directory (.noReplyDirectory directory)
  | noCodemodel (hdirectory : fs.isDirectory directory = true)
      (h : ∀ name, Lists fs directory name → ¬IsCodemodelName name) :
      CodemodelFails fs directory (.noCodemodel directory)
  | reading {name : String} {e : Failure} (hfirst : IsFirstCodemodel fs directory name)
      (h : ReadFails fs Codemodel.ofJson? (directory.join ⟨name⟩) e) :
      CodemodelFails fs directory e

theorem loadCodemodel_eq_ok_iff (hwell : fs.root.WellFormed) {model : Codemodel} :
    loadCodemodel fs directory = .ok model ↔ HasCodemodel fs directory model := by
  constructor
  · intro h
    obtain hdirectory | ⟨hdirectory, hnone⟩ | ⟨name, hfirst⟩ := codemodel_cases hwell directory
    · rw [loadCodemodel_of_not_directory hdirectory] at h
      cases h
    · rw [loadCodemodel_of_none hdirectory hnone] at h
      cases h
    · rw [loadCodemodel_of_isFirst hwell hfirst] at h
      exact ⟨name, hfirst, readFile_eq_ok_iff.1 h⟩
  · rintro ⟨name, hfirst, hshows⟩
    rw [loadCodemodel_of_isFirst hwell hfirst]
    exact readFile_eq_ok_iff.2 hshows

theorem loadCodemodel_eq_error_iff (hwell : fs.root.WellFormed) :
    loadCodemodel fs directory = .error e ↔ CodemodelFails fs directory e := by
  constructor
  · intro h
    obtain hdirectory | ⟨hdirectory, hnone⟩ | ⟨name, hfirst⟩ := codemodel_cases hwell directory
    · rw [loadCodemodel_of_not_directory hdirectory] at h
      cases h
      exact .noReplyDirectory hdirectory
    · rw [loadCodemodel_of_none hdirectory hnone] at h
      cases h
      exact .noCodemodel hdirectory hnone
    · rw [loadCodemodel_of_isFirst hwell hfirst] at h
      exact .reading hfirst (readFile_eq_error_iff.1 h)
  · rintro (hdirectory | ⟨hdirectory, hnone⟩ | ⟨hfirst, hfails⟩)
    · exact loadCodemodel_of_not_directory hdirectory
    · exact loadCodemodel_of_none hdirectory hnone
    · rw [loadCodemodel_of_isFirst hwell hfirst]
      exact readFile_eq_error_iff.2 hfails

/-! ## The target -/

/-- The first of the targets with this name. -/
def IsFirstNamed (name : String) (targets : List TargetReference) (t : TargetReference) : Prop :=
  ∃ before after, targets = before ++ t :: after ∧ t.name = name ∧
    ∀ other ∈ before, other.name ≠ name

/-- The codemodel of the directory has the target in its first configuration and names the root of
the sources. -/
def RefersTo (fs : FileSystem) (directory : Path) (name : String) (t : TargetReference)
    (root : Option Path) : Prop :=
  ∃ model targets others, HasCodemodel fs directory model ∧
    model.configurations = targets :: others ∧ IsFirstNamed name targets t ∧ model.root = root

/-- What is loaded: the target that its file shows, and the root of the sources. -/
def Loads (fs : FileSystem) (directory : Path) (name : String) (target : Target)
    (root : Option Path) : Prop :=
  ∃ t, RefersTo fs directory name t root ∧ fs.isFile (directory.join t.file) = true ∧
    Shows fs Target.ofJson? (directory.join t.file) target

/-- Why a target is not loaded. A step can fail only if those before it do not. -/
inductive LoadFails (fs : FileSystem) (directory : Path) (name : String) : Failure → Prop
  | codemodel {e : Failure} (h : CodemodelFails fs directory e) : LoadFails fs directory name e
  | noConfigurations {model : Codemodel} (hmodel : HasCodemodel fs directory model)
      (h : model.configurations = []) : LoadFails fs directory name .noConfigurations
  | noTarget {model : Codemodel} {targets : List TargetReference}
      {others : List (List TargetReference)} (hmodel : HasCodemodel fs directory model)
      (hconfigurations : model.configurations = targets :: others)
      (h : ∀ t ∈ targets, t.name ≠ name) : LoadFails fs directory name (.noTarget name)
  | noTargetFile {t : TargetReference} {root : Option Path}
      (hrefers : RefersTo fs directory name t root)
      (h : fs.isFile (directory.join t.file) = false) :
      LoadFails fs directory name (.noTargetFile (directory.join t.file))
  | target {t : TargetReference} {root : Option Path} {e : Failure}
      (hrefers : RefersTo fs directory name t root)
      (hfile : fs.isFile (directory.join t.file) = true)
      (h : ReadFails fs Target.ofJson? (directory.join t.file) e) : LoadFails fs directory name e

theorem find?_eq_some_iff {targets : List TargetReference} {t : TargetReference} :
    targets.find? (·.name = name) = some t ↔ IsFirstNamed name targets t := by
  rw [List.find?_eq_some_iff_append]
  constructor
  · rintro ⟨hname, before, after, hsplit, hbefore⟩
    exact ⟨before, after, hsplit, of_decide_eq_true hname, fun other hother => by
      simpa using hbefore other hother⟩
  · rintro ⟨before, after, hsplit, hname, hbefore⟩
    exact ⟨decide_eq_true hname, before, after, hsplit, fun other hother => by
      simpa using hbefore other hother⟩

section

variable (hwell : fs.root.WellFormed)

include hwell

theorem loadTarget_of_codemodelFails (h : CodemodelFails fs directory e) (name : String) :
    loadTarget fs directory name = .error e := by
  rw [loadTarget, (loadCodemodel_eq_error_iff hwell).2 h]
  rfl

theorem loadTarget_of_nil {model : Codemodel} (h : HasCodemodel fs directory model)
    (hconfigurations : model.configurations = []) (name : String) :
    loadTarget fs directory name = .error .noConfigurations := by
  rw [loadTarget, (loadCodemodel_eq_ok_iff hwell).2 h]
  simp only [Except.bind, bind, hconfigurations]
  rfl

theorem loadTarget_of_not_named {model : Codemodel} {targets : List TargetReference}
    {others : List (List TargetReference)} (h : HasCodemodel fs directory model)
    (hconfigurations : model.configurations = targets :: others)
    (hnone : ∀ t ∈ targets, t.name ≠ name) :
    loadTarget fs directory name = .error (.noTarget name) := by
  have hfind : targets.find? (·.name = name) = none := by
    simpa using hnone
  rw [loadTarget, (loadCodemodel_eq_ok_iff hwell).2 h]
  simp only [Except.bind, bind, hconfigurations, hfind]
  rfl

theorem loadTarget_of_refersTo {t : TargetReference} {root : Option Path}
    (h : RefersTo fs directory name t root) :
    loadTarget fs directory name =
      if fs.isFile (directory.join t.file) then
        (readFile fs Target.ofJson? (directory.join t.file)).map fun target => (target, root)
      else .error (.noTargetFile (directory.join t.file)) := by
  obtain ⟨model, targets, others, hmodel, hconfigurations, hnamed, rfl⟩ := h
  rw [loadTarget, (loadCodemodel_eq_ok_iff hwell).2 hmodel]
  simp only [Except.bind, bind, hconfigurations, find?_eq_some_iff.2 hnamed]
  split
  · cases readFile fs Target.ofJson? (directory.join t.file) <;> rfl
  · rfl

/-- A target is referred to, or there is a reason why not. -/
theorem target_cases (directory : Path) (name : String) :
    (∃ e, CodemodelFails fs directory e) ∨
      ∃ model, HasCodemodel fs directory model ∧ (model.configurations = [] ∨
        ∃ targets others, model.configurations = targets :: others ∧
          ((∀ t ∈ targets, t.name ≠ name) ∨ ∃ t, RefersTo fs directory name t model.root)) := by
  cases hload : loadCodemodel fs directory with
  | error e => exact .inl ⟨e, (loadCodemodel_eq_error_iff hwell).1 hload⟩
  | ok model =>
    have hmodel := (loadCodemodel_eq_ok_iff hwell).1 hload
    refine .inr ⟨model, hmodel, ?_⟩
    cases hconfigurations : model.configurations with
    | nil => exact .inl rfl
    | cons targets others =>
      refine .inr ⟨targets, others, rfl, ?_⟩
      cases hfind : targets.find? (·.name = name) with
      | none => exact .inl (by simpa using hfind)
      | some t =>
        exact .inr ⟨t, model, targets, others, hmodel, hconfigurations, find?_eq_some_iff.1 hfind,
          rfl⟩

theorem loadTarget_eq_ok_iff {target : Target} {root : Option Path} :
    loadTarget fs directory name = .ok (target, root) ↔ Loads fs directory name target root := by
  constructor
  · intro h
    obtain ⟨e, hfails⟩ | ⟨model, hmodel, hnil | ⟨targets, others, hcons, hnone | ⟨t, hrefers⟩⟩⟩ :=
      target_cases hwell directory name
    · rw [loadTarget_of_codemodelFails hwell hfails] at h
      cases h
    · rw [loadTarget_of_nil hwell hmodel hnil] at h
      cases h
    · rw [loadTarget_of_not_named hwell hmodel hcons hnone] at h
      cases h
    · rw [loadTarget_of_refersTo hwell hrefers] at h
      split at h
      next hfile =>
        obtain ⟨found, hread, hpair⟩ := map_eq_ok_iff.1 h
        cases hpair
        exact ⟨t, hrefers, hfile, readFile_eq_ok_iff.1 hread⟩
      · cases h
  · rintro ⟨t, hrefers, hfile, hshows⟩
    rw [loadTarget_of_refersTo hwell hrefers, if_pos hfile, readFile_eq_ok_iff.2 hshows]
    rfl

theorem loadTarget_eq_error_iff :
    loadTarget fs directory name = .error e ↔ LoadFails fs directory name e := by
  constructor
  · intro h
    obtain ⟨e, hfails⟩ | ⟨model, hmodel, hnil | ⟨targets, others, hcons, hnone | ⟨t, hrefers⟩⟩⟩ :=
      target_cases hwell directory name
    · rw [loadTarget_of_codemodelFails hwell hfails] at h
      cases h
      exact .codemodel hfails
    · rw [loadTarget_of_nil hwell hmodel hnil] at h
      cases h
      exact .noConfigurations hmodel hnil
    · rw [loadTarget_of_not_named hwell hmodel hcons hnone] at h
      cases h
      exact .noTarget hmodel hcons hnone
    · rw [loadTarget_of_refersTo hwell hrefers] at h
      split at h
      next hfile =>
        exact .target hrefers hfile (readFile_eq_error_iff.1 (map_eq_error_iff.1 h))
      next hfile =>
        cases h
        exact .noTargetFile hrefers (Bool.of_not_eq_true hfile)
  · rintro (hfails | ⟨hmodel, hnil⟩ | ⟨hmodel, hcons, hnone⟩ | ⟨hrefers, hfile⟩ |
      ⟨hrefers, hfile, hfails⟩)
    · exact loadTarget_of_codemodelFails hwell hfails name
    · exact loadTarget_of_nil hwell hmodel hnil name
    · exact loadTarget_of_not_named hwell hmodel hcons hnone
    · rw [loadTarget_of_refersTo hwell hrefers, if_neg (by simp [hfile])]
    · rw [loadTarget_of_refersTo hwell hrefers, if_pos hfile, readFile_eq_error_iff.2 hfails]
      rfl

end

/-! ## Other orders -/

/-- The first of several names does not hang on their order. -/
theorem firstName?_congr {names others : List String} (h : ∀ name, name ∈ others ↔ name ∈ names) :
    firstName? others = firstName? names := by
  cases hfirst : firstName? names with
  | none =>
    rw [firstName?_eq_none_iff] at hfirst ⊢
    exact List.eq_nil_iff_forall_not_mem.2 fun name hname => by
      simpa [hfirst] using (h name).1 hname
  | some first =>
    obtain ⟨hmem, hall⟩ := firstName?_spec hfirst
    cases hother : firstName? others with
    | none =>
      rw [firstName?_eq_none_iff.1 hother] at h
      exact absurd ((h first).2 hmem) List.not_mem_nil
    | some other =>
      obtain ⟨hmem', hall'⟩ := firstName?_spec hother
      rw [String.le_antisymm (String.not_lt.1 (hall' first ((h first).2 hmem)))
        (String.not_lt.1 (hall other ((h other).1 hmem')))]

section

variable {fs' : FileSystem} (h : fs.Reordered fs') (hwell : fs.root.WellFormed)

include h hwell

theorem readFile_eq_of_reordered : readFile fs' ofJson? file = readFile fs ofJson? file := by
  rw [readFile, readFile, h.text?_eq hwell]

theorem loadCodemodel_eq_of_reordered :
    loadCodemodel fs' directory = loadCodemodel fs directory := by
  obtain ⟨hnone, hnone'⟩ | ⟨entries, entries', hentries, hentries', hnames⟩ :=
    h.entries?_eq hwell directory
  · rw [loadCodemodel, loadCodemodel, hnone, hnone']
  · have hfirst : firstName? ((entries'.map (·.1)).filter isCodemodel) =
        firstName? ((entries.map (·.1)).filter isCodemodel) :=
      firstName?_congr fun name => by
        rw [List.mem_filter, List.mem_filter, hnames name]
    simp only [loadCodemodel, hentries, hentries', hfirst, readFile_eq_of_reordered h hwell]

/-- **What is loaded does not hang on the order in which directories list their entries.** -/
theorem loadTarget_eq_of_reordered :
    loadTarget fs' directory name = loadTarget fs directory name := by
  simp only [loadTarget, loadCodemodel_eq_of_reordered h hwell, h.isFile_eq hwell,
    readFile_eq_of_reordered h hwell]

end

/-! ## Sources and include directories -/

/-- Where a path of a reply leads: a relative one goes on from the root of the sources, if there is
one. -/
def rooted (root : Option Path) (p : Path) : Path :=
  match root with
  | some root => if p.isAbsolute then p else root.join p
  | none => p

theorem resolve_eq_rooted (root : Option Path) : resolve root = rooted root := by
  funext p
  cases root with
  | none => rfl
  | some root =>
    rw [resolve, rooted]
    split
    next habsolute => rw [Path.join, if_pos habsolute]
    next => rfl

/-- The sources of what is loaded, without the excluded ones. -/
theorem sources_eq_map (excluded : List Path) :
    sources fs directory excluded name = (loadTarget fs directory name).map fun loaded =>
      (loaded.1.sources.map (rooted loaded.2)).filter fun p =>
        ∀ q ∈ excluded, q.components ≠ p.components := by
  rw [sources]
  cases loadTarget fs directory name with
  | error e => rfl
  | ok loaded =>
    change Except.ok _ = Except.ok _
    rw [resolve_eq_rooted]
    congr 1
    refine List.filter_congr fun p _ => ?_
    rw [Bool.eq_iff_iff]
    simp

theorem includeDirectories_eq_map :
    includeDirectories fs directory name = (loadTarget fs directory name).map fun loaded =>
      (loaded.1.groups.head?.getD []).map (rooted loaded.2) := by
  rw [includeDirectories]
  cases loadTarget fs directory name with
  | error e => rfl
  | ok loaded =>
    change Except.ok _ = Except.ok _
    rw [resolve_eq_rooted]

/-- **Loading a target fails for one reason, and does not hang on the order of a directory.** The
sources and the include directories of a target fail with the same failure, that of the first step
that fails. Otherwise the target and the root of the sources are loaded: the sources are those of
the target in order, but for those that are excluded by where they lead, and the include directories
are those of its first group. The order in which directories list their entries makes no difference.
-/
theorem loading_spec (hwell : fs.root.WellFormed) (directory : Path) (excluded : List Path)
    (name : String) :
    (∀ fs', fs.Reordered fs' →
        sources fs' directory excluded name = sources fs directory excluded name ∧
        includeDirectories fs' directory name = includeDirectories fs directory name) ∧
      (∀ e, (sources fs directory excluded name = .error e ↔ LoadFails fs directory name e) ∧
        (includeDirectories fs directory name = .error e ↔ LoadFails fs directory name e)) ∧
      (∀ files, sources fs directory excluded name = .ok files ↔
        ∃ target root, Loads fs directory name target root ∧
          files = (target.sources.map (rooted root)).filter fun p =>
            ∀ q ∈ excluded, q.components ≠ p.components) ∧
      ∀ directories, includeDirectories fs directory name = .ok directories ↔
        ∃ target root, Loads fs directory name target root ∧
          directories = (target.groups.head?.getD []).map (rooted root) := by
  refine ⟨fun fs' h => ⟨?_, ?_⟩, fun e => ⟨?_, ?_⟩, fun files => ?_, fun directories => ?_⟩
  · rw [sources_eq_map, sources_eq_map, loadTarget_eq_of_reordered h hwell]
  · rw [includeDirectories_eq_map, includeDirectories_eq_map, loadTarget_eq_of_reordered h hwell]
  · rw [sources_eq_map, map_eq_error_iff, loadTarget_eq_error_iff hwell]
  · rw [includeDirectories_eq_map, map_eq_error_iff, loadTarget_eq_error_iff hwell]
  · rw [sources_eq_map, map_eq_ok_iff, Prod.exists]
    simp only [loadTarget_eq_ok_iff hwell]
  · rw [includeDirectories_eq_map, map_eq_ok_iff, Prod.exists]
    simp only [loadTarget_eq_ok_iff hwell]

/-- Replies with two codemodels, of which only the one with the first name shows anything. -/
def replies : List (String × Entry) := [
  ("engine.json", .file
    "\x7b\"sources\": [\x7b\"path\": \"a.cpp\"\x7d, \x7b\"path\": \"out.cpp\"\x7d]\x7d".toUTF8),
  ("codemodel-v2-b.json", .file "[]".toUTF8),
  ("codemodel-v2-a.json", .file
    ("\x7b\"paths\": \x7b\"source\": \"/p\"\x7d, \"configurations\": [\x7b\"targets\": [" ++
      "\x7b\"name\": \"engine\", \"jsonFile\": \"engine.json\"\x7d]\x7d]\x7d").toUTF8)]

/-- A file tree with a directory of replies. -/
def replyTree (replies : List (String × Entry)) : FileSystem where
  root := .directory [("reply", .directory replies)]
  start := []

theorem wellFormed_replies : (Entry.directory replies).WellFormed := by
  refine Entry.wellFormed_directory (by decide) (by decide) ?_
  simp only [replies, List.forall_mem_cons, Entry.wellFormed_file, true_and]
  exact List.forall_mem_nil _

theorem wellFormed_replyTree : (replyTree replies).root.WellFormed :=
  Entry.wellFormed_directory (by decide) (by decide)
    (List.forall_mem_cons.2 ⟨wellFormed_replies, List.forall_mem_nil _⟩)

theorem reordered_replyTree : (replyTree replies).Reordered (replyTree replies.reverse) where
  root := .directory (.refl _) fun name e e' he he' => by
    obtain ⟨-, rfl⟩ := Prod.mk.inj (List.mem_singleton.1 he)
    obtain ⟨-, rfl⟩ := Prod.mk.inj (List.mem_singleton.1 he')
    exact .of_perm wellFormed_replies (List.reverse_perm replies).symm
  start := rfl

theorem loading_spec_replies :
    (replyTree replies).root.WellFormed ∧
      (replyTree replies).Reordered (replyTree replies.reverse) ∧
      sources (replyTree replies.reverse) ⟨"reply"⟩ [⟨"/p//out.cpp"⟩] "engine" =
        sources (replyTree replies) ⟨"reply"⟩ [⟨"/p//out.cpp"⟩] "engine" ∧
      (∃ target root, Loads (replyTree replies) ⟨"reply"⟩ "engine" target root ∧
        [⟨"/p/a.cpp"⟩] = (target.sources.map (rooted root)).filter fun p =>
          ∀ q ∈ [(⟨"/p//out.cpp"⟩ : Path)], q.components ≠ p.components) ∧
      LoadFails (replyTree replies) ⟨"reply"⟩ "other" (.noTarget "other") := by
  have hspec := loading_spec wellFormed_replyTree ⟨"reply"⟩ [⟨"/p//out.cpp"⟩]
  exact ⟨wellFormed_replyTree, reordered_replyTree,
    ((hspec "engine").1 _ reordered_replyTree).1,
    ((hspec "engine").2.2.1 [⟨"/p/a.cpp"⟩]).1 (by decide +kernel),
    ((hspec "other").2.1 _).1.1 (by decide +kernel)⟩

end HeaderReflection.BuildReply
