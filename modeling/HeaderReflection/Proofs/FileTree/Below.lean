import HeaderReflection.Proofs.FileTree.Spellings

/-!
# Paths below a directory

The place that a path leads to is a list of names, none of which could lead elsewhere
(`FileSystem.isName_of_locate?`). So the names from a directory down to a file, with slashes between
them, are what remains of the path of the file below the path of the directory, and joined to any
path of the directory they lead to the file (`FileSystem.locate?_join`).
-/

namespace HeaderReflection

/-! ## Cutting and joining -/

namespace Text

theorem not_mem_of_mem_splitOn {separator : Char} {cs piece : List Char}
    (h : piece ∈ cs.splitOn separator) : separator ∉ piece := by
  induction cs generalizing piece with
  | nil =>
    rw [List.splitOn_nil, List.mem_singleton] at h
    rw [h]
    exact List.not_mem_nil
  | cons c cs ih =>
    rw [List.splitOn_cons_eq_if_modifyHead] at h
    split at h
    · rcases List.mem_cons.1 h with rfl | h
      · exact List.not_mem_nil
      · exact ih h
    next hc =>
      obtain ⟨first, pieces, hs⟩ := List.exists_cons_of_ne_nil (List.splitOn_ne_nil separator cs)
      rw [hs] at h ih
      rcases List.mem_cons.1 h with rfl | h
      · rw [List.mem_cons, not_or]
        exact ⟨fun heq => hc (beq_iff_eq.2 heq.symm), ih List.mem_cons_self⟩
      · exact ih (List.mem_cons_of_mem _ h)

theorem mem_intercalate {separator c : Char} {pieces : List (List Char)}
    (h : c ∈ [separator].intercalate pieces) : c = separator ∨ ∃ piece ∈ pieces, c ∈ piece := by
  induction pieces with
  | nil => cases h
  | cons piece pieces ih =>
    cases pieces with
    | nil =>
      rw [List.intercalate_singleton] at h
      exact .inr ⟨piece, List.mem_cons_self, h⟩
    | cons next pieces =>
      rw [List.intercalate_cons_cons, List.append_assoc, List.singleton_append, List.mem_append,
        List.mem_cons] at h
      rcases h with h | rfl | h
      · exact .inr ⟨piece, List.mem_cons_self, h⟩
      · exact .inl rfl
      · refine (ih h).imp_right ?_
        rintro ⟨p, hp, hc⟩
        exact ⟨p, List.mem_cons_of_mem _ hp, hc⟩

end Text

/-! ## Names and places -/

namespace Path

/-- A text that leads from a directory to one of its entries. -/
structure IsName (name : String) : Prop where
  noSlash : '/' ∉ name.toList
  busy : isIdle name = false
  ne_up : name ≠ ".."

theorem slash_not_mem_pieces {p : Path} {piece : String} (h : piece ∈ p.pieces) :
    '/' ∉ piece.toList := by
  obtain ⟨cs, hcs, rfl⟩ := List.mem_map.1 h
  rw [String.toList_ofList]
  exact Text.not_mem_of_mem_splitOn hcs

theorem IsName.component? {name : String} (h : IsName name) :
    component? name = some (.name name) := by
  simp [Path.component?, h.busy, h.ne_up]

theorem toList_intercalate_slash (names : List String) :
    ("/".intercalate names).toList = ['/'].intercalate (names.map String.toList) :=
  String.toList_intercalate

theorem map_splitOn_names {names : List String} (hne : names ≠ [])
    (h : ∀ name ∈ names, IsName name) :
    (("/".intercalate names).toList.splitOn '/').map String.ofList = names := by
  rw [toList_intercalate_slash, List.splitOn_intercalate]
  · rw [List.map_map]
    exact (List.map_congr_left fun _ _ => String.ofList_toList).trans (List.map_id' names)
  · intro cs hcs
    obtain ⟨name, hname, rfl⟩ := List.mem_map.1 hcs
    exact (h name hname).noSlash
  · rwa [ne_eq, List.map_eq_nil_iff]

theorem pieces_ofPieces {names : List String} (hne : names ≠ []) (h : ∀ name ∈ names, IsName name) :
    (ofPieces names).pieces = names :=
  map_splitOn_names hne h

theorem pieces_ofPlace {place : Place} (h : ∀ name ∈ place, IsName name) :
    (ofPlace place).pieces = "" :: if place = [] then [""] else place := by
  have htext : (ofPlace place).text.toList = [] ++ '/' :: ("/".intercalate place).toList :=
    String.toList_append
  rw [pieces, htext, List.splitOn_append_cons_self, List.map_append]
  split
  next hempty =>
    subst hempty
    rfl
  next hne =>
    rw [map_splitOn_names hne h]
    rfl

theorem filterMap_component?_names {names : List String} (h : ∀ name ∈ names, IsName name) :
    names.filterMap component? = names.map .name := by
  induction names with
  | nil => rfl
  | cons name names ih =>
    rw [List.filterMap_cons_some (h name List.mem_cons_self).component?,
      ih fun n hn => h n (List.mem_cons_of_mem _ hn), List.map_cons]

theorem components_ofPlace {place : Place} (h : ∀ name ∈ place, IsName name) :
    (ofPlace place).components = placeComponents place := by
  have habsolute : (ofPlace place).isAbsolute = true := by
    simp [isAbsolute, ofPlace]
  rw [components, if_pos habsolute, pieces_ofPlace h, placeComponents,
    List.filterMap_cons_none (by decide)]
  split
  next hempty =>
    subst hempty
    rfl
  next => rw [filterMap_component?_names h]

theorem placeComponents_prefix_iff {above place : Place} :
    placeComponents above <+: placeComponents place ↔ above <+: place := by
  rw [placeComponents, placeComponents, List.cons_prefix_cons]
  refine (and_iff_right rfl).trans (List.prefix_map_iff_of_injective ?_)
  intro x y hxy
  cases hxy
  rfl

/-! ## What remains of a path -/

theorem dropWhile_names {names : List String} (h : ∀ name ∈ names, IsName name) :
    names.dropWhile isIdle = names := by
  cases names with
  | nil => rfl
  | cons name names =>
    rw [List.dropWhile_cons_of_neg (by simp [(h name List.mem_cons_self).busy])]

theorem trimPieces_names {names : List String} (h : ∀ name ∈ names, IsName name) :
    trimPieces names = names := by
  rw [trimPieces, dropWhile_names, List.reverse_reverse]
  intro name hname
  exact h name (List.mem_reverse.1 hname)

theorem dropComponents_idle (n : Nat) {piece : String} (hidle : isIdle piece = true)
    (pieces : List String) : dropComponents n (piece :: pieces) = dropComponents n pieces := by
  cases n with
  | zero => rw [dropComponents, dropComponents, List.dropWhile_cons_of_pos hidle]
  | succ n => rw [dropComponents, if_pos hidle]

theorem dropComponents_append {above names : List String} (habove : ∀ name ∈ above, IsName name)
    (h : ∀ name ∈ names, IsName name) : dropComponents above.length (above ++ names) = names := by
  induction above with
  | nil =>
    rw [List.length_nil, List.nil_append, dropComponents]
    exact dropWhile_names h
  | cons name above ih =>
    have hbusy := (habove name List.mem_cons_self).busy
    rw [List.length_cons, List.cons_append, dropComponents, if_neg (by simp [hbusy])]
    exact ih fun n hn => habove n (List.mem_cons_of_mem _ hn)

/-- What remains of the path of a place below another place are the names between them. -/
theorem below?_append {above names : List String} (habove : ∀ name ∈ above, IsName name)
    (h : ∀ name ∈ names, IsName name) :
    (ofPlace (above ++ names)).below? above = some (ofPieces names) := by
  have hplace : ∀ name ∈ above ++ names, IsName name := by
    intro name hname
    exact (List.mem_append.1 hname).elim (habove name) (h name)
  have hbelow :
      (placeComponents above).isPrefixOf (ofPlace (above ++ names)).components = true := by
    rw [components_ofPlace hplace, List.isPrefixOf_iff_prefix, placeComponents_prefix_iff]
    exact List.prefix_append _ _
  rw [below?, if_pos hbelow, pieces_ofPlace hplace, dropComponents_idle _ (by decide)]
  split
  next hempty =>
    obtain ⟨rfl, rfl⟩ := List.append_eq_nil_iff.1 hempty
    rfl
  next => rw [dropComponents_append habove h, trimPieces_names h]

theorem below?_eq_none {above place : Place} (h : ∀ name ∈ place, IsName name)
    (hnot : ¬above <+: place) : (ofPlace place).below? above = none := by
  rw [below?, if_neg]
  rw [components_ofPlace h, List.isPrefixOf_iff_prefix, placeComponents_prefix_iff]
  exact hnot

/-! ## Joining -/

theorem isAbsolute_ofPieces {names : List String} (hne : names ≠ [])
    (h : ∀ name ∈ names, IsName name) : (ofPieces names).isAbsolute = false := by
  -- An absolute path has an empty text before its first slash.
  have hpieces := pieces_ofPieces hne h
  rw [Bool.eq_false_iff, isAbsolute]
  intro habsolute
  obtain ⟨cs, hcs⟩ := List.head?_eq_some_iff.1 (of_decide_eq_true habsolute)
  rw [pieces, hcs, List.splitOn_cons_eq_if_modifyHead, if_pos (beq_self_eq_true '/')] at hpieces
  have hempty := (h "" (by rw [← hpieces]; exact List.mem_cons_self)).busy
  cases hempty

theorem text_join_ne {d p : Path} (hd : d.text ≠ "") (hp : p.isAbsolute = false) :
    (d.join p).text ≠ "" := by
  rw [join, if_neg (by simp [hp])]
  split <;> simp [hd]

/-- The names come after the steps of the directory, but for an empty step when the directory's path
ends in a slash. -/
theorem pieces_join {d : Path} {names : List String} (hd : d.text ≠ "") (hne : names ≠ [])
    (h : ∀ name ∈ names, IsName name) :
    Thinner (d.pieces ++ names) (d.join (ofPieces names)).pieces ∧
      (d.join (ofPieces names)).isAbsolute = d.isAbsolute := by
  have hchars : d.text.toList ≠ [] := by
    rwa [ne_eq, String.toList_eq_nil_iff]
  obtain ⟨c, chars, hfirst⟩ := List.exists_cons_of_ne_nil hchars
  have hnames := map_splitOn_names hne h
  rw [join, if_neg (by simp [isAbsolute_ofPieces hne h])]
  split
  next hlast =>
    obtain ⟨cs, hcs⟩ := List.getLast?_eq_some_iff.1 (hlast.resolve_left hd)
    have htext : (d.text ++ (ofPieces names).text).toList =
        cs ++ '/' :: (ofPieces names).text.toList := by
      rw [String.toList_append, hcs, List.append_assoc]
      rfl
    refine ⟨?_, ?_⟩
    · rw [pieces, pieces, htext, hcs, List.splitOn_append_cons_self,
        List.splitOn_append_cons_self, List.map_append, List.map_append, ofPieces, hnames,
        List.append_assoc]
      exact Thinner.append_left _ (.drop (by decide) (Thinner.refl names))
    · rw [isAbsolute, isAbsolute, String.toList_append, hfirst]
      rfl
  next =>
    have htext : (d.text ++ "/" ++ (ofPieces names).text).toList =
        d.text.toList ++ '/' :: (ofPieces names).text.toList := by
      rw [String.toList_append, String.toList_append, List.append_assoc]
      rfl
    refine ⟨?_, ?_⟩
    · rw [pieces, pieces, htext, List.splitOn_append_cons_self, List.map_append, ofPieces, hnames]
      exact Thinner.refl _
    · rw [isAbsolute, isAbsolute, htext, hfirst]
      rfl

end Path

/-! ## Walking down -/

namespace Entry

theorem find?_append (e : Entry) (above names : Place) :
    e.find? (above ++ names) = (e.find? above).bind (find? names) := by
  induction above generalizing e with
  | nil => rfl
  | cons name above ih =>
    cases e with
    | file bytes => rfl
    | link target => rfl
    | directory entries =>
      rw [List.cons_append, find?, find?]
      cases entries.lookup name with
      | none => rfl
      | some e => exact ih e

/-- Above a file there are directories only. -/
theorem find?_above {e : Entry} {above names : Place} {name : String} {bytes : ByteArray}
    (h : e.find? (above ++ name :: names) = some (.file bytes)) :
    ∃ entries child, e.find? above = some (.directory entries) ∧
      e.find? (above ++ [name]) = some child ∧ ∀ target, child ≠ .link target := by
  rw [find?_append] at h
  obtain ⟨parent, hparent, hbelow⟩ := Option.bind_eq_some_iff.1 h
  cases parent with
  | file bytes => cases hbelow
  | link target => cases hbelow
  | directory entries =>
    rw [find?] at hbelow
    split at hbelow
    next child hchild =>
      refine ⟨entries, child, hparent, ?_, ?_⟩
      · rw [find?_append, hparent, Option.bind_some, find?, hchild]
        rfl
      · rintro target rfl
        cases names <;> cases hbelow
    next => cases hbelow

end Entry

namespace FileSystem

variable {root : Entry}

/-- Names that lead down to a file are followed as they are. -/
theorem walk_down {onLink : Place → List String → Option Place} {place : Place}
    {names : List String} {bytes : ByteArray} (h : ∀ name ∈ names, Path.IsName name)
    (hfile : root.find? (place ++ names) = some (.file bytes)) :
    walk root onLink place names = some (place ++ names) := by
  induction names generalizing place with
  | nil => rw [walk, List.append_nil]
  | cons name names ih =>
    obtain ⟨entries, child, hparent, hchild, hlink⟩ := Entry.find?_above hfile
    have hname := h name List.mem_cons_self
    have hnext : place ++ name :: names = place ++ [name] ++ names := by simp
    rw [walk, hparent]
    simp only [hname.busy, hname.ne_up, Bool.false_eq_true, if_false, hchild]
    rw [hnext] at hfile ⊢
    cases child with
    | link target => exact absurd rfl (hlink target)
    | file _ => exact ih (fun n hn => h n (List.mem_cons_of_mem _ hn)) hfile
    | directory _ => exact ih (fun n hn => h n (List.mem_cons_of_mem _ hn)) hfile

theorem follow_down {links : Nat} {place : Place} {names : List String} {bytes : ByteArray}
    (h : ∀ name ∈ names, Path.IsName name)
    (hfile : root.find? (place ++ names) = some (.file bytes)) :
    follow root links place names = some (place ++ names) := by
  cases links with
  | zero => exact walk_down h hfile
  | succ links => exact walk_down h hfile

/-- A walk goes on from where it arrived. -/
theorem walk_append {onLink : Place → List String → Option Place} {more : List String}
    {mid r : Place}
    (hlink : ∀ place steps, onLink place steps = some mid → onLink place (steps ++ more) = some r)
    (hmore : walk root onLink mid more = some r) {place : Place} {steps : List String}
    (h : walk root onLink place steps = some mid) :
    walk root onLink place (steps ++ more) = some r := by
  induction steps generalizing place with
  | nil =>
    cases h
    exact hmore
  | cons step steps ih =>
    rw [walk] at h
    rw [List.cons_append, walk]
    split at h
    · split at h
      next hidle =>
        rw [if_pos hidle]
        exact ih h
      next hbusy =>
      rw [if_neg hbusy]
      split at h
      next hup =>
        rw [if_pos hup]
        exact ih h
      next hname =>
      rw [if_neg hname]
      split at h
      · rw [← List.append_assoc]
        exact hlink _ _ h
      · exact ih h
      · cases h
    · cases h

theorem follow_append {more : List String} {mid r : Place}
    (hmore : ∀ links, follow root links mid more = some r) (links : Nat) {place : Place}
    {steps : List String} (h : follow root links place steps = some mid) :
    follow root links place (steps ++ more) = some r := by
  induction links generalizing place steps with
  | zero =>
    rw [follow] at h ⊢
    refine walk_append (fun _ _ hnone => ?_) (hmore 0) h
    cases hnone
  | succ links ih =>
    rw [follow] at h ⊢
    exact walk_append (fun _ _ hlink => ih hlink) (hmore (links + 1)) h

/-- **A file is found below every path of a directory above it**, by the names between them. -/
theorem locate?_join {fs : FileSystem} {d : Path} {place : Place} {names : List String}
    {bytes : ByteArray} (hd : fs.locate? d = some place) (hne : names ≠ [])
    (h : ∀ name ∈ names, Path.IsName name)
    (hfile : fs.root.find? (place ++ names) = some (.file bytes)) :
    fs.locate? (d.join (.ofPieces names)) = some (place ++ names) := by
  unfold locate? at hd
  split at hd
  · cases hd
  next htext =>
  obtain ⟨hthin, habsolute⟩ := Path.pieces_join htext hne h
  have hjoin := Path.text_join_ne htext (Path.isAbsolute_ofPieces hne h)
  have hstart : fs.startOf (d.join (.ofPieces names)) = fs.startOf d := by
    rw [startOf, startOf, habsolute]
  rw [locate?, if_neg hjoin, hstart]
  exact follow_thinner hthin (follow_append (fun _ => follow_down h hfile) linkLimit hd)

/-! ## The names of a place -/

/-- Steps without a slash, each of which may be idle, lead from names to names. -/
theorem walk_names {onLink : Place → List String → Option Place}
    (hlink : ∀ place steps r, (∀ name ∈ place, Path.IsName name) →
      (∀ step ∈ steps, '/' ∉ step.toList) →
      onLink place steps = some r → ∀ name ∈ r, Path.IsName name)
    {place r : Place} {steps : List String} (hplace : ∀ name ∈ place, Path.IsName name)
    (hsteps : ∀ step ∈ steps, '/' ∉ step.toList) (h : walk root onLink place steps = some r) :
    ∀ name ∈ r, Path.IsName name := by
  induction steps generalizing place with
  | nil =>
    cases h
    exact hplace
  | cons step steps ih =>
    have hrest : ∀ step ∈ steps, '/' ∉ step.toList := fun s hs =>
      hsteps s (List.mem_cons_of_mem _ hs)
    rw [walk] at h
    split at h
    · split at h
      · exact ih hplace hrest h
      next hbusy =>
      split at h
      · exact ih (fun name hname => hplace name ((List.dropLast_subset place) hname)) hrest h
      next hup =>
      have hstep : Path.IsName step :=
        ⟨hsteps step List.mem_cons_self, Bool.eq_false_iff.2 hbusy, hup⟩
      split at h
      next target _ =>
        refine hlink _ _ r ?_ ?_ h
        · intro name hname
          split at hname
          · cases hname
          · exact hplace name hname
        · intro s hs
          exact (List.mem_append.1 hs).elim Path.slash_not_mem_pieces (hrest s)
      · refine ih ?_ hrest h
        intro name hname
        rcases List.mem_append.1 hname with hname | hname
        · exact hplace name hname
        · rwa [List.mem_singleton.1 hname]
      · cases h
    · cases h

theorem follow_names {links : Nat} {place : Place} {steps : List String} {r : Place}
    (hplace : ∀ name ∈ place, Path.IsName name) (hsteps : ∀ step ∈ steps, '/' ∉ step.toList)
    (h : follow root links place steps = some r) : ∀ name ∈ r, Path.IsName name := by
  induction links generalizing place steps r with
  | zero =>
    rw [follow] at h
    refine walk_names (fun _ _ _ _ _ hnone => ?_) hplace hsteps h
    cases hnone
  | succ links ih =>
    rw [follow] at h
    exact walk_names (fun _ _ _ hp hs hlink => ih hp hs hlink) hplace hsteps h

/-- A path leads to a list of names, if relative paths start at one. -/
theorem isName_of_locate? {fs : FileSystem} (hstart : ∀ name ∈ fs.start, Path.IsName name)
    {p : Path} {place : Place} (h : fs.locate? p = some place) :
    ∀ name ∈ place, Path.IsName name := by
  unfold locate? at h
  split at h
  · cases h
  refine follow_names ?_ (fun _ => Path.slash_not_mem_pieces) h
  intro name hname
  unfold startOf at hname
  split at hname
  · cases hname
  · exact hstart name hname

end FileSystem

end HeaderReflection
