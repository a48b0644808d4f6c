import HeaderReflection.Proofs.FileTree.Below
import HeaderReflection.Proofs.Include.Pattern
import Mathlib.Data.List.Forall2

/-!
# Include directives line by line

A line includes something if it starts with a directive (`Include.Directive`); what follows the
directive does not matter. The pattern of a directive, looked for in a whole text, starts at the
start of a line and takes no line end, so its matches are the directives at the starts of the lines,
each line with one at most (`Include.search_eq_lines`). So the includes of a text are listed line by
line (`Include.all_line_by_line`).
-/

namespace HeaderReflection.Include

/-! ## Directives -/

/-- The text of a directive that includes `target`, from the start of its line to the delimiter that
closes the target. -/
def Directive (text target : List Char) : Prop :=
  ∃ (gap₁ gap₂ gap₃ : List Char) (opening closing : Char),
    text = gap₁ ++ ('#' :: (gap₂ ++ (word ++ (gap₃ ++ (opening :: (target ++ [closing])))))) ∧
    (∀ c ∈ gap₁, c = ' ' ∨ c = '\t') ∧ (∀ c ∈ gap₂, c = ' ' ∨ c = '\t') ∧
    (∀ c ∈ gap₃, c = ' ' ∨ c = '\t') ∧ (opening = '<' ∨ opening = '"') ∧ target ≠ [] ∧
    (∀ c ∈ target, c ≠ '<' ∧ c ≠ '>' ∧ c ≠ '"') ∧ (closing = '>' ∨ closing = '"')

/-- The line starts with a directive that includes `target`. -/
def LineIncludes (line target : List Char) : Prop :=
  ∃ text rest, line = text ++ rest ∧ Directive text target

theorem isGap_iff {c : Char} : isGap c = true ↔ c = ' ' ∨ c = '\t' := by
  simp [isGap]

theorem isTarget_iff {c : Char} : isTarget c = true ↔ c ≠ '<' ∧ c ≠ '>' ∧ c ≠ '"' := by
  simp [isTarget, and_assoc]

theorem dropWhile_gap {gap : List Char} (hgap : ∀ c ∈ gap, isGap c = true) {c : Char}
    (hc : isGap c = false) (rest : List Char) :
    (gap ++ c :: rest).dropWhile isGap = c :: rest := by
  rw [List.dropWhile_append_of_pos hgap, List.dropWhile_cons_of_neg (by simp [hc])]

theorem exists_gap {cs rest : List Char} (h : cs.dropWhile isGap = rest) :
    ∃ gap, cs = gap ++ rest ∧ ∀ c ∈ gap, isGap c = true :=
  ⟨cs.takeWhile isGap, by rw [← h, List.takeWhile_append_dropWhile],
    List.all_eq_true.1 List.all_takeWhile⟩

theorem target?_eq_some_iff {cs target : List Char} :
    target? cs = some target ↔ ∃ closing rest, cs = target ++ closing :: rest ∧ target ≠ [] ∧
      (∀ c ∈ target, isTarget c = true) ∧ (closing = '>' ∨ closing = '"') := by
  constructor
  · intro h
    have hcs : cs.takeWhile isTarget ++ cs.dropWhile isTarget = cs :=
      List.takeWhile_append_dropWhile
    have hall : ∀ c ∈ cs.takeWhile isTarget, isTarget c = true :=
      List.all_eq_true.1 List.all_takeWhile
    unfold target? at h
    split at h
    · cases h
    next closing hclosing hne =>
      obtain ⟨rest, hrest⟩ := List.head?_eq_some_iff.1 hclosing
      split at h
      next hcloses =>
        cases h
        rw [hrest] at hcs
        exact ⟨closing, rest, hcs.symm, hne, hall, hcloses⟩
      · cases h
    · cases h
  · rintro ⟨closing, rest, rfl, hne, hall, hcloses⟩
    have hclosing : isTarget closing = false := by
      rcases hcloses with rfl | rfl <;> rfl
    have htake : (target ++ closing :: rest).takeWhile isTarget = target := by
      rw [List.takeWhile_append_of_pos hall, List.takeWhile_cons_of_neg (by simp [hclosing]),
        List.append_nil]
    have hdrop : (target ++ closing :: rest).dropWhile isTarget = closing :: rest := by
      rw [List.dropWhile_append_of_pos hall, List.dropWhile_cons_of_neg (by simp [hclosing])]
    obtain ⟨c, target, rfl⟩ := List.exists_cons_of_ne_nil hne
    rw [target?, htake, hdrop]
    exact if_pos hcloses

/-- What follows the word of a directive. -/
theorem afterWord?_eq_some_iff {cs target : List Char} :
    (match cs.dropWhile isGap with
      | '<' :: cs => target? cs
      | '"' :: cs => target? cs
      | _ => none) = some target ↔
      ∃ gap opening closing rest, cs = gap ++ opening :: (target ++ closing :: rest) ∧
        (∀ c ∈ gap, isGap c = true) ∧ (opening = '<' ∨ opening = '"') ∧ target ≠ [] ∧
        (∀ c ∈ target, isTarget c = true) ∧ (closing = '>' ∨ closing = '"') := by
  constructor
  · intro h
    have hopens : ∃ opening rest, cs.dropWhile isGap = opening :: rest ∧
        (opening = '<' ∨ opening = '"') ∧ target? rest = some target := by
      split at h
      next rest hdrop => exact ⟨'<', rest, hdrop, .inl rfl, h⟩
      next rest hdrop => exact ⟨'"', rest, hdrop, .inr rfl, h⟩
      · cases h
    obtain ⟨opening, rest, hdrop, hopening, htarget⟩ := hopens
    obtain ⟨closing, rest, rfl, hne, hall, hclosing⟩ := target?_eq_some_iff.1 htarget
    obtain ⟨gap, rfl, hgap⟩ := exists_gap hdrop
    exact ⟨gap, opening, closing, rest, rfl, hgap, hopening, hne, hall, hclosing⟩
  · rintro ⟨gap, opening, closing, rest, rfl, hgap, hopening, hne, hall, hclosing⟩
    have htarget : target? (target ++ closing :: rest) = some target :=
      target?_eq_some_iff.2 ⟨closing, rest, rfl, hne, hall, hclosing⟩
    rcases hopening with rfl | rfl
    · rw [dropWhile_gap hgap rfl]
      exact htarget
    · rw [dropWhile_gap hgap rfl]
      exact htarget

/-- **A line includes what its directive includes.** -/
theorem ofLine?_eq_some_iff {line target : List Char} :
    ofLine? line = some target ↔ LineIncludes line target := by
  constructor
  · intro h
    unfold ofLine? at h
    split at h
    next cs hhash =>
      obtain ⟨gap₁, rfl, hgap₁⟩ := exists_gap hhash
      dsimp only at h
      split at h
      next hword =>
        obtain ⟨more, hmore⟩ := List.isPrefixOf_iff_prefix.1 hword
        obtain ⟨gap₂, rfl, hgap₂⟩ := exists_gap hmore.symm
        rw [← hmore, List.drop_left] at h
        obtain ⟨gap₃, opening, closing, rest, rfl, hgap₃, hopening, hne, hall, hclosing⟩ :=
          afterWord?_eq_some_iff.1 h
        refine ⟨_, rest, ?_, gap₁, gap₂, gap₃, opening, closing, rfl, ?_⟩
        · simp [word]
        · simp only [isGap_iff, isTarget_iff] at hgap₁ hgap₂ hgap₃ hall
          exact ⟨hgap₁, hgap₂, hgap₃, hopening, hne, hall, hclosing⟩
      · cases h
    · cases h
  · rintro ⟨text, rest, rfl, gap₁, gap₂, gap₃, opening, closing, rfl, hgap₁, hgap₂, hgap₃, hopening,
      hne, hall, hclosing⟩
    simp only [← isGap_iff, ← isTarget_iff] at hgap₁ hgap₂ hgap₃ hall
    have hafter := afterWord?_eq_some_iff.2
      ⟨gap₃, opening, closing, rest, rfl, hgap₃, hopening, hne, hall, hclosing⟩
    have hword : ∀ more, (gap₂ ++ (word ++ more)).dropWhile isGap = word ++ more := fun _ =>
      dropWhile_gap hgap₂ rfl _
    simp only [List.append_assoc, List.cons_append, List.nil_append]
    rw [ofLine?, dropWhile_gap hgap₁ rfl]
    refine (if_pos ?_).trans ?_
    · rw [hword]
      exact List.isPrefixOf_iff_prefix.2 (List.prefix_append _ _)
    · rw [hword, List.drop_left]
      exact hafter

/-- A directive goes on over a line end only if its target does. -/
theorem Directive.lineEnd_mem_iff {text target : List Char} (h : Directive text target) :
    '\n' ∈ text ↔ '\n' ∈ target := by
  obtain ⟨gap₁, gap₂, gap₃, opening, closing, rfl, hgap₁, hgap₂, hgap₃, hopening, -, -, hclosing⟩ :=
    h
  have hgap : ∀ gap : List Char, (∀ c ∈ gap, c = ' ' ∨ c = '\t') → '\n' ∉ gap := fun gap h hmem =>
    absurd (h '\n' hmem) (by decide)
  have hopen : '\n' ≠ opening := by rcases hopening with rfl | rfl <;> decide
  have hclose : '\n' ≠ closing := by rcases hclosing with rfl | rfl <;> decide
  simp [hgap gap₁ hgap₁, hgap gap₂ hgap₂, hgap gap₃ hgap₃, hopen, hclose, word]

/-! ## The pattern of a directive -/

/-- The pattern that is looked for. -/
def pattern : Pattern :=
  .lineStart :: .run isGap :: .one (· = '#') :: .run isGap ::
    (word.map (fun c => .one (· = c)) ++
      [.run isGap, .one (fun c => c = '<' || c = '"'), .kept (fun c => isTarget c && c != '\n'),
        .one (fun c => c = '>' || c = '"')])

/-- **The pattern takes a directive at the start of a line,** without a line end in it. -/
theorem mem_ways_pattern {s : Spot} {way : Pattern.Way} :
    way ∈ Pattern.ways pattern s ↔ s.startsLine = true ∧
      ∃ text target rest, s.after = text ++ rest ∧ Directive text target ∧ '\n' ∉ text ∧
        way = ([target], s.past text rest) := by
  rw [pattern, Pattern.mem_ways_lineStart]
  refine and_congr_right fun _ => ⟨?_, ?_⟩
  · intro hway
    obtain ⟨gap₁, v₁, hafter, hgap₁, hway⟩ := Pattern.mem_ways_run.1 hway
    obtain ⟨hash, v₂, rfl, hhash, hway⟩ := Pattern.mem_ways_one.1 hway
    obtain ⟨gap₂, v₃, rfl, hgap₂, hway⟩ := Pattern.mem_ways_run.1 hway
    obtain ⟨v₄, rfl, hway⟩ := Pattern.mem_ways_word.1 hway
    obtain ⟨gap₃, v₅, rfl, hgap₃, hway⟩ := Pattern.mem_ways_run.1 hway
    obtain ⟨opening, v₆, rfl, hopening, hway⟩ := Pattern.mem_ways_one.1 hway
    obtain ⟨target, v₇, rfl, hne, hall, more, hmore, rfl⟩ := Pattern.mem_ways_kept.1 hway
    obtain ⟨closing, rest, rfl, hclosing, hmore⟩ := Pattern.mem_ways_one.1 hmore
    obtain rfl : hash = '#' := of_decide_eq_true hhash
    simp only [isGap_iff] at hgap₁ hgap₂ hgap₃
    simp only [Bool.or_eq_true, decide_eq_true_eq] at hopening hclosing
    simp only [Bool.and_eq_true, isTarget_iff, bne_iff_ne] at hall
    have hdirective : Directive
        (gap₁ ++ '#' :: (gap₂ ++ (word ++ (gap₃ ++ opening :: (target ++ [closing]))))) target :=
      ⟨gap₁, gap₂, gap₃, opening, closing, rfl, hgap₁, hgap₂, hgap₃, hopening, hne,
        fun c hc => (hall c hc).1, hclosing⟩
    refine ⟨_, target, rest, ?_, hdirective, ?_, ?_⟩
    · simpa using hafter
    · exact mt hdirective.lineEnd_mem_iff.1 fun hline => (hall '\n' hline).2 rfl
    · rw [Pattern.mem_ways_nil.1 hmore]
      simp [Spot.past_past]
  · rintro ⟨text, target, rest, hafter, hdirective, hline, rfl⟩
    have htarget := mt hdirective.lineEnd_mem_iff.2 hline
    obtain ⟨gap₁, gap₂, gap₃, opening, closing, rfl, hgap₁, hgap₂, hgap₃, hopening, hne, hall,
      hclosing⟩ := hdirective
    simp only [← isGap_iff] at hgap₁ hgap₂ hgap₃
    have hkept : ∀ c ∈ target, (isTarget c && c != '\n') = true := by
      intro c hc
      simp only [Bool.and_eq_true, isTarget_iff, bne_iff_ne]
      exact ⟨hall c hc, fun heq => htarget (heq ▸ hc)⟩
    simp only [List.append_assoc, List.cons_append, List.nil_append] at hafter
    refine Pattern.mem_ways_run.2 ⟨gap₁, _, hafter, hgap₁, ?_⟩
    refine Pattern.mem_ways_one.2 ⟨'#', _, rfl, rfl, ?_⟩
    refine Pattern.mem_ways_run.2 ⟨gap₂, _, rfl, hgap₂, ?_⟩
    refine Pattern.mem_ways_word.2 ⟨_, rfl, ?_⟩
    refine Pattern.mem_ways_run.2 ⟨gap₃, _, rfl, hgap₃, ?_⟩
    refine Pattern.mem_ways_one.2 ⟨opening, _, rfl, by simpa using hopening, ?_⟩
    refine Pattern.mem_ways_kept.2 ⟨target, _, rfl, hne, hkept, ([], _), ?_, rfl⟩
    refine Pattern.mem_ways_one.2 ⟨closing, rest, rfl, by simpa using hclosing, ?_⟩
    refine Pattern.mem_ways_nil.2 ?_
    simp [Spot.past]

/-! ## The search -/

theorem Directive.ne_nil {text target : List Char} (h : Directive text target) : text ≠ [] := by
  obtain ⟨gap₁, gap₂, gap₃, opening, closing, rfl, -⟩ := h
  exact List.append_ne_nil_of_right_ne_nil _ (List.cons_ne_nil _ _)

/-- A text without a line end, at the front of a line and what follows it, is the front of the
line. -/
theorem exists_line_eq {line tail text rest : List Char} (h : line ++ tail = text ++ rest)
    (htail : tail = [] ∨ ∃ more, tail = '\n' :: more) (htext : '\n' ∉ text) :
    ∃ more, line = text ++ more ∧ rest = more ++ tail := by
  rcases List.append_eq_append_iff.1 h with ⟨more, hmore, htaken⟩ | hfront
  · have hnil : more = [] := by
      cases more with
      | nil => rfl
      | cons c more =>
        rcases htail with rfl | ⟨below, rfl⟩
        · cases htaken
        · cases htaken
          exact absurd (hmore ▸ List.mem_append_right _ List.mem_cons_self) htext
    subst hnil
    rw [List.append_nil] at hmore
    exact ⟨[], by rw [hmore, List.append_nil], htaken.symm⟩
  · exact hfront

variable {s : Spot} {line tail : List Char}

theorem no_way_of_not_startsLine (hs : s.startsLine = false) (way : Pattern.Way) :
    way ∉ Pattern.ways pattern s := by
  intro hway
  rw [(mem_ways_pattern.1 hway).1] at hs
  cases hs

/-- Where no way starts, the search goes on to the end of the line. -/
theorem search_within (hafter : s.after = line ++ tail)
    (hnone : ∀ way, way ∉ Pattern.ways pattern s) (hline : '\n' ∉ line) :
    Pattern.search pattern s = Pattern.search pattern (s.past line tail) := by
  induction line generalizing s with
  | nil =>
    rw [← s.past_nil, hafter]
    rfl
  | cons c line ih =>
    rw [List.mem_cons, not_or] at hline
    rw [List.cons_append] at hafter
    have hnext : (s.past [c] (line ++ tail)).startsLine = false :=
      s.not_startsLine_past (List.cons_ne_nil _ _) (by simpa using hline.1) _
    rw [Pattern.search_of_no_way hnone hafter, ih rfl (no_way_of_not_startsLine hnext) hline.2,
      Spot.past_past]
    rfl

/-- **A line has the match of its directive, and no other.** -/
theorem search_line (hafter : s.after = line ++ tail) (hs : s.startsLine = true)
    (hline : '\n' ∉ line) (htail : tail = [] ∨ ∃ more, tail = '\n' :: more) :
    Pattern.search pattern s =
      (ofLine? line).toList.map ([·]) ++ Pattern.search pattern (s.past line tail) := by
  -- A way from the start of the line on takes the directive of the line.
  have hways : ∀ way ∈ Pattern.ways pattern s, ∃ text target more, line = text ++ more ∧
      text ≠ [] ∧ ofLine? line = some target ∧ way = ([target], s.past text (more ++ tail)) := by
    intro way hway
    obtain ⟨-, text, target, rest, htext, hdirective, hnone, rfl⟩ := mem_ways_pattern.1 hway
    obtain ⟨more, rfl, rfl⟩ := exists_line_eq (hafter.symm.trans htext) htail hnone
    exact ⟨text, target, more, rfl, hdirective.ne_nil,
      ofLine?_eq_some_iff.2 ⟨text, more, rfl, hdirective⟩, rfl⟩
  cases hof : ofLine? line with
  | none =>
    have hnone : ∀ way, way ∉ Pattern.ways pattern s := by
      intro way hway
      obtain ⟨text, target, more, -, -, htarget, -⟩ := hways way hway
      rw [hof] at htarget
      cases htarget
    exact search_within hafter hnone hline
  | some target =>
    obtain ⟨text, more, rfl, hdirective⟩ := ofLine?_eq_some_iff.1 hof
    rw [List.mem_append, not_or] at hline
    have hway : ([target], s.past text (more ++ tail)) ∈ Pattern.ways pattern s :=
      mem_ways_pattern.2 ⟨hs, text, target, _, by rw [hafter, List.append_assoc], hdirective,
        hline.1, rfl⟩
    have htakes : (more ++ tail).length < s.after.length := by
      have hlength := List.length_pos_iff.2 hdirective.ne_nil
      rw [hafter]
      simp only [List.length_append]
      omega
    obtain ⟨first, hfirst⟩ := Pattern.exists_firstWay? hway htakes
    obtain ⟨taken, target', left, hsplit, hne, htarget, rfl⟩ :=
      hways first (Pattern.mem_ways_of_firstWay? hfirst)
    obtain rfl : target = target' := Option.some.inj (hof.symm.trans htarget)
    have hends : '\n' ∉ taken ∧ '\n' ∉ left := by
      rw [← not_or, ← List.mem_append, ← hsplit, List.mem_append, not_or]
      exact hline
    have hnext := s.not_startsLine_past hne hends.1 (left ++ tail)
    rw [Pattern.search_of_firstWay? hfirst,
      search_within rfl (no_way_of_not_startsLine hnext) hends.2, Spot.past_past, ← hsplit]
    rfl

/-- **The matches of the pattern are the directives of the lines.** -/
theorem search_eq_lines (hs : s.startsLine = true) :
    Pattern.search pattern s =
      ((s.after.splitOn '\n').filterMap ofLine?).map ([·]) := by
  have hlines : ∀ line ∈ s.after.splitOn '\n', '\n' ∉ line := fun _ =>
    Text.not_mem_of_mem_splitOn
  have hjoin : ['\n'].intercalate (s.after.splitOn '\n') = s.after := List.intercalate_splitOn '\n'
  have hne := List.splitOn_ne_nil '\n' s.after
  generalize s.after.splitOn '\n' = lines at hlines hjoin hne ⊢
  induction lines generalizing s with
  | nil => exact absurd rfl hne
  | cons line lines ih =>
    obtain ⟨hline, hlines⟩ := List.forall_mem_cons.1 hlines
    cases lines with
    | nil =>
      have hafter : s.after = line ++ [] := by
        rw [← hjoin, List.append_nil, List.intercalate_singleton]
      rw [search_line hafter hs hline (.inl rfl), Pattern.search_of_after_eq_nil rfl]
      cases hof : ofLine? line <;> simp [hof]
    | cons next lines =>
      have hafter : s.after = line ++ '\n' :: ['\n'].intercalate (next :: lines) := by
        rw [← hjoin, List.intercalate_cons_cons, List.append_assoc, List.singleton_append]
      have hnone : ∀ way, way ∉ Pattern.ways pattern
          (s.past line ('\n' :: ['\n'].intercalate (next :: lines))) := by
        intro way hway
        obtain ⟨-, text, target, rest, htext, hdirective, hnone, -⟩ := mem_ways_pattern.1 hway
        obtain ⟨c, text, rfl⟩ := List.exists_cons_of_ne_nil hdirective.ne_nil
        obtain ⟨rfl, -⟩ := List.cons.inj htext
        exact hnone List.mem_cons_self
      rw [search_line hafter hs hline (.inr ⟨_, rfl⟩), Pattern.search_of_no_way hnone rfl,
        ih rfl hlines rfl (List.cons_ne_nil _ _)]
      cases hof : ofLine? line <;> simp [hof]

/-! ## Includes of a text -/

/-- The entries of several lines: one for each line with a directive, in order. -/
inductive Listing : List (List Char) → List String → Prop
  /-- Without a line there is no entry. -/
  | nil : Listing [] []
  /-- The entry of a line with a directive is its target, without the white space around it. -/
  | directive {line target entry : List Char} {lines : List (List Char)} {entries : List String}
      (h : LineIncludes line target) (hentry : Unicode.TrimsTo target entry)
      (hlines : Listing lines entries) : Listing (line :: lines) (.ofList entry :: entries)
  /-- Another line has no entry. -/
  | other {line : List Char} {lines : List (List Char)} {entries : List String}
      (h : ∀ target, ¬LineIncludes line target) (hlines : Listing lines entries) :
      Listing (line :: lines) entries

theorem listing_iff {lines : List (List Char)} {entries : List String} :
    Listing lines entries ↔
      entries = ((lines.filterMap ofLine?).map Unicode.trim).map String.ofList := by
  constructor
  · intro h
    induction h with
    | nil => rfl
    | directive hline hentry hlines ih =>
      rw [List.filterMap_cons_some (ofLine?_eq_some_iff.2 hline), ih, ← Unicode.trimsTo_iff.1 hentry]
      rfl
    | other hline hlines ih =>
      have hnone := Option.eq_none_iff_forall_not_mem.2 fun target htarget =>
        hline target (ofLine?_eq_some_iff.1 htarget)
      rw [List.filterMap_cons_none hnone, ih]
  · rintro rfl
    induction lines with
    | nil => exact .nil
    | cons line lines ih =>
      cases hof : ofLine? line with
      | none =>
        rw [List.filterMap_cons_none hof]
        refine .other (fun target htarget => ?_) ih
        rw [ofLine?_eq_some_iff.2 htarget] at hof
        cases hof
      | some target =>
        rw [List.filterMap_cons_some hof]
        exact .directive (ofLine?_eq_some_iff.1 hof) (Unicode.trimsTo_iff.2 rfl) ih

/-- **Includes are told line by line.** What the pattern of a directive keeps in a whole text are
the targets of the lines that start with a directive, one for each such line and in the order of the
lines. The entries are these targets without the blanks around them. So the includes of two texts
with a line end between them are those of the one and then those of the other. -/
theorem all_line_by_line (text : String) :
    List.Forall₂ (fun kept entry => Unicode.TrimsTo kept entry.toList)
      ((Pattern.search pattern ⟨[], text.toList⟩).filterMap List.head?) (allOfString text) ∧
    (∀ entries, Listing (text.toList.splitOn '\n') entries ↔ entries = allOfString text) ∧
    ∀ more : String,
      allOfString (text ++ "\n" ++ more) = allOfString text ++ allOfString more := by
  refine ⟨?_, fun entries => listing_iff, fun more => ?_⟩
  · have hkept : (List.head? ∘ fun target : List Char => [target]) = some := rfl
    rw [search_eq_lines rfl, List.filterMap_map, hkept, List.filterMap_some, allOfString, all,
      List.map_map, List.forall₂_map_right_iff, List.forall₂_same]
    intro target _
    rw [Function.comp_apply, String.toList_ofList]
    exact Unicode.trimsTo_iff.2 rfl
  · have hends : (text ++ "\n" ++ more).toList = text.toList ++ '\n' :: more.toList := by
      simp [String.toList_append]
    rw [allOfString, hends, all_append_newline, List.map_append]
    rfl

/-- Delimiters of two kinds, a target that goes over a line end, and a line with two directives. -/
example : allOfString "#include <a.h\" x\n#include <b\n.h>\n\t# include\"c.h> #include <d.h>" =
    ["a.h", "c.h"] := by
  decide +kernel

/-- Blanks and tabs around a target, blanks within one, and a target of blanks alone. -/
example : allOfString "#include < a.h\t>\n#include \"\u3000b c.h\"\n#include < >" =
    ["a.h", "b c.h", ""] := by
  decide +kernel

end HeaderReflection.Include
