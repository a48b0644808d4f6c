import HeaderReflection.Include.Directive

/-!
# Patterns that are looked for in a whole text

A pattern is a row of parts, each of which takes characters from the front of a text. A part that
may take more or fewer characters takes as many as it can, and gives some back when what follows
does not match: `Pattern.ways` lists all ways to match in this order. The matches of a text are
found from its start on (`Pattern.search`): at each spot the first way counts, and the search goes
on where it ended.
-/

namespace HeaderReflection

/-- A spot in a text. -/
structure Spot where
  /-- What stands before it, the last character first. -/
  before : List Char
  /-- What stands after it. -/
  after : List Char

namespace Spot

/-- Whether a line starts here. -/
def startsLine (s : Spot) : Bool := s.before.head?.all (· = '\n')

/-- The spot after some characters, with what follows them. -/
def past (s : Spot) (taken rest : List Char) : Spot := ⟨taken.reverse ++ s.before, rest⟩

theorem past_nil (s : Spot) : s.past [] s.after = s := rfl

theorem past_past (s : Spot) (taken more rest rest' : List Char) :
    (s.past taken rest).past more rest' = s.past (taken ++ more) rest' := by
  simp only [past, List.reverse_append, List.append_assoc]

/-- In the middle of a line no line starts. -/
theorem not_startsLine_past (s : Spot) {taken : List Char} (hne : taken ≠ []) (h : '\n' ∉ taken)
    (rest : List Char) : (s.past taken rest).startsLine = false := by
  obtain ⟨front, last, rfl⟩ := (List.eq_nil_or_concat taken).resolve_left hne
  have hlast : last ≠ '\n' := fun heq => h (heq ▸ by simp)
  simp [startsLine, past, hlast]

end Spot

/-- A part of a pattern. -/
inductive Pattern.Part
  /-- The start of a line. -/
  | lineStart
  /-- One character of a kind. -/
  | one (takes : Char → Bool)
  /-- Any number of characters of a kind. -/
  | run (takes : Char → Bool)
  /-- At least one character of a kind; what is taken is kept. -/
  | kept (takes : Char → Bool)

/-- A row of parts. -/
abbrev Pattern := List Pattern.Part

namespace Pattern

/-- What a pattern keeps, and the spot where it ends. -/
abbrev Way := List (List Char) × Spot

/-! ## Ways to match -/

/-- The ways to take characters of a kind from the front of a text, with what is left, the longest
first. -/
def fronts (takes : Char → Bool) : List Char → List (List Char × List Char)
  | [] => [([], [])]
  | c :: cs =>
    (if takes c then (fronts takes cs).map fun front => (c :: front.1, front.2) else []) ++
      [([], c :: cs)]

/-- The ways to match a pattern from a spot on, in the order in which they are tried. -/
def ways : Pattern → Spot → List Way
  | [], s => [([], s)]
  | .lineStart :: parts, s => if s.startsLine then ways parts s else []
  | .one takes :: parts, s =>
    match s.after with
    | c :: cs => if takes c then ways parts (s.past [c] cs) else []
    | [] => []
  | .run takes :: parts, s =>
    (fronts takes s.after).flatMap fun front => ways parts (s.past front.1 front.2)
  | .kept takes :: parts, s =>
    (fronts takes s.after).flatMap fun front =>
      if front.1 = [] then []
      else (ways parts (s.past front.1 front.2)).map fun way => (front.1 :: way.1, way.2)

/-- The first way to match from a spot on, of those that take anything. -/
def firstWay? (pattern : Pattern) (s : Spot) : Option Way :=
  (ways pattern s).find? fun way => way.2.after.length < s.after.length

theorem length_of_firstWay? {pattern : Pattern} {s : Spot} {way : Way}
    (h : firstWay? pattern s = some way) : way.2.after.length < s.after.length := by
  simpa using List.find?_some h

/-- What the matches in a text keep, from a spot on. -/
def search (pattern : Pattern) (s : Spot) : List (List (List Char)) :=
  match _h : firstWay? pattern s with
  | some way => way.1 :: search pattern way.2
  | none =>
    match s with
    | ⟨_, []⟩ => []
    | ⟨before, c :: cs⟩ => search pattern ⟨c :: before, cs⟩
termination_by s.after.length
decreasing_by
  · exact length_of_firstWay? _h
  · exact Nat.lt_succ_self _

variable {takes : Char → Bool} {parts : Pattern} {s : Spot} {way : Way}

theorem mem_ways_of_firstWay? (h : firstWay? parts s = some way) : way ∈ ways parts s :=
  List.mem_of_find?_eq_some h

theorem exists_firstWay? (hway : way ∈ ways parts s)
    (htakes : way.2.after.length < s.after.length) : ∃ first, firstWay? parts s = some first :=
  Option.isSome_iff_exists.1 (List.find?_isSome.2 ⟨way, hway, decide_eq_true htakes⟩)

/-- After a match the search goes on where it ended. -/
theorem search_of_firstWay? (h : firstWay? parts s = some way) :
    search parts s = way.1 :: search parts way.2 := by
  rw [search]
  split
  next other hother =>
    rw [h] at hother
    cases hother
    rfl
  next hnone =>
    rw [h] at hnone
    cases hnone

/-- Where no way starts, the search goes on with the next character. -/
theorem search_of_no_way (h : ∀ way, way ∉ ways parts s) {c : Char} {cs : List Char}
    (hafter : s.after = c :: cs) : search parts s = search parts (s.past [c] cs) := by
  obtain ⟨before, after⟩ := s
  subst hafter
  rw [search]
  split
  next way hway => exact absurd (mem_ways_of_firstWay? hway) (h way)
  · rfl

theorem search_of_after_eq_nil (hafter : s.after = []) : search parts s = [] := by
  obtain ⟨before, after⟩ := s
  subst hafter
  rw [search]
  split
  next way hway => exact absurd (length_of_firstWay? hway) (Nat.not_lt_zero _)
  · rfl

/-! ## What a way takes -/

theorem mem_fronts {cs : List Char} {front : List Char × List Char} :
    front ∈ fronts takes cs ↔ cs = front.1 ++ front.2 ∧ ∀ c ∈ front.1, takes c = true := by
  obtain ⟨u, v⟩ := front
  induction cs generalizing u with
  | nil =>
    rw [fronts, List.mem_singleton, Prod.mk.injEq]
    constructor
    · rintro ⟨rfl, rfl⟩
      exact ⟨rfl, List.forall_mem_nil _⟩
    · rintro ⟨hnil, -⟩
      exact List.append_eq_nil_iff.1 hnil.symm
  | cons c cs ih =>
    rw [fronts, List.mem_append, List.mem_singleton, Prod.mk.injEq]
    constructor
    · rintro (hmem | ⟨rfl, rfl⟩)
      · split at hmem
        next hc =>
          obtain ⟨⟨w, rest⟩, hfront, heq⟩ := List.mem_map.1 hmem
          obtain ⟨rfl, rfl⟩ := Prod.mk.inj heq
          obtain ⟨rfl, hall⟩ := (ih w).1 hfront
          exact ⟨rfl, List.forall_mem_cons.2 ⟨hc, hall⟩⟩
        · cases hmem
      · exact ⟨rfl, List.forall_mem_nil _⟩
    · rintro ⟨hsplit, hall⟩
      cases u with
      | nil => exact .inr ⟨rfl, hsplit.symm⟩
      | cons d u =>
        obtain ⟨rfl, hrest⟩ := List.cons.inj hsplit
        obtain ⟨hc, hall⟩ := List.forall_mem_cons.1 hall
        rw [if_pos hc]
        exact .inl (List.mem_map_of_mem ((ih u).2 ⟨hrest, hall⟩))

theorem mem_ways_nil : way ∈ ways [] s ↔ way = ([], s) := List.mem_singleton

theorem mem_ways_lineStart :
    way ∈ ways (.lineStart :: parts) s ↔ s.startsLine = true ∧ way ∈ ways parts s := by
  rw [ways]
  split <;> simp_all

theorem mem_ways_one :
    way ∈ ways (.one takes :: parts) s ↔
      ∃ c cs, s.after = c :: cs ∧ takes c = true ∧ way ∈ ways parts (s.past [c] cs) := by
  constructor
  · intro hway
    rw [ways] at hway
    split at hway
    next c cs hafter =>
      split at hway
      next hc => exact ⟨c, cs, hafter, hc, hway⟩
      · cases hway
    · cases hway
  · rintro ⟨c, cs, hafter, hc, hway⟩
    rw [ways, hafter]
    dsimp only
    rw [if_pos hc]
    exact hway

theorem mem_ways_run :
    way ∈ ways (.run takes :: parts) s ↔
      ∃ u v, s.after = u ++ v ∧ (∀ c ∈ u, takes c = true) ∧ way ∈ ways parts (s.past u v) := by
  rw [ways, List.mem_flatMap]
  constructor
  · rintro ⟨⟨u, v⟩, hfront, hway⟩
    obtain ⟨hsplit, hall⟩ := mem_fronts.1 hfront
    exact ⟨u, v, hsplit, hall, hway⟩
  · rintro ⟨u, v, hsplit, hall, hway⟩
    exact ⟨(u, v), mem_fronts.2 ⟨hsplit, hall⟩, hway⟩

theorem mem_ways_kept :
    way ∈ ways (.kept takes :: parts) s ↔
      ∃ u v, s.after = u ++ v ∧ u ≠ [] ∧ (∀ c ∈ u, takes c = true) ∧
        ∃ more ∈ ways parts (s.past u v), way = (u :: more.1, more.2) := by
  rw [ways, List.mem_flatMap]
  constructor
  · rintro ⟨⟨u, v⟩, hfront, hway⟩
    obtain ⟨hsplit, hall⟩ := mem_fronts.1 hfront
    split at hway
    · cases hway
    next hne =>
      obtain ⟨more, hmore, rfl⟩ := List.mem_map.1 hway
      exact ⟨u, v, hsplit, hne, hall, more, hmore, rfl⟩
  · rintro ⟨u, v, hsplit, hne, hall, more, hmore, rfl⟩
    refine ⟨(u, v), mem_fronts.2 ⟨hsplit, hall⟩, ?_⟩
    rw [if_neg hne]
    exact List.mem_map_of_mem hmore

/-- Characters that are given one by one are taken as they are. -/
theorem mem_ways_word {word : List Char} :
    way ∈ ways (word.map (fun c => .one (· = c)) ++ parts) s ↔
      ∃ v, s.after = word ++ v ∧ way ∈ ways parts (s.past word v) := by
  induction word generalizing s with
  | nil =>
    constructor
    · intro hway
      exact ⟨s.after, rfl, hway⟩
    · rintro ⟨v, rfl, hway⟩
      exact hway
  | cons c word ih =>
    rw [List.map_cons, List.cons_append, mem_ways_one]
    constructor
    · rintro ⟨d, cs, hafter, hd, hway⟩
      obtain rfl : d = c := of_decide_eq_true hd
      obtain ⟨v, rfl, hway⟩ := ih.1 hway
      rw [Spot.past_past] at hway
      exact ⟨v, hafter, hway⟩
    · rintro ⟨v, hafter, hway⟩
      refine ⟨c, word ++ v, hafter, decide_eq_true rfl, ih.2 ⟨v, rfl, ?_⟩⟩
      rw [Spot.past_past]
      exact hway

end Pattern

end HeaderReflection
