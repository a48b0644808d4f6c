import HeaderReflection.Proofs.Grammar.Groups
import HeaderReflection.Proofs.Grammar.Resuming

/-!
# Skipping takes the matching region

A call that starts at an opening bracket takes the region of that bracket, which is the shortest
nonempty front of the tokens with as many closers as openers (`IsRegion`), and leaves the cursor
after it. Where no front is balanced, a bracket told by its category is an error at the end, and an
angle bracket takes all tokens.

The loop behind both calls counts in numbers that cannot be negative. Its depth is what the openers
are ahead in the tokens taken so far, and after the first token they are ahead, so a closer never
lowers a depth of zero (`Parser.groupLoop_lead`).
-/

namespace HeaderReflection

/-- A nonempty front of tokens that has as many openers as closers. -/
structure IsBalancedFront (opens closes : Token → Bool) (ts front : List Token) : Prop where
  isFront : front <+: ts
  nonempty : front ≠ []
  balanced : front.countP opens = front.countP closes

/-- The shortest nonempty front of tokens that has as many openers as closers. -/
structure IsRegion (opens closes : Token → Bool) (ts g : List Token) : Prop
    extends IsBalancedFront opens closes ts g where
  shortest : ∀ front, IsBalancedFront opens closes ts front → g.length ≤ front.length

variable {opens closes : Token → Bool} {ts : List Token}

/-- Where a front is balanced, one of them is the shortest. -/
theorem IsBalancedFront.exists_isRegion {front : List Token}
    (h : IsBalancedFront opens closes ts front) : ∃ g, IsRegion opens closes ts g := by
  by_cases hshortest : ∀ other, IsBalancedFront opens closes ts other →
      front.length ≤ other.length
  · exact ⟨front, h, hshortest⟩
  · obtain ⟨other, hother⟩ := not_forall.1 hshortest
    obtain ⟨hbalanced, hlt⟩ := Classical.not_imp.1 hother
    have hshorter : other.length < front.length := Nat.lt_of_not_le hlt
    exact hbalanced.exists_isRegion
termination_by front.length

/-- From an opener on, the region is the group. -/
theorem isRegion_iff {g : List Token} (hstart : ∃ t ∈ ts.head?, opens t = true) :
    IsRegion opens closes ts g ↔ ∃ rest, ts = g ++ rest ∧ IsGroup opens closes g := by
  constructor
  · rintro ⟨⟨⟨rest, rfl⟩, hne, hbalanced⟩, hshortest⟩
    refine ⟨rest, rfl, ?_, hbalanced, ?_⟩
    · obtain ⟨t, more, rfl⟩ := List.exists_cons_of_ne_nil hne
      exact hstart
    · rintro front back rfl hfront
      by_cases hempty : front = []
      · exact .inl hempty
      · have hfronts : IsBalancedFront opens closes (front ++ back ++ rest) front :=
          ⟨⟨back ++ rest, (List.append_assoc _ _ _).symm⟩, hempty, hfront⟩
        have hlength := hshortest front hfronts
        rw [List.length_append] at hlength
        exact .inr (List.eq_nil_of_length_eq_zero (by omega))
  · rintro ⟨rest, rfl, hgroup⟩
    obtain ⟨t, more, rfl, -⟩ := hgroup.exists_cons
    refine ⟨⟨List.prefix_append _ _, List.cons_ne_nil _ _, hgroup.balanced⟩, ?_⟩
    rintro front ⟨hfront, hne, hbalanced⟩
    rcases List.prefix_or_prefix_of_prefix hfront (List.prefix_append _ _) with hshort | hlong
    · obtain ⟨back, hsplit⟩ := hshort
      have hback := (hgroup.shortest front back hsplit.symm hbalanced).resolve_left hne
      rw [hback, List.append_nil] at hsplit
      exact Nat.le_of_eq (congrArg List.length hsplit.symm)
    · exact hlong.length_le

theorem splitGroup_eq_none_iff (hdisjoint : ∀ t, opens t = true → closes t = false)
    (hstart : ∃ t ∈ ts.head?, opens t = true) :
    splitGroup opens closes 0 ts = none ↔ ∀ front, ¬IsBalancedFront opens closes ts front := by
  constructor
  · intro hnone front hfront
    obtain ⟨g, hg⟩ := hfront.exists_isRegion
    obtain ⟨rest, hgroup⟩ := (isRegion_iff hstart).1 hg
    rw [(splitGroup_eq_some_iff hdisjoint hstart).2 hgroup] at hnone
    cases hnone
  · intro hnone
    rw [Option.eq_none_iff_forall_ne_some]
    rintro ⟨g, rest⟩ hsplit
    have hgroup := (splitGroup_eq_some_iff hdisjoint hstart).1 hsplit
    exact hnone g ((isRegion_iff hstart).2 ⟨rest, hgroup⟩).toIsBalancedFront

/-! ## The depth of the loop -/

namespace Parser

variable {missing : Reading (List Token)}

/-- What a turn of the loop over a group does to the depth. -/
theorem next_of_groupLoop (hdisjoint : ∀ t, opens t = true → closes t = false)
    {depth next : Nat} {t : Token} {left : List Token} (h : 0 < depth ∨ opens t = true)
    (hnext : (groupLoop opens closes missing).Next (depth, t :: ts) (next, left)) :
    left = ts ∧ 0 < next ∧
      next + (if closes t then 1 else 0) = depth + if opens t then 1 else 0 := by
  obtain ⟨items, hturn⟩ := hnext
  have hafter := depth_after hdisjoint depth t h
  simp only [groupLoop] at hturn
  split at hturn
  · cases hturn
  next deeper hdeeper =>
    cases hturn
    rw [hdeeper] at hafter
    exact ⟨rfl, Nat.succ_pos deeper, hafter⟩

/-- A turn that goes on has a token to take. -/
theorem exists_cons_of_next {s t : Nat × List Token}
    (hnext : (groupLoop opens closes missing).Next s t) : ∃ u us, s.2 = u :: us := by
  obtain ⟨items, hturn⟩ := hnext
  cases hs : s.2 with
  | nil =>
    rw [hs] at hturn
    cases hturn
  | cons u us => exact ⟨u, us, rfl⟩

/-- **The depth of the loop over a group is what the openers are ahead.** It is zero at the start
alone. -/
theorem groupLoop_lead (hdisjoint : ∀ t, opens t = true → closes t = false)
    (hstart : ∃ t ∈ ts.head?, opens t = true) {s : Nat × List Token}
    (hrun : Relation.ReflTransGen (groupLoop opens closes missing).Next (0, ts) s) :
    ∃ taken, ts = taken ++ s.2 ∧ taken.countP opens = taken.countP closes + s.1 ∧
      (taken = [] ∨ 0 < s.1) := by
  induction hrun with
  | refl => exact ⟨[], rfl, rfl, .inl rfl⟩
  | @tail s next _ hnext ih =>
    obtain ⟨depth, left⟩ := s
    obtain ⟨deeper, rest⟩ := next
    obtain ⟨taken, hsplit, hcount, hlead⟩ := ih
    obtain ⟨t, left', rfl⟩ := exists_cons_of_next hnext
    have hopen : 0 < depth ∨ opens t = true := by
      refine hlead.symm.imp_right ?_
      rintro rfl
      rw [hsplit] at hstart
      simpa using hstart
    obtain ⟨rfl, hpos, hdepth⟩ := next_of_groupLoop hdisjoint hopen hnext
    refine ⟨taken ++ [t], by rw [hsplit, List.append_assoc]; rfl, ?_, .inr hpos⟩
    simp only [List.countP_append, List.countP_singleton] at hcount ⊢
    omega

/-- The loop over a group, from some tokens on: it gives what a reader gives, its depth is what the
openers are ahead in the tokens taken so far, and it is positive where a closer comes next. -/
structure CountsExactly (opens closes : Token → Bool) (missing : Reading (List Token))
    (p : Parser (List Token)) (ts : List Token) : Prop where
  gives : (groupLoop opens closes missing).Gives 0 ts (p ts)
  lead : ∀ depth left,
    Relation.ReflTransGen (groupLoop opens closes missing).Next (0, ts) (depth, left) →
    ∃ taken, ts = taken ++ left ∧ taken.countP opens = taken.countP closes + depth
  positive : ∀ depth left,
    Relation.ReflTransGen (groupLoop opens closes missing).Next (0, ts) (depth, left) →
    ∀ t ∈ left.head?, closes t = true → 0 < depth

theorem countsExactly_of_gives {p : Parser (List Token)}
    (hdisjoint : ∀ t, opens t = true → closes t = false)
    (hstart : ∃ t ∈ ts.head?, opens t = true)
    (hgives : (groupLoop opens closes missing).Gives 0 ts (p ts)) :
    CountsExactly opens closes missing p ts where
  gives := hgives
  lead depth left hrun := by
    obtain ⟨taken, hsplit, hcount, -⟩ := groupLoop_lead hdisjoint hstart hrun
    exact ⟨taken, hsplit, hcount⟩
  positive depth left hrun t ht hcloses := by
    obtain ⟨taken, hsplit, -, hlead⟩ := groupLoop_lead hdisjoint hstart hrun
    refine hlead.resolve_left ?_
    -- Before the first token the next one is the opener, which is no closer.
    rintro rfl
    obtain ⟨u, hu, hopens⟩ := hstart
    rw [hsplit, List.nil_append] at hu
    obtain rfl : u = t := Option.mem_unique hu ht
    rw [hdisjoint u hopens] at hcloses
    cases hcloses

/-- Takes the tokens from `<` to the `>` that matches it, or all tokens. -/
def angles : Parser (List Token) := fun ts => .ok (splitAngles ts).1 (splitAngles ts).2

end Parser

/-! ## Calls at the cursor -/

namespace Session

/-- Calls a reader at the cursor, as `parse` calls the reader of a file. -/
def read {α : Type} (p : Parser α) (s : Session) : Except ParseError α × Session :=
  (Reading.result (p s.left), s.leaving (Reading.rest (p s.left)))

/-- A call takes the region at the cursor and leaves the cursor after it. Where no front is balanced
it gives `otherwise` and leaves the cursor at the end. -/
def TakesRegion (s : Session) (opens closes : Token → Bool) (p : Parser (List Token))
    (otherwise : Except ParseError (List Token)) : Prop :=
  (s.read p).2.tokens = s.tokens ∧
    ((∃ g, IsRegion opens closes s.left g ∧ (s.read p).1 = .ok g ∧
        (s.read p).2.cursor = s.cursor + g.length) ∨
      ((∀ front, ¬IsBalancedFront opens closes s.left front) ∧ (s.read p).1 = otherwise ∧
        (s.read p).2.cursor = s.tokens.length))

theorem cursor_leaving {s : Session} {g rest : List Token} (h : s.left = g ++ rest) :
    (s.leaving rest).cursor = s.cursor + g.length := by
  have hlength := s.length_left
  rw [h, List.length_append] at hlength
  have hle := s.cursor_le
  show s.tokens.length - rest.length = s.cursor + g.length
  omega

/-- What a reader has to do to take the region. -/
theorem takesRegion_of_splitGroup {s : Session} {opens closes : Token → Bool}
    {p : Parser (List Token)} {otherwise : Except ParseError (List Token)}
    (hdisjoint : ∀ t, opens t = true → closes t = false)
    (hstart : ∃ t ∈ s.left.head?, opens t = true)
    (hsome : ∀ g rest, splitGroup opens closes 0 s.left = some (g, rest) → p s.left = .ok g rest)
    (hnone : splitGroup opens closes 0 s.left = none →
      Reading.result (p s.left) = otherwise ∧ Reading.rest (p s.left) = []) :
    s.TakesRegion opens closes p otherwise := by
  refine ⟨rfl, ?_⟩
  cases hsplit : splitGroup opens closes 0 s.left with
  | some split =>
    obtain ⟨g, rest⟩ := split
    have hgroup := (splitGroup_eq_some_iff hdisjoint hstart).1 hsplit
    have hcursor := cursor_leaving hgroup.1
    rw [read, hsome g rest hsplit]
    exact .inl ⟨g, (isRegion_iff hstart).2 ⟨rest, hgroup⟩, rfl, hcursor⟩
  | none =>
    obtain ⟨hresult, hrest⟩ := hnone hsplit
    rw [read, hresult, hrest]
    exact .inr ⟨(splitGroup_eq_none_iff hdisjoint hstart).1 hsplit, rfl, rfl⟩

/-- **Skipping takes exactly the matching region.** A call at an opening bracket takes the shortest
balanced front, and the loop behind it never lowers a depth of zero. -/
theorem takes_matching_region (s : Session) :
    (∀ opening closing : TokenKind, opening ≠ closing → nextIs opening s.left = true →
      s.TakesRegion (·.kind = opening) (·.kind = closing) (Parser.group opening closing)
          (.error (.unexpectedEnd closing)) ∧
        Parser.CountsExactly (·.kind = opening) (·.kind = closing)
          (.error (.unexpectedEnd closing) []) (Parser.group opening closing) s.left) ∧
    (nextReads "<" s.left = true →
      s.TakesRegion (·.text = "<") (·.text = ">") Parser.angles (.ok s.left) ∧
        Parser.CountsExactly (·.text = "<") (·.text = ">") (.ok [] []) Parser.angles s.left) := by
  constructor
  · intro opening closing hne hnext
    have hdisjoint := kinds_disjoint hne
    have hstart := (Option.any_eq_true _ _).1 hnext
    refine ⟨takesRegion_of_splitGroup hdisjoint hstart ?_ ?_,
      Parser.countsExactly_of_gives hdisjoint hstart (Parser.groupLoop_gives_group _ _ _)⟩
    · intro g rest hsplit
      rw [Parser.group, hsplit]
    · intro hnone
      rw [Parser.group, hnone]
      exact ⟨rfl, rfl⟩
  · intro hnext
    have hstart := (Option.any_eq_true _ _).1 hnext
    refine ⟨takesRegion_of_splitGroup angles_disjoint hstart ?_ ?_,
      Parser.countsExactly_of_gives angles_disjoint hstart
        (Parser.groupLoop_gives_splitAngles _)⟩
    · intro g rest hsplit
      rw [Parser.angles, splitAngles, hsplit]
      rfl
    · intro hnone
      rw [Parser.angles, splitAngles, hnone]
      exact ⟨rfl, rfl⟩

/-- Parentheses that match, angle brackets of which the first stays open, and a brace that stays
open. The texts of the parentheses are those of other brackets. -/
theorem takes_matching_region_crossed :
    let tokens : List Token := [⟨.semicolon, ";", {}⟩, ⟨.openParen, ">", {}⟩,
      ⟨.openParen, "(", {}⟩, ⟨.closeParen, "<", {}⟩, ⟨.closeBrace, ")", {}⟩,
      ⟨.closeParen, ")", {}⟩, ⟨.identifier, "<", {}⟩, ⟨.openBrace, "<", {}⟩,
      ⟨.identifier, ">", {}⟩]
    let atParen : Session := ⟨tokens, 1, by decide⟩
    let atAngle : Session := ⟨tokens, 6, by decide⟩
    let atBrace : Session := ⟨tokens, 7, by decide⟩
    nextIs .openParen atParen.left = true ∧ nextReads "<" atAngle.left = true ∧
      nextIs .openBrace atBrace.left = true ∧
      (atParen.read (Parser.group .openParen .closeParen)).2.cursor = 6 ∧
      (atAngle.read Parser.angles).2.cursor = 9 ∧
      (atBrace.read (Parser.group .openBrace .closeBrace)).2.cursor = 9 ∧
      atParen.TakesRegion (·.kind = .openParen) (·.kind = .closeParen)
        (Parser.group .openParen .closeParen) (.error (.unexpectedEnd .closeParen)) ∧
      atAngle.TakesRegion (·.text = "<") (·.text = ">") Parser.angles (.ok atAngle.left) ∧
      Parser.CountsExactly (·.kind = .openBrace) (·.kind = .closeBrace)
        (.error (.unexpectedEnd .closeBrace) []) (Parser.group .openBrace .closeBrace)
        atBrace.left := by
  intro tokens atParen atAngle atBrace
  have hparen : nextIs .openParen atParen.left = true := by decide
  have hangle : nextReads "<" atAngle.left = true := by decide
  have hbrace : nextIs .openBrace atBrace.left = true := by decide
  exact ⟨hparen, hangle, hbrace, by decide, by decide, by decide,
    ((takes_matching_region atParen).1 .openParen .closeParen (by decide) hparen).1,
    ((takes_matching_region atAngle).2 hangle).1,
    ((takes_matching_region atBrace).1 .openBrace .closeBrace (by decide) hbrace).2⟩

end Session

end HeaderReflection
