import HeaderReflection.Proofs.Layout.MovedFile

/-!
# The layout of a file does not matter

Two lists of tokens that agree in categories and texts are read alike, as long as the same tokens
stand on the line of each `#`. Both are one list of numbered tokens, moved to different places, so
what is read of them is what is read of the numbered tokens (`Parser.unit_of_sameLayout`).
-/

namespace HeaderReflection

namespace Token

/-- What a token is, wherever it stands. -/
def spelling (t : Token) : TokenKind × String := (t.kind, t.text)

/-- The lists agree token by token in category and text, and each token after a `#` stands on its
line in both or in none. -/
structure SameLayout (us vs : List Token) : Prop where
  alike : us.map spelling = vs.map spelling
  lines : (us.zip vs).Pairwise fun p q => p.1.kind = .hash →
    (q.1.position.line = p.1.position.line ↔ q.2.position.line = p.2.position.line)

theorem SameLayout.refl (ts : List Token) : SameLayout ts ts := by
  refine ⟨rfl, List.pairwise_iff_getElem.2 fun i j hi hj hij _ => ?_⟩
  rw [List.getElem_zip, List.getElem_zip]

/-! ## Numbered tokens -/

/-- The tokens with their numbers for offsets. -/
def numbered (ts : List Token) : List Token :=
  ts.mapIdx fun number t => { t with position := { t.position with offset := number } }

/-- A numbered token is moved to the place of the token with its number. -/
def placesOf (ts : List Token) : Moving := fun t =>
  (ts[t.position.offset]?.map Token.position).getD t.position

variable {us vs : List Token}

theorem SameLayout.length_eq (h : SameLayout us vs) : us.length = vs.length := by
  simpa using congrArg List.length h.alike

theorem SameLayout.spelling_eq (h : SameLayout us vs) {i : Nat} (hi : i < us.length)
    (hi' : i < vs.length) : us[i].spelling = vs[i].spelling := by
  have hmap : (us.map spelling)[i]? = (vs.map spelling)[i]? := by rw [h.alike]
  simpa [hi, hi'] using hmap

/-- The numbered tokens of one list are moved to where the tokens of the other stand. -/
theorem SameLayout.numbered_moved (h : SameLayout us vs) :
    (numbered us).map (Token.moved (placesOf vs)) = vs := by
  refine List.ext_getElem (by simp [numbered, h.length_eq]) fun i hi hi' => ?_
  have hus : i < us.length := by simpa [numbered] using hi
  have hspelling := h.spelling_eq hus hi'
  rw [spelling, spelling, Prod.mk.injEq] at hspelling
  simp [numbered, moved, placesOf, hi', hspelling]

theorem SameLayout.keepsLines (h : SameLayout us vs) : KeepsLines (placesOf vs) (numbered us) := by
  refine List.pairwise_iff_getElem.2 fun i j hi hj hij hhash => ?_
  have hlength := h.length_eq
  have hus : j < us.length := by simpa [numbered] using hj
  have hi' : i < vs.length := by omega
  have hj' : j < vs.length := by omega
  have hpair := List.pairwise_iff_getElem.1 h.lines i j (by simp; omega) (by simp; omega) hij
  rw [List.getElem_zip, List.getElem_zip] at hpair
  have hlines := (hpair (by simpa [numbered] using hhash)).symm
  simpa [numbered, placesOf, hi', hj'] using hlines

theorem SameLayout.getElem?_of_numbered (h : SameLayout us vs) {number : Nat} {t : Token}
    (ht : (numbered us)[number]? = some t) : vs[number]? = some (t.moved (placesOf vs)) := by
  have hmoved : ((numbered us).map (Token.moved (placesOf vs)))[number]? = vs[number]? := by
    rw [h.numbered_moved]
  rw [← hmoved, List.getElem?_map, ht, Option.map_some]

/-- Tokens of a list that is moved stand at the same numbers as before. -/
theorem moved_at_numbers {ts : List Token} {m : Moving} (numbers : List (Fin ts.length)) :
    ((numbers.map fun number => ts[number]).map (Token.moved m)).map some =
      (numbers.map Fin.val).map fun number => (ts.map (Token.moved m))[number]? := by
  simp

end Token

open Token

/-- **Both lists are read like their numbered tokens.** -/
theorem Parser.unit_of_sameLayout {us vs : List Token} (h : SameLayout us vs) :
    unit vs =
      Reading.moved (placesOf vs) (CompilationUnit.moved (placesOf vs)) (unit (numbered us)) := by
  rw [← unit_moved h.keepsLines, h.numbered_moved]

/-! ## Counterparts -/

/-- The two trees are equal once each token is replaced by its counterpart: they differ in places
alone, and their tokens have the same numbers in two lists. -/
structure CompilationUnit.Counterparts (us vs : List Token) (u v : CompilationUnit) : Prop where
  same : u.moved .forget = v.moved .forget
  numbers : ∃ numbers : List Nat, numbers.Pairwise (· < ·) ∧
    u.tokens.map some = numbers.map (us[·]?) ∧ v.tokens.map some = numbers.map (vs[·]?)

/-- The two errors have the same variant, the same expected category and tokens of the same category
and text that have the same number in two lists. -/
structure ParseError.Counterparts (us vs : List Token) (e f : ParseError) : Prop where
  same : e.moved .forget = f.moved .forget
  number : ∀ t ∈ e.found?, ∃ number : Nat, us[number]? = some t ∧ vs[number]? = f.found?

theorem CompilationUnit.counterparts_of_numbered {us vs rest : List Token} {u : CompilationUnit}
    (h : SameLayout us vs) (hread : Parser.unit (numbered us) = .ok u rest) :
    Counterparts us vs (u.moved (placesOf us)) (u.moved (placesOf vs)) := by
  refine ⟨by rw [forget_moved, forget_moved], ?_⟩
  obtain ⟨numbers, htokens, hup⟩ := List.sublist_eq_map_getElem (Parser.sublist_unit hread)
  refine ⟨numbers.map Fin.val, List.pairwise_map.2 hup, ?_, ?_⟩
  · rw [tokens_moved, htokens, moved_at_numbers, (SameLayout.refl us).numbered_moved]
  · rw [tokens_moved, htokens, moved_at_numbers, h.numbered_moved]

theorem ParseError.counterparts_of_numbered {us vs rest : List Token} {e : ParseError}
    (h : SameLayout us vs) (hread : Parser.unit (numbered us) = .error e rest) :
    Counterparts us vs (e.moved (placesOf us)) (e.moved (placesOf vs)) := by
  refine ⟨by rw [forget_moved, forget_moved], ?_⟩
  intro t ht
  rw [found?_moved, Option.mem_def, Option.map_eq_some_iff] at ht
  obtain ⟨found, hfound, rfl⟩ := ht
  obtain ⟨number, hnumber⟩ := List.mem_iff_getElem?.1 (Parser.found_mem hread hfound)
  refine ⟨number, (SameLayout.refl us).getElem?_of_numbered hnumber, ?_⟩
  rw [h.getElem?_of_numbered hnumber, found?_moved, hfound, Option.map_some]

/-- **Reading does not depend on layout.** Two lists of tokens that are laid out alike, trivia
aside, are read to trees or errors that are counterparts, and trees that are counterparts have the
same classes. -/
theorem CompilationUnit.layout_independent {us vs : List Token}
    (h : SameLayout (significant us) (significant vs)) :
    (∃ u v, ofTokens us = .ok u ∧ ofTokens vs = .ok v ∧
        Counterparts (significant us) (significant vs) u v ∧
        ∀ file, u.classes file = v.classes file) ∨
      ∃ e f, ofTokens us = .error e ∧ ofTokens vs = .error f ∧
        e.Counterparts (significant us) (significant vs) f := by
  have hus := Parser.unit_of_sameLayout (SameLayout.refl (significant us))
  have hvs := Parser.unit_of_sameLayout h
  rw [ofTokens, ofTokens, hus, hvs]
  cases hread : Parser.unit (numbered (significant us)) with
  | ok u rest =>
    refine .inl ⟨_, _, rfl, rfl, counterparts_of_numbered h hread, fun file => ?_⟩
    rw [classes_moved, classes_moved]
  | error e rest => exact .inr ⟨_, _, rfl, rfl, ParseError.counterparts_of_numbered h hread⟩

/-- A directive keeps its line while everything else moves to other lines. -/
theorem CompilationUnit.layout_independent_spread :
    ∃ us vs, tokenize "#if a\nclass [[A]] B : C \x7b \x7d;" = .ok us ∧
      tokenize "  #  if a // on\n\nclass[[A]]\nB:\nC\x7b\x7d\n;" = .ok vs ∧
      SameLayout (significant us) (significant vs) ∧
      ((∃ u v, ofTokens us = .ok u ∧ ofTokens vs = .ok v ∧
          Counterparts (significant us) (significant vs) u v ∧
          ∀ file, u.classes file = v.classes file) ∨
        ∃ e f, ofTokens us = .error e ∧ ofTokens vs = .error f ∧
          e.Counterparts (significant us) (significant vs) f) := by
  have hus := tokenize_eq_ok.2 ⟨show (Lexer.cuts {} (Lexer.withoutReturns
    "#if a\nclass [[A]] B : C \x7b \x7d;".toList)).error = none by decide +kernel, rfl⟩
  have hvs := tokenize_eq_ok.2 ⟨show (Lexer.cuts {} (Lexer.withoutReturns
    "  #  if a // on\n\nclass[[A]]\nB:\nC\x7b\x7d\n;".toList)).error = none by decide +kernel, rfl⟩
  suffices hlayout : SameLayout (significant _) (significant _) from
    ⟨_, _, hus, hvs, hlayout, layout_independent hlayout⟩
  exact ⟨by decide +kernel, by decide +kernel⟩

end HeaderReflection
