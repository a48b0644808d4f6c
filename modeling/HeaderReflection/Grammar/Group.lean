import HeaderReflection.Grammar.Reading

/-!
# Bracketed groups

Some parts of a file are taken or skipped as a whole: from an opening bracket to the closing one
that matches it, or up to a semicolon. Round brackets and braces are told by their category, angle
brackets by their text, because as tokens they are plain signs.
-/

namespace HeaderReflection

/-- Splits tokens after the first nonempty part in which the closers have caught up with the
openers, `depth` openers being ahead at the start. -/
def splitGroup (opens closes : Token → Bool) : Nat → List Token → Option (List Token × List Token)
  | _, [] => none
  | depth, t :: ts =>
    match if opens t then depth + 1 else if closes t then depth - 1 else depth with
    | 0 => some ([t], ts)
    | deeper + 1 => (splitGroup opens closes (deeper + 1) ts).map fun p => (t :: p.1, p.2)

/-- Splits tokens after the `>` that matches the `<` they start with. When none does, all tokens
belong to the group. -/
def splitAngles (ts : List Token) : List Token × List Token :=
  (splitGroup (·.text = "<") (·.text = ">") 0 ts).getD (ts, [])

/-- The tokens after the next semicolon. -/
def skipStatement (ts : List Token) : List Token :=
  (ts.dropWhile (·.kind ≠ .semicolon)).tail

/-- Takes the tokens from one bracket to the one that matches it. -/
def Parser.group (opening closing : TokenKind) : Parser (List Token) := fun ts =>
  match splitGroup (·.kind = opening) (·.kind = closing) 0 ts with
  | some (taken, rest) => .ok taken rest
  | none => .error (.unexpectedEnd closing) []

/-! ## Groups hold at least a token -/

theorem splitGroup_append {opens closes : Token → Bool} {depth : Nat} {ts : List Token}
    {p : List Token × List Token} (h : splitGroup opens closes depth ts = some p) :
    p.1 ++ p.2 = ts := by
  fun_induction splitGroup opens closes depth ts generalizing p with
  | case1 => simp at h
  | case2 => cases h; rfl
  | case3 depth t ts deeper _ ih =>
    obtain ⟨q, hq, rfl⟩ := Option.map_eq_some_iff.1 h
    simp [ih hq]

theorem length_splitGroup {opens closes : Token → Bool} {depth : Nat} {ts : List Token}
    {p : List Token × List Token} (h : splitGroup opens closes depth ts = some p) :
    p.2.length < ts.length := by
  fun_induction splitGroup opens closes depth ts generalizing p with
  | case1 => simp at h
  | case2 => cases h; simp
  | case3 depth t ts deeper _ ih =>
    obtain ⟨q, hq, rfl⟩ := Option.map_eq_some_iff.1 h
    have := ih hq
    simp
    omega

theorem length_splitAngles {ts : List Token} (h : ts ≠ []) :
    (splitAngles ts).2.length < ts.length := by
  unfold splitAngles
  cases hs : splitGroup (·.text = "<") (·.text = ">") 0 ts with
  | none => simpa using List.length_pos_iff.2 h
  | some p => simpa using length_splitGroup hs

theorem length_splitAngles_le (ts : List Token) : (splitAngles ts).2.length ≤ ts.length := by
  cases ts with
  | nil => simp [splitAngles, splitGroup]
  | cons t ts => exact Nat.le_of_lt (length_splitAngles (by simp))

theorem length_skipStatement_le (ts : List Token) : (skipStatement ts).length ≤ ts.length := by
  have := (List.dropWhile_suffix (l := ts) (fun t => decide (t.kind ≠ .semicolon))).length_le
  simp only [skipStatement, List.length_tail]
  omega

theorem Parser.length_group {opening closing : TokenKind} {ts taken rest : List Token}
    (h : Parser.group opening closing ts = .ok taken rest) : rest.length < ts.length := by
  unfold Parser.group at h
  split at h
  next hs => cases h; exact length_splitGroup hs
  next => cases h

end HeaderReflection
