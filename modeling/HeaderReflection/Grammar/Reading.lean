import HeaderReflection.Declaration
import HeaderReflection.Token.Lexer

/-!
# Reading from a list of tokens

A reader takes significant tokens from the front of a list. It gives what it read or why it could
not, and in both cases the tokens that are left, so reading can go on after a failure. A failure
leaves the token that it is about in front.
-/

namespace HeaderReflection

/-- Why declarations could not be read. -/
inductive ParseError
  /-- A token of one category had to come and another came. -/
  | mismatch (expected : TokenKind) (found : Token)
  /-- A literal had to come. -/
  | notLiteral (found : Token)
  /-- The tokens ended where one of a category had to come. -/
  | unexpectedEnd (expected : TokenKind)
  /-- The text has no tokens. -/
  | lexical (cause : LexError)
  deriving DecidableEq, Repr

namespace ParseError

/-- The place that an error names, if there is one. -/
def position? : ParseError → Option Position
  | mismatch _ found => some found.position
  | notLiteral found => some found.position
  | unexpectedEnd _ => none
  | lexical cause => some cause.position

/-- The text of an error. -/
def message : ParseError → String
  | mismatch expected found => s!"Expected {expected.describe}, found {found.describe}"
  | notLiteral found => s!"Expected a literal, found {found.describe}"
  | unexpectedEnd expected => s!"Expected {expected.describe}, found end of input"
  | lexical cause => s!"Lexer error: {cause.message}"

/-- The text of an error and of what lies behind it, outermost first. -/
def messages : ParseError → List String
  | lexical cause => [message (lexical cause), cause.message]
  | e => [e.message]

end ParseError

/-- What a reader gives: a value or an error, each with the tokens that are left. -/
abbrev Reading (α : Type) := EStateM.Result ParseError (List Token) α

/-- A reader of tokens. -/
abbrev Parser (α : Type) := EStateM ParseError (List Token) α

/-- Changes the value that was read. -/
def Reading.map {α β : Type} (f : α → β) : Reading α → Reading β
  | .ok a rest => .ok (f a) rest
  | .error e rest => .error e rest

/-- The tokens that are left. -/
def Reading.rest {α : Type} : Reading α → List Token
  | .ok _ rest => rest
  | .error _ rest => rest

/-- The value or the error alone. -/
def Reading.result {α : Type} : Reading α → Except ParseError α
  | .ok a _ => .ok a
  | .error e _ => .error e

@[simp] theorem Reading.map_ok {α β : Type} (f : α → β) (a : α) (rest : List Token) :
    Reading.map f (.ok a rest) = .ok (f a) rest := rfl

@[simp] theorem Reading.map_error {α β : Type} (f : α → β) (e : ParseError)
    (rest : List Token) : Reading.map f (.error e rest : Reading α) = .error e rest := rfl

theorem Reading.map_eq_ok {α β : Type} {f : α → β} {r : Reading α} {b : β}
    {rest : List Token} : r.map f = .ok b rest ↔ ∃ a, r = .ok a rest ∧ f a = b := by
  cases r with
  | ok a left => simp only [map_ok, EStateM.Result.ok.injEq]; grind
  | error e left => simp

/-! ## Looking ahead -/

/-- Whether the next token is of a category. -/
def nextIs (kind : TokenKind) (ts : List Token) : Bool := ts.head?.any (·.kind = kind)

/-- Whether the next token reads as given. -/
def nextReads (text : String) (ts : List Token) : Bool := ts.head?.any (·.text = text)

/-- Whether the next two tokens are colons. -/
def startsScope (ts : List Token) : Bool := nextIs .colon ts && nextIs .colon ts.tail

/-- Drops a comma, if one is next. -/
def skipComma (ts : List Token) : List Token := if nextIs .comma ts then ts.tail else ts

@[simp] theorem nextIs_nil (kind : TokenKind) : nextIs kind [] = false := rfl

@[simp] theorem nextIs_cons (kind : TokenKind) (t : Token) (ts : List Token) :
    nextIs kind (t :: ts) = decide (t.kind = kind) := rfl

@[simp] theorem nextReads_nil (text : String) : nextReads text [] = false := rfl

@[simp] theorem nextReads_cons (text : String) (t : Token) (ts : List Token) :
    nextReads text (t :: ts) = decide (t.text = text) := rfl

theorem length_skipComma_le (ts : List Token) : (skipComma ts).length ≤ ts.length := by
  unfold skipComma; split <;> simp

/-! ## Single tokens -/

namespace Parser

/-- Two readers in a row read `b` when the first reads something after which the second reads
`b`. -/
theorem bind_eq_ok {α β : Type} {p : Parser α} {f : α → Parser β} {ts rest : List Token}
    {b : β} : (p >>= f) ts = .ok b rest ↔ ∃ a mid, p ts = .ok a mid ∧ f a mid = .ok b rest := by
  change EStateM.bind p f ts = _ ↔ _
  unfold EStateM.bind
  split
  next a mid h =>
    constructor
    · intro hb
      exact ⟨a, mid, h, hb⟩
    · rintro ⟨_, _, h₁, h₂⟩
      rw [h] at h₁
      cases h₁
      exact h₂
  next e mid h =>
    constructor
    · intro hb
      cases hb
    · rintro ⟨_, _, h₁, _⟩
      rw [h] at h₁
      cases h₁

theorem pure_eq_ok {α : Type} {a b : α} {ts rest : List Token} :
    (pure a : Parser α) ts = .ok b rest ↔ a = b ∧ ts = rest := by
  change EStateM.Result.ok a ts = _ ↔ _
  simp

/-- Takes the next token, which has to be of a category. -/
def expect (kind : TokenKind) : Parser Token
  | [] => .error (.unexpectedEnd kind) []
  | t :: ts => if t.kind = kind then .ok t ts else .error (.mismatch kind t) (t :: ts)

/-- Takes the next token, which has to be an identifier. -/
def identifier : Parser Literal := fun ts =>
  Reading.map (fun t => ⟨t, .identifier⟩) (expect .identifier ts)

/-- Takes `::` and the identifier after it, if two colons are next. -/
def nextPart : Parser (Option Literal) := fun ts =>
  if startsScope ts then Reading.map some (identifier (ts.drop 2)) else .ok none ts

theorem expect_eq_ok {kind : TokenKind} {ts rest : List Token} {t : Token} :
    expect kind ts = .ok t rest ↔ ts = t :: rest ∧ t.kind = kind := by
  cases ts with
  | nil => simp [expect]
  | cons u us =>
    by_cases h : u.kind = kind
    · simp only [expect, h, if_true, EStateM.Result.ok.injEq, List.cons.injEq]
      constructor
      · rintro ⟨rfl, rfl⟩; exact ⟨⟨rfl, rfl⟩, h⟩
      · rintro ⟨⟨rfl, rfl⟩, _⟩; exact ⟨rfl, rfl⟩
    · simp only [expect, h, if_false, reduceCtorEq, List.cons.injEq, false_iff]
      rintro ⟨⟨rfl, rfl⟩, hk⟩; exact h hk

theorem length_expect {kind : TokenKind} {ts rest : List Token} {t : Token}
    (h : expect kind ts = .ok t rest) : rest.length < ts.length := by
  rw [(expect_eq_ok.1 h).1]; simp

theorem length_identifier {ts rest : List Token} {l : Literal}
    (h : identifier ts = .ok l rest) : rest.length < ts.length := by
  obtain ⟨t, ht, _⟩ := Reading.map_eq_ok.1 h
  exact length_expect ht

theorem length_nextPart_le {ts rest : List Token} {l : Option Literal}
    (h : nextPart ts = .ok l rest) : rest.length ≤ ts.length := by
  unfold nextPart at h
  split at h
  · obtain ⟨t, ht, _⟩ := Reading.map_eq_ok.1 h
    have := length_identifier ht
    simp at this
    omega
  · cases h; simp

theorem length_nextPart {ts rest : List Token} {l : Literal}
    (h : nextPart ts = .ok (some l) rest) : rest.length < ts.length := by
  unfold nextPart at h
  split at h
  · obtain ⟨t, ht, _⟩ := Reading.map_eq_ok.1 h
    have := length_identifier ht
    simp at this
    omega
  · cases h

/-! ## Qualified names -/

/-- The parts of a name from the next `::` on. -/
def furtherParts (ts : List Token) : Reading (List Literal) :=
  match _h : nextPart ts with
  | .error e rest => .error e rest
  | .ok none rest => .ok [] rest
  | .ok (some part) rest => Reading.map (part :: ·) (furtherParts rest)
termination_by ts.length
decreasing_by exact length_nextPart _h

theorem furtherParts_eq (ts : List Token) :
    furtherParts ts =
      match nextPart ts with
      | .error e rest => .error e rest
      | .ok none rest => .ok [] rest
      | .ok (some part) rest => Reading.map (part :: ·) (furtherParts rest) := by
  rw [furtherParts]
  split <;> simp [*]

/-- A name with `::` between its parts. -/
def qualifiedName : Parser QualifiedName := do
  let first ← identifier
  let more ← furtherParts
  return ⟨first :: more⟩

theorem length_furtherParts_le {ts rest : List Token} {ls : List Literal}
    (h : furtherParts ts = .ok ls rest) : rest.length ≤ ts.length := by
  fun_induction furtherParts ts generalizing ls rest with
  | case1 => simp at h
  | case2 ts left hs => cases h; exact length_nextPart_le hs
  | case3 ts part left hs ih =>
    obtain ⟨_, hl, _⟩ := Reading.map_eq_ok.1 h
    have := ih hl
    have := length_nextPart hs
    omega

theorem length_qualifiedName {ts rest : List Token} {name : QualifiedName}
    (h : qualifiedName ts = .ok name rest) : rest.length < ts.length := by
  obtain ⟨_, _, hf, h⟩ := bind_eq_ok.1 h
  obtain ⟨_, _, hm, h⟩ := bind_eq_ok.1 h
  obtain ⟨_, rfl⟩ := pure_eq_ok.1 h
  have := length_identifier hf
  have := length_furtherParts_le hm
  omega

end Parser

end HeaderReflection
