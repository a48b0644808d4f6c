import HeaderReflection.Proofs.Grammar.Session
import HeaderReflection.Proofs.Grammar.Loops

/-!
# Reading on after a failure

A session may be called as often as one likes. A call that fails has taken a token, and a call that
succeeds has taken all of them, so the calls that fail are the first ones and there are no more of
them than tokens (`Session.exists_failed`). Inside a call every loop takes tokens as well
(`Parser.loops_consume`), so no call goes on for ever.
-/

namespace HeaderReflection

namespace Parser

/-- Every loop of the reader takes at least a token in each turn that goes on, and gives what its
reader gives. -/
structure LoopsConsume : Prop where
  /-- The loop over declarations, through all namespaces. -/
  step : ∀ p q, Progress.Step p q → q.left.length < p.left.length
  steps : ∀ p : Progress, ∃ stopped, Progress.Steps p stopped ∧ Progress.Stops stopped p.outcome
  directive : ∀ line, (directiveLoop line).Computes fun ts =>
    .ok (directiveRest line ts).1 (directiveRest line ts).2
  statement : statementLoop.Computes fun ts => .ok [] (skipStatement ts)
  /-- The loops over the head of a class, its base clause and the parts of a name. -/
  head : headLoop.Computes classBody
  access : accessLoop.Computes fun ts => .ok [] (skipAccess ts)
  base : baseLoop.Computes bases
  part : partLoop.Computes furtherParts
  /-- The loop over the body of a class, from its opening brace on. -/
  body : bodyLoop.Consumes
  body_gives : ∀ t ts, t.kind = .openBrace → bodyLoop.Gives 0 (t :: ts) (members 0 ts)
  /-- The counter of braces is not negative, and not zero where it is lowered. -/
  body_depth : ∀ t ts depth left, t.kind = .openBrace →
    Relation.ReflTransGen bodyLoop.Next (0, t :: ts) (depth, left) →
    0 ≤ depth ∧ (nextIs .closeBrace left = true → 0 < depth)
  typeEnd : suffixLoop.Computes fun ts => .ok (typeSuffix ts).1 (typeSuffix ts).2
  sequence : sequenceLoop.Computes attributeSequences
  attributeList : attributeLoop.Computes furtherAttributes
  param : paramLoop.Computes furtherParams
  /-- The loops over brackets: those told by their category, and angle brackets. -/
  bracket : ∀ opens closes missing, (groupLoop opens closes missing).Consumes
  group : ∀ opening closing ts,
    (groupLoop (·.kind = opening) (·.kind = closing)
      (.error (.unexpectedEnd closing) [])).Gives 0 ts (group opening closing ts)
  angles : ∀ ts, (groupLoop (·.text = "<") (·.text = ">") (.ok [] [])).Gives 0 ts
    (.ok (splitAngles ts).1 (splitAngles ts).2)

theorem groupLoop_gives_group (opening closing : TokenKind) (ts : List Token) :
    (groupLoop (·.kind = opening) (·.kind = closing)
      (.error (.unexpectedEnd closing) [])).Gives 0 ts (group opening closing ts) := by
  have hgives := groupLoop_gives (·.kind = opening) (·.kind = closing)
    (.error (.unexpectedEnd closing) []) 0 ts
  rw [groupFrom] at hgives
  rw [group]
  split <;> simp_all

theorem groupLoop_gives_splitAngles (ts : List Token) :
    (groupLoop (·.text = "<") (·.text = ">") (.ok [] [])).Gives 0 ts
      (.ok (splitAngles ts).1 (splitAngles ts).2) := by
  have hgives := groupLoop_gives (·.text = "<") (·.text = ">") (.ok [] []) 0 ts
  rw [groupFrom] at hgives
  rw [splitAngles]
  split at hgives <;> simp_all

theorem loops_consume : LoopsConsume where
  step _ _ := Progress.length_left_lt_of_step
  steps := Progress.exists_stops
  directive := directiveLoop_computes
  statement := statementLoop_computes
  head := headLoop_computes
  access := accessLoop_computes
  base := baseLoop_computes
  part := partLoop_computes
  body := bodyLoop_consumes
  body_gives _ ts hkind := bodyLoop_gives hkind ts
  body_depth _ _ _ _ hkind hrun := bodyLoop_depth hkind hrun
  typeEnd := suffixLoop_computes
  sequence := sequenceLoop_computes
  attributeList := attributeLoop_computes
  param := paramLoop_computes
  bracket := groupLoop_consumes
  group := groupLoop_gives_group
  angles := groupLoop_gives_splitAngles

theorem unit_nil : unit [] = .ok ⟨[]⟩ [] := by
  rw [unit, declarations]
  rfl

end Parser

namespace Session

/-- The session after one call. -/
def next (s : Session) : Session := s.parse.2

/-- The session after some calls. -/
def after (s : Session) : Nat → Session
  | 0 => s
  | calls + 1 => (s.after calls).next

/-- Whether the next call fails. -/
def Fails (s : Session) : Prop := ∃ e, s.parse.1 = .error e

theorem next_after (s : Session) (calls : Nat) : s.next.after calls = s.after (calls + 1) := by
  induction calls with
  | zero => rfl
  | succ calls ih => exact congrArg next ih

theorem tokens_after (s : Session) (calls : Nat) : (s.after calls).tokens = s.tokens := by
  induction calls with
  | zero => rfl
  | succ calls ih => exact ih

/-- Reading several times is calling a session several times. -/
theorem unitTimes_left (s : Session) (calls : Nat) :
    Parser.unitTimes calls s.left = (List.range calls).map fun i => (s.after i).parse.1 := by
  induction calls generalizing s with
  | zero => rfl
  | succ calls ih =>
    rw [Parser.unitTimes, ← left_parse, ih s.parse.2, List.range_succ_eq_map, List.map_cons,
      List.map_map]
    simp only [Function.comp_def, Nat.succ_eq_add_one, ← next_after]
    rfl

/-! ## One call -/

theorem left_next_of_ok {s : Session} {u : CompilationUnit} (h : s.parse.1 = .ok u) :
    s.next.left = [] :=
  Parser.rest_of_unit_ok (unit_of_parse_ok h)

theorem cursor_eq_of_left_eq_nil {s : Session} (h : s.left = []) : s.cursor = s.tokens.length := by
  have hlength := s.length_left
  rw [h, List.length_nil] at hlength
  exact Nat.le_antisymm s.cursor_le (Nat.le_of_sub_eq_zero hlength.symm)

/-- A call that fails leaves fewer tokens. -/
theorem length_left_next_of_error {s : Session} {e : ParseError} (h : s.parse.1 = .error e) :
    s.next.left.length < s.left.length :=
  Parser.length_of_unit_error (unit_of_parse_error h)

theorem cursor_lt_of_error {s : Session} {e : ParseError} (h : s.parse.1 = .error e) :
    s.cursor < s.next.cursor := by
  have hlt := length_left_next_of_error h
  rw [length_left, length_left] at hlt
  have : s.next.tokens.length = s.tokens.length := rfl
  omega

/-- At the end there is nothing to read, and the session stays as it is. -/
theorem parse_of_left_eq_nil {s : Session} (h : s.left = []) :
    s.parse.1 = .ok ⟨[]⟩ ∧ s.next.left = [] := by
  rw [next, left_parse, parse, h, Parser.unit_nil]
  exact ⟨rfl, rfl⟩

/-! ## Any number of calls -/

/-- After a call that succeeds nothing is left, whatever is called. -/
theorem left_after_of_ok {s : Session} {u : CompilationUnit} {calls later : Nat}
    (h : (s.after calls).parse.1 = .ok u) (hlater : calls < later) :
    (s.after later).left = [] := by
  induction hlater with
  | refl => exact left_next_of_ok h
  | step _ ih => exact (parse_of_left_eq_nil ih).2

/-- The calls that fail are the first ones, and there are no more of them than tokens. The induction
is on the tokens that are left, which a call that fails makes fewer. -/
theorem exists_failed (s : Session) :
    ∃ failed ≤ s.left.length, ∀ calls, (s.after calls).Fails ↔ calls < failed := by
  cases hcall : s.parse.1 with
  | ok u =>
    refine ⟨0, Nat.zero_le _, fun calls => iff_of_false ?_ (Nat.not_lt_zero calls)⟩
    rintro ⟨e, herror⟩
    cases calls with
    | zero => cases hcall.symm.trans herror
    | succ calls =>
      have hfirst : (s.after 0).parse.1 = .ok u := hcall
      have hend : (s.after (calls + 1)).left = [] :=
        left_after_of_ok hfirst (Nat.zero_lt_succ calls)
      cases (parse_of_left_eq_nil hend).1.symm.trans herror
  | error e =>
    have hlt := length_left_next_of_error hcall
    obtain ⟨failed, hle, hfails⟩ := exists_failed s.next
    refine ⟨failed + 1, Nat.le_trans (Nat.succ_le_succ hle) hlt, fun calls => ?_⟩
    cases calls with
    | zero => exact iff_of_true ⟨e, hcall⟩ (Nat.zero_lt_succ failed)
    | succ calls => rw [← next_after, hfails, Nat.succ_lt_succ_iff]
termination_by s.left.length

/-- **Reading on makes progress and ends.** A call that succeeds leaves the cursor at the end, and
every later call gives an empty file. A call that fails moves the cursor forward, so at most as many
calls fail as there were tokens left, and these are the first ones. In each call every loop takes
tokens. -/
theorem resuming_ends (s : Session) :
    (∀ calls u, (s.after calls).parse.1 = .ok u →
      (s.after (calls + 1)).cursor = s.tokens.length ∧
        ∀ later, calls < later → (s.after later).parse.1 = .ok ⟨[]⟩) ∧
    (∀ calls, (s.after calls).Fails → (s.after calls).cursor < (s.after (calls + 1)).cursor) ∧
    (∃ failed ≤ s.tokens.length - s.cursor, ∀ calls, (s.after calls).Fails ↔ calls < failed) ∧
    Parser.LoopsConsume := by
  refine ⟨fun calls u hok => ⟨?_, fun later hlater => ?_⟩, ?_, ?_, Parser.loops_consume⟩
  · rw [← tokens_after s (calls + 1)]
    exact cursor_eq_of_left_eq_nil (left_next_of_ok hok)
  · exact (parse_of_left_eq_nil (left_after_of_ok hok hlater)).1
  · rintro calls ⟨e, herror⟩
    exact cursor_lt_of_error herror
  · rw [← length_left]
    exact exists_failed s

/-- Two namespaces without a name, and then a brace that closes nothing. -/
example :
    let ts : List Token := [⟨.namespaceKeyword, "namespace", {}⟩, ⟨.semicolon, ";", {}⟩,
      ⟨.namespaceKeyword, "namespace", {}⟩, ⟨.semicolon, ";", {}⟩, ⟨.closeBrace, "\x7d", {}⟩]
    (Parser.unitTimes 4 (start ts).left).map Except.isOk = [false, false, true, true] := by
  decide +kernel

end Session

end HeaderReflection
