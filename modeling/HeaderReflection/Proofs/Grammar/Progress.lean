import HeaderReflection.Grammar.Declarations
import Mathlib.Logic.Relation

/-!
# Reading a file step by step

The reading of a file goes from one state to the next: the namespaces that are open, what was found
in the innermost one and the tokens that are left. `Progress.Step` says what one step may do, with a
case for each kind of declaration and for each kind of text that is skipped. A step never changes
the outcome (`Progress.outcome_of_step`), and every reading is a run of steps to a state where it
stops (`Progress.exists_stops`): at the end of the tokens with all namespaces closed, or where
something cannot be read.
-/

namespace HeaderReflection

/-- How far the reading of a file has come. -/
structure Progress where
  /-- The namespaces that are open, innermost first. -/
  scopes : List OpenScope
  /-- The declarations of the innermost scope so far. -/
  found : List Declaration
  /-- The tokens that are left. -/
  left : List Token

namespace Progress

/-- What the reading gives when it goes on from here. -/
def outcome (p : Progress) : Reading (List Declaration) :=
  Parser.declarations p.scopes p.found p.left

/-- Whether a token means nothing between declarations. -/
def IsIdle (t : Token) : Prop :=
  t.kind ∉ [.classKeyword, .structKeyword, .namespaceKeyword, .hash, .attributeOpen, .closeBrace,
    .openBrace, .templateKeyword, .usingKeyword] ∧ ¬(t.kind = .identifier ∧ t.text = "enum")

/-- What one step of the reading may do. -/
inductive Step : Progress → Progress → Prop
  /-- A class is found, or one without a name is skipped. -/
  | record {scopes : List OpenScope} {found : List Declaration} {t : Token} {ts rest : List Token}
      {c : Option ClassDeclaration} (hkind : t.kind = .classKeyword ∨ t.kind = .structKeyword)
      (hread : Parser.classDeclaration t ts = .ok c rest) :
      Step ⟨scopes, found, t :: ts⟩ ⟨scopes, found ++ c.toList.map .record, rest⟩
  /-- A namespace alias is skipped. -/
  | skipAlias {scopes : List OpenScope} {found : List Declaration} {t : Token}
      {ts rest : List Token} (hkind : t.kind = .namespaceKeyword)
      (hread : Parser.scopeHead t ts = .ok none rest) :
      Step ⟨scopes, found, t :: ts⟩ ⟨scopes, found, rest⟩
  /-- A namespace is entered. -/
  | enter {scopes : List OpenScope} {found : List Declaration} {t : Token} {ts rest : List Token}
      {header : Option (Token × QualifiedName)} (hkind : t.kind = .namespaceKeyword)
      (hread : Parser.scopeHead t ts = .ok (some header) rest) :
      Step ⟨scopes, found, t :: ts⟩ ⟨⟨header, found⟩ :: scopes, [], rest⟩
  /-- A directive is found. -/
  | directive {scopes : List OpenScope} {found : List Declaration} {t : Token} {ts : List Token}
      (hkind : t.kind = .hash) :
      Step ⟨scopes, found, t :: ts⟩
        ⟨scopes, found ++ [.directive ⟨t, (Parser.directiveRest t.position.line ts).1⟩],
          (Parser.directiveRest t.position.line ts).2⟩
  /-- A group of attributes that belongs to no class is checked and skipped. -/
  | skipAttributes {scopes : List OpenScope} {found : List Declaration} {t : Token}
      {ts rest : List Token} {group : AttributeSequence} (hkind : t.kind = .attributeOpen)
      (hread : Parser.attributeSequence (t :: ts) = .ok group rest) :
      Step ⟨scopes, found, t :: ts⟩ ⟨scopes, found, rest⟩
  /-- The innermost namespace is left. -/
  | leave {scope : OpenScope} {scopes : List OpenScope} {found : List Declaration} {t : Token}
      {ts : List Token} (hkind : t.kind = .closeBrace) :
      Step ⟨scope :: scopes, found, t :: ts⟩ ⟨scopes, scope.close found, ts⟩
  /-- A closing brace without an open namespace is skipped. -/
  | skipBrace {found : List Declaration} {t : Token} {ts : List Token}
      (hkind : t.kind = .closeBrace) : Step ⟨[], found, t :: ts⟩ ⟨[], found, ts⟩
  /-- A block that belongs to no class or namespace is skipped. -/
  | skipBlock {scopes : List OpenScope} {found : List Declaration} {t : Token}
      {ts taken rest : List Token} (hkind : t.kind = .openBrace)
      (hread : Parser.group .openBrace .closeBrace (t :: ts) = .ok taken rest) :
      Step ⟨scopes, found, t :: ts⟩ ⟨scopes, found, rest⟩
  /-- The head of a template is skipped. -/
  | skipTemplate {scopes : List OpenScope} {found : List Declaration} {t : Token} {ts : List Token}
      (hkind : t.kind = .templateKeyword) :
      Step ⟨scopes, found, t :: ts⟩ ⟨scopes, found, Parser.skipTemplate ts⟩
  /-- A statement that starts with `using` is skipped. -/
  | skipUsing {scopes : List OpenScope} {found : List Declaration} {t : Token} {ts : List Token}
      (hkind : t.kind = .usingKeyword) :
      Step ⟨scopes, found, t :: ts⟩ ⟨scopes, found, skipStatement ts⟩
  /-- The head of an enumeration is skipped. -/
  | skipEnum {scopes : List OpenScope} {found : List Declaration} {t : Token} {ts : List Token}
      (hkind : t.kind = .identifier) (htext : t.text = "enum") :
      Step ⟨scopes, found, t :: ts⟩ ⟨scopes, found, Parser.skipEnum ts⟩
  /-- Any other token is skipped. -/
  | skipIdle {scopes : List OpenScope} {found : List Declaration} {t : Token} {ts : List Token}
      (hidle : IsIdle t) : Step ⟨scopes, found, t :: ts⟩ ⟨scopes, found, ts⟩

/-- Any number of steps. -/
abbrev Steps : Progress → Progress → Prop := Relation.ReflTransGen Step

/-- A step does not change what the reading gives. -/
theorem outcome_of_step {p q : Progress} (h : Step p q) : p.outcome = q.outcome := by
  cases h with
  | record hkind hread =>
    rw [outcome, Parser.declarations.eq_def]
    dsimp only
    rw [if_pos hkind]
    split
    next hfail => rw [hread] at hfail; cases hfail
    next hok => rw [hread] at hok; cases hok; rfl
  | skipAlias hkind hread =>
    rw [outcome, Parser.declarations.eq_def]
    dsimp only
    rw [if_neg (by simp [hkind]), if_pos hkind]
    split
    next hfail => rw [hread] at hfail; cases hfail
    next hok => rw [hread] at hok; cases hok; rfl
    next hok => rw [hread] at hok; cases hok
  | enter hkind hread =>
    rw [outcome, Parser.declarations.eq_def]
    dsimp only
    rw [if_neg (by simp [hkind]), if_pos hkind]
    split
    next hfail => rw [hread] at hfail; cases hfail
    next hok => rw [hread] at hok; cases hok
    next hok => rw [hread] at hok; cases hok; rfl
  | directive hkind =>
    rw [outcome, Parser.declarations.eq_def]
    simp [hkind, outcome]
  | skipAttributes hkind hread =>
    rw [outcome, Parser.declarations.eq_def]
    simp only [hkind, reduceCtorEq, or_self, if_false, if_true]
    split
    next hfail => rw [hread] at hfail; cases hfail
    next hok => rw [hread] at hok; cases hok; rfl
  | leave hkind =>
    rw [outcome, Parser.declarations.eq_def]
    simp [hkind, outcome]
  | skipBrace hkind =>
    rw [outcome, Parser.declarations.eq_def]
    simp [hkind, outcome]
  | skipBlock hkind hread =>
    rw [outcome, Parser.declarations.eq_def]
    simp only [hkind, reduceCtorEq, or_self, if_false, if_true]
    split
    next hfail => rw [hread] at hfail; cases hfail
    next hok => rw [hread] at hok; cases hok; rfl
  | skipTemplate hkind =>
    rw [outcome, Parser.declarations.eq_def]
    simp [hkind, outcome]
  | skipUsing hkind =>
    rw [outcome, Parser.declarations.eq_def]
    simp [hkind, outcome]
  | skipEnum hkind htext =>
    rw [outcome, Parser.declarations.eq_def]
    simp [hkind, htext, outcome]
  | skipIdle hidle =>
    obtain ⟨hkind, henum⟩ := hidle
    simp only [List.mem_cons, List.not_mem_nil, or_false, not_or] at hkind
    rw [outcome, Parser.declarations.eq_def]
    simp [hkind, henum, outcome]

theorem outcome_of_steps {p q : Progress} (h : Steps p q) : p.outcome = q.outcome := by
  induction h with
  | refl => rfl
  | tail _ hstep ih => exact ih.trans (outcome_of_step hstep)

/-! ## Stopping -/

/-- Where the reading stops, and what it then gives. -/
inductive Stops : Progress → Reading (List Declaration) → Prop
  /-- The tokens have ended and no namespace is open. -/
  | done {found : List Declaration} : Stops ⟨[], found, []⟩ (.ok found [])
  /-- The tokens have ended and a namespace is open. -/
  | unclosed {scope : OpenScope} {scopes : List OpenScope} {found : List Declaration} :
      Stops ⟨scope :: scopes, found, []⟩ (.error (.unexpectedEnd .closeBrace) [])
  /-- A class cannot be read. -/
  | record {scopes : List OpenScope} {found : List Declaration} {t : Token} {ts rest : List Token}
      {e : ParseError} (hkind : t.kind = .classKeyword ∨ t.kind = .structKeyword)
      (hread : Parser.classDeclaration t ts = .error e rest) :
      Stops ⟨scopes, found, t :: ts⟩ (.error e rest)
  /-- A namespace has no name or no opening brace. -/
  | enter {scopes : List OpenScope} {found : List Declaration} {t : Token} {ts rest : List Token}
      {e : ParseError} (hkind : t.kind = .namespaceKeyword)
      (hread : Parser.scopeHead t ts = .error e rest) :
      Stops ⟨scopes, found, t :: ts⟩ (.error e rest)
  /-- A group of attributes that belongs to no class cannot be read. -/
  | attributes {scopes : List OpenScope} {found : List Declaration} {t : Token}
      {ts rest : List Token} {e : ParseError} (hkind : t.kind = .attributeOpen)
      (hread : Parser.attributeSequence (t :: ts) = .error e rest) :
      Stops ⟨scopes, found, t :: ts⟩ (.error e rest)
  /-- A block that belongs to no class or namespace is not closed. -/
  | block {scopes : List OpenScope} {found : List Declaration} {t : Token} {ts rest : List Token}
      {e : ParseError} (hkind : t.kind = .openBrace)
      (hread : Parser.group .openBrace .closeBrace (t :: ts) = .error e rest) :
      Stops ⟨scopes, found, t :: ts⟩ (.error e rest)

theorem outcome_of_stops {p : Progress} {r : Reading (List Declaration)} (h : Stops p r) :
    p.outcome = r := by
  cases h with
  | done => rw [outcome, Parser.declarations.eq_def]
  | unclosed => rw [outcome, Parser.declarations.eq_def]
  | record hkind hread =>
    rw [outcome, Parser.declarations.eq_def]
    dsimp only
    rw [if_pos hkind]
    split
    next hfail => rw [hread] at hfail; cases hfail; rfl
    next hok => rw [hread] at hok; cases hok
  | enter hkind hread =>
    rw [outcome, Parser.declarations.eq_def]
    dsimp only
    rw [if_neg (by simp [hkind]), if_pos hkind]
    split
    next hfail => rw [hread] at hfail; cases hfail; rfl
    next hok => rw [hread] at hok; cases hok
    next hok => rw [hread] at hok; cases hok
  | attributes hkind hread =>
    rw [outcome, Parser.declarations.eq_def]
    simp only [hkind, reduceCtorEq, or_self, if_false, if_true]
    split
    next hfail => rw [hread] at hfail; cases hfail; rfl
    next hok => rw [hread] at hok; cases hok
  | block hkind hread =>
    rw [outcome, Parser.declarations.eq_def]
    simp only [hkind, reduceCtorEq, or_self, if_false, if_true]
    split
    next hfail => rw [hread] at hfail; cases hfail; rfl
    next hok => rw [hread] at hok; cases hok

/-- What is read after a step is what is read from before it on. -/
theorem exists_stops_of_step {p q : Progress} {r : Reading (List Declaration)} (h : Step p q)
    (hq : ∃ stopped, Steps q stopped ∧ Stops stopped r) :
    ∃ stopped, Steps p stopped ∧ Stops stopped r := by
  obtain ⟨stopped, hsteps, hstops⟩ := hq
  exact ⟨stopped, .head h hsteps, hstops⟩

/-- Every reading is a run of steps to where it stops. The proof follows the branches of the
reading, each of which stops or is a step. -/
theorem exists_stops (p : Progress) : ∃ stopped, Steps p stopped ∧ Stops stopped p.outcome := by
  obtain ⟨scopes, found, ts⟩ := p
  rw [outcome]
  fun_induction Parser.declarations scopes found ts with
  | case1 => exact ⟨_, .refl, .done⟩
  | case2 => exact ⟨_, .refl, .unclosed⟩
  | case3 scopes found t ts hkind _ _ hread => exact ⟨_, .refl, .record hkind hread⟩
  | case4 scopes found t ts hkind c left hread ih =>
    exact exists_stops_of_step (.record hkind hread) ih
  | case5 scopes found t ts _ hkind _ _ hread => exact ⟨_, .refl, .enter hkind hread⟩
  | case6 scopes found t ts _ hkind left hread ih =>
    exact exists_stops_of_step (.skipAlias hkind hread) ih
  | case7 scopes found t ts _ hkind header left hread ih =>
    exact exists_stops_of_step (.enter hkind hread) ih
  | case8 scopes found t ts _ _ hkind ih => exact exists_stops_of_step (.directive hkind) ih
  | case9 scopes found t ts _ _ _ hkind _ _ hread => exact ⟨_, .refl, .attributes hkind hread⟩
  | case10 scopes found t ts _ _ _ hkind group left hread ih =>
    exact exists_stops_of_step (.skipAttributes hkind hread) ih
  | case11 found t ts _ _ _ _ hkind ih => exact exists_stops_of_step (.skipBrace hkind) ih
  | case12 found t ts _ _ _ _ hkind scope scopes ih => exact exists_stops_of_step (.leave hkind) ih
  | case13 scopes found t ts _ _ _ _ _ hkind _ _ hread => exact ⟨_, .refl, .block hkind hread⟩
  | case14 scopes found t ts _ _ _ _ _ hkind taken left hread ih =>
    exact exists_stops_of_step (.skipBlock hkind hread) ih
  | case15 scopes found t ts _ _ _ _ _ _ hkind ih =>
    exact exists_stops_of_step (.skipTemplate hkind) ih
  | case16 scopes found t ts _ _ _ _ _ _ _ hkind ih =>
    exact exists_stops_of_step (.skipUsing hkind) ih
  | case17 scopes found t ts _ _ _ _ _ _ _ _ henum ih =>
    exact exists_stops_of_step (.skipEnum henum.1 henum.2) ih
  | case18 scopes found t ts hclass hnamespace hhash hopen hclose hbrace htemplate husing henum
      ih =>
    have hidle : IsIdle t := by
      rw [not_or] at hclass
      simp [IsIdle, *]
    exact exists_stops_of_step (.skipIdle hidle) ih

/-- A reading that succeeds is a run of steps to the end of the tokens, with all namespaces closed.
-/
theorem steps_of_declarations {scopes : List OpenScope} {found ds : List Declaration}
    {ts rest : List Token} (h : Parser.declarations scopes found ts = .ok ds rest) :
    Steps ⟨scopes, found, ts⟩ ⟨[], ds, rest⟩ ∧ rest = [] := by
  obtain ⟨stopped, hsteps, hstops⟩ := exists_stops ⟨scopes, found, ts⟩
  rw [outcome, h] at hstops
  cases hstops with
  | done => exact ⟨hsteps, rfl⟩

end Progress

end HeaderReflection
