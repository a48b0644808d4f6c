import HeaderReflection.Proofs.Grammar.SourceOrder

/-!
# What a failed reading leaves

A reader only takes tokens from the front, and one that fails leaves the token that its error is
about in front of the others; only where a token is missing, all tokens have been taken. A reader
that keeps to this is *steady* (`Parser.Steady`). Readers in a row are steady when each of them is,
so steadiness goes up from single tokens to whole files.
-/

namespace HeaderReflection

/-- The error is about the first of the tokens that are left, or about the end of the tokens. -/
def ParseError.IsAbout (left : List Token) : ParseError → Prop
  | mismatch expected found => left.head? = some found ∧ found.kind ≠ expected
  | notLiteral found => left.head? = some found ∧ LiteralKind.of? found.kind = none
  | unexpectedEnd _ => left = []
  | lexical _ => False

/-- What was taken stood in front, and an error is about what is left. -/
def Reading.Steady {α : Type} (ts : List Token) : Reading α → Prop
  | .ok _ rest => rest <:+ ts
  | .error e rest => rest <:+ ts ∧ e.IsAbout rest

namespace Reading

variable {α β : Type} {ts us : List Token}

theorem Steady.mono {r : Reading α} (h : Steady ts r) (hsuffix : ts <:+ us) : Steady us r := by
  cases r with
  | ok a rest => exact List.IsSuffix.trans h hsuffix
  | error e rest => exact ⟨h.1.trans hsuffix, h.2⟩

theorem Steady.map {r : Reading α} (h : Steady ts r) (f : α → β) : Steady ts (Reading.map f r) := by
  cases r with
  | ok a rest => exact h
  | error e rest => exact h

theorem Steady.rest_suffix {r : Reading α} (h : Steady ts r) : Reading.rest r <:+ ts := by
  cases r with
  | ok a rest => exact h
  | error e rest => exact h.1

end Reading

namespace Parser

/-- The reader takes tokens from the front alone, and fails in front of what its error is about. -/
def Steady {α : Type} (p : Parser α) : Prop := ∀ ts, Reading.Steady ts (p ts)

variable {α β : Type} {ts rest : List Token}

theorem Steady.of_ok {p : Parser α} (h : Steady p) {a : α} (hread : p ts = .ok a rest) :
    rest <:+ ts := by
  have hts := h ts
  rwa [hread] at hts

theorem Steady.of_error {p : Parser α} (h : Steady p) {e : ParseError}
    (hread : p ts = .error e rest) : rest <:+ ts ∧ e.IsAbout rest := by
  have hts := h ts
  rwa [hread] at hts

theorem steady_pure (a : α) : Steady (pure a : Parser α) := fun _ => List.suffix_rfl

/-- Two steady readers in a row are steady. -/
theorem Steady.bind {p : Parser α} {f : α → Parser β} (hp : Steady p) (hf : ∀ a, Steady (f a)) :
    Steady (p >>= f) := by
  intro ts
  change Reading.Steady ts (EStateM.bind p f ts)
  unfold EStateM.bind
  split
  next a rest hread => exact (hf a rest).mono (hp.of_ok hread)
  next e rest hread => exact hp.of_error hread

/-! ## Names -/

theorem steady_expect (kind : TokenKind) : Steady (expect kind) := by
  intro ts
  cases ts with
  | nil => exact ⟨List.suffix_rfl, rfl⟩
  | cons t ts =>
    rw [expect]
    split
    next => exact List.suffix_cons t ts
    next hkind => exact ⟨List.suffix_rfl, rfl, hkind⟩

theorem steady_identifier : Steady identifier := fun ts => (steady_expect .identifier ts).map _

theorem steady_nextPart : Steady nextPart := by
  intro ts
  rw [nextPart]
  split
  · exact ((steady_identifier _).map some).mono (List.drop_suffix 2 ts)
  · exact List.suffix_rfl

theorem steady_furtherParts : Steady furtherParts := by
  intro ts
  fun_induction furtherParts ts with
  | case1 ts e rest hread => exact steady_nextPart.of_error hread
  | case2 ts rest hread => exact steady_nextPart.of_ok hread
  | case3 ts part rest hread ih => exact (ih.map _).mono (steady_nextPart.of_ok hread)

theorem steady_qualifiedName : Steady qualifiedName :=
  steady_identifier.bind fun _ => steady_furtherParts.bind fun _ => steady_pure _

/-! ## Attributes -/

theorem skipComma_suffix (ts : List Token) : skipComma ts <:+ ts := by
  unfold skipComma
  split
  · exact List.tail_suffix ts
  · exact List.suffix_rfl

theorem steady_furtherParams : Steady furtherParams := by
  intro ts
  fun_induction furtherParams ts with
  | case1 => exact ⟨List.suffix_rfl, rfl⟩
  | case2 t ts hclose => exact List.suffix_cons t ts
  | case3 t ts hclose hkind => exact ⟨List.suffix_rfl, rfl, hkind⟩
  | case4 t ts hclose kind hkind ih =>
    exact (ih.map _).mono ((skipComma_suffix ts).trans (List.suffix_cons t ts))

theorem steady_params : Steady params := by
  intro ts
  rw [params]
  split
  · exact ((steady_furtherParams _).map some).mono (List.tail_suffix ts)
  · exact List.suffix_rfl

theorem steady_oneAttribute : Steady oneAttribute := by
  refine steady_identifier.bind fun first => steady_nextPart.bind fun second =>
    steady_params.bind fun params => ?_
  cases second with
  | none => exact steady_pure _
  | some name => exact steady_pure _

theorem steady_attributes : Steady attributes := by
  intro ts
  fun_induction attributes ts with
  | case1 ts e rest hread => exact steady_oneAttribute.of_error hread
  | case2 ts a rest hread hend =>
    exact (skipComma_suffix rest).trans (steady_oneAttribute.of_ok hread)
  | case3 ts a rest hread hend ih =>
    exact (ih.map _).mono ((skipComma_suffix rest).trans (steady_oneAttribute.of_ok hread))

theorem steady_defaultScope : Steady defaultScope := by
  intro ts
  have hscope : Steady (do
      let scope ← identifier
      let _ ← expect .colon
      return some scope : Parser (Option Literal)) :=
    steady_identifier.bind fun _ => (steady_expect _).bind fun _ => steady_pure _
  rw [defaultScope]
  split
  · exact (hscope _).mono (List.tail_suffix ts)
  · exact List.suffix_rfl

theorem steady_attributeSequence : Steady attributeSequence :=
  (steady_expect _).bind fun _ => steady_defaultScope.bind fun _ => steady_attributes.bind fun _ =>
    (steady_expect _).bind fun _ => steady_pure _

theorem steady_attributeSequences : Steady attributeSequences := by
  intro ts
  fun_induction attributeSequences ts with
  | case1 ts hnext e rest hread => exact steady_attributeSequence.of_error hread
  | case2 ts hnext group rest hread ih =>
    exact (ih.map _).mono (steady_attributeSequence.of_ok hread)
  | case3 ts hnext => exact List.suffix_rfl

/-! ## Members -/

theorem steady_group (opening closing : TokenKind) : Steady (group opening closing) := by
  intro ts
  cases hread : group opening closing ts with
  | ok taken rest => exact ⟨taken, group_append hread⟩
  | error e rest =>
    rw [group] at hread
    split at hread
    · cases hread
    · cases hread
      exact ⟨List.nil_suffix, rfl⟩

theorem steady_typeHead : Steady typeHead := by
  intro ts
  rw [typeHead]
  split
  · exact (steady_expect .autoKeyword ts).map _
  · exact steady_qualifiedName ts

theorem steady_typeName : Steady typeName :=
  steady_typeHead.bind fun _ ts => ⟨(typeSuffix ts).1, typeSuffix_append ts⟩

theorem steady_signature : Steady signature := by
  intro ts
  rw [signature]
  split
  · exact (steady_group _ _ ts).map some
  · exact List.suffix_rfl

theorem steady_member : Steady member :=
  steady_attributeSequences.bind fun _ => steady_typeName.bind fun _ =>
    steady_identifier.bind fun _ => steady_signature.bind fun _ => steady_pure _

theorem skipColon_suffix (ts : List Token) : skipColon ts <:+ ts := by
  unfold skipColon
  split
  · exact List.tail_suffix ts
  · exact List.suffix_rfl

theorem steady_members (inner : Nat) : Steady (members inner) := by
  intro ts
  fun_induction members inner ts with
  | case1 => exact ⟨List.suffix_rfl, rfl⟩
  | case2 inner t ts _ ih => exact ih.mono (List.suffix_cons t ts)
  | case3 t ts => exact List.suffix_cons t ts
  | case4 t ts _ _ inner ih => exact ih.mono (List.suffix_cons t ts)
  | case5 inner t ts _ _ _ ih =>
    exact ih.mono ((skipColon_suffix ts).trans (List.suffix_cons t ts))
  | case6 inner t ts _ _ _ _ e rest hread => exact steady_member.of_error hread
  | case7 inner t ts _ _ _ _ m rest hread ih =>
    exact (ih.map _).mono (steady_member.of_ok hread)
  | case8 inner t ts _ _ _ _ ih => exact ih.mono (List.suffix_cons t ts)

/-! ## Classes -/

theorem steady_classBody : Steady classBody := by
  intro ts
  fun_induction classBody ts with
  | case1 => exact ⟨List.suffix_rfl, rfl⟩
  | case2 t ts _ => exact (steady_members 0 ts).mono (List.suffix_cons t ts)
  | case3 t ts => exact List.suffix_cons t ts
  | case4 t ts _ _ ih => exact ih.mono (List.suffix_cons t ts)

theorem skipAngles_suffix (ts : List Token) : skipAngles ts <:+ ts := by
  unfold skipAngles
  split
  · exact ⟨(splitAngles ts).1, splitAngles_append ts⟩
  · exact List.suffix_rfl

theorem steady_bases : Steady bases := by
  have hskip : ∀ ts, skipAccess ts <:+ ts := fun ts => List.dropWhile_suffix _
  intro ts
  fun_induction bases ts with
  | case1 ts e rest hread =>
    exact Reading.Steady.mono (steady_qualifiedName.of_error hread) (hskip ts)
  | case2 ts name rest hread _ ih =>
    have hname := (steady_qualifiedName.of_ok hread).trans (hskip ts)
    exact (ih.map _).mono ((List.tail_suffix _).trans ((skipAngles_suffix rest).trans hname))
  | case3 ts name rest hread _ =>
    have hname := (steady_qualifiedName.of_ok hread).trans (hskip ts)
    exact (skipAngles_suffix rest).trans hname

theorem steady_baseClause : Steady baseClause := by
  intro ts
  rw [baseClause]
  split
  · exact (steady_bases _).mono (List.tail_suffix ts)
  · exact List.suffix_rfl

theorem steady_classDeclaration (keyword : Token) : Steady (classDeclaration keyword) := by
  refine steady_attributeSequences.bind fun attributes ts => ?_
  have hnamed : Steady (do
      let name ← qualifiedName
      let bases ← baseClause
      let members ← classBody
      return some ⟨keyword, name, attributes, bases, members⟩ :
        Parser (Option ClassDeclaration)) :=
    steady_qualifiedName.bind fun _ => steady_baseClause.bind fun _ =>
      steady_classBody.bind fun _ => steady_pure _
  rw [classRest]
  split
  · exact hnamed ts
  · exact (steady_classBody ts).map _

/-! ## Files -/

/-- A group of attributes takes its opening brackets before it can fail. -/
theorem steady_attributeSequence_cons {t : Token} (hkind : t.kind = .attributeOpen)
    (ts : List Token) : Reading.Steady ts (attributeSequence (t :: ts)) := by
  have htail : Steady (do
      let default ← defaultScope
      let attributes ← attributes
      let closing ← expect .attributeClose
      return ⟨t, default, attributes, closing⟩ : Parser AttributeSequence) :=
    steady_defaultScope.bind fun _ => steady_attributes.bind fun _ =>
      (steady_expect _).bind fun _ => steady_pure _
  change Reading.Steady ts (EStateM.bind (expect .attributeOpen) _ (t :: ts))
  rw [EStateM.bind, expect, if_pos hkind]
  exact htail ts

/-- A group takes its first token before it can fail. -/
theorem steady_group_cons (opening closing : TokenKind) (t : Token) (ts : List Token) :
    Reading.Steady ts (group opening closing (t :: ts)) := by
  have hgroup := steady_group opening closing (t :: ts)
  cases hread : group opening closing (t :: ts) with
  | ok taken rest =>
    have hlt := length_group hread
    rw [hread] at hgroup
    refine (List.suffix_cons_iff.1 hgroup).resolve_left ?_
    rintro rfl
    exact absurd hlt (Nat.lt_irrefl _)
  | error e rest =>
    rw [hread] at hgroup
    obtain ⟨-, habout⟩ := hgroup
    rw [group] at hread
    split at hread
    · cases hread
    · cases hread
      exact ⟨List.nil_suffix, habout⟩

theorem skipStatement_suffix (ts : List Token) : skipStatement ts <:+ ts :=
  (List.tail_suffix _).trans (List.dropWhile_suffix _)

theorem skipEnum_suffix (ts : List Token) : skipEnum ts <:+ ts := by
  unfold skipEnum
  split
  · exact List.tail_suffix ts
  · exact List.suffix_rfl

theorem steady_scopeHead (keyword : Token) : Steady (scopeHead keyword) := by
  intro ts
  rw [scopeHead]
  split
  · exact List.tail_suffix ts
  · split
    next e rest hread => exact steady_qualifiedName.of_error hread
    next name rest hread =>
      have hname := steady_qualifiedName.of_ok hread
      split
      · exact (skipStatement_suffix rest).trans hname
      · exact ((steady_expect _ rest).map _).mono hname

end Parser

namespace Progress

/-- A step takes the next token, and it may be some of those after it. -/
theorem left_suffix_tail_of_step {p q : Progress} (h : Step p q) : q.left <:+ p.left.tail := by
  cases h with
  | record hkind hread => exact (Parser.steady_classDeclaration _).of_ok hread
  | skipAlias hkind hread => exact (Parser.steady_scopeHead _).of_ok hread
  | enter hkind hread => exact (Parser.steady_scopeHead _).of_ok hread
  | directive hkind => exact ⟨_, Parser.directiveRest_append _ _⟩
  | @skipAttributes scopes found t ts rest group hkind hread =>
    have hgroup := Parser.steady_attributeSequence_cons hkind ts
    rwa [hread] at hgroup
  | leave hkind => exact List.suffix_rfl
  | skipBrace hkind => exact List.suffix_rfl
  | @skipBlock scopes found t ts taken rest hkind hread =>
    have hblock := Parser.steady_group_cons .openBrace .closeBrace t ts
    rwa [hread] at hblock
  | skipTemplate hkind => exact Parser.skipAngles_suffix _
  | skipUsing hkind => exact Parser.skipStatement_suffix _
  | skipEnum hkind htext => exact Parser.skipEnum_suffix _
  | skipIdle hidle => exact List.suffix_rfl

theorem left_ne_nil_of_step {p q : Progress} (h : Step p q) : p.left ≠ [] := by
  cases h <;> exact List.cons_ne_nil _ _

/-- **Every step takes at least a token.** -/
theorem length_left_lt_of_step {p q : Progress} (h : Step p q) : q.left.length < p.left.length := by
  have hle := (left_suffix_tail_of_step h).length_le
  have hpos := List.length_pos_iff.2 (left_ne_nil_of_step h)
  rw [List.length_tail] at hle
  omega

theorem left_suffix_of_steps {p q : Progress} (h : Steps p q) : q.left <:+ p.left := by
  induction h with
  | refl => exact List.suffix_rfl
  | tail _ hstep ih =>
    exact ((left_suffix_tail_of_step hstep).trans (List.tail_suffix _)).trans ih

/-- Where the reading stops, the next token has been taken unless there is none. -/
theorem steady_tail_of_stops {p : Progress} {r : Reading (List Declaration)} (h : Stops p r) :
    Reading.Steady p.left.tail r := by
  cases h with
  | done => exact List.suffix_rfl
  | unclosed => exact ⟨List.suffix_rfl, rfl⟩
  | record hkind hread => exact (Parser.steady_classDeclaration _).of_error hread
  | enter hkind hread => exact (Parser.steady_scopeHead _).of_error hread
  | @attributes scopes found t ts rest e hkind hread =>
    have hgroup := Parser.steady_attributeSequence_cons hkind ts
    rwa [hread] at hgroup
  | @block scopes found t ts rest e hkind hread =>
    have hblock := Parser.steady_group_cons .openBrace .closeBrace t ts
    rwa [hread] at hblock

/-- A reading that fails has taken a token: where it stops there is one to take, or it has opened a
namespace before. -/
theorem length_lt_of_stops {ts rest : List Token} {p : Progress} {e : ParseError}
    (hsteps : Steps ⟨[], [], ts⟩ p) (hstops : Stops p (.error e rest)) :
    rest.length < ts.length := by
  have hrest := (steady_tail_of_stops hstops).1.length_le
  have hleft := (left_suffix_of_steps hsteps).length_le
  rw [List.length_tail] at hrest
  suffices hts : ts ≠ [] by
    have := List.length_pos_iff.2 hts
    dsimp only at hleft
    omega
  rintro rfl
  cases hsteps.cases_head with
  | inl hp =>
    subst hp
    cases hstops
  | inr hnext =>
    obtain ⟨q, hstep, -⟩ := hnext
    exact left_ne_nil_of_step hstep rfl

end Progress

namespace Parser

/-- **Reading a file is steady.** -/
theorem steady_unit : Steady unit := by
  intro ts
  obtain ⟨stopped, hsteps, hstops⟩ := Progress.exists_stops ⟨[], [], ts⟩
  have hsuffix := (List.tail_suffix _).trans (Progress.left_suffix_of_steps hsteps)
  exact ((Progress.steady_tail_of_stops hstops).mono hsuffix).map _

/-- Reading a file takes a token before it fails. -/
theorem length_of_unit_error {ts rest : List Token} {e : ParseError}
    (h : unit ts = .error e rest) : rest.length < ts.length := by
  obtain ⟨stopped, hsteps, hstops⟩ := Progress.exists_stops ⟨[], [], ts⟩
  rw [Progress.outcome] at hstops
  cases hread : declarations [] [] ts with
  | ok ds left =>
    rw [unit, hread] at h
    cases h
  | error e' left =>
    rw [unit, hread] at h
    cases h
    rw [hread] at hstops
    exact Progress.length_lt_of_stops hsteps hstops

/-- A reading that succeeds has taken all tokens. -/
theorem rest_of_unit_ok {ts rest : List Token} {u : CompilationUnit} (h : unit ts = .ok u rest) :
    rest = [] := by
  obtain ⟨ds, hread, -⟩ := Reading.map_eq_ok.1 h
  exact (Progress.steps_of_declarations hread).2

end Parser

end HeaderReflection
