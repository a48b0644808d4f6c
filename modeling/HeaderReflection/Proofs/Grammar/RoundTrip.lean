import HeaderReflection.Proofs.Grammar.ReadTrees
import HeaderReflection.Proofs.Grammar.Readback.File

/-!
# Reading undoes writing

A well-formed tree can be written, and whatever way it is written, reading gives the tree back. No
other trees can be read at all, so nothing is asked of a tree that is not needed.
-/

namespace HeaderReflection

/-! ## Every well-formed tree can be written -/

/-- A sign at the start of a file. -/
def Token.ofSign (c : Char) : Token := { kind := .ofSign c, text := String.singleton c }

theorem Token.isSign_ofSign (c : Char) : (Token.ofSign c).IsSign c := ⟨rfl, rfl⟩

theorem exists_separated {α : Type} {spelled : α → List Token → Prop} {as : List α} (hne : as ≠ [])
    (h : ∀ a ∈ as, ∃ ts, spelled a ts) : ∃ ts, Separated spelled as ts := by
  induction as with
  | nil => exact absurd rfl hne
  | cons a as ih =>
    obtain ⟨ts, hts⟩ := h a List.mem_cons_self
    cases as with
    | nil => exact ⟨ts, .last hts⟩
    | cons b as =>
      obtain ⟨rest, hrest⟩ := ih (List.cons_ne_nil b as) fun a' ha' =>
        h a' (List.mem_cons_of_mem _ ha')
      exact ⟨_, .more hts (Token.isSign_ofSign ',') hrest⟩

theorem QualifiedName.exists_spelledParts (ls : List Literal) : ∃ ts, SpelledParts ls ts := by
  induction ls with
  | nil => exact ⟨[], .nil⟩
  | cons l ls ih =>
    obtain ⟨ts, hts⟩ := ih
    exact ⟨_, .cons (Token.isSign_ofSign ':') (Token.isSign_ofSign ':') hts⟩

theorem QualifiedName.exists_spelled {name : QualifiedName} (h : name.parts ≠ []) :
    ∃ ts, name.Spelled ts := by
  obtain ⟨parts⟩ := name
  cases parts with
  | nil => exact absurd rfl h
  | cons l ls =>
    obtain ⟨ts, hts⟩ := exists_spelledParts ls
    exact ⟨_, .mk hts⟩

theorem Attribute.exists_spelled (a : Attribute) : ∃ ts, a.Spelled ts := by
  obtain ⟨scope, hscope⟩ : ∃ ts, SpelledScope a.scope ts := by
    cases a.scope with
    | none => exact ⟨[], .none⟩
    | some l => exact ⟨_, .some (Token.isSign_ofSign ':') (Token.isSign_ofSign ':')⟩
  obtain ⟨params, hparams⟩ : ∃ ts, SpelledParams a.params ts := by
    cases a.params with
    | none => exact ⟨[], .none⟩
    | some ls =>
      cases ls with
      | nil => exact ⟨_, .empty (Token.isSign_ofSign '(') (Token.isSign_ofSign ')')⟩
      | cons l ls =>
        have hone : ∀ l' ∈ l :: ls, ∃ ts, ts = [l'.token] := fun l' _ => ⟨_, rfl⟩
        obtain ⟨ts, hts⟩ := exists_separated (List.cons_ne_nil l ls) hone
        exact ⟨_, .some (Token.isSign_ofSign '(') hts (Token.isSign_ofSign ')')⟩
  exact ⟨_, .mk hscope hparams⟩

theorem AttributeSequence.exists_spelled {group : AttributeSequence} (h : group.attributes ≠ []) :
    ∃ ts, group.Spelled ts := by
  obtain ⟨default, hdefault⟩ : ∃ ts, SpelledDefault group.default ts := by
    cases group.default with
    | none => exact ⟨[], .none⟩
    | some l =>
      have hkeyword : Token.kind { kind := .usingKeyword, text := "using" } = .usingKeyword := rfl
      exact ⟨_, .some hkeyword (Token.isSign_ofSign ':')⟩
  obtain ⟨ts, hts⟩ := exists_separated h fun a _ => a.exists_spelled
  exact ⟨_, .mk hdefault hts⟩

theorem AttributeSequence.exists_spelledAll {groups : List AttributeSequence}
    (h : ∀ group ∈ groups, group.WellFormed) : ∃ ts, SpelledAll groups ts := by
  induction groups with
  | nil => exact ⟨[], .nil⟩
  | cons group groups ih =>
    obtain ⟨ts, hts⟩ := exists_spelled (h group List.mem_cons_self).nonempty
    obtain ⟨rest, hrest⟩ := ih fun g hg => h g (List.mem_cons_of_mem _ hg)
    exact ⟨_, .cons hts hrest⟩

theorem Member.exists_spelled {m : Member} (h : m.WellFormed) : ∃ ts, m.Spelled ts := by
  obtain ⟨groups, hgroups⟩ := AttributeSequence.exists_spelledAll h.attributes
  have hne : m.type.head.parts ≠ [] := by
    rcases h.type.head with ⟨t, -, hauto⟩ | ⟨hwell, -⟩
    · rw [hauto]
      exact List.cons_ne_nil _ _
    · exact hwell.nonempty
  obtain ⟨head, hhead⟩ := QualifiedName.exists_spelled hne
  exact ⟨_, .mk hgroups hhead⟩

theorem Member.exists_spelledAll {ms : List Member} (h : ∀ m ∈ ms, m.WellFormed) :
    ∃ ts, SpelledAll ms ts := by
  induction ms with
  | nil => exact ⟨[], .nil⟩
  | cons m ms ih =>
    obtain ⟨ts, hts⟩ := exists_spelled (h m List.mem_cons_self)
    obtain ⟨rest, hrest⟩ := ih fun m' hm' => h m' (List.mem_cons_of_mem _ hm')
    exact ⟨_, .cons hts (Token.isSign_ofSign ';') hrest⟩

theorem ClassDeclaration.exists_spelled {c : ClassDeclaration} (h : c.WellFormed) :
    ∃ ts, c.Spelled ts := by
  obtain ⟨groups, hgroups⟩ := AttributeSequence.exists_spelledAll h.attributes
  obtain ⟨name, hname⟩ := QualifiedName.exists_spelled h.name.nonempty
  obtain ⟨bases, hbases⟩ : ∃ ts, SpelledBases c.bases ts := by
    by_cases hnone : c.bases = []
    · rw [hnone]
      exact ⟨[], .nil⟩
    · obtain ⟨ts, hts⟩ := exists_separated hnone fun b hb =>
        QualifiedName.exists_spelled (h.bases b hb).wellFormed.nonempty
      exact ⟨_, .some (Token.isSign_ofSign ':') hts⟩
  obtain ⟨members, hmembers⟩ := Member.exists_spelledAll h.members
  exact ⟨_, .mk hgroups hname hbases (Token.isSign_ofSign '\x7b') hmembers
    (Token.isSign_ofSign '\x7d')⟩

namespace Declaration

mutual

theorem exists_spelled (d : Declaration) (h : d.WellFormed) : ∃ ts, d.Spelled ts := by
  match d with
  | scope keyword name inside =>
    obtain ⟨-, hname, hinside⟩ := h
    obtain ⟨ts, hts⟩ := QualifiedName.exists_spelled hname.nonempty
    obtain ⟨rest, hrest⟩ := exists_spelledAll inside hinside
    exact ⟨_, .scope hts (Token.isSign_ofSign '\x7b') hrest (Token.isSign_ofSign '\x7d')⟩
  | record c =>
    obtain ⟨ts, hts⟩ := ClassDeclaration.exists_spelled h
    exact ⟨_, .record hts (Token.isSign_ofSign ';')⟩
  | directive d => exact ⟨_, .directive d⟩
  | unit inside => exact h.elim
  | part p => exact h.elim

theorem exists_spelledAll (ds : List Declaration) (h : AllWellFormed ds) :
    ∃ ts, SpelledAll ds ts := by
  match ds with
  | [] => exact ⟨[], .nil⟩
  | d :: ds =>
    obtain ⟨hd, hds⟩ := h
    obtain ⟨ts, hts⟩ := exists_spelled d hd
    obtain ⟨rest, hrest⟩ := exists_spelledAll ds hds
    exact ⟨_, .cons hts hrest⟩

end

end Declaration

namespace CompilationUnit

theorem unit_of_spelled {unit : CompilationUnit} (hwell : unit.WellFormed) {ts : List Token}
    (hspelled : unit.Spelled ts) : Parser.unit ts = .ok unit [] := by
  have hsteps := Progress.steps_of_spelledAll hspelled hwell [] [] endsDirective_nil
  have hread := Progress.outcome_of_steps hsteps
  rw [List.append_nil, Progress.outcome, Progress.outcome, Parser.declarations] at hread
  rw [Parser.unit, hread]
  rfl

/-! ## A class in a namespace -/

/-- An identifier at the start of a file. -/
def word (text : String) : Literal := ⟨{ kind := .identifier, text := text }, .identifier⟩

/-- A class in a namespace, and a directive after it. -/
def sample : CompilationUnit where
  declarations := [.scope { kind := .namespaceKeyword, text := "namespace" }
    ⟨[word "A", word "B"]⟩ [
    .record {
      keyword := { kind := .structKeyword, text := "struct" }
      name := ⟨[word "C"]⟩
      attributes := []
      bases := [⟨[word "D", word "E"]⟩, ⟨[word "F"]⟩]
      members := [{
        attributes := [{
          opening := { kind := .attributeOpen, text := "[[" }
          default := some (word "N")
          attributes := [⟨some (word "M"), word "R", some [word "x"]⟩, ⟨none, word "S", none⟩]
          closing := { kind := .attributeClose, text := "]]" } }]
        type := ⟨⟨[word "unsigned"]⟩, [(word "int").token, (word "*").token]⟩
        name := word "f"
        signature := some [.ofSign '(', (word "int").token, .ofSign ')'] }] },
    .directive ⟨.ofSign '#', [word "endif"]⟩]]

theorem wellFormed_words (first : String) (more : List String) :
    QualifiedName.WellFormed ⟨word first :: more.map word⟩ := by
  refine ⟨List.cons_ne_nil _ _, ?_⟩
  intro l hl
  rcases List.mem_cons.1 hl with rfl | hl
  · exact ⟨rfl, rfl⟩
  · obtain ⟨text, -, rfl⟩ := List.mem_map.1 hl
    exact ⟨rfl, rfl⟩

theorem wellFormed_sample : sample.WellFormed := by
  refine ⟨⟨rfl, wellFormed_words "A" ["B"],
    ⟨⟨.inr rfl, ?_, wellFormed_words "C" [], ?_, ?_⟩, ⟨rfl, ?_⟩, trivial⟩⟩, trivial⟩
  · intro group hgroup
    cases hgroup
  · intro name hname
    rcases List.mem_cons.1 hname with rfl | hname
    · exact ⟨wellFormed_words "D" ["E"], by simp [word]⟩
    · rw [List.mem_singleton.1 hname]
      exact ⟨wellFormed_words "F" [], by simp [word]⟩
  · intro m hm
    rw [List.mem_singleton.1 hm]
    refine ⟨by simp, ?_, ⟨.inr ⟨wellFormed_words "unsigned" [], rfl⟩, ?_⟩, ⟨rfl, rfl⟩, ?_⟩
    · intro group hgroup
      rw [List.mem_singleton.1 hgroup]
      refine ⟨rfl, ?_, by simp, ?_, rfl⟩
      · intro l hl
        cases hl
        exact ⟨rfl, rfl⟩
      · intro a ha
        rcases List.mem_cons.1 ha with rfl | ha
        · refine ⟨?_, ⟨rfl, rfl⟩, ?_⟩
          · intro l hl
            cases hl
            exact ⟨rfl, rfl⟩
          · intro ls hls l hl
            cases hls
            rw [List.mem_singleton.1 hl]
            rfl
        · rw [List.mem_singleton.1 ha]
          exact ⟨by simp, ⟨rfl, rfl⟩, by simp⟩
    · have hname : TypeName.Suffix (word "f").token [] := .nil (by decide) (by
        rintro (htext | htext)
        · exact absurd htext (by decide)
        · exact absurd htext (by decide))
      exact .word rfl (by decide) (.inl ⟨rfl, .inr (.inl rfl)⟩) (.sign (.inl rfl) hname)
    · intro ts hts
      cases hts
      have hsplit : splitGroup (·.kind = .openParen) (·.kind = .closeParen) 0
          [Token.ofSign '(', (word "int").token, Token.ofSign ')'] =
            some ([Token.ofSign '(', (word "int").token, Token.ofSign ')'], []) := by decide
      exact ((splitGroup_eq_some_iff parens_disjoint ⟨_, rfl, rfl⟩).1 hsplit).2
  · intro l hl
    rw [List.mem_singleton.1 hl]
    exact ⟨rfl, by simp [word], rfl⟩

theorem spelled_sample : ∃ ts, sample.Spelled ts ∧ (∀ t ∈ ts, t.kind.isTrivia = false) ∧
    " ".intercalate (ts.map Token.text) = "namespace A : : B \x7b struct C : D : : E , F \x7b " ++
      "[[ using N : M : : R ( x ) , S ]] unsigned int * f ( int ) ; \x7d ; # endif \x7d" := by
  have hcolon := Token.isSign_ofSign ':'
  have hcomma := Token.isSign_ofSign ','
  have hsemicolon := Token.isSign_ofSign ';'
  have hopening := Token.isSign_ofSign '\x7b'
  have hclosing := Token.isSign_ofSign '\x7d'
  have husing : Token.kind { kind := .usingKeyword, text := "using" } = .usingKeyword := rfl
  have hparams : Attribute.SpelledParams (some [word "x"]) _ :=
    .some (Token.isSign_ofSign '(') (.last rfl) (Token.isSign_ofSign ')')
  have hscoped : Attribute.Spelled ⟨some (word "M"), word "R", some [word "x"]⟩ _ :=
    .mk (.some hcolon hcolon) hparams
  have hplain : Attribute.Spelled ⟨none, word "S", none⟩ _ := .mk .none .none
  have hattributes := Separated.more hscoped hcomma (.last hplain)
  refine ⟨_, .cons (.scope (.mk (.cons hcolon hcolon .nil)) hopening (.cons (.record (.mk .nil
    (.mk .nil) (.some hcolon (.more (.mk (.cons hcolon hcolon .nil)) hcomma (.last (.mk .nil))))
    hopening (.cons (.mk (.cons (.mk (.some husing hcolon) hattributes) .nil) (.mk .nil)) hsemicolon
    .nil) hclosing) hsemicolon) (.cons (.directive _) .nil)) hclosing) .nil, ?_, ?_⟩
  · decide
  · decide

/-! ## The result -/

/-- **Reading undoes writing.** A well-formed tree of any depth can be written as tokens, and each
way to write it is read to its end and gives the tree back. A tree that is not well-formed is read
from no tokens at all. -/
theorem reading_undoes_writing (unit : CompilationUnit) :
    (unit.WellFormed →
      (∃ ts, unit.Spelled ts) ∧
        ∀ ts, unit.Spelled ts →
          Parser.unit ts = .ok unit [] ∧
            ((∀ t ∈ ts, t.kind.isTrivia = false) → ofTokens ts = .ok unit)) ∧
      (¬unit.WellFormed → ∀ ts rest, Parser.unit ts ≠ .ok unit rest) := by
  constructor
  · intro hwell
    refine ⟨Declaration.exists_spelledAll unit.declarations hwell, ?_⟩
    intro ts hspelled
    have hread := unit_of_spelled hwell hspelled
    refine ⟨hread, ?_⟩
    intro hplain
    have hall : Token.significant ts = ts := by
      rw [Token.significant, List.filter_eq_self]
      intro t ht
      simp [hplain t ht]
    rw [ofTokens, hall, hread]
    rfl
  · intro hnot ts rest hread
    exact hnot (Parser.wellFormed_of_unit hread)

theorem reading_undoes_writing_sample : ∃ ts, sample.Spelled ts ∧
    Parser.unit ts = .ok sample [] ∧ ofTokens ts = .ok sample := by
  obtain ⟨ts, hspelled, hplain, -⟩ := spelled_sample
  obtain ⟨hread, htokens⟩ := ((reading_undoes_writing sample).1 wellFormed_sample).2 ts hspelled
  exact ⟨ts, hspelled, hread, htokens hplain⟩

end CompilationUnit

end HeaderReflection
