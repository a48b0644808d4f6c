import HeaderReflection.Proofs.Grammar.Skipping

/-!
# The name of a member and the last word of its declarator

A declarator is attributes, a type, a name, and a semicolon or a parameter list. After its first
word a type goes on with words, `*` and `&`, further parts of a name, and template arguments. The
reader finds the end of the type by looking ahead, and does not look for template arguments: a word
before them is taken for the name of the member, unless the type starts with it or two colons stand
before it. So the last word is read as the name exactly if no such word has template arguments
(`Parser.last_word_iff`); else the first one is the name (`Parser.member_of_bareTemplate`).
-/

namespace HeaderReflection

/-- A word that is no keyword. -/
structure Token.IsName (t : Token) : Prop where
  kind : t.kind = .identifier
  word : t.isWord = true

/-! ## Types by items -/

/-- What a type goes on with after its first word. -/
inductive TypeItem
  /-- A word of its own, such as the `int` of `unsigned int`. -/
  | word (t : Token)
  /-- A word behind two colons. -/
  | part (c d t : Token)
  /-- A `*` or a `&`. -/
  | sign (t : Token)
  /-- Template arguments with their brackets. -/
  | angles (opening : Token) (more : List Token)
  deriving DecidableEq, Repr

namespace TypeItem

/-- The tokens of an item. -/
def tokens : TypeItem → List Token
  | word t => [t]
  | part c d t => [c, d, t]
  | sign t => [t]
  | angles opening more => opening :: more

/-- The tokens of an item are what its constructor says. -/
def WellFormed : TypeItem → Prop
  | word t => t.IsName
  | part c d t => c.IsSign ':' ∧ d.IsSign ':' ∧ t.IsName
  | sign t => t.IsSign '*' ∨ t.IsSign '&'
  | angles opening more =>
    opening.IsSign '<' ∧ IsGroup (·.text = "<") (·.text = ">") (opening :: more)

/-- The parts of the first name of a type that are among these items. -/
def headParts : List TypeItem → List Literal
  | .part _ _ t :: items => ⟨t, .identifier⟩ :: headParts items
  | _ => []

/-- The items after the first name of a type. -/
def afterHead : List TypeItem → List TypeItem
  | .part _ _ _ :: items => afterHead items
  | items => items

/-- A word of its own has template arguments. -/
def HasBareTemplate (items : List TypeItem) : Prop :=
  ∃ front word opening more back, items = front ++ .word word :: .angles opening more :: back

end TypeItem

/-- The type that starts with a word and goes on with some items. -/
def TypeName.ofItems (first : Token) (items : List TypeItem) : TypeName where
  head := ⟨⟨first, .identifier⟩ :: TypeItem.headParts items⟩
  suffix := (TypeItem.afterHead items).flatMap TypeItem.tokens

/-- The name that a type starts with and its suffix are these tokens, in order. -/
def TypeName.Holds (type : TypeName) (ts : List Token) : Prop :=
  ∃ front, type.head.Spelled front ∧ ts = front ++ type.suffix

/-! ## Declarators -/

/-- How a declarator ends. -/
inductive DeclaratorEnd
  /-- A semicolon, after the name of a field. -/
  | field (semicolon : Token)
  /-- The parameter list of a method. -/
  | method (params : List Token)
  deriving DecidableEq, Repr

namespace DeclaratorEnd

/-- The tokens of an end. -/
def tokens : DeclaratorEnd → List Token
  | field semicolon => [semicolon]
  | method params => params

/-- What is not taken with the member: its semicolon. -/
def left : DeclaratorEnd → List Token
  | field semicolon => [semicolon]
  | method _ => []

/-- The parameter list, if there is one. -/
def signature : DeclaratorEnd → Option (List Token)
  | field _ => none
  | method params => some params

/-- The tokens of an end are what its constructor says. -/
def WellFormed : DeclaratorEnd → Prop
  | field semicolon => semicolon.IsSign ';'
  | method params => IsGroup (·.kind = .openParen) (·.kind = .closeParen) params

end DeclaratorEnd

/-- Groups of attributes one after the other, with or without commas after their attributes. -/
inductive AttributeSequence.DerivesAll : List AttributeSequence → List Token → Prop
  | nil : DerivesAll [] []
  | cons {group : AttributeSequence} {groups : List AttributeSequence} {ts rest : List Token}
      (h : group.Derives ts) (hrest : DerivesAll groups rest) :
      DerivesAll (group :: groups) (ts ++ rest)

/-- An annotated member as it is written. -/
structure Declarator where
  /-- The groups of attributes before it. -/
  attributes : List AttributeSequence
  /-- The tokens of these groups. -/
  attributeTokens : List Token
  /-- The word that the type starts with. -/
  first : Token
  /-- The rest of the type. -/
  items : List TypeItem
  /-- The last word. -/
  name : Token
  /-- What comes after the last word. -/
  ending : DeclaratorEnd

namespace Declarator

/-- The tokens of the type. -/
def typeTokens (d : Declarator) : List Token := d.first :: d.items.flatMap TypeItem.tokens

/-- All tokens. -/
def tokens (d : Declarator) : List Token :=
  d.attributeTokens ++ (d.typeTokens ++ d.name :: d.ending.tokens)

/-- The member of a given type that has the last word for its name. -/
def memberOf (d : Declarator) (type : TypeName) : Member :=
  ⟨d.attributes, type, ⟨d.name, .identifier⟩, d.ending.signature⟩

/-- The declarator is annotated, and each of its parts is what it is called. -/
structure WellFormed (d : Declarator) : Prop where
  annotated : d.attributes ≠ []
  attributeTokens : AttributeSequence.DerivesAll d.attributes d.attributeTokens
  first : d.first.IsName
  items : ∀ item ∈ d.items, item.WellFormed
  name : d.name.IsName
  ending : d.ending.WellFormed

end Declarator

/-! ## Types without bare templates -/

theorem Token.IsName.isIdentifier {t : Token} (h : t.IsName) :
    Literal.IsIdentifier ⟨t, .identifier⟩ := ⟨h.kind, rfl⟩

namespace TypeItem

theorem not_hasBareTemplate_nil : ¬HasBareTemplate [] := by
  rintro ⟨front, word, opening, more, back, h⟩
  exact List.append_ne_nil_of_right_ne_nil front (List.cons_ne_nil _ _) h.symm

theorem HasBareTemplate.cons {items : List TypeItem} (h : HasBareTemplate items)
    (item : TypeItem) : HasBareTemplate (item :: items) := by
  obtain ⟨front, word, opening, more, back, rfl⟩ := h
  exact ⟨item :: front, word, opening, more, back, rfl⟩

/-- Whether the items start with a word and template arguments. -/
def startsBare : List TypeItem → Bool
  | .word _ :: .angles .. :: _ => true
  | _ => false

theorem hasBareTemplate_cons {item : TypeItem} {items : List TypeItem} :
    HasBareTemplate (item :: items) ↔
      startsBare (item :: items) = true ∨ HasBareTemplate items := by
  constructor
  · rintro ⟨front, word, opening, more, back, hsplit⟩
    cases front with
    | nil => exact .inl (by rw [hsplit]; rfl)
    | cons other front => exact .inr ⟨front, word, opening, more, back, (List.cons.inj hsplit).2⟩
  · rintro (hstarts | hmore)
    · unfold startsBare at hstarts
      split at hstarts
      next word opening more back hsplit => exact ⟨[], word, opening, more, back, hsplit⟩
      next => cases hstarts
    · exact hmore.cons item

instance : ∀ items : List TypeItem, Decidable (HasBareTemplate items)
  | [] => .isFalse not_hasBareTemplate_nil
  | _ :: items =>
    have : Decidable (HasBareTemplate items) := instDecidableHasBareTemplate items
    decidable_of_iff _ hasBareTemplate_cons.symm

/-- Where there is a bare template, there is a first one. -/
theorem HasBareTemplate.exists_first {items : List TypeItem} (h : HasBareTemplate items) :
    ∃ front word opening more back,
      items = front ++ .word word :: .angles opening more :: back ∧ ¬HasBareTemplate front := by
  induction items with
  | nil => exact absurd h not_hasBareTemplate_nil
  | cons item items ih =>
    by_cases hstarts : startsBare (item :: items) = true
    · unfold startsBare at hstarts
      split at hstarts
      next word opening more back hsplit =>
        exact ⟨[], word, opening, more, back, hsplit, not_hasBareTemplate_nil⟩
      next => cases hstarts
    · obtain ⟨front, word, opening, more, back, rfl, hfront⟩ :=
        ih ((hasBareTemplate_cons.1 h).resolve_left hstarts)
      refine ⟨item :: front, word, opening, more, back, rfl, ?_⟩
      rw [hasBareTemplate_cons, not_or]
      refine ⟨?_, hfront⟩
      -- what the front starts with, all items start with
      cases front with
      | nil => cases item <;> exact Bool.false_ne_true
      | cons other front =>
        intro hbare
        refine hstarts ?_
        cases item <;> cases other <;> first | rfl | cases hbare

/-- After a word that has no template arguments something comes that shows that the word belongs to
the type. -/
theorem goesOn_tokens {word name : Token} {items : List TypeItem}
    (hitems : ∀ item ∈ items, item.WellFormed) (hplain : ¬HasBareTemplate (.word word :: items))
    (hname : name.IsName) : GoesOn (items.flatMap tokens ++ [name]) := by
  cases items with
  | nil => exact .inl ⟨hname.kind, .inl hname.word⟩
  | cons item items =>
    have hitem := hitems item List.mem_cons_self
    cases item with
    | word t => exact .inl ⟨hitem.kind, .inl hitem.word⟩
    | part c d t => exact .inr ⟨hitem.1.kind, d, rfl, hitem.2.1.kind⟩
    | sign t =>
      rcases hitem with hstar | hand
      · exact .inl ⟨hstar.kind, .inr (.inl hstar.text)⟩
      · exact .inl ⟨hand.kind, .inr (.inr hand.text)⟩
    | angles opening more => exact absurd ⟨[], word, opening, more, items, rfl⟩ hplain

/-- Without bare templates, the items are what the reader takes for the rest of the type. -/
theorem suffix_tokens {name : Token} {items : List TypeItem}
    (hitems : ∀ item ∈ items, item.WellFormed) (hplain : ¬HasBareTemplate items)
    (hname : name.IsName) : TypeName.Suffix name (items.flatMap tokens) := by
  induction items with
  | nil =>
    obtain ⟨hangle, hsign⟩ := Token.ne_angle_of_isWord hname.word
    exact .nil hangle hsign
  | cons item items ih =>
    obtain ⟨hitem, hmore⟩ := List.forall_mem_cons.1 hitems
    have hrest := ih hmore fun h => hplain (h.cons item)
    rw [List.flatMap_cons]
    cases item with
    | word t => exact .word hitem.kind hitem.word (goesOn_tokens hmore hplain hname) hrest
    | part c d t =>
      obtain ⟨hc, hd, ht⟩ := hitem
      refine .part hc.kind (hc.ne_angle (by decide)) ?_ hd.kind ht.kind hrest
      rintro (htext | htext)
      · exact absurd (hc.text.symm.trans htext) (by decide)
      · exact absurd (hc.text.symm.trans htext) (by decide)
    | sign t => exact .sign (hitem.imp Token.IsSign.text Token.IsSign.text) hrest
    | angles opening more => exact .angles hitem.2 hrest

/-! ## The first name of a type -/

theorem headParts_isIdentifier {items : List TypeItem} (hitems : ∀ item ∈ items, item.WellFormed) :
    ∀ l ∈ headParts items, l.IsIdentifier := by
  fun_induction headParts items with
  | case1 c d t items ih =>
    obtain ⟨hitem, hmore⟩ := List.forall_mem_cons.1 hitems
    exact List.forall_mem_cons.2 ⟨hitem.2.2.isIdentifier, ih hmore⟩
  | case2 => exact fun l hl => absurd hl List.not_mem_nil

theorem spelledParts_headParts {items : List TypeItem}
    (hitems : ∀ item ∈ items, item.WellFormed) :
    ∃ front, QualifiedName.SpelledParts (headParts items) front ∧
      items.flatMap tokens = front ++ (afterHead items).flatMap tokens := by
  induction items with
  | nil => exact ⟨[], .nil, rfl⟩
  | cons item items ih =>
    obtain ⟨hitem, hmore⟩ := List.forall_mem_cons.1 hitems
    cases item with
    | part c d t =>
      obtain ⟨front, hfront, htokens⟩ := ih hmore
      refine ⟨c :: d :: t :: front, .cons hitem.1 hitem.2.1 hfront, ?_⟩
      rw [List.flatMap_cons, htokens]
      rfl
    | word t => exact ⟨[], .nil, rfl⟩
    | sign t => exact ⟨[], .nil, rfl⟩
    | angles opening more => exact ⟨[], .nil, rfl⟩

/-- The first name of a type is as long as it can be. -/
theorem startsScope_afterHead {items : List TypeItem} (hitems : ∀ item ∈ items, item.WellFormed) :
    startsScope ((afterHead items).flatMap tokens) = false := by
  induction items with
  | nil => rfl
  | cons item items ih =>
    obtain ⟨hitem, hmore⟩ := List.forall_mem_cons.1 hitems
    cases item with
    | part c d t => exact ih hmore
    | word t => exact Parser.startsScope_of_kind (by simp [hitem.kind]) _
    | sign t =>
      have hkind : t.kind = .identifier := hitem.elim Token.IsSign.kind Token.IsSign.kind
      exact Parser.startsScope_of_kind (by simp [hkind]) _
    | angles opening more =>
      have hkind : opening.kind = .identifier := hitem.1.kind
      exact Parser.startsScope_of_kind (by simp [hkind]) _

theorem mem_of_mem_afterHead {item : TypeItem} {items : List TypeItem}
    (h : item ∈ afterHead items) : item ∈ items := by
  fun_induction afterHead items with
  | case1 c d t items ih => exact List.mem_cons_of_mem _ (ih h)
  | case2 => exact h

theorem HasBareTemplate.of_afterHead {items : List TypeItem}
    (h : HasBareTemplate (afterHead items)) : HasBareTemplate items := by
  fun_induction afterHead items with
  | case1 c d t items ih => exact (ih h).cons _
  | case2 => exact h

end TypeItem

namespace TypeName

theorem spelled_ofItems (first : Token) {items : List TypeItem}
    (hitems : ∀ item ∈ items, item.WellFormed) :
    ∃ front, (ofItems first items).head.Spelled front ∧
      first :: items.flatMap TypeItem.tokens = front ++ (ofItems first items).suffix := by
  obtain ⟨front, hfront, htokens⟩ := TypeItem.spelledParts_headParts hitems
  refine ⟨first :: front, .mk (l := ⟨first, .identifier⟩) hfront, ?_⟩
  rw [htokens]
  rfl

theorem wellFormed_ofItems {first name : Token} {items : List TypeItem} (hfirst : first.IsName)
    (hitems : ∀ item ∈ items, item.WellFormed) (hplain : ¬TypeItem.HasBareTemplate items)
    (hname : name.IsName) : (ofItems first items).WellFormed name where
  head := by
    refine .inr ⟨⟨List.cons_ne_nil _ _, ?_⟩, TypeItem.startsScope_afterHead hitems⟩
    exact List.forall_mem_cons.2 ⟨hfirst.isIdentifier, TypeItem.headParts_isIdentifier hitems⟩
  suffix := TypeItem.suffix_tokens (fun item h => hitems item (TypeItem.mem_of_mem_afterHead h))
    (fun h => hplain h.of_afterHead) hname

end TypeName

/-! ## Reading declarators -/

/-- The group of one attribute without a namespace and parameters. -/
theorem AttributeSequence.derives_single {opening name closing : Token}
    (hopening : opening.kind = .attributeOpen) (hname : name.kind = .identifier)
    (hclosing : closing.kind = .attributeClose) :
    Derives ⟨opening, none, [⟨none, ⟨name, .identifier⟩, none⟩], closing⟩
      [opening, name, closing] := by
  let a : Attribute := ⟨none, ⟨name, .identifier⟩, none⟩
  have ha : a.Derives [name] := @Attribute.Derives.mk a [] [] .none ⟨hname, rfl⟩ .none
  have hattributes : DerivesAttributes [a] [name] := @DerivesAttributes.last a [name] [] ha .absent
  exact @Derives.mk ⟨opening, none, [a], closing⟩ [] [name] hopening .none hattributes hclosing

namespace Parser

theorem attributeSequences_of_derives {groups : List AttributeSequence} {ts rest : List Token}
    (h : AttributeSequence.DerivesAll groups ts) (hrest : nextIs .attributeOpen rest = false) :
    attributeSequences (ts ++ rest) = .ok groups rest := by
  induction h with
  | nil => exact attributeSequences_of_none hrest
  | @cons group groups ts more h hmore ih =>
    have hread := attributeSequence_of_derives h (more ++ rest)
    have hnext : nextIs .attributeOpen (ts ++ (more ++ rest)) = true := by
      obtain ⟨hopening, -, -, -⟩ := h
      rw [List.cons_append, nextIs_cons, hopening]
      rfl
    rw [List.append_assoc, attributeSequences_of_some hnext hread, ih, Reading.map_ok]

/-- A member whose type has no bare template, up to where nothing shows that its name goes on. -/
theorem member_of_items {groups : List AttributeSequence} {attributeTokens rest left : List Token}
    {first name : Token} {items : List TypeItem} {sig : Option (List Token)}
    (hgroups : AttributeSequence.DerivesAll groups attributeTokens) (hfirst : first.IsName)
    (hitems : ∀ item ∈ items, item.WellFormed) (hplain : ¬TypeItem.HasBareTemplate items)
    (hname : name.IsName) (hrest : ¬GoesOn rest) (hsignature : signature rest = .ok sig left) :
    member (attributeTokens ++ (first :: items.flatMap TypeItem.tokens ++ name :: rest)) =
      .ok ⟨groups, .ofItems first items, ⟨name, .identifier⟩, sig⟩ left := by
  obtain ⟨front, hfront, htokens⟩ := TypeName.spelled_ofItems first hitems
  have hnext : nextIs .attributeOpen
      (first :: items.flatMap TypeItem.tokens ++ name :: rest) = false := by
    rw [List.cons_append, nextIs_cons, hfirst.kind]
    rfl
  have hread₁ := attributeSequences_of_derives hgroups hnext
  have hread₂ := typeName_of_spelled hfront
    (TypeName.wellFormed_ofItems hfirst hitems hplain hname) hname.kind hrest
  rw [← List.append_assoc, ← htokens] at hread₂
  have hread₃ := identifier_cons hname.isIdentifier rest
  refine bind_eq_ok.2 ⟨groups, _, hread₁, bind_eq_ok.2 ⟨_, _, hread₂, ?_⟩⟩
  exact bind_eq_ok.2 ⟨_, _, hread₃, bind_eq_ok.2 ⟨sig, left, hsignature, rfl⟩⟩

theorem signature_ending {ending : DeclaratorEnd} (h : ending.WellFormed) (after : List Token) :
    signature (ending.tokens ++ after) = .ok ending.signature (ending.left ++ after) := by
  cases ending with
  | field semicolon =>
    have hkind : semicolon.kind = .semicolon := h.kind
    exact if_neg (by simp [DeclaratorEnd.tokens, hkind])
  | method params =>
    obtain ⟨t, more, rfl, ht⟩ := h.exists_cons
    have hstart : ∃ u ∈ (t :: more ++ after).head?, decide (u.kind = .openParen) = true :=
      ⟨t, rfl, ht⟩
    show signature (t :: more ++ after) = _
    rw [signature, if_pos (by simpa using ht), group,
      (splitGroup_eq_some_iff parens_disjoint hstart).2 ⟨rfl, h⟩]
    rfl

theorem not_goesOn_ending {ending : DeclaratorEnd} (h : ending.WellFormed) (after : List Token) :
    ¬GoesOn (ending.tokens ++ after) := by
  cases ending with
  | field semicolon =>
    have hkind : semicolon.kind = .semicolon := h.kind
    exact not_goesOn_cons (by simp [hkind]) (by simp [hkind]) after
  | method params =>
    obtain ⟨t, more, rfl, ht⟩ := h.exists_cons
    have hkind : t.kind = .openParen := of_decide_eq_true ht
    exact not_goesOn_cons (by simp [hkind]) (by simp [hkind]) _

variable {d : Declarator}

/-- Without bare templates, the last word is the name. -/
theorem member_of_plain (hd : d.WellFormed) (hplain : ¬TypeItem.HasBareTemplate d.items)
    (after : List Token) :
    member (d.tokens ++ after) =
      .ok (d.memberOf (.ofItems d.first d.items)) (d.ending.left ++ after) := by
  have hread := member_of_items hd.attributeTokens hd.first hd.items hplain hd.name
    (not_goesOn_ending hd.ending after) (signature_ending hd.ending after)
  rw [Declarator.tokens, Declarator.typeTokens, List.append_assoc, List.append_assoc]
  exact hread

/-- **A word with template arguments of its own is taken for the name of a field.** The template
arguments, the rest of the type and the last word are left over. -/
theorem member_of_bareTemplate (hd : d.WellFormed) {front back : List TypeItem}
    {word opening : Token} {more : List Token}
    (hsplit : d.items = front ++ .word word :: .angles opening more :: back)
    (hfirst : ¬TypeItem.HasBareTemplate front) (after : List Token) :
    member (d.tokens ++ after) =
      .ok ⟨d.attributes, .ofItems d.first front, ⟨word, .identifier⟩, none⟩
        (opening :: more ++
          (back.flatMap TypeItem.tokens ++ d.name :: d.ending.tokens ++ after)) := by
  have hitems := hd.items
  rw [hsplit, List.forall_mem_append, List.forall_mem_cons, List.forall_mem_cons] at hitems
  obtain ⟨hfront, hword, ⟨hopening, -⟩, -⟩ := hitems
  have hkind : opening.kind = .identifier := hopening.kind
  have hends : ¬GoesOn (opening :: more ++
      (back.flatMap TypeItem.tokens ++ d.name :: d.ending.tokens ++ after)) := by
    rintro (⟨-, hisWord | hpointer⟩ | ⟨hcolon, -⟩)
    · exact (Token.ne_angle_of_isWord hisWord).1 hopening.text
    · rcases hpointer with htext | htext
      · exact absurd (hopening.text.symm.trans htext) (by decide)
      · exact absurd (hopening.text.symm.trans htext) (by decide)
    · rw [hkind] at hcolon
      cases hcolon
  have hsignature : signature (opening :: more ++
      (back.flatMap TypeItem.tokens ++ d.name :: d.ending.tokens ++ after)) = .ok none _ :=
    if_neg (by simp [hkind])
  have hread := member_of_items hd.attributeTokens hd.first hfront hfirst hword hends hsignature
  have htokens : d.tokens ++ after =
      d.attributeTokens ++ (d.first :: front.flatMap TypeItem.tokens ++
        word :: (opening :: more ++
          (back.flatMap TypeItem.tokens ++ d.name :: d.ending.tokens ++ after))) := by
    simp [Declarator.tokens, Declarator.typeTokens, hsplit, TypeItem.tokens]
  rw [htokens]
  exact hread

/-! ## Declarators in class bodies -/

/-- Reading a class body from the tokens `ts` on comes to the tokens `rest` after these members. -/
inductive MembersReach : List Token → List Member → List Token → Prop
  | refl (ts : List Token) : MembersReach ts [] ts
  | filler {filler ts rest : List Token} {ms : List Member} (h : Member.Filler filler)
      (hmore : MembersReach ts ms rest) : MembersReach (filler ++ ts) ms rest
  | member {t : Token} {ts left rest : List Token} {m : Member} {ms : List Member}
      (ht : t.kind = .attributeOpen) (h : member (t :: ts) = .ok m left)
      (hmore : MembersReach left ms rest) : MembersReach (t :: ts) (m :: ms) rest

theorem members_of_reach {ts rest : List Token} {ms : List Member} (h : MembersReach ts ms rest) :
    members 0 ts = Reading.map (ms ++ ·) (members 0 rest) := by
  induction h with
  | refl ts => cases members 0 ts <;> rfl
  | filler h _ ih => rw [members_filler h, ih]
  | @member t ts left rest m ms ht h _ ih =>
    rw [members_member ht h, ih]
    cases members 0 rest <;> rfl

/-- A declarator starts with the brackets of its first attributes. -/
theorem head_declarator (hd : d.WellFormed) (after : List Token) :
    ∃ t ts, d.tokens ++ after = t :: ts ∧ t.kind = .attributeOpen := by
  obtain ⟨attributes, attributeTokens, first, items, name, ending⟩ := d
  have hgroups := hd.attributeTokens
  dsimp only at hgroups
  cases hgroups with
  | nil => exact absurd rfl hd.annotated
  | cons h _ =>
    obtain ⟨hopening, -, -, -⟩ := h
    exact ⟨_, _, rfl, hopening⟩

theorem members_left {ending : DeclaratorEnd} (h : ending.WellFormed) (after : List Token) :
    members 0 (ending.left ++ after) = members 0 after := by
  cases ending with
  | field semicolon =>
    have hkind : semicolon.kind = .semicolon := h.kind
    exact members_skip (by simp [hkind]) (.inl (by simp [hkind])) after
  | method params => rfl

/-- **The last word of a declarator is read as its name exactly if no other word has template
arguments of its own.** Then the declarator gives one member, with all tokens of the type in its
type, wherever in a class body it stands. -/
theorem last_word_iff (hd : d.WellFormed) {body after : List Token} {ms : List Member}
    (hbody : MembersReach body ms (d.tokens ++ after)) :
    (∃ type, type.Holds d.typeTokens ∧
        member (d.tokens ++ after) = .ok (d.memberOf type) (d.ending.left ++ after) ∧
        members 0 body =
          Reading.map (fun more => ms ++ d.memberOf type :: more) (members 0 after)) ↔
      ¬TypeItem.HasBareTemplate d.items := by
  constructor
  · rintro ⟨type, -, hread, -⟩ hbare
    obtain ⟨front, word, opening, more, back, hsplit, hfirst⟩ := hbare.exists_first
    rw [member_of_bareTemplate hd hsplit hfirst, EStateM.Result.ok.injEq] at hread
    have hlength := congrArg List.length hread.2
    -- the last word is still to be read, so more is left than after the declarator
    have hending : d.ending.left.length ≤ d.ending.tokens.length := by
      cases d.ending with
      | field semicolon => exact Nat.le_refl _
      | method params => exact Nat.zero_le _
    simp only [List.length_append, List.length_cons] at hlength
    omega
  · intro hplain
    have hread := member_of_plain hd hplain after
    refine ⟨.ofItems d.first d.items, TypeName.spelled_ofItems _ hd.items, hread, ?_⟩
    obtain ⟨t, ts, htokens, ht⟩ := head_declarator hd after
    rw [members_of_reach hbody]
    rw [htokens] at hread ⊢
    rw [members_member ht hread, members_left hd.ending]
    cases members 0 after <;> rfl

/-- A type of several words with template arguments after a qualified one, behind some filler. -/
theorem last_word_iff_qualified :
    let group : AttributeSequence :=
      ⟨⟨.attributeOpen, "[[", {}⟩, none, [⟨none, ⟨⟨.identifier, "R", {}⟩, .identifier⟩, none⟩],
        ⟨.attributeClose, "]]", {}⟩⟩
    let d : Declarator :=
      { attributes := [group]
        attributeTokens := [group.opening, ⟨.identifier, "R", {}⟩, group.closing]
        first := ⟨.identifier, "const", {}⟩
        items := [.word ⟨.identifier, "std", {}⟩,
          .part ⟨.colon, ":", {}⟩ ⟨.colon, ":", {}⟩ ⟨.identifier, "array", {}⟩,
          .angles ⟨.identifier, "<", {}⟩ [⟨.identifier, "int", {}⟩, ⟨.identifier, ">", {}⟩],
          .sign ⟨.identifier, "*", {}⟩]
        name := ⟨.identifier, "items", {}⟩
        ending := .method [⟨.openParen, "(", {}⟩, ⟨.closeParen, ")", {}⟩] }
    let after : List Token := [⟨.semicolon, ";", {}⟩, ⟨.closeBrace, "\x7d", {}⟩]
    let body : List Token :=
      ⟨.publicKeyword, "public", {}⟩ :: ⟨.colon, ":", {}⟩ :: (d.tokens ++ after)
    d.WellFormed ∧ MembersReach body [] (d.tokens ++ after) ∧
      ¬TypeItem.HasBareTemplate d.items ∧
      ((∃ type, type.Holds d.typeTokens ∧
          member (d.tokens ++ after) = .ok (d.memberOf type) (d.ending.left ++ after) ∧
          members 0 body =
            Reading.map (fun more => [] ++ d.memberOf type :: more) (members 0 after)) ↔
        ¬TypeItem.HasBareTemplate d.items) := by
  intro group d after body
  let angles : List Token := [⟨.identifier, "<", {}⟩, ⟨.identifier, "int", {}⟩,
    ⟨.identifier, ">", {}⟩]
  have hangles : IsGroup (·.text = "<") (·.text = ">") angles :=
    ((@splitGroup_eq_some_iff _ _ angles_disjoint angles angles [] ⟨_, rfl, rfl⟩).1 rfl).2
  let parens : List Token := [⟨.openParen, "(", {}⟩, ⟨.closeParen, ")", {}⟩]
  have hparens : IsGroup (·.kind = .openParen) (·.kind = .closeParen) parens :=
    ((@splitGroup_eq_some_iff _ _ parens_disjoint parens parens [] ⟨_, rfl, rfl⟩).1 rfl).2
  have hd : d.WellFormed := by
    refine ⟨List.cons_ne_nil _ _, ?_, ⟨rfl, by decide⟩, ?_, ⟨rfl, by decide⟩, hparens⟩
    · exact .cons (AttributeSequence.derives_single rfl rfl rfl) .nil
    · simp only [d, List.forall_mem_cons]
      refine ⟨⟨rfl, by decide⟩, ⟨⟨rfl, rfl⟩, ⟨rfl, rfl⟩, ⟨rfl, by decide⟩⟩, ⟨⟨rfl, rfl⟩, hangles⟩,
        .inl ⟨rfl, rfl⟩, ?_⟩
      exact fun item hitem => absurd hitem List.not_mem_nil
  have hfiller : Member.Filler [⟨.publicKeyword, "public", {}⟩, ⟨.colon, ":", {}⟩] :=
    .token (by decide) (.token (by decide) .nil)
  have hbody : MembersReach body [] (d.tokens ++ after) := .filler hfiller (.refl _)
  exact ⟨hd, hbody, by decide, last_word_iff hd hbody⟩

/-- In `[[R]] const Array<int> items;` the last word is not the name that is read. -/
theorem not_forall_last_word :
    ¬∀ (d : Declarator) (body after : List Token) (ms : List Member), d.WellFormed →
      MembersReach body ms (d.tokens ++ after) →
        ∃ type, type.Holds d.typeTokens ∧
          members 0 body =
            Reading.map (fun more => ms ++ d.memberOf type :: more) (members 0 after) := by
  intro h
  let group : AttributeSequence :=
    ⟨⟨.attributeOpen, "[[", {}⟩, none, [⟨none, ⟨⟨.identifier, "R", {}⟩, .identifier⟩, none⟩],
      ⟨.attributeClose, "]]", {}⟩⟩
  let d : Declarator :=
    { attributes := [group]
      attributeTokens := [group.opening, ⟨.identifier, "R", {}⟩, group.closing]
      first := ⟨.identifier, "const", {}⟩
      items := [.word ⟨.identifier, "Array", {}⟩,
        .angles ⟨.identifier, "<", {}⟩ [⟨.identifier, "int", {}⟩, ⟨.identifier, ">", {}⟩]]
      name := ⟨.identifier, "items", {}⟩
      ending := .field ⟨.semicolon, ";", {}⟩ }
  let closing : Token := ⟨.closeBrace, "\x7d", {}⟩
  let angles : List Token := [⟨.identifier, "<", {}⟩, ⟨.identifier, "int", {}⟩,
    ⟨.identifier, ">", {}⟩]
  have hangles : IsGroup (·.text = "<") (·.text = ">") angles :=
    ((@splitGroup_eq_some_iff _ _ angles_disjoint angles angles [] ⟨_, rfl, rfl⟩).1 rfl).2
  have hd : d.WellFormed := by
    refine ⟨List.cons_ne_nil _ _, ?_, ⟨rfl, by decide⟩, ?_, ⟨rfl, by decide⟩, ⟨rfl, rfl⟩⟩
    · exact .cons (AttributeSequence.derives_single rfl rfl rfl) .nil
    · simp only [d, List.forall_mem_cons]
      refine ⟨⟨rfl, by decide⟩, ⟨⟨rfl, rfl⟩, hangles⟩, ?_⟩
      exact fun item hitem => absurd hitem List.not_mem_nil
  obtain ⟨type, -, hread⟩ := h d _ [closing] [] hd (.refl _)
  obtain ⟨t, ts, htokens, ht⟩ := head_declarator hd [closing]
  have hwrong := member_of_bareTemplate hd (List.nil_append _).symm
    TypeItem.not_hasBareTemplate_nil [closing]
  -- what is left over is filler up to the end of the body
  have hfiller : Member.Filler (angles ++ [⟨.identifier, "items", {}⟩, ⟨.semicolon, ";", {}⟩]) :=
    .token (by decide) (.token (by decide) (.token (by decide) (.token (by decide)
      (.token (by decide) .nil))))
  have hleft := members_filler hfiller [closing]
  rw [members_closing rfl] at hleft
  rw [members_closing rfl, htokens] at hread
  rw [htokens] at hwrong
  rw [members_member ht hwrong, show members 0 (_ ++ (_ ++ [closing])) = _ from hleft,
    Reading.map_ok, Reading.map_ok, EStateM.Result.ok.injEq] at hread
  have hname : ("Array" : String) = "items" :=
    congrArg (fun ms => (ms.head?.map fun m => m.name.token.text).getD "") hread.1
  exact absurd hname (by decide)

end Parser

end HeaderReflection
