import HeaderReflection.Proofs.Grammar.SourceOrder
import HeaderReflection.Proofs.Layout.MovedTrees

/-!
# Reading moved tokens

A reader looks at the categories and the texts of tokens, so when the tokens are moved it reads the
moved tree, fails with the moved error and leaves the moved rest. Only directives ask for more: the
end of a line must stay where it was (`KeepsLines`).
-/

namespace HeaderReflection

/-- The reading with all tokens moved, `move` being how the value is moved. -/
def Reading.moved {α : Type} (m : Moving) (move : α → α) : Reading α → Reading α
  | .ok a rest => .ok (move a) (rest.map (Token.moved m))
  | .error e rest => .error (e.moved m) (rest.map (Token.moved m))

variable (m : Moving)

@[simp] theorem Reading.moved_ok {α : Type} (move : α → α) (a : α) (rest : List Token) :
    Reading.moved m move (.ok a rest) = .ok (move a) (rest.map (Token.moved m)) := rfl

@[simp] theorem Reading.moved_error {α : Type} (move : α → α) (e : ParseError)
    (rest : List Token) :
    Reading.moved m move (.error e rest) = .error (e.moved m) (rest.map (Token.moved m)) := rfl

/-- Changing the value and moving the tokens go in any order. -/
theorem Reading.map_moved {α β : Type} {moveA : α → α} {moveB : β → β} {f g : α → β}
    (h : ∀ a, g (moveA a) = moveB (f a)) (r : Reading α) :
    Reading.map g (r.moved m moveA) = (Reading.map f r).moved m moveB := by
  cases r with
  | ok a rest => rw [moved_ok, map_ok, map_ok, moved_ok, h]
  | error e rest => rfl

/-! ## Looking ahead -/

@[simp] theorem nextIs_moved (kind : TokenKind) (ts : List Token) :
    nextIs kind (ts.map (Token.moved m)) = nextIs kind ts := by
  cases ts <;> rfl

@[simp] theorem nextReads_moved (text : String) (ts : List Token) :
    nextReads text (ts.map (Token.moved m)) = nextReads text ts := by
  cases ts <;> rfl

@[simp] theorem startsScope_moved (ts : List Token) :
    startsScope (ts.map (Token.moved m)) = startsScope ts := by
  rw [startsScope, startsScope, nextIs_moved, ← List.map_tail, nextIs_moved]

theorem skipComma_moved (ts : List Token) :
    skipComma (ts.map (Token.moved m)) = (skipComma ts).map (Token.moved m) := by
  rw [skipComma, skipComma, nextIs_moved, ← List.map_tail]
  split <;> rfl

/-! ## Groups -/

theorem splitGroup_moved {opens closes : Token → Bool} (hopens : ∀ t, opens (t.moved m) = opens t)
    (hcloses : ∀ t, closes (t.moved m) = closes t) (depth : Nat) (ts : List Token) :
    splitGroup opens closes depth (ts.map (Token.moved m)) =
      (splitGroup opens closes depth ts).map
        (Prod.map (List.map (Token.moved m)) (List.map (Token.moved m))) := by
  induction ts generalizing depth with
  | nil => rfl
  | cons t ts ih =>
    rw [List.map_cons, splitGroup, splitGroup, hopens, hcloses]
    split
    next => rfl
    next deeper _ =>
      rw [ih (deeper + 1), Option.map_map, Option.map_map]
      rfl

theorem splitAngles_moved (ts : List Token) :
    splitAngles (ts.map (Token.moved m)) =
      ((splitAngles ts).1.map (Token.moved m), (splitAngles ts).2.map (Token.moved m)) := by
  rw [splitAngles, splitAngles, splitGroup_moved m (fun _ => rfl) (fun _ => rfl)]
  cases splitGroup (·.text = "<") (·.text = ">") 0 ts <;> rfl

theorem skipStatement_moved (ts : List Token) :
    skipStatement (ts.map (Token.moved m)) = (skipStatement ts).map (Token.moved m) := by
  rw [skipStatement, skipStatement, List.dropWhile_map, List.map_tail]
  rfl

namespace Parser

theorem group_moved (opening closing : TokenKind) (ts : List Token) :
    group opening closing (ts.map (Token.moved m)) =
      Reading.moved m (List.map (Token.moved m)) (group opening closing ts) := by
  rw [group, group, splitGroup_moved m (fun _ => rfl) (fun _ => rfl)]
  cases splitGroup (·.kind = opening) (·.kind = closing) 0 ts <;> rfl

/-- Two readers in a row read moved tokens when each of them does. -/
theorem bind_moved {α β : Type} {p : Parser α} {q q' : α → Parser β} {moveA : α → α}
    {moveB : β → β} {ts : List Token}
    (hp : p (ts.map (Token.moved m)) = Reading.moved m moveA (p ts))
    (hq : ∀ a rest, q' (moveA a) (rest.map (Token.moved m)) = Reading.moved m moveB (q a rest)) :
    (p >>= q') (ts.map (Token.moved m)) = Reading.moved m moveB ((p >>= q) ts) := by
  change EStateM.bind p q' _ = Reading.moved m moveB (EStateM.bind p q ts)
  rw [EStateM.bind, EStateM.bind, hp]
  cases p ts with
  | ok a rest => exact hq a rest
  | error e rest => rfl

/-! ## Names -/

theorem expect_moved (kind : TokenKind) (ts : List Token) :
    expect kind (ts.map (Token.moved m)) = Reading.moved m (Token.moved m) (expect kind ts) := by
  cases ts with
  | nil => rfl
  | cons t ts =>
    rw [List.map_cons, expect, expect, Token.kind_moved]
    split <;> rfl

theorem identifier_moved (ts : List Token) :
    identifier (ts.map (Token.moved m)) = Reading.moved m (Literal.moved m) (identifier ts) := by
  rw [identifier, identifier, expect_moved]
  exact Reading.map_moved m (fun _ => by rfl) _

theorem nextPart_moved (ts : List Token) :
    nextPart (ts.map (Token.moved m)) =
      Reading.moved m (Option.map (Literal.moved m)) (nextPart ts) := by
  rw [nextPart, nextPart, startsScope_moved, ← List.map_drop, identifier_moved]
  split
  · exact Reading.map_moved m (fun _ => by rfl) _
  · rfl

theorem furtherParts_moved (ts : List Token) :
    furtherParts (ts.map (Token.moved m)) =
      Reading.moved m (List.map (Literal.moved m)) (furtherParts ts) := by
  fun_induction furtherParts ts with
  | case1 ts e rest hread =>
    rw [furtherParts_eq, nextPart_moved, hread]
    rfl
  | case2 ts rest hread =>
    rw [furtherParts_eq, nextPart_moved, hread]
    rfl
  | case3 ts part rest hread ih =>
    rw [furtherParts_eq, nextPart_moved, hread]
    change Reading.map (part.moved m :: ·) (furtherParts (rest.map (Token.moved m))) = _
    rw [ih]
    exact Reading.map_moved m (fun _ => by rfl) _

theorem qualifiedName_moved (ts : List Token) :
    qualifiedName (ts.map (Token.moved m)) =
      Reading.moved m (QualifiedName.moved m) (qualifiedName ts) := by
  refine bind_moved m (identifier_moved m ts) fun first rest => ?_
  exact bind_moved m (furtherParts_moved m rest) fun more left => rfl

/-! ## Attributes -/

theorem furtherParams_moved (ts : List Token) :
    furtherParams (ts.map (Token.moved m)) =
      Reading.moved m (List.map (Literal.moved m)) (furtherParams ts) := by
  fun_induction furtherParams ts with
  | case1 => rw [List.map_nil, furtherParams]; rfl
  | case2 t ts hclosing =>
    rw [List.map_cons, furtherParams, Token.kind_moved, if_pos hclosing]
    rfl
  | case3 t ts hclosing hnone =>
    rw [List.map_cons, furtherParams, Token.kind_moved, if_neg hclosing, hnone]
    rfl
  | case4 t ts hclosing kind hkind ih =>
    rw [List.map_cons, furtherParams, Token.kind_moved, if_neg hclosing, hkind]
    change Reading.map _ (furtherParams (skipComma (ts.map (Token.moved m)))) = _
    rw [skipComma_moved, ih]
    exact Reading.map_moved m (fun _ => by rfl) _

theorem params_moved (ts : List Token) :
    params (ts.map (Token.moved m)) =
      Reading.moved m (Option.map (List.map (Literal.moved m))) (params ts) := by
  rw [params, params, nextIs_moved, ← List.map_tail, furtherParams_moved]
  split
  · exact Reading.map_moved m (fun _ => by rfl) _
  · rfl

theorem oneAttribute_moved (ts : List Token) :
    oneAttribute (ts.map (Token.moved m)) =
      Reading.moved m (Attribute.moved m) (oneAttribute ts) := by
  refine bind_moved m (identifier_moved m ts) fun first afterFirst => ?_
  refine bind_moved m (nextPart_moved m afterFirst) fun second afterSecond => ?_
  refine bind_moved m (params_moved m afterSecond) fun params rest => ?_
  cases second <;> rfl

theorem attributes_moved (ts : List Token) :
    attributes (ts.map (Token.moved m)) =
      Reading.moved m (List.map (Attribute.moved m)) (attributes ts) := by
  fun_induction attributes ts with
  | case1 ts e rest hread =>
    rw [attributes_eq, oneAttribute_moved, hread]
    rfl
  | case2 ts a rest hread hend =>
    rw [attributes_eq, oneAttribute_moved, hread]
    simp [skipComma_moved, hend]
  | case3 ts a rest hread hend ih =>
    rw [attributes_eq, oneAttribute_moved, hread]
    simp only [Reading.moved_ok, skipComma_moved, nextIs_moved, List.isEmpty_map, if_neg hend, ih]
    exact Reading.map_moved m (fun _ => by rfl) _

theorem defaultScope_moved (ts : List Token) :
    defaultScope (ts.map (Token.moved m)) =
      Reading.moved m (Option.map (Literal.moved m)) (defaultScope ts) := by
  rw [defaultScope, defaultScope, nextIs_moved, ← List.map_tail]
  split
  · refine bind_moved m (identifier_moved m ts.tail) fun scope rest => ?_
    exact bind_moved m (expect_moved m .colon rest) fun _ _ => rfl
  · rfl

theorem attributeSequence_moved (ts : List Token) :
    attributeSequence (ts.map (Token.moved m)) =
      Reading.moved m (AttributeSequence.moved m) (attributeSequence ts) := by
  refine bind_moved m (expect_moved m .attributeOpen ts) fun opening afterOpening => ?_
  refine bind_moved m (defaultScope_moved m afterOpening) fun default afterDefault => ?_
  refine bind_moved m (attributes_moved m afterDefault) fun attributes afterAttributes => ?_
  exact bind_moved m (expect_moved m .attributeClose afterAttributes) fun _ _ => rfl

theorem attributeSequences_moved (ts : List Token) :
    attributeSequences (ts.map (Token.moved m)) =
      Reading.moved m (List.map (AttributeSequence.moved m)) (attributeSequences ts) := by
  fun_induction attributeSequences ts with
  | case1 ts hnext e rest hread =>
    rw [attributeSequences_eq, nextIs_moved, if_pos hnext, attributeSequence_moved, hread]
    rfl
  | case2 ts hnext group rest hread ih =>
    rw [attributeSequences_eq, nextIs_moved, if_pos hnext, attributeSequence_moved, hread]
    simp only [Reading.moved_ok, ih]
    exact Reading.map_moved m (fun _ => by rfl) _
  | case3 ts hnone =>
    rw [attributeSequences_eq, nextIs_moved, if_neg hnone]
    rfl

/-! ## Members -/

theorem continuesType_moved (ts : List Token) :
    continuesType (ts.map (Token.moved m)) = continuesType ts := by
  match ts with
  | [] => rfl
  | [_] => rfl
  | [_, _] => rfl
  | _ :: _ :: _ :: _ => rfl

theorem startsPart_moved (t : Token) (ts : List Token) :
    (startsScope (t.moved m :: ts.map (Token.moved m)) &&
        nextIs .identifier ((ts.map (Token.moved m)).drop 1)) =
      (startsScope (t :: ts) && nextIs .identifier (ts.drop 1)) := by
  rw [← List.map_cons, startsScope_moved, ← List.map_drop, nextIs_moved]

theorem typeSuffix_moved (ts : List Token) :
    typeSuffix (ts.map (Token.moved m)) =
      ((typeSuffix ts).1.map (Token.moved m), (typeSuffix ts).2.map (Token.moved m)) := by
  fun_induction typeSuffix ts with
  | case1 => rw [List.map_nil, typeSuffix]
  | case2 t ts hangle split more ih =>
    have hsplit := splitAngles_moved m (t :: ts)
    rw [List.map_cons] at hsplit ⊢
    rw [typeSuffix, Token.text_moved, if_pos hangle]
    simp only [hsplit, ih, split, more, List.map_append]
  | case3 t ts hangle hsign more ih =>
    rw [List.map_cons, typeSuffix, Token.text_moved, if_neg hangle, if_pos hsign]
    simp only [ih, more, List.map_cons]
  | case4 t ts hangle hsign hpart more ih =>
    rw [List.map_cons, typeSuffix, Token.text_moved, if_neg hangle, if_neg hsign, startsPart_moved,
      if_pos hpart, ← List.map_drop, ih]
    simp only [more, List.map_cons, List.map_append, List.map_take]
  | case5 t ts hangle hsign hpart hword more ih =>
    rw [List.map_cons, typeSuffix, Token.text_moved, if_neg hangle, if_neg hsign, startsPart_moved,
      if_neg hpart, ← List.map_cons, continuesType_moved, if_pos hword]
    simp only [ih, more, List.map_cons]
  | case6 t ts hangle hsign hpart hword =>
    rw [List.map_cons, typeSuffix, Token.text_moved, if_neg hangle, if_neg hsign, startsPart_moved,
      if_neg hpart, ← List.map_cons, continuesType_moved, if_neg hword]
    rfl

theorem typeHead_moved (ts : List Token) :
    typeHead (ts.map (Token.moved m)) = Reading.moved m (QualifiedName.moved m) (typeHead ts) := by
  rw [typeHead, typeHead, nextIs_moved, expect_moved, qualifiedName_moved]
  split
  · exact Reading.map_moved m (fun _ => by rfl) _
  · rfl

theorem typeName_moved (ts : List Token) :
    typeName (ts.map (Token.moved m)) = Reading.moved m (TypeName.moved m) (typeName ts) := by
  refine bind_moved m (typeHead_moved m ts) fun head rest => ?_
  rw [typeSuffix_moved]
  rfl

theorem signature_moved (ts : List Token) :
    signature (ts.map (Token.moved m)) =
      Reading.moved m (Option.map (List.map (Token.moved m))) (signature ts) := by
  rw [signature, signature, nextIs_moved, group_moved]
  split
  · exact Reading.map_moved m (fun _ => by rfl) _
  · rfl

theorem member_moved (ts : List Token) :
    member (ts.map (Token.moved m)) = Reading.moved m (Member.moved m) (member ts) := by
  refine bind_moved m (attributeSequences_moved m ts) fun attributes afterAttributes => ?_
  refine bind_moved m (typeName_moved m afterAttributes) fun type afterType => ?_
  refine bind_moved m (identifier_moved m afterType) fun name afterName => ?_
  exact bind_moved m (signature_moved m afterName) fun _ _ => rfl

theorem skipColon_moved (ts : List Token) :
    skipColon (ts.map (Token.moved m)) = (skipColon ts).map (Token.moved m) := by
  rw [skipColon, skipColon, nextIs_moved, ← List.map_tail]
  split <;> rfl

theorem members_moved (inner : Nat) (ts : List Token) :
    members inner (ts.map (Token.moved m)) =
      Reading.moved m (List.map (Member.moved m)) (members inner ts) := by
  fun_induction members inner ts with
  | case1 => rw [List.map_nil, members]; rfl
  | case2 inner t ts hopen ih =>
    rw [List.map_cons, members_cons, Token.kind_moved, if_pos hopen, ih]
  | case3 t ts hopen hclose =>
    rw [List.map_cons, members_cons, Token.kind_moved, if_neg hopen, if_pos hclose]
    rfl
  | case4 t ts hopen hclose inner ih =>
    rw [List.map_cons, members_cons, Token.kind_moved, if_neg hopen, if_pos hclose]
    exact ih
  | case5 inner t ts hopen hclose haccess ih =>
    rw [List.map_cons, members_cons, Token.kind_moved, if_neg hopen, if_neg hclose,
      if_pos haccess, skipColon_moved, ih]
  | case6 inner t ts hopen hclose haccess hattribute e rest hread =>
    have hmoved := member_moved m (t :: ts)
    rw [hread, List.map_cons] at hmoved
    rw [List.map_cons, members_cons, Token.kind_moved, if_neg hopen, if_neg hclose,
      if_neg haccess, if_pos hattribute, hmoved]
    rfl
  | case7 inner t ts hopen hclose haccess hattribute member rest hread ih =>
    have hmoved := member_moved m (t :: ts)
    rw [hread, List.map_cons] at hmoved
    rw [List.map_cons, members_cons, Token.kind_moved, if_neg hopen, if_neg hclose,
      if_neg haccess, if_pos hattribute, hmoved]
    simp only [Reading.moved_ok, ih]
    exact Reading.map_moved m (fun _ => by rfl) _
  | case8 inner t ts hopen hclose haccess hattribute ih =>
    rw [List.map_cons, members_cons, Token.kind_moved, if_neg hopen, if_neg hclose,
      if_neg haccess, if_neg hattribute, ih]

/-! ## Classes -/

theorem classBody_moved (ts : List Token) :
    classBody (ts.map (Token.moved m)) =
      Reading.moved m (List.map (Member.moved m)) (classBody ts) := by
  fun_induction classBody ts with
  | case1 => rfl
  | case2 t ts hopen =>
    rw [List.map_cons, classBody, Token.kind_moved, if_pos hopen, members_moved]
  | case3 t ts hopen hsemicolon =>
    rw [List.map_cons, classBody, Token.kind_moved, if_neg hopen, if_pos hsemicolon]
    rfl
  | case4 t ts hopen hsemicolon ih =>
    rw [List.map_cons, classBody, Token.kind_moved, if_neg hopen, if_neg hsemicolon, ih]

theorem skipAccess_moved (ts : List Token) :
    skipAccess (ts.map (Token.moved m)) = (skipAccess ts).map (Token.moved m) := by
  rw [skipAccess, skipAccess, List.dropWhile_map]
  rfl

theorem skipAngles_moved (ts : List Token) :
    skipAngles (ts.map (Token.moved m)) = (skipAngles ts).map (Token.moved m) := by
  rw [skipAngles, skipAngles, nextReads_moved, splitAngles_moved]
  split <;> rfl

theorem bases_moved (ts : List Token) :
    bases (ts.map (Token.moved m)) =
      Reading.moved m (List.map (QualifiedName.moved m)) (bases ts) := by
  fun_induction bases ts with
  | case1 ts e rest hread =>
    rw [bases_eq, skipAccess_moved, qualifiedName_moved, hread]
    rfl
  | case2 ts name rest hread hcomma ih =>
    rw [bases_eq, skipAccess_moved, qualifiedName_moved, hread]
    simp only [Reading.moved_ok, skipAngles_moved, nextIs_moved, if_pos hcomma, ← List.map_tail, ih]
    exact Reading.map_moved m (fun _ => by rfl) _
  | case3 ts name rest hread hcomma =>
    rw [bases_eq, skipAccess_moved, qualifiedName_moved, hread]
    simp only [Reading.moved_ok, skipAngles_moved, nextIs_moved, if_neg hcomma]
    rfl

theorem baseClause_moved (ts : List Token) :
    baseClause (ts.map (Token.moved m)) =
      Reading.moved m (List.map (QualifiedName.moved m)) (baseClause ts) := by
  rw [baseClause, baseClause, nextIs_moved, ← List.map_tail, nextIs_moved, bases_moved]
  split <;> rfl

theorem classRest_moved (keyword : Token) (attributes : List AttributeSequence) (ts : List Token) :
    classRest (keyword.moved m) (attributes.map (AttributeSequence.moved m))
        (ts.map (Token.moved m)) =
      Reading.moved m (Option.map (ClassDeclaration.moved m))
        (classRest keyword attributes ts) := by
  rw [classRest, classRest, nextIs_moved, classBody_moved]
  split
  · refine bind_moved m (qualifiedName_moved m ts) fun name afterName => ?_
    refine bind_moved m (baseClause_moved m afterName) fun names afterBases => ?_
    exact bind_moved m (classBody_moved m afterBases) fun _ _ => rfl
  · exact Reading.map_moved m (fun _ => by rfl) _

theorem classDeclaration_moved (keyword : Token) (ts : List Token) :
    classDeclaration (keyword.moved m) (ts.map (Token.moved m)) =
      Reading.moved m (Option.map (ClassDeclaration.moved m)) (classDeclaration keyword ts) :=
  bind_moved m (attributeSequences_moved m ts) fun attributes rest =>
    classRest_moved m keyword attributes rest

end Parser

end HeaderReflection
