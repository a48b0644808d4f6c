import HeaderReflection.Proofs.Grammar.Failing

/-!
# The loops of the reader, turn by turn

The readers of the grammar are recursive. Here each of them is told as a loop: a turn looks at the
next tokens, and either ends the loop or goes on with the items that it gathered, a counter and the
tokens that are left. A loop computes its reader (`Loop.Computes`) when every turn that goes on
takes at least a token and the turns together give what the reader gives.

The loop over a class body counts braces down without a look at the count. It starts at an opening
brace and ends as soon as the count is zero, so the count never falls below that
(`Parser.bodyLoop_depth`).
-/

namespace HeaderReflection

/-- What one turn of a loop does. -/
inductive Turn (κ α : Type)
  /-- The loop ends, with this after all items gathered before. -/
  | done (result : Reading (List α))
  /-- The loop goes on with more items, a counter and the tokens that are left. -/
  | cont (items : List α) (counter : κ) (left : List Token)

/-- A loop: what a turn does at a counter and the tokens that are left. -/
abbrev Loop (κ α : Type) := κ → List Token → Turn κ α

namespace Turn

variable {κ α β : Type}

/-- A turn that first reads something: the loop ends where that cannot be read. -/
def afterReading (r : Reading β) (turn : β → List Token → Turn κ α) : Turn κ α :=
  match r with
  | .error e rest => .done (.error e rest)
  | .ok b rest => turn b rest

theorem afterReading_eq_cont {r : Reading β} {turn : β → List Token → Turn κ α} {items : List α}
    {counter : κ} {left : List Token} (h : afterReading r turn = .cont items counter left) :
    ∃ b rest, r = .ok b rest ∧ turn b rest = .cont items counter left := by
  cases r with
  | ok b rest => exact ⟨b, rest, rfl, h⟩
  | error e rest => cases h

end Turn

namespace Loop

variable {κ α : Type}

/-- A turn leads from one counter and list of tokens to the next. -/
def Next (loop : Loop κ α) (s t : κ × List Token) : Prop :=
  ∃ items, loop s.1 s.2 = .cont items t.1 t.2

/-- What the loop gives when it is started. -/
inductive Gives (loop : Loop κ α) : κ → List Token → Reading (List α) → Prop
  | done {counter : κ} {ts : List Token} {r : Reading (List α)}
      (h : loop counter ts = .done r) : Gives loop counter ts r
  | cont {counter next : κ} {ts left : List Token} {items : List α} {r : Reading (List α)}
      (h : loop counter ts = .cont items next left) (hrest : Gives loop next left r) :
      Gives loop counter ts (Reading.map (items ++ ·) r)

/-- Every turn that goes on takes at least a token. -/
def Consumes (loop : Loop κ α) : Prop :=
  ∀ counter ts items next left, loop counter ts = .cont items next left → left.length < ts.length

/-- What a reader gives that goes on like a turn. -/
def follow (read : κ → List Token → Reading (List α)) : Turn κ α → Reading (List α)
  | .done r => r
  | .cont items counter left => Reading.map (items ++ ·) (read counter left)

/-- A loop that takes tokens gives what a reader gives that goes on like its turns, as long as an
invariant holds of the counter. The induction is on the tokens that are left. -/
theorem gives_of_follow {loop : Loop κ α} {read : κ → List Token → Reading (List α)}
    (inv : κ → Prop) (hconsumes : loop.Consumes)
    (hinv : ∀ s t, inv s.1 → loop.Next s t → inv t.1)
    (hread : ∀ counter ts, inv counter → read counter ts = follow read (loop counter ts))
    (counter : κ) (ts : List Token) (h : inv counter) :
    loop.Gives counter ts (read counter ts) := by
  rw [hread counter ts h]
  cases hturn : loop counter ts with
  | done r => exact .done hturn
  | cont items next left =>
    have := hconsumes _ _ _ _ _ hturn
    have hnext := hinv (counter, ts) (next, left) h ⟨items, hturn⟩
    exact .cont hturn (gives_of_follow inv hconsumes hinv hread next left hnext)
termination_by ts.length

/-- The loop takes tokens in every turn, and from any tokens on it gives what a reader gives. -/
structure Computes (loop : Loop Unit α) (read : List Token → Reading (List α)) : Prop where
  consumes : loop.Consumes
  gives : ∀ ts, loop.Gives () ts (read ts)

theorem computes_of_follow {loop : Loop Unit α} {read : List Token → Reading (List α)}
    (hconsumes : loop.Consumes)
    (hread : ∀ ts, read ts = follow (fun _ => read) (loop () ts)) : loop.Computes read where
  consumes := hconsumes
  gives ts := gives_of_follow (fun _ => True) hconsumes (fun _ _ _ _ => trivial)
    (fun _ ts _ => hread ts) () ts trivial

end Loop

@[simp] theorem Reading.map_nil_append {α : Type} (r : Reading (List α)) :
    Reading.map ([] ++ ·) r = r := by
  cases r <;> rfl

namespace Parser

/-! ## Names and attributes -/

/-- The loop over the parts of a name after the first one. -/
def partLoop : Loop Unit Literal := fun _ ts =>
  .afterReading (nextPart ts) fun part rest =>
    match part with
    | none => .done (.ok [] rest)
    | some part => .cont [part] () rest

theorem partLoop_computes : partLoop.Computes furtherParts := by
  refine Loop.computes_of_follow ?_ ?_
  · intro _ ts items _ left hturn
    obtain ⟨part, rest, hread, hturn⟩ := Turn.afterReading_eq_cont hturn
    cases part with
    | none => cases hturn
    | some part =>
      cases hturn
      exact length_nextPart hread
  · intro ts
    rw [furtherParts_eq, partLoop]
    cases nextPart ts with
    | error e rest => rfl
    | ok part rest => cases part <;> rfl

/-- The loop over the parameters of an attribute. -/
def paramLoop : Loop Unit Literal := fun _ ts =>
  match ts with
  | [] => .done (.error (.unexpectedEnd .identifier) [])
  | t :: ts =>
    if t.kind = .closeParen then .done (.ok [] ts)
    else
      match LiteralKind.of? t.kind with
      | none => .done (.error (.notLiteral t) (t :: ts))
      | some kind => .cont [⟨t, kind⟩] () (skipComma ts)

theorem paramLoop_computes : paramLoop.Computes furtherParams := by
  refine Loop.computes_of_follow ?_ ?_
  · intro _ ts items _ left hturn
    cases ts with
    | nil => cases hturn
    | cons t ts =>
      have hle := length_skipComma_le ts
      simp only [paramLoop] at hturn
      split at hturn
      · cases hturn
      split at hturn
      · cases hturn
      · cases hturn
        rw [List.length_cons]
        omega
  · intro ts
    rw [furtherParams.eq_def]
    cases ts with
    | nil => rfl
    | cons t ts =>
      simp only [paramLoop]
      split
      · rfl
      · split <;> simp [Loop.follow, *]

/-- The attributes of a group after the first one. -/
def furtherAttributes (ts : List Token) : Reading (List Attribute) :=
  if nextIs .attributeClose (skipComma ts) || (skipComma ts).isEmpty then .ok [] (skipComma ts)
  else attributes (skipComma ts)

theorem attributes_eq_furtherAttributes (ts : List Token) :
    attributes ts =
      match oneAttribute ts with
      | .error e rest => .error e rest
      | .ok a rest => Reading.map (a :: ·) (furtherAttributes rest) := by
  rw [attributes_eq]
  cases oneAttribute ts with
  | error e rest => rfl
  | ok a rest =>
    simp only [furtherAttributes]
    split <;> rfl

/-- The loop over the attributes of a group after the first one. -/
def attributeLoop : Loop Unit Attribute := fun _ ts =>
  if nextIs .attributeClose (skipComma ts) || (skipComma ts).isEmpty then
    .done (.ok [] (skipComma ts))
  else .afterReading (oneAttribute (skipComma ts)) fun a rest => .cont [a] () rest

theorem attributeLoop_computes : attributeLoop.Computes furtherAttributes := by
  refine Loop.computes_of_follow ?_ ?_
  · intro _ ts items _ left hturn
    simp only [attributeLoop] at hturn
    split at hturn
    · cases hturn
    · obtain ⟨a, rest, hread, hturn⟩ := Turn.afterReading_eq_cont hturn
      cases hturn
      exact Nat.lt_of_lt_of_le (length_oneAttribute hread) (length_skipComma_le ts)
  · intro ts
    rw [furtherAttributes, attributeLoop]
    split
    · rfl
    · rw [attributes_eq_furtherAttributes]
      cases oneAttribute (skipComma ts) <;> rfl

/-- The loop over the groups of attributes before a declaration. -/
def sequenceLoop : Loop Unit AttributeSequence := fun _ ts =>
  if nextIs .attributeOpen ts then
    .afterReading (attributeSequence ts) fun group rest => .cont [group] () rest
  else .done (.ok [] ts)

theorem sequenceLoop_computes : sequenceLoop.Computes attributeSequences := by
  refine Loop.computes_of_follow ?_ ?_
  · intro _ ts items _ left hturn
    simp only [sequenceLoop] at hturn
    split at hturn
    · obtain ⟨group, rest, hread, hturn⟩ := Turn.afterReading_eq_cont hturn
      cases hturn
      exact length_attributeSequence hread
    · cases hturn
  · intro ts
    rw [attributeSequences_eq, sequenceLoop]
    split
    · cases attributeSequence ts <;> rfl
    · rfl

/-! ## Groups and skipping -/

/-- The loop over a bracketed group. The counter is the number of brackets that are open, and
`missing` is what the loop gives when the tokens end before the group does. -/
def groupLoop (opens closes : Token → Bool) (missing : Reading (List Token)) : Loop Nat Token :=
  fun depth ts =>
    match ts with
    | [] => .done missing
    | t :: ts =>
      match if opens t then depth + 1 else if closes t then depth - 1 else depth with
      | 0 => .done (.ok [t] ts)
      | deeper + 1 => .cont [t] (deeper + 1) ts

theorem groupLoop_consumes (opens closes : Token → Bool) (missing : Reading (List Token)) :
    (groupLoop opens closes missing).Consumes := by
  intro depth ts items next left hturn
  cases ts with
  | nil => cases hturn
  | cons t ts =>
    simp only [groupLoop] at hturn
    split at hturn
    · cases hturn
    · cases hturn
      exact Nat.lt_succ_self _

/-- What a group is read as, when the reading starts inside of it. -/
def groupFrom (opens closes : Token → Bool) (missing : Reading (List Token)) (depth : Nat)
    (ts : List Token) : Reading (List Token) :=
  match splitGroup opens closes depth ts with
  | some p => .ok p.1 p.2
  | none => Reading.map (ts ++ ·) missing

theorem groupLoop_gives (opens closes : Token → Bool) (missing : Reading (List Token))
    (depth : Nat) (ts : List Token) :
    (groupLoop opens closes missing).Gives depth ts
      (groupFrom opens closes missing depth ts) := by
  refine Loop.gives_of_follow (fun _ => True) (groupLoop_consumes opens closes missing)
    (fun _ _ _ _ => trivial) ?_ depth ts trivial
  rintro depth ts -
  cases ts with
  | nil => exact Reading.map_nil_append missing
  | cons t ts =>
    simp only [groupFrom, splitGroup, groupLoop]
    cases if opens t then depth + 1 else if closes t then depth - 1 else depth with
    | zero => rfl
    | succ deeper =>
      simp only [Loop.follow, groupFrom]
      cases splitGroup opens closes (deeper + 1) ts with
      | none => cases missing <;> rfl
      | some p => rfl

/-- The loop that skips a statement. -/
def statementLoop : Loop Unit Token := fun _ ts =>
  match ts with
  | [] => .done (.ok [] [])
  | t :: ts => if t.kind = .semicolon then .done (.ok [] ts) else .cont [] () ts

theorem statementLoop_computes : statementLoop.Computes fun ts => .ok [] (skipStatement ts) := by
  refine Loop.computes_of_follow ?_ ?_
  · intro _ ts items _ left hturn
    cases ts with
    | nil => cases hturn
    | cons t ts =>
      simp only [statementLoop] at hturn
      split at hturn
      · cases hturn
      · cases hturn
        exact Nat.lt_succ_self _
  · intro ts
    cases ts with
    | nil => rfl
    | cons t ts =>
      by_cases hkind : t.kind = .semicolon
      · simp [statementLoop, skipStatement, Loop.follow, hkind]
      · simp [statementLoop, skipStatement, Loop.follow, hkind]

/-! ## Classes -/

/-- The loop over the keywords before a base. -/
def accessLoop : Loop Unit Token := fun _ ts =>
  match ts with
  | [] => .done (.ok [] [])
  | t :: ts =>
    if t.kind.isAccess || t.text = "virtual" then .cont [] () ts else .done (.ok [] (t :: ts))

theorem accessLoop_computes : accessLoop.Computes fun ts => .ok [] (skipAccess ts) := by
  refine Loop.computes_of_follow ?_ ?_
  · intro _ ts items _ left hturn
    cases ts with
    | nil => cases hturn
    | cons t ts =>
      simp only [accessLoop] at hturn
      split at hturn
      · cases hturn
        exact Nat.lt_succ_self _
      · cases hturn
  · intro ts
    cases ts with
    | nil => rfl
    | cons t ts =>
      simp only [accessLoop, skipAccess, List.dropWhile_cons]
      split <;> rfl

/-- The loop over the bases of a class. -/
def baseLoop : Loop Unit QualifiedName := fun _ ts =>
  .afterReading (qualifiedName (skipAccess ts)) fun name rest =>
    if nextIs .comma (skipAngles rest) then .cont [name] () (skipAngles rest).tail
    else .done (.ok [name] (skipAngles rest))

theorem baseLoop_computes : baseLoop.Computes bases := by
  refine Loop.computes_of_follow ?_ ?_
  · intro _ ts items _ left hturn
    obtain ⟨name, rest, hread, hturn⟩ := Turn.afterReading_eq_cont hturn
    split at hturn
    · cases hturn
      have := length_qualifiedName hread
      have := length_skipAccess_le ts
      have := length_skipAngles_le rest
      rw [List.length_tail]
      omega
    · cases hturn
  · intro ts
    rw [bases_eq, baseLoop]
    cases qualifiedName (skipAccess ts) with
    | error e rest => rfl
    | ok name rest =>
      simp only [Turn.afterReading]
      split <;> rfl

/-- The loop over what belongs to a type after its leading name. -/
def suffixLoop : Loop Unit Token := fun _ ts =>
  if nextReads "<" ts then .cont (splitAngles ts).1 () (splitAngles ts).2
  else if nextReads "*" ts || nextReads "&" ts then .cont (ts.take 1) () ts.tail
  else if startsScope ts && nextIs .identifier (ts.drop 2) then .cont (ts.take 3) () (ts.drop 3)
  else if continuesType ts then .cont (ts.take 1) () ts.tail
  else .done (.ok [] ts)

theorem suffixLoop_computes :
    suffixLoop.Computes fun ts => .ok (typeSuffix ts).1 (typeSuffix ts).2 := by
  refine Loop.computes_of_follow ?_ ?_
  · intro _ ts items _ left hturn
    cases ts with
    | nil => cases hturn
    | cons t ts =>
      simp only [suffixLoop] at hturn
      split at hturn
      · cases hturn
        exact length_splitAngles (List.cons_ne_nil t ts)
      split at hturn
      · cases hturn
        exact Nat.lt_succ_self _
      split at hturn
      · cases hturn
        simp only [List.length_drop, List.length_cons]
        omega
      split at hturn
      · cases hturn
        exact Nat.lt_succ_self _
      · cases hturn
  · intro ts
    rw [typeSuffix.eq_def]
    cases ts with
    | nil => rfl
    | cons t ts =>
      simp only [suffixLoop, nextReads_cons, Bool.or_eq_true, decide_eq_true_eq,
        List.drop_succ_cons]
      split
      · rfl
      split
      · rfl
      split
      · rfl
      split
      · rfl
      · rfl

/-- The loop over what stands before the body of a class. -/
def headLoop : Loop Unit Member := fun _ ts =>
  match ts with
  | [] => .done (.error (.unexpectedEnd .openBrace) [])
  | t :: ts =>
    if t.kind = .openBrace then .done (members 0 ts)
    else if t.kind = .semicolon then .done (.ok [] ts)
    else .cont [] () ts

theorem headLoop_computes : headLoop.Computes classBody := by
  refine Loop.computes_of_follow ?_ ?_
  · intro _ ts items _ left hturn
    cases ts with
    | nil => cases hturn
    | cons t ts =>
      simp only [headLoop] at hturn
      split at hturn
      · cases hturn
      split at hturn
      · cases hturn
      · cases hturn
        exact Nat.lt_succ_self _
  · intro ts
    cases ts with
    | nil => rfl
    | cons t ts =>
      simp only [headLoop, classBody]
      split
      · rfl
      split
      · rfl
      · exact (Reading.map_nil_append _).symm

/-- The loop over the body of a class. The counter is raised by every opening brace and lowered by
every closing one, whatever it was; the loop ends when it is zero after a turn. -/
def bodyLoop : Loop Int Member := fun depth ts =>
  match ts with
  | [] => .done (.error (.unexpectedEnd .closeBrace) [])
  | t :: ts =>
    if t.kind = .openBrace then goOn [] (depth + 1) ts
    else if t.kind = .closeBrace then goOn [] (depth - 1) ts
    else if t.kind.isAccess then goOn [] depth (skipColon ts)
    else if t.kind = .attributeOpen ∧ depth = 1 then
      .afterReading (member (t :: ts)) fun m rest => goOn [m] depth rest
    else goOn [] depth ts
where
  /-- The end of a turn. -/
  goOn (items : List Member) (depth : Int) (left : List Token) : Turn Int Member :=
    if depth = 0 then .done (.ok items left) else .cont items depth left

theorem goOn_eq_cont {items items' : List Member} {depth next : Int} {ts left : List Token}
    (h : bodyLoop.goOn items depth ts = .cont items' next left) :
    items = items' ∧ depth = next ∧ ts = left ∧ depth ≠ 0 := by
  unfold bodyLoop.goOn at h
  split at h
  next => cases h
  next hdepth =>
    cases h
    exact ⟨rfl, rfl, rfl, hdepth⟩

/-- What a turn over the body of a class may do: it changes the counter at braces alone, takes at
least a token, and goes on with a counter that is not zero. -/
theorem next_of_bodyLoop {depth next : Int} {ts left : List Token} {items : List Member}
    (h : bodyLoop depth ts = .cont items next left) :
    left.length < ts.length ∧ next ≠ 0 ∧
      next = depth + (if nextIs .openBrace ts then 1 else 0) -
        (if nextIs .closeBrace ts then 1 else 0) := by
  cases ts with
  | nil => cases h
  | cons t ts =>
    simp only [bodyLoop] at h
    split at h
    next hkind =>
      obtain ⟨-, rfl, rfl, hne⟩ := goOn_eq_cont h
      exact ⟨Nat.lt_succ_self _, hne, by simp [hkind]⟩
    next hopen =>
    split at h
    next hkind =>
      obtain ⟨-, rfl, rfl, hne⟩ := goOn_eq_cont h
      exact ⟨Nat.lt_succ_self _, hne, by simp [hkind]⟩
    next hclose =>
    have hsame : depth = depth + (if nextIs .openBrace (t :: ts) then 1 else 0) -
        (if nextIs .closeBrace (t :: ts) then 1 else 0) := by
      simp [hopen, hclose]
    split at h
    next =>
      obtain ⟨-, rfl, rfl, hne⟩ := goOn_eq_cont h
      exact ⟨Nat.lt_succ_of_le (length_skipColon_le ts), hne, hsame⟩
    next =>
    split at h
    next =>
      obtain ⟨m, rest, hread, h⟩ := Turn.afterReading_eq_cont h
      obtain ⟨-, rfl, rfl, hne⟩ := goOn_eq_cont h
      exact ⟨length_member hread, hne, hsame⟩
    next =>
      obtain ⟨-, rfl, rfl, hne⟩ := goOn_eq_cont h
      exact ⟨Nat.lt_succ_self _, hne, hsame⟩

theorem bodyLoop_consumes : bodyLoop.Consumes := fun _ _ _ _ _ hturn => (next_of_bodyLoop hturn).1

/-- A counter that is positive stays so, because it goes down by one at most and is not zero. -/
theorem bodyLoop_pos (s t : Int × List Token) (hs : 0 < s.1) (h : bodyLoop.Next s t) :
    0 < t.1 := by
  obtain ⟨items, hturn⟩ := h
  obtain ⟨-, hne, hnext⟩ := next_of_bodyLoop hturn
  split at hnext <;> split at hnext <;> omega

/-- The members that are left, where the counter is one more than the number of inner braces. -/
def membersAt (depth : Int) : List Token → Reading (List Member) := members (depth - 1).toNat

theorem membersAt_succ (inner : Nat) : membersAt (inner + 1) = members inner := by
  rw [membersAt, Int.add_sub_cancel, Int.toNat_natCast]

theorem follow_goOn (inner : Nat) (items : List Member) (ts : List Token) :
    Loop.follow membersAt (bodyLoop.goOn items (inner + 1) ts) =
      Reading.map (items ++ ·) (members inner ts) := by
  rw [bodyLoop.goOn, if_neg (by omega), Loop.follow, membersAt_succ]

/-- Inside a body, the members are read turn by turn. -/
theorem members_eq_follow (inner : Nat) (ts : List Token) :
    members inner ts = Loop.follow membersAt (bodyLoop (inner + 1) ts) := by
  cases ts with
  | nil =>
    rw [members]
    rfl
  | cons t ts =>
    rw [members_cons, bodyLoop]
    split
    · exact ((follow_goOn (inner + 1) [] ts).trans (Reading.map_nil_append _)).symm
    split
    · cases inner with
      | zero => rfl
      | succ inner =>
        have hdepth : ((inner + 1 : Nat) + 1 - 1 : Int) = inner + 1 := by omega
        rw [hdepth, follow_goOn, Reading.map_nil_append]
    split
    · rw [follow_goOn, Reading.map_nil_append]
    by_cases hopen : t.kind = .attributeOpen ∧ inner = 0
    · rw [if_pos hopen, if_pos ⟨hopen.1, by omega⟩]
      cases member (t :: ts) with
      | error e rest => rfl
      | ok m rest => rw [Turn.afterReading, follow_goOn, hopen.2]; rfl
    · rw [if_neg hopen, if_neg (fun h => hopen ⟨h.1, by omega⟩), follow_goOn,
        Reading.map_nil_append]

/-- The loop over the body of a class gives the members, when it starts at the opening brace. -/
theorem bodyLoop_gives {t : Token} (hkind : t.kind = .openBrace) (ts : List Token) :
    bodyLoop.Gives 0 (t :: ts) (members 0 ts) := by
  have hstart : bodyLoop 0 (t :: ts) = .cont [] 1 ts := by
    rw [bodyLoop, if_pos hkind]
    rfl
  have hrest : bodyLoop.Gives 1 ts (membersAt 1 ts) := by
    refine Loop.gives_of_follow (0 < ·) bodyLoop_consumes bodyLoop_pos ?_ 1 ts Int.one_pos
    intro depth ts hdepth
    obtain ⟨inner, rfl⟩ : ∃ inner : Nat, depth = inner + 1 := ⟨(depth - 1).toNat, by omega⟩
    rw [membersAt_succ]
    exact members_eq_follow inner ts
  have hgives := Loop.Gives.cont hstart hrest
  rwa [Reading.map_nil_append] at hgives

theorem bodyLoop_pos_of_run {s t : Int × List Token} (hs : 0 < s.1)
    (hrun : Relation.ReflTransGen bodyLoop.Next s t) : 0 < t.1 := by
  induction hrun with
  | refl => exact hs
  | tail _ hstep ih => exact bodyLoop_pos _ _ ih hstep

/-- **The counter of the loop over a class body never falls below zero.** It is not negative in any
turn, and it is positive where a closing brace is about to lower it. -/
theorem bodyLoop_depth {t : Token} {ts left : List Token} {depth : Int}
    (hkind : t.kind = .openBrace)
    (h : Relation.ReflTransGen bodyLoop.Next (0, t :: ts) (depth, left)) :
    0 ≤ depth ∧ (nextIs .closeBrace left = true → 0 < depth) := by
  cases h.cases_head with
  | inl hstart =>
    cases hstart
    exact ⟨Int.le_refl 0, fun hclose => by simp [hkind] at hclose⟩
  | inr hnext =>
    obtain ⟨⟨first, rest⟩, ⟨items, hturn⟩, hrun⟩ := hnext
    have hfirst : 0 < first := by
      obtain ⟨-, -, hcount⟩ := next_of_bodyLoop hturn
      simp [hkind] at hcount
      omega
    have hpos : 0 < depth := bodyLoop_pos_of_run hfirst hrun
    exact ⟨Int.le_of_lt hpos, fun _ => hpos⟩

/-! ## Directives -/

/-- The loop over what goes on with a directive on its line. -/
def directiveLoop (line : Nat) : Loop Unit Literal := fun _ ts =>
  match ts with
  | [] => .done (.ok [] [])
  | t :: ts =>
    if t.position.line = line then
      match LiteralKind.of? t.kind with
      | some .identifier => .cont [⟨t, .identifier⟩] () ts
      | some .string => .cont [⟨t, .string⟩] () ts
      | _ => .done (.ok [] (t :: ts))
    else .done (.ok [] (t :: ts))

theorem directiveLoop_computes (line : Nat) :
    (directiveLoop line).Computes fun ts =>
      .ok (directiveRest line ts).1 (directiveRest line ts).2 := by
  refine Loop.computes_of_follow ?_ ?_
  · intro _ ts items _ left hturn
    cases ts with
    | nil => cases hturn
    | cons t ts =>
      simp only [directiveLoop] at hturn
      split at hturn
      · split at hturn
        · cases hturn
          exact Nat.lt_succ_self _
        · cases hturn
          exact Nat.lt_succ_self _
        · cases hturn
      · cases hturn
  · intro ts
    cases ts with
    | nil => rfl
    | cons t ts =>
      simp only [directiveLoop, directiveRest]
      split
      · cases LiteralKind.of? t.kind with
        | none => rfl
        | some kind => cases kind <;> rfl
      · rfl

end Parser

end HeaderReflection
