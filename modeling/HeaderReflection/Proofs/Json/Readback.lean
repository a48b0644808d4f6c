import HeaderReflection.Json.Reader
import HeaderReflection.Json.Writer

/-!
# Written values are read back

A text in quotes is read back whatever its characters are, since each of them is written as itself
or as an escape that stands for it (`Json.CutsInto.quote`). A value made of texts, arrays and
objects is written as its signs with line ends and blanks between them (`Json.Textual.cutsInto`),
and these signs are put together to the value (`Json.Textual.putTogether`). So the value is read
back (`Json.Textual.read_write`).
-/

namespace HeaderReflection.Json

/-! ## Texts -/

/-- The number that two hexadecimal digits write. -/
theorem hexUnit?_hexDigit {n : Nat} (h : n < 0x20) :
    hexUnit? '0' '0' (hexDigit (n / 16)) (hexDigit (n % 16)) = some n := by
  revert n
  decide

/-- **A written character is read back**, whatever follows it in the string. -/
theorem stringUnits_escapeChar (c : Char) (cs : List Char) :
    stringUnits (escapeChar c ++ cs) =
      (stringUnits cs).map fun p => (c.toNat :: p.1, p.2) := by
  unfold escapeChar
  -- Seven characters have an escape of one letter.
  iterate 7
    split
    next h => subst h; rfl
  split
  next hcontrol =>
    show stringUnits ('\\' :: 'u' :: '0' :: '0' :: _ :: _ :: cs) = _
    rw [stringUnits, hexUnit?_hexDigit hcontrol]
    rfl
  next hquote hescape _ _ _ _ _ hcontrol =>
    show stringUnits (c :: cs) = _
    rw [stringUnits]
    · simp [hcontrol, hescape]
    all_goals simp_all

/-- A written text is read up to its closing quote. -/
theorem stringUnits_flatMap (text rest : List Char) :
    stringUnits (text.flatMap escapeChar ++ '"' :: rest) = some (text.map Char.toNat, rest) := by
  induction text with
  | nil => rfl
  | cons c text ih =>
    rw [List.flatMap_cons, List.append_assoc, stringUnits_escapeChar, ih]
    rfl

/-- No character is half of a pair of code units. -/
theorem not_surrogate (c : Char) : c.toNat < 0xD800 ∨ 0xE000 ≤ c.toNat := by
  rcases c.valid with hlow | hhigh
  · exact .inl hlow
  · exact .inr hhigh.1

/-- The code points of characters are the characters again. -/
theorem unitsText_toNat (text : List Char) : unitsText (text.map Char.toNat) = some text := by
  induction text with
  | nil => rfl
  | cons c text ih =>
    have hc := not_surrogate c
    cases text with
    | nil =>
      rw [List.map_singleton, unitsText, if_neg (by omega), Char.ofNat_toNat]
    | cons d text =>
      rw [List.map_cons, List.map_cons, unitsText, if_neg (by omega), if_neg (by omega),
        ← List.map_cons, ih, Char.ofNat_toNat]
      rfl

/-! ## Signs -/

theorem signs_cons (c : Char) (cs : List Char) :
    signs (c :: cs) =
      if isBlank c then signs cs
      else (cutSign c cs).bind fun p => (signs p.2).map (p.1 :: ·) := by
  rw [signs]
  split
  · rfl
  · split <;> simp [*]

/-- The text is cut into these signs, whatever comes after it. -/
def CutsInto (text : String) (ss : List Sign) : Prop :=
  ∀ cs, signs (text.toList ++ cs) = (signs cs).map (ss ++ ·)

theorem CutsInto.nothing : CutsInto "" [] := by
  intro cs
  exact Option.map_id'.symm

theorem CutsInto.append {first second : String} {ss more : List Sign} (h : CutsInto first ss)
    (hmore : CutsInto second more) : CutsInto (first ++ second) (ss ++ more) := by
  intro cs
  rw [String.toList_append, List.append_assoc, h, hmore, Option.map_map]
  exact congrArg (Option.map · _) (funext fun rest => (List.append_assoc ss more rest).symm)

/-- Blanks are left out. -/
theorem CutsInto.blanks (text : List Char) (h : ∀ c ∈ text, isBlank c = true) :
    CutsInto (.ofList text) [] := by
  intro cs
  rw [String.toList_ofList]
  refine Eq.trans ?_ Option.map_id'.symm
  induction text with
  | nil => rfl
  | cons c text ih =>
    obtain ⟨hc, hmore⟩ := List.forall_mem_cons.1 h
    rw [List.cons_append, signs_cons, if_pos hc, ih hmore]

theorem CutsInto.newLine (level : Nat) : CutsInto (newLine level) [] := by
  have hline : CutsInto "\n" [] := .blanks ['\n'] (List.forall_mem_singleton.2 rfl)
  exact hline.append (.blanks _ fun c hc => by rw [List.eq_of_mem_replicate hc]; rfl)

/-- A character that is a sign of its own. -/
theorem CutsInto.sign {c : Char} {s : Sign} (hblank : isBlank c = false)
    (hcut : ∀ cs, cutSign c cs = some (s, cs)) : CutsInto (.ofList [c]) [s] := by
  intro cs
  rw [String.toList_ofList, List.singleton_append, signs_cons, hblank, hcut]
  rfl

theorem CutsInto.comma : CutsInto "," [.comma] := .sign (c := ',') rfl fun _ => rfl

theorem CutsInto.colon : CutsInto ": " [.colon] :=
  (CutsInto.sign (c := ':') rfl fun _ => rfl).append
    (.blanks [' '] (List.forall_mem_singleton.2 rfl))

/-- **A text in quotes is one sign**, and stands for the text. -/
theorem CutsInto.quote (text : String) : CutsInto (quote text) [.scalar (ofString text)] := by
  intro cs
  have hcut : cutSign '"' (text.toList.flatMap escapeChar ++ '"' :: cs) =
      some (.scalar (ofString text), cs) := by
    show (stringUnits _).map _ = _
    rw [stringUnits_flatMap, Option.map_some, unitsText_toNat, Option.map_some,
      String.ofList_toList]
    rfl
  rw [Json.quote, String.toList_ofList, List.cons_append, List.cons_append, List.append_assoc,
    signs_cons, if_neg (by decide), List.singleton_append, hcut]
  rfl

/-! ## Values -/

/-- The value is made of texts, arrays and objects, and the names in it are texts. -/
inductive Textual : Json → Prop
  | text (text : String) : Textual (ofString text)
  | array {items : List Json} (h : ∀ v ∈ items, Textual v) : Textual (.array items)
  | object {members : List (String × Json)} (h : ∀ m ∈ members, Textual m.2) :
      Textual (ofMembers members)

mutual

/-- The signs of a value. -/
def signsOf : Json → List Sign
  | .array [] => [.openArray, .closeArray]
  | .array (item :: items) =>
    .openArray :: (item.signsOf ++ (signsOfItems items ++ [.closeArray]))
  | .object [] => [.openObject, .closeObject]
  | .object ((name, value) :: members) =>
    .openObject :: .scalar (.string name) :: .colon ::
      (value.signsOf ++ (signsOfMembers members ++ [.closeObject]))
  | value => [.scalar value]

/-- The signs of the items of an array after its first. -/
def signsOfItems : List Json → List Sign
  | [] => []
  | item :: items => .comma :: (item.signsOf ++ signsOfItems items)

/-- The signs of the members of an object after its first. -/
def signsOfMembers : List (JsonText × Json) → List Sign
  | [] => []
  | (name, value) :: members =>
    .comma :: .scalar (.string name) :: .colon :: (value.signsOf ++ signsOfMembers members)

end

theorem cutsInto_prettyItems {items : List Json}
    (h : ∀ v ∈ items, ∀ level, CutsInto (v.pretty level) v.signsOf) (level : Nat) :
    CutsInto (prettyItems level items) (signsOfItems items) := by
  induction items with
  | nil => exact .nothing
  | cons v items ih =>
    obtain ⟨hv, hitems⟩ := List.forall_mem_cons.1 h
    exact ((CutsInto.comma.append (.newLine level)).append (hv level)).append (ih hitems)

theorem cutsInto_prettyMembers {members : List (String × Json)}
    (h : ∀ m ∈ members, ∀ level, CutsInto (m.2.pretty level) m.2.signsOf) (level : Nat) :
    CutsInto (prettyMembers level (members.map fun m => (some m.1, m.2)))
      (signsOfMembers (members.map fun m => (some m.1, m.2))) := by
  induction members with
  | nil => exact .nothing
  | cons m members ih =>
    obtain ⟨hm, hmembers⟩ := List.forall_mem_cons.1 h
    exact ((((CutsInto.comma.append (.newLine level)).append (.quote m.1)).append .colon).append
      (hm level)).append (ih hmembers)

/-- **A written value is cut into its signs.** -/
theorem Textual.cutsInto {value : Json} (h : Textual value) :
    ∀ level, CutsInto (value.pretty level) value.signsOf := by
  induction h with
  | text text => exact fun level => .quote text
  | @array items _ ih =>
    intro level
    have hopen : CutsInto "[" [.openArray] := .sign (c := '[') rfl fun _ => rfl
    have hclose : CutsInto "]" [.closeArray] := .sign (c := ']') rfl fun _ => rfl
    cases items with
    | nil =>
      have hall := hopen.append hclose
      exact hall
    | cons item items =>
      obtain ⟨hitem, hitems⟩ := List.forall_mem_cons.1 ih
      have hall := ((((hopen.append (.newLine (level + 1))).append (hitem (level + 1))).append
        (cutsInto_prettyItems hitems (level + 1))).append (.newLine level)).append hclose
      simp only [List.append_assoc, List.nil_append, List.cons_append] at hall
      exact hall
  | @object members _ ih =>
    intro level
    have hopen : CutsInto "\x7b" [.openObject] := .sign (c := '\x7b') rfl fun _ => rfl
    have hclose : CutsInto "\x7d" [.closeObject] := .sign (c := '\x7d') rfl fun _ => rfl
    cases members with
    | nil =>
      have hall := hopen.append hclose
      exact hall
    | cons m members =>
      obtain ⟨hm, hmembers⟩ := List.forall_mem_cons.1 ih
      have hall := ((((((hopen.append (.newLine (level + 1))).append (.quote m.1)).append
        .colon).append (hm (level + 1))).append
        (cutsInto_prettyMembers hmembers (level + 1))).append (.newLine level)).append hclose
      simp only [List.append_assoc, List.nil_append, List.cons_append] at hall
      exact hall

/-! ## Putting signs together -/

/-- The signs of a value are put together to it, whatever is open and whatever signs come after. -/
def PutTogether (value : Json) : Prop :=
  ∀ open_ more, expectValue open_ (value.signsOf ++ more) = afterValue open_ value more

/-- No value starts with the end of an array. -/
theorem signsOf_eq_cons (value : Json) :
    ∃ s ss, value.signsOf = s :: ss ∧ s ≠ .closeArray := by
  fun_cases signsOf value <;> exact ⟨_, _, rfl, nofun⟩

/-- An array that does not end at once has a first item. -/
theorem expectValue_openArray (open_ : List Frame) (value : Json) (more : List Sign) :
    expectValue open_ (.openArray :: (value.signsOf ++ more)) =
      expectValue (.array [] :: open_) (value.signsOf ++ more) := by
  obtain ⟨s, ss, hs, hne⟩ := signsOf_eq_cons value
  rw [hs, List.cons_append, expectValue]
  exact fun _ h => hne (List.cons.inj h).1

theorem afterValue_items {items : List Json} (h : ∀ v ∈ items, PutTogether v)
    (open_ : List Frame) (before : List Json) (value : Json) (more : List Sign) :
    afterValue (.array before :: open_) value (signsOfItems items ++ .closeArray :: more) =
      afterValue open_ (.array (before ++ value :: items)) more := by
  induction items generalizing before value with
  | nil => rw [signsOfItems, List.nil_append, afterValue]
  | cons v items ih =>
    obtain ⟨hv, hitems⟩ := List.forall_mem_cons.1 h
    rw [signsOfItems, List.cons_append, List.append_assoc, afterValue, hv, ih hitems,
      List.append_assoc]
    rfl

theorem afterValue_members {members : List (JsonText × Json)}
    (h : ∀ m ∈ members, PutTogether m.2) (open_ : List Frame)
    (before : List (JsonText × Json)) (name : JsonText) (value : Json) (more : List Sign) :
    afterValue (.object before name :: open_) value
        (signsOfMembers members ++ .closeObject :: more) =
      afterValue open_ (.object (before ++ (name, value) :: members)) more := by
  induction members generalizing before name value with
  | nil => rw [signsOfMembers, List.nil_append, afterValue]
  | cons m members ih =>
    obtain ⟨next, v⟩ := m
    obtain ⟨hv, hmembers⟩ := List.forall_mem_cons.1 h
    rw [signsOfMembers, List.cons_append, List.cons_append, List.cons_append, List.append_assoc,
      afterValue, hv, ih hmembers, List.append_assoc]
    rfl

/-- **The signs of a value are put together to the value.** -/
theorem Textual.putTogether {value : Json} (h : Textual value) : PutTogether value := by
  induction h with
  | text text =>
    intro open_ more
    show expectValue open_ (.scalar (ofString text) :: more) = _
    rw [expectValue]
  | @array items _ ih =>
    intro open_ more
    cases items with
    | nil =>
      show expectValue open_ (.openArray :: .closeArray :: more) = _
      rw [expectValue]
    | cons item items =>
      obtain ⟨hitem, hitems⟩ := List.forall_mem_cons.1 ih
      rw [signsOf, List.cons_append, List.append_assoc, expectValue_openArray, hitem,
        List.append_assoc, List.singleton_append, afterValue_items hitems, List.nil_append]
  | @object members _ ih =>
    intro open_ more
    cases members with
    | nil =>
      show expectValue open_ (.openObject :: .closeObject :: more) = _
      rw [expectValue]
      rfl
    | cons m members =>
      obtain ⟨hm, hmembers⟩ := List.forall_mem_cons.1 ih
      rw [ofMembers, List.map_cons, signsOf, List.cons_append, List.cons_append,
        List.cons_append, List.append_assoc, expectValue, hm, List.append_assoc,
        List.singleton_append, afterValue_members (List.forall_mem_map.2 hmembers),
        List.nil_append]

/-! ## Reading what is written -/

/-- **A written value is read back**, also with blanks after it. -/
theorem Textual.read_write {value : Json} (h : Textual value) (blanks : List Char)
    (hblanks : ∀ c ∈ blanks, isBlank c = true) :
    read (value.write ++ .ofList blanks) = some value := by
  have hcut := (h.cutsInto 0).append (.blanks blanks hblanks) []
  have hput := h.putTogether [] []
  rw [List.append_nil, List.append_nil] at hcut
  rw [List.append_nil] at hput
  rw [read, Json.write, hcut, signs, Option.map_some, List.append_nil, Option.bind_some, hput,
    afterValue]

end HeaderReflection.Json
