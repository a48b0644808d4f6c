import HeaderReflection.Proofs.Json.Readback
import HeaderReflection.Run

/-!
# A dumped model is decoded to itself

Every part of a class is a text or a list of parts, so its JSON is textual and is read back. A
record whose names differ has its fields under their names (`Json.fields?_ofMembers`), and so each
part is decoded to itself, from the attributes up to the list of classes
(`Model.classesOfJson?_classesToJson`). Whatever is made of the decoded list is then made of the
list itself (`Model.dumped_classes_decode`). No part can be left out of a record
(`Model.parts_are_required`).
-/

namespace HeaderReflection

/-! ## Records -/

namespace Json

theorem mapM_map_eq_some {α β γ : Type} {f : α → β} {g : β → Option γ} {k : α → γ} {xs : List α}
    (h : ∀ x ∈ xs, g (f x) = some (k x)) : (xs.map f).mapM g = some (xs.map k) := by
  induction xs with
  | nil => rfl
  | cons x xs ih =>
    obtain ⟨hx, hxs⟩ := List.forall_mem_cons.1 h
    rw [List.map_cons, List.mapM_cons, hx, ih hxs]
    rfl

/-- Of members whose names differ, one has the name of a given one. -/
theorem filter_name_eq {members : List (String × Json)} (hnames : (members.map Prod.fst).Nodup)
    {m : String × Json} (hm : m ∈ members) :
    (members.map fun m => ((some m.1 : JsonText), m.2)).filter (·.1 = some m.1) =
      [(some m.1, m.2)] := by
  induction members with
  | nil => cases hm
  | cons other members ih =>
    obtain ⟨hother, hnames⟩ := List.nodup_cons.1 hnames
    rw [List.map_cons]
    rcases List.mem_cons.1 hm with rfl | hm
    · rw [List.filter_cons_of_pos (by simp), List.filter_eq_nil_iff.2]
      intro found hfound heq
      obtain ⟨m', hm', rfl⟩ := List.mem_map.1 hfound
      have hname : m'.1 = m.1 := by simpa using heq
      exact hother (hname ▸ List.mem_map_of_mem hm')
    · have hne : other.1 ≠ m.1 := fun heq => hother (heq ▸ List.mem_map_of_mem hm)
      rw [List.filter_cons_of_neg (by simpa using hne), ih hnames hm]

/-- **A record has its fields under their names**, if these differ. -/
theorem fields?_ofMembers {members : List (String × Json)} {names : List String}
    (heq : members.map Prod.fst = names) (hnames : names.Nodup) :
    (ofMembers members).fields? names = some (members.map fun m => some m.2) := by
  subst heq
  have htexts : (members.map fun m => ((some m.1 : JsonText), m.2)).all (·.1.isSome) = true := by
    simp
  rw [ofMembers, fields?, if_pos htexts]
  refine mapM_map_eq_some fun m hm => ?_
  rw [filter_name_eq hnames hm]

/-- A name under which an object has a field is the name of a member. -/
theorem exists_member_of_fields? {members : List (JsonText × Json)} {names : List String}
    (values : List Json) (h : (object members).fields? names = some (values.map some)) :
    ∀ name ∈ names, ∃ value, (some name, value) ∈ members := by
  rw [fields?, Option.ite_none_right_eq_some] at h
  obtain ⟨-, h⟩ := h
  induction names generalizing values with
  | nil => nofun
  | cons name names ih =>
    rw [List.mapM_cons] at h
    obtain ⟨first, hfirst, h⟩ := Option.bind_eq_some_iff.1 h
    obtain ⟨others, hothers, h⟩ := Option.bind_eq_some_iff.1 h
    cases values with
    | nil => cases h
    | cons value values =>
      cases h
      refine List.forall_mem_cons.2 ⟨?_, ih values hothers⟩
      split at hfirst <;> cases hfirst
      next m hm _ =>
        have hfound : m ∈ members.filter (·.1 = some name) := hm ▸ List.mem_singleton_self m
        obtain ⟨hmem, hname⟩ := List.mem_filter.1 hfound
        exact ⟨m.2, of_decide_eq_true hname ▸ hmem⟩

end Json

namespace Model

open Json (mapM_map_eq_some fields?_ofMembers exists_member_of_fields?)

/-! ## Decoding -/

/-- Parts that are decoded one by one are decoded all together. -/
theorem mapM_decode {Part : Type} {encode : Part → Json} {decode? : Json → Option Part}
    (h : ∀ part, decode? (encode part) = some part) (parts : List Part) :
    (parts.map encode).mapM decode? = some parts :=
  (mapM_map_eq_some (k := id) fun part _ => h part).trans (by rw [List.map_id])

theorem stringsOfJson?_stringsToJson (texts : List String) :
    stringsOfJson? (stringsToJson texts) = some texts :=
  @mapM_decode String Json.ofString Json.text? (fun _ => rfl) texts

theorem Attribute.ofJson?_toJson (a : Attribute) : ofJson? a.toJson = some a := by
  rw [ofJson?, toJson, fields?_ofMembers]
  · show (stringsOfJson? (stringsToJson a.parameters)).bind _ = _
    rw [stringsOfJson?_stringsToJson]
    rfl
  · rfl
  · decide

theorem Field.ofJson?_toJson (f : Field) : ofJson? f.toJson = some f := by
  rw [ofJson?, toJson, fields?_ofMembers]
  · show ((f.attributes.map Attribute.toJson).mapM Attribute.ofJson?).bind _ = _
    rw [mapM_decode Attribute.ofJson?_toJson]
    rfl
  · rfl
  · decide

theorem Class.ofJson?_toJson (c : Class) : ofJson? c.toJson = some c := by
  rw [ofJson?, toJson, fields?_ofMembers]
  · show ((c.fields.map Field.toJson).mapM Field.ofJson?).bind _ = _
    rw [mapM_decode Field.ofJson?_toJson]
    show ((c.attributes.map Attribute.toJson).mapM Attribute.ofJson?).bind _ = _
    rw [mapM_decode Attribute.ofJson?_toJson]
    rfl
  · rfl
  · decide

/-- **Classes are decoded from their JSON.** -/
theorem classesOfJson?_classesToJson (classes : List Class) :
    classesOfJson? (classesToJson classes) = some classes :=
  mapM_decode Class.ofJson?_toJson classes

/-- **No part can be left out**: what is decoded from an object has a member for every part. -/
theorem parts_are_required (members : List (JsonText × Json)) :
    ((Class.ofJson? (.object members)).isSome → ∀ name ∈
      ["qualified_name", "declaring_file", "fields", "attributes"],
      ∃ value, (some name, value) ∈ members) ∧
    ((Field.ofJson? (.object members)).isSome → ∀ name ∈ ["name", "type", "attributes"],
      ∃ value, (some name, value) ∈ members) ∧
    ((Attribute.ofJson? (.object members)).isSome → ∀ name ∈ ["namespace", "name", "parameters"],
      ∃ value, (some name, value) ∈ members) := by
  refine ⟨fun h => ?_, fun h => ?_, fun h => ?_⟩
  · obtain ⟨c, hc⟩ := Option.isSome_iff_exists.1 h
    obtain ⟨values, hvalues, hc⟩ := Option.bind_eq_some_iff.1 hc
    split at hc
    next a b c d => exact exists_member_of_fields? [a, b, c, d] hvalues
    · cases hc
  · obtain ⟨f, hf⟩ := Option.isSome_iff_exists.1 h
    obtain ⟨values, hvalues, hf⟩ := Option.bind_eq_some_iff.1 hf
    split at hf
    next a b c => exact exists_member_of_fields? [a, b, c] hvalues
    · cases hf
  · obtain ⟨a, ha⟩ := Option.isSome_iff_exists.1 h
    obtain ⟨values, hvalues, ha⟩ := Option.bind_eq_some_iff.1 ha
    split at ha
    next a b c => exact exists_member_of_fields? [a, b, c] hvalues
    · cases ha

/-! ## Dumping -/

/-- Parts in JSON are textual if each of them is. -/
theorem textual_array {Part : Type} {encode : Part → Json} (h : ∀ part, (encode part).Textual)
    (parts : List Part) : (Json.array (parts.map encode)).Textual :=
  .array (List.forall_mem_map.2 fun part _ => h part)

theorem Attribute.textual_toJson (a : Attribute) : a.toJson.Textual := by
  refine .object ?_
  simp only [List.forall_mem_cons]
  exact ⟨.text _, .text _, textual_array .text _, nofun⟩

theorem Field.textual_toJson (f : Field) : f.toJson.Textual := by
  refine .object ?_
  simp only [List.forall_mem_cons]
  exact ⟨.text _, .text _, textual_array Attribute.textual_toJson _, nofun⟩

theorem Class.textual_toJson (c : Class) : c.toJson.Textual := by
  refine .object ?_
  simp only [List.forall_mem_cons]
  exact ⟨.text _, .text _, textual_array Field.textual_toJson _,
    textual_array Attribute.textual_toJson _, nofun⟩

/-- The classes that a dump shows. -/
def classesOfDump? (text : String) : Option (List Class) := (Json.read text).bind classesOfJson?

/-- **A dumped model is decoded to itself**, whatever its texts are and however many parts it has.
So the registration code of the decoded classes is that of the classes. -/
theorem dumped_classes_decode (classes : List Class) :
    classesOfDump? (Inputs.modelText .json classes) = some classes ∧
    ∀ r : Registration,
      (classesOfDump? (Inputs.modelText .json classes)).map r.write = some (r.write classes) := by
  have htext : (classesToJson classes).Textual := textual_array Class.textual_toJson classes
  have hread : Json.read (Inputs.modelText .json classes) = some (classesToJson classes) :=
    htext.read_write ['\n'] (List.forall_mem_singleton.2 rfl)
  have hdecode : classesOfDump? (Inputs.modelText .json classes) = some classes := by
    rw [classesOfDump?, hread, Option.bind_some, classesOfJson?_classesToJson]
  exact ⟨hdecode, fun r => by rw [hdecode, Option.map_some]⟩

end Model

end HeaderReflection
