import HeaderReflection.Model
import HeaderReflection.Printer

/-!
# Registration code

The C++ file that registers the marked classes with the reflection runtime: a header with the
runtime's include, then for each marked class its include, the storage of its class record with one
slot per marked field, and the member that looks the record up.
-/

namespace HeaderReflection

/-- How registration code is written. -/
structure Registration where
  /-- The attribute that selects classes and fields. -/
  marker : Model.Marker := {}
  /-- The header of the runtime. -/
  runtimeHeader : String := "reflection.h"

namespace Registration

/-- The lines that fill the slot of a field. -/
def slot (className : String) (index : Nat) (field : Model.Field) : List String :=
  let target := "self->fields[" ++ toString index ++ "]"
  [target ++ ".type = GetType<" ++ field.type ++ ">();",
   target ++ ".name = \"" ++ field.name ++ "\";",
   target ++ ".offset = offsetof(" ++ className ++ ", " ++ field.name ++ ");"]

/-- The lines that fill the slots of several fields, the first of which has a given index. -/
def slots (className : String) (index : Nat) : List Model.Field → List String
  | [] => []
  | field :: fields => slot className index field ++ slots className (index + 1) fields

/-- Writes what registers one class. -/
def writeClass (r : Registration) (p : Printer) (c : Model.Class) : Printer :=
  let name := c.qualifiedName
  let fields := c.markedFields r.marker
  p.line ("#include <" ++ c.declaringFile ++ ">")
  |>.line ("template<> Class const *SH::Reflection::GetClass(ClassTag<" ++ name ++ ">)\x7b")
  |>.block (fun body =>
    body.line ("static detail::ClassStorage<" ++ name ++ ", " ++ toString fields.length ++
      ", 0, 0> reflected([](auto self) \x7b")
    |>.block (Printer.lines (slots name 0 fields))
    |>.lines ["\x7d);",
      "static Class const clazz(\"" ++ name ++ "\", sizeof(" ++ name ++
        "), reflected.fields, reflected.numFields);",
      "return &clazz;"])
  |>.lines ["\x7d",
    "const Class *" ++ name ++
      "::GetClass() const \x7b return SH::Reflection::GetClass(ClassTag<" ++ name ++
      ">\x7b\x7d); \x7d",
    ""]

/-- The whole file for a list of classes, which keep their order. -/
def write (r : Registration) (classes : List Model.Class) : String :=
  let header : Printer := Printer.lines
    ["#include <" ++ r.runtimeHeader ++ ">", "using namespace SH::Reflection;", ""] {}
  ((classes.filter (·.isMarked r.marker)).foldl r.writeClass header).out

end Registration

end HeaderReflection
