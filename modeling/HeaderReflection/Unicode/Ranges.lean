/-!
# Ranges of code points

A property of characters is written as a list of ranges of code points, ends included. The tables
of this library hold only what lies outside ASCII, because each property has a short rule there.
-/

namespace HeaderReflection.Unicode

/-- Ranges of code points, ends included. -/
abbrev Ranges := List (Nat × Nat)

/-- Whether a code point lies in one of the ranges. -/
def Ranges.holds (ranges : Ranges) (point : Nat) : Bool :=
  ranges.any fun range => range.1 ≤ point && point ≤ range.2

@[simp] theorem Ranges.holds_nil (point : Nat) : Ranges.holds [] point = false := rfl

@[simp] theorem Ranges.holds_cons (range : Nat × Nat) (ranges : Ranges) (point : Nat) :
    Ranges.holds (range :: ranges) point =
      (range.1 ≤ point && point ≤ range.2 || Ranges.holds ranges point) := rfl

end HeaderReflection.Unicode
