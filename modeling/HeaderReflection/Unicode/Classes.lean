import HeaderReflection.Unicode.Alphabetic
import HeaderReflection.Unicode.Numeric

/-!
# Character classes

The classes of characters that the rest of the library asks for: alphabetic, numeric and blank.
Each has its short rule inside ASCII and its table of ranges outside.
-/

namespace HeaderReflection.Unicode

/-- Whether a character lies in ASCII. -/
def isAscii (c : Char) : Bool := c.val < 0x80

/-- The property Alphabetic. -/
def isAlphabetic (c : Char) : Bool :=
  if isAscii c then c.isAlpha
  else if c.toNat < 0x2000 then alphabeticLow.holds c.toNat
  else if c.toNat < 0x10000 then alphabeticMiddle.holds c.toNat
  else alphabeticHigh.holds c.toNat

/-- The general categories Nd, Nl and No. -/
def isNumeric (c : Char) : Bool :=
  if isAscii c then c.isDigit else numericRanges.holds c.toNat

/-- Alphabetic or numeric. -/
def isAlphanumeric (c : Char) : Bool := isAlphabetic c || isNumeric c

/-- The blanks outside ASCII. -/
def blankRanges : Ranges := [
  (0x85, 0x85), (0xa0, 0xa0), (0x1680, 0x1680), (0x2000, 0x200a), (0x2028, 0x2029),
  (0x202f, 0x202f), (0x205f, 0x205f), (0x3000, 0x3000)]

/-- The property White_Space. -/
def isBlank (c : Char) : Bool :=
  if isAscii c then c = ' ' || (9 ≤ c.toNat && c.toNat ≤ 13) else blankRanges.holds c.toNat

/-- Drops the blanks at both ends. -/
def trim (cs : List Char) : List Char :=
  ((cs.dropWhile isBlank).reverse.dropWhile isBlank).reverse

/-! ## Trimming -/

/-- The text is `trimmed` with blanks around it, which starts and ends with no blank itself. -/
def TrimsTo (text trimmed : List Char) : Prop :=
  ∃ before after, text = before ++ (trimmed ++ after) ∧
    (∀ c ∈ before, isBlank c = true) ∧ (∀ c ∈ after, isBlank c = true) ∧
    (∀ c ∈ trimmed.head?, isBlank c = false) ∧ ∀ c ∈ trimmed.getLast?, isBlank c = false

theorem exists_dropWhile_isBlank (cs : List Char) :
    ∃ before, cs = before ++ cs.dropWhile isBlank ∧ (∀ c ∈ before, isBlank c = true) ∧
      ∀ c ∈ (cs.dropWhile isBlank).head?, isBlank c = false := by
  refine ⟨cs.takeWhile isBlank, List.takeWhile_append_dropWhile.symm,
    List.all_eq_true.1 List.all_takeWhile, ?_⟩
  intro c hc
  have hfirst := List.head?_dropWhile_not isBlank cs
  rw [Option.mem_def.1 hc] at hfirst
  simpa using hfirst

theorem dropWhile_isBlank_append {before : List Char} (h : ∀ c ∈ before, isBlank c = true)
    (rest : List Char) (hrest : ∀ c ∈ rest.head?, isBlank c = false) :
    (before ++ rest).dropWhile isBlank = rest := by
  rw [List.dropWhile_append_of_pos h]
  cases rest with
  | nil => rfl
  | cons c rest => exact List.dropWhile_cons_of_neg (by simp [hrest c rfl])

theorem trimsTo_trim (cs : List Char) : TrimsTo cs (trim cs) := by
  obtain ⟨before, hcs, hbefore, hfirst⟩ := exists_dropWhile_isBlank cs
  obtain ⟨after, hkept, hafter, hlast⟩ := exists_dropWhile_isBlank (cs.dropWhile isBlank).reverse
  have hends : cs.dropWhile isBlank = trim cs ++ after.reverse := by
    rw [← List.reverse_reverse (cs.dropWhile isBlank), hkept, List.reverse_append]
    rfl
  refine ⟨before, after.reverse, hends ▸ hcs, hbefore, ?_, ?_, ?_⟩
  · exact fun c hc => hafter c (List.mem_reverse.1 hc)
  · intro c hc
    refine hfirst c ?_
    rw [hends, Option.mem_def, List.head?_append, Option.mem_def.1 hc]
    rfl
  · intro c hc
    rw [trim, List.getLast?_reverse] at hc
    exact hlast c hc

theorem TrimsTo.trim_eq {text trimmed : List Char} (h : TrimsTo text trimmed) :
    trim text = trimmed := by
  obtain ⟨before, after, rfl, hbefore, hafter, hfirst, hlast⟩ := h
  have hreverse : ∀ c ∈ after.reverse, isBlank c = true := fun c hc =>
    hafter c (List.mem_reverse.1 hc)
  cases trimmed with
  | nil =>
    have hall : ∀ c ∈ before ++ ([] ++ after), isBlank c = true :=
      List.forall_mem_append.2 ⟨hbefore, hafter⟩
    have hnone := dropWhile_isBlank_append hall [] nofun
    rw [List.append_nil] at hnone
    rw [trim, hnone]
    rfl
  | cons c trimmed =>
    have hfront : ∀ d ∈ (c :: trimmed ++ after).head?, isBlank d = false := hfirst
    rw [trim, dropWhile_isBlank_append hbefore _ hfront, List.reverse_append,
      dropWhile_isBlank_append hreverse, List.reverse_reverse]
    rwa [List.head?_reverse]

/-- **Trimming drops the blanks at both ends,** and no others. -/
theorem trimsTo_iff {text trimmed : List Char} : TrimsTo text trimmed ↔ trim text = trimmed :=
  ⟨TrimsTo.trim_eq, fun h => h ▸ trimsTo_trim text⟩

/-! ## The classes inside ASCII -/

theorem isAlphabetic_of_isAscii {c : Char} (h : isAscii c = true) : isAlphabetic c = c.isAlpha := by
  simp [isAlphabetic, h]

theorem isNumeric_of_isAscii {c : Char} (h : isAscii c = true) : isNumeric c = c.isDigit := by
  simp [isNumeric, h]

theorem isAlphanumeric_of_isAlphabetic {c : Char} (h : isAlphabetic c = true) :
    isAlphanumeric c = true := by
  simp [isAlphanumeric, h]

end HeaderReflection.Unicode
