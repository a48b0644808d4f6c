import HeaderReflection.Proofs.FileTree.Below

/-!
# The order of paths

Paths are compared component by component and not character by character. So all that lies in a
directory `a` comes before a file `a.h` beside it, although the point comes before the slash
(`Path.precedes_goOn`).
-/

namespace HeaderReflection

namespace Text

/-- The first piece goes up to the first separator. -/
theorem head?_splitOn (separator : Char) (cs : List Char) :
    (cs.splitOn separator).head? = some (cs.takeWhile (· ≠ separator)) := by
  induction cs with
  | nil => rfl
  | cons c cs ih =>
    rw [List.splitOn_cons_eq_if_modifyHead]
    split
    next hc => simp [beq_iff_eq.1 hc]
    next hc => simp [ih, mt beq_iff_eq.2 hc]

/-- What follows a separator does not change the first piece. -/
theorem takeWhile_append_cons (separator : Char) (cs ds : List Char) :
    (cs ++ separator :: ds).takeWhile (· ≠ separator) = cs.takeWhile (· ≠ separator) := by
  induction cs with
  | nil => simp
  | cons c cs ih =>
    rw [List.cons_append, List.takeWhile_cons, List.takeWhile_cons, ih]

end Text

namespace Path

/-! ## Comparing components -/

/-- The kinds of components in order: the root first and names last. -/
def Component.rank : Component → Nat
  | root => 0
  | here => 1
  | up => 2
  | name _ => 3

/-- Whether a component comes before another; names are in the order of their characters. -/
def Component.Precedes : Component → Component → Prop
  | name a, name b => a < b
  | c, d => c.rank < d.rank

theorem Component.Precedes.irrefl (c : Component) : ¬c.Precedes c := by
  cases c with
  | name text => exact String.lt_irrefl text
  | _ => exact Nat.lt_irrefl _

/-- Whether a path comes before another, component by component. -/
def Precedes (p q : Path) : Prop := List.Lex Component.Precedes p.components q.components

theorem Precedes.ne {p q : Path} (h : p.Precedes q) : p ≠ q := by
  rintro rfl
  have hnot : ∀ cs : List Component, ¬List.Lex Component.Precedes cs cs := by
    intro cs
    induction cs with
    | nil => exact fun h => nomatch h
    | cons c cs ih =>
      intro h
      cases h with
      | rel hc => exact Component.Precedes.irrefl c hc
      | cons hcs => exact ih hcs
  exact hnot _ h

/-- Where two paths start alike, what follows decides. -/
theorem lex_append_left_iff (front : List Component) {cs ds : List Component} :
    List.Lex Component.Precedes (front ++ cs) (front ++ ds) ↔
      List.Lex Component.Precedes cs ds := by
  induction front with
  | nil => rfl
  | cons c front ih =>
    rw [List.cons_append, List.cons_append, ← ih]
    constructor
    · intro h
      cases h with
      | rel hc => exact absurd hc (Component.Precedes.irrefl c)
      | cons h => exact h
    · exact .cons

/-! ## Components of a longer path -/

/-- Idle steps are no components. -/
theorem Thinner.components {steps thin : List String} (h : Thinner steps thin) :
    steps.filterMap component? = thin.filterMap component? := by
  induction h with
  | nil => rfl
  | keep step _ ih => rw [List.filterMap_cons, List.filterMap_cons, ih]
  | drop hidle _ ih =>
    rw [List.filterMap_cons_none (by rw [component?, if_pos hidle]), ih]

theorem ofPieces_singleton (name : String) : ofPieces [name] = ⟨name⟩ := rfl

/-- A name is a path that does not start at the root. -/
theorem IsName.isAbsolute {name : String} (h : IsName name) : Path.isAbsolute ⟨name⟩ = false :=
  isAbsolute_ofPieces (List.cons_ne_nil name []) fun _ hn => List.mem_singleton.1 hn ▸ h

theorem IsName.text_join_ne {p : Path} {name : String} (hp : p.text ≠ "") (h : IsName name) :
    (p.join ⟨name⟩).text ≠ "" :=
  Path.text_join_ne hp h.isAbsolute

/-- The first piece of a path stays when the path goes on. -/
theorem head?_pieces_join {p : Path} {name : String} (hp : p.text ≠ "") (h : IsName name) :
    (p.join ⟨name⟩).pieces.head? = p.pieces.head? := by
  have hfirst : ∀ q : Path,
      q.pieces.head? = some (String.ofList (q.text.toList.takeWhile (· ≠ '/'))) := by
    intro q
    rw [pieces, List.head?_map, Text.head?_splitOn]
    rfl
  rw [hfirst, hfirst, join, if_neg (by simp [h.isAbsolute])]
  congr 2
  split
  next hlast =>
    obtain ⟨front, back, hsplit⟩ :=
      List.append_of_mem (List.mem_of_getLast? (hlast.resolve_left hp))
    rw [String.toList_append, hsplit, List.append_assoc, List.cons_append,
      Text.takeWhile_append_cons, Text.takeWhile_append_cons]
  next =>
    rw [String.toList_append, String.toList_append, List.append_assoc]
    exact Text.takeWhile_append_cons _ _ _

/-- A name that a path goes on by is its last component. -/
theorem components_join {p : Path} {name : String} (hp : p.text ≠ "") (h : IsName name) :
    (p.join ⟨name⟩).components = p.components ++ [.name name] := by
  obtain ⟨hthin, habsolute⟩ := pieces_join hp (List.cons_ne_nil name [])
    fun _ hn => List.mem_singleton.1 hn ▸ h
  rw [ofPieces_singleton] at hthin habsolute
  have hbody : (p.join ⟨name⟩).pieces.filterMap component? =
      p.pieces.filterMap component? ++ [.name name] := by
    rw [← hthin.components, List.filterMap_append, List.filterMap_cons_some h.component?,
      List.filterMap_nil]
  rw [components, components, habsolute, head?_pieces_join hp h, hbody]
  split
  · rfl
  · split <;> rfl

/-- Entries of one directory are in the order of their names. -/
theorem precedes_join_iff {p : Path} {a b : String} (hp : p.text ≠ "") (ha : IsName a)
    (hb : IsName b) : (p.join ⟨a⟩).Precedes (p.join ⟨b⟩) ↔ a < b := by
  rw [Precedes, components_join hp ha, components_join hp hb, lex_append_left_iff]
  constructor
  · intro h
    cases h with
    | rel hab => exact hab
    | cons hnil => cases hnil
  · intro hab
    exact .rel hab

/-! ## Going on by names -/

/-- The path that goes on from another one by names. -/
def goOn (p : Path) : Place → Path
  | [] => p
  | name :: names => (p.join ⟨name⟩).goOn names

theorem components_goOn {p : Path} {names : Place} (hp : p.text ≠ "")
    (h : ∀ name ∈ names, IsName name) :
    (p.goOn names).components = p.components ++ names.map .name := by
  induction names generalizing p with
  | nil => rw [goOn, List.map_nil, List.append_nil]
  | cons name names ih =>
    have hname := h name List.mem_cons_self
    rw [goOn, ih (hname.text_join_ne hp) fun n hn => h n (List.mem_cons_of_mem _ hn),
      components_join hp hname, List.append_assoc, List.map_cons, List.singleton_append]

theorem ofPieces_cons (name : String) {names : List String} (h : names ≠ []) :
    (ofPieces (name :: names)).text = name ++ ("/" ++ (ofPieces names).text) := by
  obtain ⟨next, names, rfl⟩ := List.exists_cons_of_ne_nil h
  refine String.toList_injective ?_
  rw [String.toList_append, String.toList_append, ofPieces, ofPieces, toList_intercalate_slash,
    toList_intercalate_slash, List.map_cons, List.map_cons, List.intercalate_cons_cons,
    List.append_assoc]
  rfl

/-- What stands between a path and a relative one that it goes on by, does not hang on the second.
-/
theorem exists_join_eq (p : Path) :
    ∃ between, ∀ q : Path, q.isAbsolute = false → p.join q = ⟨p.text ++ (between ++ q.text)⟩ := by
  by_cases h : p.text = "" ∨ p.text.toList.getLast? = some '/'
  · refine ⟨"", fun q hq => ?_⟩
    rw [join, if_neg (by simp [hq]), if_pos h, String.empty_append]
  · refine ⟨"/", fun q hq => ?_⟩
    rw [join, if_neg (by simp [hq]), if_neg h, String.append_assoc]

/-- Going on by a name and then by names is going on by all of them at once. -/
theorem join_join {p : Path} {name : String} {names : List String} (hp : p.text ≠ "")
    (hname : IsName name) (hne : names ≠ []) (h : ∀ n ∈ names, IsName n) :
    (p.join ⟨name⟩).join (ofPieces names) = p.join (ofPieces (name :: names)) := by
  obtain ⟨between, hbetween⟩ := exists_join_eq p
  have hall : ∀ n ∈ name :: names, IsName n := by
    intro n hn
    exact (List.mem_cons.1 hn).elim (fun hn => hn ▸ hname) (h n)
  have hchars : name.toList ≠ [] := by
    intro hempty
    have hbusy := hname.busy
    rw [String.toList_eq_nil_iff.1 hempty] at hbusy
    cases hbusy
  have hlast : (p.join ⟨name⟩).text.toList.getLast? ≠ some '/' := by
    intro hslash
    rw [hbetween _ hname.isAbsolute, String.toList_append, String.toList_append,
      List.getLast?_append, List.getLast?_append, List.getLast?_eq_some_getLast hchars,
      Option.some_or, Option.some_or] at hslash
    exact hname.noSlash (Option.some.inj hslash ▸ List.getLast_mem hchars)
  rw [join, if_neg (by simp [isAbsolute_ofPieces hne h]),
    if_neg (not_or.2 ⟨hname.text_join_ne hp, hlast⟩), hbetween _ hname.isAbsolute,
    hbetween _ (isAbsolute_ofPieces (List.cons_ne_nil _ _) hall), ofPieces_cons name hne]
  simp only [String.append_assoc]

/-- Going on by several names is going on by them at once. -/
theorem goOn_eq_join {p : Path} {names : Place} (hp : p.text ≠ "") (hne : names ≠ [])
    (h : ∀ name ∈ names, IsName name) : p.goOn names = p.join (ofPieces names) := by
  induction names generalizing p with
  | nil => exact absurd rfl hne
  | cons name names ih =>
    cases names with
    | nil => rfl
    | cons next names =>
      have hname := h name List.mem_cons_self
      have hrest : ∀ n ∈ next :: names, IsName n := fun n hn => h n (List.mem_cons_of_mem _ hn)
      rw [goOn, ih (hname.text_join_ne hp) (List.cons_ne_nil _ _) hrest]
      exact join_join hp hname (List.cons_ne_nil _ _) hrest

/-- **Where two paths part, the name that comes first decides,** whatever follows. -/
theorem precedes_goOn {p : Path} {a b : String} {names others : Place} (hp : p.text ≠ "")
    (hnames : ∀ name ∈ a :: names, IsName name) (hothers : ∀ name ∈ b :: others, IsName name)
    (hab : a < b) : (p.goOn (a :: names)).Precedes (p.goOn (b :: others)) := by
  rw [Precedes, components_goOn hp hnames, components_goOn hp hothers]
  exact (lex_append_left_iff _).2 (.rel hab)

example : (⟨"a/x.h"⟩ : Path).Precedes ⟨"a.h"⟩ := .rel (by decide : "a" < "a.h")

end Path

end HeaderReflection
