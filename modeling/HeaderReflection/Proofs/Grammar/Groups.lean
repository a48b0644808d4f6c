import HeaderReflection.Grammar.Group
import Mathlib.Data.List.Induction

/-!
# Bracketed groups, told by counting

A group is the shortest nonempty front of a list of tokens that has as many closers as openers. The
reader finds it with a depth that it counts up and down (`splitGroup_eq_some_iff`). From a start at
an opener the depth is what the openers are ahead, so it is never lowered below zero.
-/

namespace HeaderReflection

/-- Tokens from an opener to the closer that matches it. -/
structure IsGroup (opens closes : Token → Bool) (g : List Token) : Prop where
  starts : ∃ t ∈ g.head?, opens t = true
  balanced : g.countP opens = g.countP closes
  shortest : ∀ front back, g = front ++ back → front.countP opens = front.countP closes →
    front = [] ∨ back = []

variable {opens closes : Token → Bool}

/-- The depth after a token, when it is not lowered below zero. -/
theorem depth_after (hdisjoint : ∀ t, opens t = true → closes t = false) (depth : Nat) (t : Token)
    (h : 0 < depth ∨ opens t = true) :
    (if opens t then depth + 1 else if closes t then depth - 1 else depth) +
        (if closes t then 1 else 0) = depth + if opens t then 1 else 0 := by
  by_cases ho : opens t = true
  · simp [ho, hdisjoint t ho]
  · have hdepth : 0 < depth := h.resolve_right ho
    by_cases hc : closes t = true
    · simp [ho, hc]
      omega
    · simp [ho, hc]

/-- The splitting takes the tokens up to where the closers catch up with the openers. -/
theorem splitGroup_eq_some (hdisjoint : ∀ t, opens t = true → closes t = false) {depth : Nat}
    {g rest : List Token} (hne : g ≠ []) (hstart : 0 < depth ∨ ∃ t ∈ g.head?, opens t = true)
    (hbalanced : depth + g.countP opens = g.countP closes)
    (hshortest : ∀ front back, g = front ++ back →
      depth + front.countP opens = front.countP closes → front = [] ∨ back = []) :
    splitGroup opens closes depth (g ++ rest) = some (g, rest) := by
  induction g generalizing depth with
  | nil => exact absurd rfl hne
  | cons t g ih =>
    have hafter := depth_after hdisjoint depth t (by simpa using hstart)
    rw [List.cons_append, splitGroup]
    split
    next hzero =>
      -- The depth is what the openers are ahead, so at zero the front up to here is balanced.
      rw [hzero, Nat.zero_add] at hafter
      have hg : g = [] := by
        refine (hshortest [t] g rfl ?_).resolve_left (List.cons_ne_nil _ _)
        rw [List.countP_singleton, List.countP_singleton]
        exact hafter.symm
      rw [hg]
      rfl
    next deeper hdeeper =>
      rw [hdeeper] at hafter
      rw [List.countP_cons, List.countP_cons] at hbalanced
      have hg : g ≠ [] := by
        rintro rfl
        simp only [List.countP_nil] at hbalanced
        omega
      rw [ih hg (.inl (Nat.succ_pos _)) (by omega) ?_]
      · rfl
      · intro front back hsplit hfront
        refine (hshortest (t :: front) back (by rw [hsplit]; rfl) ?_).imp_left ?_
        · rw [List.countP_cons, List.countP_cons]
          omega
        · intro hcons
          cases hcons

/-- What the splitting takes ends where the closers catch up with the openers. -/
theorem balanced_of_splitGroup (hdisjoint : ∀ t, opens t = true → closes t = false) {depth : Nat}
    {ts : List Token} {p : List Token × List Token}
    (hstart : 0 < depth ∨ ∃ t ∈ ts.head?, opens t = true)
    (h : splitGroup opens closes depth ts = some p) :
    depth + p.1.countP opens = p.1.countP closes ∧
      ∀ front back, p.1 = front ++ back → depth + front.countP opens = front.countP closes →
        front = [] ∨ back = [] := by
  fun_induction splitGroup opens closes depth ts generalizing p with
  | case1 => cases h
  | case2 depth t ts hzero =>
    cases h
    have hafter := depth_after hdisjoint depth t (by simpa using hstart)
    rw [hzero, Nat.zero_add] at hafter
    rw [List.countP_singleton, List.countP_singleton]
    refine ⟨hafter.symm, ?_⟩
    intro front back hsplit _
    rcases List.append_eq_singleton_iff.1 hsplit.symm with ⟨hfront, -⟩ | ⟨-, hback⟩
    · exact .inl hfront
    · exact .inr hback
  | case3 depth t ts deeper hdeeper ih =>
    obtain ⟨q, hq, rfl⟩ := Option.map_eq_some_iff.1 h
    have hafter := depth_after hdisjoint depth t (by simpa using hstart)
    rw [hdeeper] at hafter
    obtain ⟨hbalanced, hshortest⟩ := ih (.inl (Nat.succ_pos _)) hq
    refine ⟨by rw [List.countP_cons, List.countP_cons]; omega, ?_⟩
    intro front back hsplit hfront
    cases front with
    | nil => exact .inl rfl
    | cons u front =>
      rw [List.cons_append, List.cons.injEq] at hsplit
      obtain ⟨rfl, hsplit⟩ := hsplit
      rw [List.countP_cons, List.countP_cons] at hfront
      rcases hshortest front back hsplit (by omega) with rfl | hback
      · simp only [List.countP_nil] at hfront
        omega
      · exact .inr hback

theorem IsGroup.exists_cons {g : List Token} (h : IsGroup opens closes g) :
    ∃ t ts, g = t :: ts ∧ opens t = true := by
  obtain ⟨t, ht, hopens⟩ := h.starts
  cases g with
  | nil => cases ht
  | cons u ts =>
    cases ht
    exact ⟨t, ts, rfl, hopens⟩

/-- **The first opener stays open up to the end**: the openers are ahead until then. -/
theorem IsGroup.ahead (hdisjoint : ∀ t, opens t = true → closes t = false) {g : List Token}
    (h : IsGroup opens closes g) {front back : List Token} (hsplit : g = front ++ back)
    (hfront : front ≠ []) (hback : back ≠ []) : front.countP closes < front.countP opens := by
  induction front using List.reverseRecOn generalizing back with
  | nil => exact absurd rfl hfront
  | append_singleton front t ih =>
    have hne : (front ++ [t]).countP opens ≠ (front ++ [t]).countP closes := fun heq =>
      (h.shortest _ _ hsplit heq).elim hfront hback
    cases front with
    | nil =>
      obtain ⟨t', _, hg, ht⟩ := h.exists_cons
      obtain rfl : t = t' := (List.cons.inj (hsplit.symm.trans hg)).1
      simp [ht, hdisjoint t ht]
    | cons u front =>
      have hearlier : g = (u :: front) ++ t :: back := by
        rw [hsplit, List.append_assoc]
        rfl
      have hahead := ih hearlier (List.cons_ne_nil _ _) (List.cons_ne_nil _ _)
      -- One token lowers the lead by at most one, and it cannot lower it to nothing.
      have hone : [t].countP closes ≤ 1 := List.countP_le_length
      rw [List.countP_append, List.countP_append] at hne ⊢
      omega

/-- A group ends with a closer. -/
theorem IsGroup.ends (hdisjoint : ∀ t, opens t = true → closes t = false) {g : List Token}
    (h : IsGroup opens closes g) : ∃ t ∈ g.getLast?, closes t = true := by
  have hbalanced := h.balanced
  obtain ⟨u, us, hg, hu⟩ := h.exists_cons
  rcases List.eq_nil_or_concat us with rfl | ⟨front, t, rfl⟩
  · simp [hg, hu, hdisjoint u hu] at hbalanced
  · have hsplit : g = (u :: front) ++ [t] := by rw [hg, List.concat_eq_append]; rfl
    have hahead := h.ahead hdisjoint hsplit (List.cons_ne_nil _ _) (List.cons_ne_nil _ _)
    refine ⟨t, by rw [hsplit, List.getLast?_concat]; rfl, ?_⟩
    rw [hsplit, List.countP_append, List.countP_append, List.countP_singleton,
      List.countP_singleton] at hbalanced
    by_contra hopen
    rw [if_neg hopen] at hbalanced
    omega

/-- **From an opener on, the splitting takes the group and nothing else.** -/
theorem splitGroup_eq_some_iff (hdisjoint : ∀ t, opens t = true → closes t = false)
    {ts g rest : List Token} (hstart : ∃ t ∈ ts.head?, opens t = true) :
    splitGroup opens closes 0 ts = some (g, rest) ↔ ts = g ++ rest ∧ IsGroup opens closes g := by
  constructor
  · intro h
    have happend : g ++ rest = ts := splitGroup_append h
    obtain ⟨hbalanced, hshortest⟩ := balanced_of_splitGroup hdisjoint (.inr hstart) h
    rw [Nat.zero_add] at hbalanced
    refine ⟨happend.symm, ?_, hbalanced, ?_⟩
    · cases g with
      | nil =>
        have hlength := length_splitGroup h
        rw [← happend] at hlength
        simp at hlength
      | cons t g =>
        rw [← happend] at hstart
        exact hstart
    · intro front back hsplit hfront
      exact hshortest front back hsplit (by rw [Nat.zero_add]; exact hfront)
  · rintro ⟨rfl, hgroup⟩
    refine splitGroup_eq_some hdisjoint ?_ (.inr hgroup.starts) ?_ ?_
    · rintro rfl
      obtain ⟨t, ht, -⟩ := hgroup.starts
      cases ht
    · rw [Nat.zero_add]
      exact hgroup.balanced
    · intro front back hsplit hfront
      exact hgroup.shortest front back hsplit (by rw [← hfront, Nat.zero_add])

/-! ## The two kinds of brackets -/

theorem kinds_disjoint {opening closing : TokenKind} (hne : opening ≠ closing) (t : Token)
    (h : decide (t.kind = opening) = true) : decide (t.kind = closing) = false := by
  rw [of_decide_eq_true h]
  exact decide_eq_false hne

theorem parens_disjoint (t : Token) (h : decide (t.kind = .openParen) = true) :
    decide (t.kind = .closeParen) = false :=
  kinds_disjoint (by decide) t h

theorem angles_disjoint (t : Token) (h : decide (t.text = "<") = true) :
    decide (t.text = ">") = false := by
  rw [of_decide_eq_true h]
  decide

end HeaderReflection
