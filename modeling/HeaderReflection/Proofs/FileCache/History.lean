import HeaderReflection.FileCache
import HeaderReflection.FileTree.Change
import Mathlib.Data.List.Dedup

/-!
# The first successful reading stays

Files are read through a cache while the file tree changes in any way between two readings. What a
reading gives is then told by the readings before it: the text of the first one that succeeded for a
path with the same components, or, if there was none, the text that the tree holds at the moment
(`FileCache.History.first_reading_stays`). The invariant is that the cache holds, under every list
of components, the text of the first successful reading, and each list at most once
(`FileCache.History.Faithful`).
-/

namespace HeaderReflection.FileCache

/-! ## Histories -/

/-- What may happen next. -/
inductive Event
  /-- Files are created, changed or removed. -/
  | change (alter : FileSystem → FileSystem)
  /-- A file is read through the cache. -/
  | read (p : Path)

/-- A reading and what it gave. -/
structure Answer where
  /-- The path that was read. -/
  path : Path
  /-- The text, if the reading succeeded. -/
  text : Option String

/-- The files and the cache at one moment, with the readings so far. -/
structure History where
  /-- The files as they are. -/
  fs : FileSystem
  /-- The cache as it is. -/
  cache : FileCache := {}
  /-- The readings so far, the earliest first. -/
  answers : List Answer := []

/-- The text of the first successful reading under these components. -/
def firstText? (answers : List Answer) (key : List Path.Component) : Option String :=
  answers.findSome? fun a => if a.path.components = key then a.text else none

/-- The components of every path that was read successfully, once for each such reading. -/
def keysRead (answers : List Answer) : List (List Path.Component) :=
  (answers.filter (·.text.isSome)).map (·.path.components)

namespace History

/-- What a reading gives now. -/
def answer (h : History) (p : Path) : Option String := (h.cache.read? h.fs p).map Prod.fst

/-- What one event leads to. A reading that fails leaves the cache to the next one. -/
def next (h : History) : Event → History
  | .change alter => { h with fs := alter h.fs }
  | .read p => { h with
      cache := ((h.cache.read? h.fs p).map Prod.snd).getD h.cache
      answers := h.answers ++ [⟨p, h.answer p⟩] }

/-- What several events in a row lead to. -/
def after (h : History) (events : List Event) : History := events.foldl next h

end History

/-! ## One reading -/

/-- What a reading gives: the text that the cache holds, or else the one that the tree holds. -/
theorem History.answer_eq (h : History) (p : Path) :
    h.answer p = (h.cache.get? p).or (h.fs.text? p) := by
  rw [answer, read?]
  cases h.cache.get? p with
  | some text => rfl
  | none => cases h.fs.text? p <;> rfl

/-- What a reading leads to: the cache answers it and stays as it is, or the tree answers it and the
text is kept, or neither has a text and the cache stays as it is. -/
theorem History.next_read_cases (h : History) (p : Path) :
    (∃ text, h.cache.get? p = some text ∧
        h.next (.read p) = { h with answers := h.answers ++ [⟨p, some text⟩] }) ∨
      h.cache.get? p = none ∧
        ((∃ text, h.fs.text? p = some text ∧
            h.next (.read p) = { h with
              cache := ⟨(p.components, text) :: h.cache.entries⟩
              answers := h.answers ++ [⟨p, some text⟩] }) ∨
          h.fs.text? p = none ∧
            h.next (.read p) = { h with answers := h.answers ++ [⟨p, none⟩] }) := by
  rw [next, answer_eq, read?]
  cases h.cache.get? p with
  | some text => exact .inl ⟨text, rfl, rfl⟩
  | none =>
    refine .inr ⟨rfl, ?_⟩
    cases h.fs.text? p with
    | some text => exact .inl ⟨text, rfl, rfl⟩
    | none => exact .inr ⟨rfl, rfl⟩

theorem mem_keys_iff {entries : List (List Path.Component × String)} {key : List Path.Component} :
    key ∈ entries.map Prod.fst ↔ (entries.lookup key).isSome := by
  rw [List.lookup_isSome_iff, List.mem_map]
  constructor
  · rintro ⟨entry, hmem, rfl⟩
    exact ⟨entry, hmem, beq_self_eq_true _⟩
  · rintro ⟨entry, hmem, hkey⟩
    exact ⟨entry, hmem, (eq_of_beq hkey).symm⟩

theorem firstText?_append (answers : List Answer) (a : Answer) (key : List Path.Component) :
    firstText? (answers ++ [a]) key =
      (firstText? answers key).or (if a.path.components = key then a.text else none) := by
  rw [firstText?, List.findSome?_append, List.findSome?_singleton]
  rfl

theorem mem_keysRead {answers : List Answer} {key : List Path.Component} :
    key ∈ keysRead answers ↔ (firstText? answers key).isSome := by
  rw [firstText?, List.findSome?_isSome_iff]
  constructor
  · intro h
    obtain ⟨a, ha, rfl⟩ := List.mem_map.1 h
    obtain ⟨hmem, hsome⟩ := List.mem_filter.1 ha
    exact ⟨a, hmem, by rwa [if_pos rfl]⟩
  · rintro ⟨a, hmem, hsome⟩
    split at hsome
    next hkey => exact List.mem_map.2 ⟨a, List.mem_filter.2 ⟨hmem, hsome⟩, hkey⟩
    next => cases hsome

namespace History

/-! ## The invariant -/

/-- The cache holds the text of the first successful reading under each list of components, and each
list once. -/
structure Faithful (h : History) : Prop where
  texts : ∀ key, h.cache.entries.lookup key = firstText? h.answers key
  nodup : (h.cache.entries.map Prod.fst).Nodup

variable {h : History}

theorem Faithful.get? (hfaithful : h.Faithful) (p : Path) :
    h.cache.get? p = firstText? h.answers p.components := hfaithful.texts p.components

/-- **One event keeps the cache faithful.** -/
theorem Faithful.next (hfaithful : h.Faithful) (e : Event) : (h.next e).Faithful := by
  cases e with
  | change alter => exact ⟨hfaithful.texts, hfaithful.nodup⟩
  | read p =>
    have hheld := hfaithful.get? p
    rcases h.next_read_cases p with
      ⟨text, hget, hnext⟩ | ⟨hget, ⟨text, -, hnext⟩ | ⟨-, hnext⟩⟩
    · -- The cache answers, so there was a successful reading before this one.
      rw [hnext]
      refine ⟨fun key => ?_, hfaithful.nodup⟩
      rw [firstText?_append, hfaithful.texts key]
      split
      next hkey => rw [← hkey, ← hheld, hget, Option.some_or]
      next => rw [Option.or_none]
    · -- The tree answers, so this is the first successful reading.
      rw [hnext]
      refine ⟨fun key => ?_, List.nodup_cons.2 ⟨fun hmem => ?_, hfaithful.nodup⟩⟩
      · rw [firstText?_append, ← hfaithful.texts key, List.lookup_cons]
        by_cases hkey : p.components = key
        · rw [← hkey, beq_self_eq_true, if_pos rfl]
          exact (congrArg (Option.or · (some text)) hget).symm
        · rw [if_neg hkey, Option.or_none, beq_eq_false_iff_ne.2 (Ne.symm hkey)]
      · rw [mem_keys_iff, ← FileCache.get?, hget] at hmem
        cases hmem
    · rw [hnext]
      refine ⟨fun key => ?_, hfaithful.nodup⟩
      rw [firstText?_append, ite_self, Option.or_none]
      exact hfaithful.texts key

/-- However the files change and whatever is read, the cache is faithful. -/
theorem Faithful.after (hfaithful : h.Faithful) (events : List Event) :
    (h.after events).Faithful := by
  induction events generalizing h with
  | nil => exact hfaithful
  | cons e events ih => exact ih (hfaithful.next e)

theorem faithful_start (fs : FileSystem) : Faithful { fs := fs } :=
  ⟨fun _ => rfl, List.nodup_nil⟩

/-- A faithful cache has one text for each list of components that was read successfully. -/
theorem Faithful.size_eq (hfaithful : h.Faithful) :
    h.cache.size = (keysRead h.answers).dedup.length := by
  have hperm : (h.cache.entries.map Prod.fst).Perm (keysRead h.answers).dedup := by
    refine (List.perm_ext_iff_of_nodup hfaithful.nodup (List.nodup_dedup _)).2 fun key => ?_
    rw [List.mem_dedup, mem_keysRead, ← hfaithful.texts key, mem_keys_iff]
  rw [size, ← hperm.length_eq, List.length_map]

/-- **The first successful reading stays.** After any changes of the files and readings, a reading
gives the text of the first one before it that succeeded for the same components, whatever the files
hold by now, and without one it gives what they hold. A reading that fails leaves the cache as it
is, so the next one of its path gives what the files hold by then. The cache has as many texts as
there are paths, told by their components, that were read successfully. -/
theorem first_reading_stays (fs : FileSystem) (events : List Event) :
    let h := after { fs := fs } events
    (∀ p, h.answer p = (firstText? h.answers p.components).or (h.fs.text? p)) ∧
      (∀ p, h.answer p = none → (h.next (.read p)).cache = h.cache ∧
        ∀ alter, ((h.next (.read p)).next (.change alter)).answer p = (alter h.fs).text? p) ∧
      h.cache.size = (keysRead h.answers).dedup.length := by
  intro h
  have hfaithful : h.Faithful := (faithful_start fs).after events
  refine ⟨fun p => ?_, fun p hfails => ?_, hfaithful.size_eq⟩
  · rw [answer_eq, hfaithful.get? p]
  · rw [answer_eq, Option.or_eq_none_iff] at hfails
    rcases h.next_read_cases p with
      ⟨text, hget, -⟩ | ⟨hget, ⟨text, htext, -⟩ | ⟨-, hnext⟩⟩
    · rw [hfails.1] at hget
      cases hget
    · rw [hfails.2] at htext
      cases htext
    · rw [hnext]
      refine ⟨rfl, fun alter => ?_⟩
      rw [answer_eq]
      exact congrArg (Option.or · _) hget

/-- A file is read before it is there, then under two spellings, and once more after it is gone. -/
example :
    let h := after { fs := ⟨.directory [], []⟩ } [
      .read ⟨"a.h"⟩,
      .change fun fs => (fs.write? ⟨"a.h"⟩ "first".toUTF8).getD fs,
      .read ⟨"a.h"⟩,
      .change fun fs => (fs.write? ⟨"a.h"⟩ "second".toUTF8).getD fs,
      .read ⟨"a.h/."⟩,
      .read ⟨"./a.h"⟩,
      .change fun fs => { fs with root := fs.root.remove ["a.h"] },
      .read ⟨"a.h"⟩]
    h.answers.map Answer.text = [none, some "first", some "first", some "second", some "first"] ∧
      h.cache.size = 2 := by
  decide +kernel

end History

end HeaderReflection.FileCache
