import HeaderReflection.Proofs.WorkingSet.Complete

/-!
# Sources that are no files

A source that is no regular file is left out of a scan with a warning. So scans over two lists of
sources that differ in such sources alone find the same files in the same order, or end in the same
failure (`Scanner.run_leaves`).
-/

namespace HeaderReflection

/-- The second list is the first one without some items, each of which is of a kind. -/
inductive Leaves {α : Type} (p : α → Prop) : List α → List α → Prop
  | nil : Leaves p [] []
  | keep {a : α} {as bs : List α} (h : Leaves p as bs) : Leaves p (a :: as) (a :: bs)
  | drop {a : α} {as bs : List α} (ha : p a) (h : Leaves p as bs) : Leaves p (a :: as) bs

namespace Leaves

variable {α : Type} {p : α → Prop}

theorem refl (p : α → Prop) : ∀ as : List α, Leaves p as as
  | [] => .nil
  | _ :: as => .keep (refl p as)

theorem trans {as bs cs : List α} (h : Leaves p as bs) (h' : Leaves p bs cs) : Leaves p as cs := by
  induction h generalizing cs with
  | nil => exact h'
  | keep _ ih =>
    cases h' with
    | keep h' => exact .keep (ih h')
    | drop ha h' => exact .drop ha (ih h')
  | drop ha _ ih => exact .drop ha (ih h')

theorem imp {q : α → Prop} {as bs : List α} (h : Leaves p as bs) (himp : ∀ a ∈ as, p a → q a) :
    Leaves q as bs := by
  induction h with
  | nil => exact .nil
  | keep _ ih => exact .keep (ih fun a ha => himp a (List.mem_cons_of_mem _ ha))
  | drop ha _ ih =>
    exact .drop (himp _ List.mem_cons_self ha) (ih fun a ha => himp a (List.mem_cons_of_mem _ ha))

theorem append {as as' bs bs' : List α} (h : Leaves p as as') (h' : Leaves p bs bs') :
    Leaves p (as ++ bs) (as' ++ bs') := by
  induction h with
  | nil => exact h'
  | keep _ ih => exact .keep ih
  | drop ha _ ih => exact .drop ha ih

/-- Filtering leaves out what the filter does not let through. -/
theorem filter {keep : α → Bool} {as : List α} (h : ∀ a ∈ as, keep a = false → p a) :
    Leaves p as (as.filter keep) := by
  induction as with
  | nil => exact .nil
  | cons a as ih =>
    have hmore := ih fun b hb => h b (List.mem_cons_of_mem _ hb)
    by_cases ha : keep a = true
    · rw [List.filter_cons_of_pos ha]
      exact .keep hmore
    · rw [List.filter_cons_of_neg ha]
      exact .drop (h a List.mem_cons_self (eq_false_of_ne_true ha)) hmore

end Leaves

/-! ## Scans that found the same -/

/-- Two scans have come equally far and differ at most in what was left out. -/
structure Scan.Agree (a b : Scan) : Prop where
  set : a.set = b.set
  cache : a.cache = b.cache
  queue : a.queue = b.queue

/-- Two steps of a scan fail in the same way or come equally far. -/
inductive ScanResult.Agree : ScanResult → ScanResult → Prop
  | ok {a b : Scan} (h : a.Agree b) : Agree (.ok () a) (.ok () b)
  | error (e : Failure) {a b : Scan} (h : a.Agree b) : Agree (.error e a) (.error e b)

namespace Scanner

variable {s : Scanner} {a b : Scan}

/-- What was left out plays no part in the scan of a file. -/
theorem scanFile_agree (h : a.Agree b) (p : Path) :
    ScanResult.Agree (s.scanFile p a) (s.scanFile p b) := by
  unfold scanFile
  rw [← h.cache]
  cases a.cache.read? s.fs p with
  | none => exact .error _ h
  | some found =>
    refine .ok ⟨?_, rfl, ?_⟩
    · dsimp only
      rw [h.set]
    · dsimp only
      rw [h.set, h.queue]

theorem scanSource_agree (h : a.Agree b) (source : Path) :
    ScanResult.Agree (s.scanSource source a) (s.scanSource source b) := by
  unfold scanSource
  split
  · exact .ok ⟨h.set, h.cache, h.queue⟩
  split
  · exact .ok ⟨h.set, h.cache, h.queue⟩
  split
  · let target := Include.textFor s.fs s.directories source
    have hinserted : Scan.Agree { a with set := (a.set.insert s.fs source target).1 }
        { b with set := (b.set.insert s.fs source target).1 } :=
      ⟨by rw [h.set], h.cache, h.queue⟩
    exact scanFile_agree hinserted source
  · exact scanFile_agree h source

/-- A source that is no file changes only what was left out. -/
theorem scanSource_of_not_isFile {source : Path} (h : s.fs.isFile source = false) (a : Scan) :
    ∃ next, s.scanSource source a = .ok () next ∧ next.Agree a := by
  unfold scanSource
  split
  · exact ⟨_, rfl, rfl, rfl, rfl⟩
  · rw [h]
    exact ⟨_, rfl, rfl, rfl, rfl⟩

theorem scanSources_agree {sources sources' : List Path}
    (hsources : Leaves (fun p => s.fs.isFile p = false) sources sources') (h : a.Agree b) :
    ScanResult.Agree (s.scanSources sources a) (s.scanSources sources' b) := by
  induction hsources generalizing a b with
  | nil => exact .ok h
  | @keep source sources sources' _ ih =>
    rw [scanSources_cons, scanSources_cons]
    generalize hleft : s.scanSource source a = left
    generalize hright : s.scanSource source b = right
    have hstep := scanSource_agree (s := s) h source
    rw [hleft, hright] at hstep
    cases hstep with
    | ok hnext => exact ih hnext
    | error e hnext => exact .error e hnext
  | @drop source sources sources' hfile _ ih =>
    obtain ⟨next, hnext, hsame⟩ := scanSource_of_not_isFile hfile a
    rw [scanSources_cons, hnext]
    exact ih ⟨hsame.set.trans h.set, hsame.cache.trans h.cache, hsame.queue.trans h.queue⟩

theorem drain_eq (s : Scanner) (scan : Scan) :
    s.drain scan =
      match scan.queue with
      | [] => .ok () scan
      | p :: queue =>
        match s.scanFile p { scan with queue := queue } with
        | .error e next => .error e next
        | .ok _ next => s.drain next := by
  rw [drain]
  split
  next hempty => rw [hempty]
  next p queue hqueue =>
    rw [hqueue]
    dsimp only
    split
    next e next hfile => rw [hfile]
    next u next hfile => rw [hfile]

theorem drain_agree (h : a.Agree b) : ScanResult.Agree (s.drain a) (s.drain b) := by
  fun_induction drain s a generalizing b with
  | case1 scan hempty =>
    rw [drain_eq s b, ← h.queue, hempty]
    exact .ok h
  | case2 scan p queue hqueue e next hfile =>
    have hstep := scanFile_agree (s := s) (a := { scan with queue := queue })
      (b := { b with queue := queue }) ⟨h.set, h.cache, rfl⟩ p
    rw [hfile] at hstep
    rw [drain_eq s b, ← h.queue, hqueue]
    dsimp only
    generalize s.scanFile p { b with queue := queue } = right at hstep
    cases hstep with
    | error e hnext => exact .error e hnext
  | case3 scan p queue hqueue u next hfile ih =>
    have hstep := scanFile_agree (s := s) (a := { scan with queue := queue })
      (b := { b with queue := queue }) ⟨h.set, h.cache, rfl⟩ p
    rw [hfile] at hstep
    rw [drain_eq s b, ← h.queue, hqueue]
    dsimp only
    generalize s.scanFile p { b with queue := queue } = right at hstep
    cases hstep with
    | ok hnext => exact ih hnext

/-- **Sources that are no files make no difference** to what a scan finds. -/
theorem run_leaves {sources sources' : List Path}
    (h : Leaves (fun p => s.fs.isFile p = false) sources sources') (cache : FileCache) :
    ScanResult.Agree (s.run sources cache) (s.run sources' cache) := by
  have hstart : Scan.Agree { cache := cache } { cache := cache } := ⟨rfl, rfl, rfl⟩
  have hsources := scanSources_agree h hstart
  rw [run, run]
  generalize s.scanSources sources { cache := cache } = left at hsources
  generalize s.scanSources sources' { cache := cache } = right at hsources
  cases hsources with
  | ok hreached => exact drain_agree hreached
  | error e hreached => exact .error e hreached

end Scanner

end HeaderReflection
