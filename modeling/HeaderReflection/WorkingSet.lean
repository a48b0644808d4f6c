import HeaderReflection.FileTree.Locate

/-!
# Working sets

The files of a run, in the order in which they were found, each with the text by which generated
code includes it. A file that was found before under any path is not added again.
-/

namespace HeaderReflection

/-- A file to read. -/
structure WorkItem where
  /-- The path under which it was found. -/
  path : Path
  /-- The text by which it is included. -/
  target : String
  deriving DecidableEq, Repr, Inhabited

/-- The files of a run. -/
structure WorkingSet where
  /-- The files in the order in which they were found. -/
  items : List WorkItem := []
  /-- What they were when they were found, whatever the path. -/
  seen : List (List Path.Component) := []
  deriving DecidableEq, Repr, Inhabited

namespace WorkingSet

/-- The paths of the files. -/
def paths (set : WorkingSet) : List Path := set.items.map WorkItem.path

/-- Adds a file; tells whether it is new. -/
def insert (fs : FileSystem) (p : Path) (target : String) (set : WorkingSet) :
    WorkingSet × Bool :=
  if set.seen.contains (fs.identity p) then (set, false)
  else (⟨set.items ++ [⟨p, target⟩], fs.identity p :: set.seen⟩, true)

/-- The number of files of the tree that are not in the set. -/
def unseen (fs : FileSystem) (set : WorkingSet) : Nat :=
  fs.fileIdentities.countP fun i => !set.seen.contains i

theorem unseen_insert_le (fs : FileSystem) (p : Path) (target : String) (set : WorkingSet) :
    (set.insert fs p target).1.unseen fs ≤ set.unseen fs := by
  unfold insert
  split
  · exact Nat.le_refl _
  · refine List.countP_mono_left fun i _ h => ?_
    simp at h ⊢
    exact h.2

/-- A regular file that is new was among those not in the set. -/
theorem unseen_insert_lt {fs : FileSystem} {p : Path} {target : String} {set : WorkingSet}
    (hfile : fs.isFile p = true) (hnew : (set.insert fs p target).2 = true) :
    (set.insert fs p target).1.unseen fs < set.unseen fs := by
  unfold insert at hnew ⊢
  split at hnew
  · simp at hnew
  next hseen =>
    rw [if_neg hseen]
    have hmem := FileSystem.identity_mem_of_isFile hfile
    obtain ⟨before, after, hsplit⟩ := List.append_of_mem hmem
    have hmono (l : List (List Path.Component)) :
        l.countP (fun i => !(fs.identity p :: set.seen).contains i) ≤
          l.countP (fun i => !set.seen.contains i) := by
      refine List.countP_mono_left fun i _ h => ?_
      simp at h ⊢
      exact h.2
    have h₁ := hmono before
    have h₂ := hmono after
    have h₃ : (!(fs.identity p :: set.seen).contains (fs.identity p)) = false := by simp
    have h₄ : (!set.seen.contains (fs.identity p)) = true := by simpa using hseen
    simp only [unseen, hsplit, List.countP_append, List.countP_cons, h₃, h₄, Bool.false_eq_true,
      if_false, if_true]
    omega

end WorkingSet

end HeaderReflection
