import HeaderReflection.Proofs.FileTree.Writing

/-!
# Updating a file

A text is written where it is not held already. Unless two texts have one digest, a file is left
alone exactly if it has the bytes of the text, and whatever was done, the file has them afterwards,
so that doing it again does nothing. All other files keep their bytes, also when the update fails
(`FileSystem.writeIfChanged_exact`).
-/

namespace HeaderReflection.FileSystem

variable {fs fs' : FileSystem} {p : Path} {text : String}

/-! ## Files that stay -/

/-- Making directories makes no file and changes none. -/
theorem MakesAbove.file_iff (h : MakesAbove p fs fs') (place : Place) (bytes : ByteArray) :
    fs'.root.node? place = some (.file bytes) ↔ fs.root.node? place = some (.file bytes) := by
  rcases h.nodes place with hsame | ⟨hnone, hmade, -⟩
  · rw [hsame]
  · rw [hnone, hmade]
    exact ⟨nofun, nofun⟩

/-- Writing a file makes no other one and changes none. -/
theorem ChangesOnly.file_iff (h : ChangesOnly p fs fs') {place : Place}
    (hplace : fs'.locate? p ≠ some place) (bytes : ByteArray) :
    fs'.root.node? place = some (.file bytes) ↔ fs.root.node? place = some (.file bytes) := by
  rcases h.nodes place with hsame | ⟨hwritten, -⟩ | ⟨hnone, hmade, -⟩
  · rw [hsame]
  · exact absurd hwritten hplace
  · rw [hnone, hmade]
    exact ⟨nofun, nofun⟩

/-! ## Files that hold the text -/

theorem holds_of_bytes? (h : fs.bytes? p = some text.toUTF8) : fs.holds p text = true := by
  rw [holds, h, Option.any_some]
  exact decide_eq_true rfl

/-- A file with the bytes of the text is left alone. -/
theorem writeIfChanged_of_bytes? (h : fs.bytes? p = some text.toUTF8) :
    fs.writeIfChanged p text = (fs, .ok false) := by
  rw [writeIfChanged, if_pos (holds_of_bytes? h)]

/-- **Writing only what is not held already is exact and can be repeated.** If it tells that it has
written, the file did not have the bytes of the text before and has them now, every other file is as
it was, and nothing is new but directories above the file. If it tells that it has not written, the
file had these bytes and nothing is changed. Either way, doing it again writes nothing and changes
nothing. If it fails, nothing is new but directories above the file, and every file is as it was. -/
theorem writeIfChanged_exact {result : Except Failure Bool} (hcollision : fs.NoCollision p text)
    (h : fs.writeIfChanged p text = (fs', result)) :
    (result = .ok true →
        fs'.bytes? p = some text.toUTF8 ∧ fs.bytes? p ≠ some text.toUTF8 ∧
        fs'.writeIfChanged p text = (fs', .ok false) ∧ ChangesOnly p fs fs' ∧
        ∀ place, fs'.locate? p ≠ some place → ∀ bytes,
          fs'.root.node? place = some (.file bytes) ↔ fs.root.node? place = some (.file bytes)) ∧
      (result = .ok false →
        fs.bytes? p = some text.toUTF8 ∧ fs' = fs ∧
        fs'.writeIfChanged p text = (fs', .ok false)) ∧
      ∀ e, result = .error e →
        MakesAbove p fs fs' ∧ ∀ place bytes,
          fs'.root.node? place = some (.file bytes) ↔ fs.root.node? place = some (.file bytes) := by
  have hcases := writeIfChanged_cases h
  refine ⟨?_, ?_, ?_⟩
  · rintro rfl
    obtain ⟨-, -, hresult⟩ | ⟨hnot, ⟨-, e, hresult, -⟩ | ⟨mid, hmakes, hwrite, -⟩⟩ := hcases
    · cases hresult
    · cases hresult
    have hbytes := bytes?_of_write? hwrite
    have hchanges := hmakes.write hwrite
    refine ⟨hbytes, fun hold => ?_, writeIfChanged_of_bytes? hbytes, hchanges,
      fun place hplace => hchanges.file_iff hplace⟩
    rw [holds_of_bytes? hold] at hnot
    cases hnot
  · rintro rfl
    obtain ⟨hholds, rfl, -⟩ | ⟨-, ⟨-, e, hresult, -⟩ | ⟨mid, -, -, hresult⟩⟩ := hcases
    · have hbytes := bytes?_of_holds hholds hcollision
      exact ⟨hbytes, rfl, writeIfChanged_of_bytes? hbytes⟩
    · cases hresult
    · cases hresult
  · rintro e rfl
    obtain ⟨-, -, hresult⟩ | ⟨-, ⟨hmakes, -⟩ | ⟨mid, -, -, hresult⟩⟩ := hcases
    · cases hresult
    · exact ⟨hmakes, hmakes.file_iff⟩
    · cases hresult

/-- A tree where the path of a file is a link to another directory, and another file beside it. -/
def linkedOutput : FileSystem where
  root := .directory [
    ("out.cpp", .link "made/out.cpp"),
    ("made", .directory [("out.cpp", .file "old".toUTF8), ("a.h", .file "new".toUTF8)])]
  start := []

theorem writeIfChanged_exact_linked :
    ∃ after, linkedOutput.writeIfChanged ⟨"out.cpp"⟩ "new" = (after, .ok true) ∧
      linkedOutput.NoCollision ⟨"out.cpp"⟩ "new" ∧
      after.bytes? ⟨"out.cpp"⟩ = some "new".toUTF8 ∧
      linkedOutput.bytes? ⟨"out.cpp"⟩ ≠ some "new".toUTF8 ∧
      after.writeIfChanged ⟨"out.cpp"⟩ "new" = (after, .ok false) ∧
      ChangesOnly ⟨"out.cpp"⟩ linkedOutput after ∧
      ∀ place, after.locate? ⟨"out.cpp"⟩ ≠ some place → ∀ bytes,
        after.root.node? place = some (.file bytes) ↔
          linkedOutput.root.node? place = some (.file bytes) := by
  have hdiffer : Sha256.hexDigest "old".toUTF8 ≠ Sha256.hexDigest "new".toUTF8 := by decide +kernel
  have hold : linkedOutput.bytes? ⟨"out.cpp"⟩ = some "old".toUTF8 := rfl
  have hcollision : linkedOutput.NoCollision ⟨"out.cpp"⟩ "new" := by
    intro bytes hbytes hdigest
    obtain rfl : "old".toUTF8 = bytes := Option.some.inj (hold.symm.trans hbytes)
    exact absurd hdigest hdiffer
  have hresult : (linkedOutput.writeIfChanged ⟨"out.cpp"⟩ "new").2.toOption = some true := by
    decide +kernel
  obtain ⟨after, result, hwritten⟩ :
      ∃ after result, linkedOutput.writeIfChanged ⟨"out.cpp"⟩ "new" = (after, result) := ⟨_, _, rfl⟩
  rw [hwritten] at hresult
  cases result with
  | error e => cases hresult
  | ok changed =>
    cases hresult
    exact ⟨after, hwritten, hcollision, (writeIfChanged_exact hcollision hwritten).1 rfl⟩

end HeaderReflection.FileSystem
