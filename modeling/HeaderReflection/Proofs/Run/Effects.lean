import HeaderReflection.Proofs.FileTree.Writing
import HeaderReflection.Run

/-!
# What a run changes

Only a command that writes its output changes files, and it does so after every file has been
parsed. So a run that fails before it writes leaves the tree as it was, and a run that succeeds
changes the output alone, but for missing directories above it; the output then holds the text that
is printed when nothing is to be written (`run_writes_output_or_nothing`).
-/

namespace HeaderReflection

/-- The command that prints what another one writes. -/
def Command.printing : Command → Command
  | .generate output _ => .generate output true
  | command => command

/-- The command line that differs in that nothing is written. -/
def CommandLine.printing (line : CommandLine) : CommandLine :=
  { line with command := line.command.printing }

/-- The failures that making the directories above the output and writing the output end in. -/
def Failure.IsOfWriting (output : Path) (e : Failure) : Prop :=
  (∃ directory, output.parent? = some directory ∧ e = .noDirectory directory) ∨
    e = .unwritable output

/-! ## Commands -/

namespace Inputs

variable (fs : FileSystem) (settings : Settings) (inputs : Inputs)

/-- The commands that only print leave the files alone. -/
theorem perform_fs {command : Command} (h : ∀ output, command ≠ .generate output false) :
    (inputs.perform fs settings command).fs = fs := by
  cases command with
  | dependencies oneLine => rfl
  | inspect format markedOnly => rfl
  | generate output printOnly =>
    cases printOnly with
    | false => exact absurd rfl (h output)
    | true =>
      show (inputs.generate fs settings output true).fs = fs
      unfold generate
      split <;> rfl

/-- Printing and writing find the same failure or the same text, and this text is written. -/
theorem generate_cases (output : Path) :
    (∃ e, (inputs.generate fs settings output false).result = .error e ∧
        (inputs.generate fs settings output true).result = .error e ∧
        (inputs.generate fs settings output false).fs = fs) ∨
      ∃ text count, (inputs.generate fs settings output true).result = .ok text ∧
        (inputs.generate fs settings output false).fs = (fs.writeIfChanged output text).1 ∧
        (inputs.generate fs settings output false).result =
          (fs.writeIfChanged output text).2.map (writtenText output count) := by
  unfold generate
  split
  next skipped e hclasses => exact .inl ⟨e, rfl, rfl, rfl⟩
  next skipped set classes hclasses => exact .inr ⟨_, _, rfl, rfl, rfl⟩

/-- The command that writes fails without a change, or it fails to write, or the output holds the
text that is printed otherwise. -/
theorem generate_spec (output : Path) {outcome : Outcome}
    (h : inputs.generate fs settings output false = outcome) :
    (∃ e, outcome.result = .error e ∧
        (outcome.fs = fs ∨
          e.IsOfWriting output ∧ FileSystem.ChangesOnly output fs outcome.fs)) ∨
      ∃ message text, outcome.result = .ok message ∧
        (inputs.generate fs settings output true).result = .ok text ∧
        FileSystem.ChangesOnly output fs outcome.fs ∧
        (fs.NoCollision output text → outcome.fs.text? output = some text) := by
  subst h
  rcases inputs.generate_cases fs settings output with
    ⟨e, hresult, -, hfs⟩ | ⟨text, count, hprinted, hfs, hresult⟩
  · exact .inl ⟨e, hresult, .inl hfs⟩
  · rw [hfs, hresult]
    cases hwrite : fs.writeIfChanged output text with
    | mk written result =>
      obtain ⟨hchanges, hspec⟩ := FileSystem.writeIfChanged_spec hwrite
      cases result with
      | error e => exact .inl ⟨e, rfl, .inr ⟨hspec, hchanges⟩⟩
      | ok changed => exact .inr ⟨_, text, rfl, hprinted, hchanges, hspec⟩

end Inputs

/-! ## Runs -/

namespace CommandLine

theorem report_of_ok {line : CommandLine} {outcome : Outcome} {text : String}
    (h : outcome.result = .ok text) :
    (line.report outcome).exit = 0 ∧ (line.report outcome).out = text := by
  rw [report, h]
  exact ⟨rfl, rfl⟩

theorem report_of_error {line : CommandLine} {outcome : Outcome} {e : Failure}
    (h : outcome.result = .error e) : (line.report outcome).exit = 1 := by
  rw [report, h]

end CommandLine

theorem run_of_line {words : List String} {line : CommandLine}
    (h : CommandLine.ofArguments words = .ok line) (fs : FileSystem) :
    run fs words = ((line.perform fs).fs, line.report (line.perform fs)) := by
  rw [run, h]

/-- **A run writes its output or nothing.** A command that only prints leaves the tree as it was. So
does one that writes, if it fails before it writes. If it succeeds, it changes the output and
missing directories above it alone, and the output holds the text that the same command line prints
when nothing is to be written. -/
theorem run_writes_output_or_nothing {fs : FileSystem} {words : List String} {line : CommandLine}
    (h : CommandLine.ofArguments words = .ok line) :
    ((∀ output, line.command ≠ .generate output false) → (run fs words).1 = fs) ∧
      ∀ output, line.command = .generate output false →
        ((run fs words).2.exit ≠ 0 → ∃ e, (line.perform fs).result = .error e ∧
          ((run fs words).1 = fs ∨
            e.IsOfWriting output ∧ FileSystem.ChangesOnly output fs (run fs words).1)) ∧
        ((run fs words).2.exit = 0 →
          FileSystem.ChangesOnly output fs (run fs words).1 ∧
          (line.printing.report (line.printing.perform fs)).exit = 0 ∧
          (fs.NoCollision output (line.printing.report (line.printing.perform fs)).out →
            (run fs words).1.text? output =
              some (line.printing.report (line.printing.perform fs)).out)) := by
  rw [run_of_line h]
  dsimp only
  cases hsettings : Settings.load fs line.settings (.ofPlace fs.start) with
  | error e =>
    have hperform : line.perform fs = { fs := fs, result := .error e } := by
      rw [CommandLine.perform, hsettings]
    rw [hperform]
    refine ⟨fun _ => rfl, fun output _ => ⟨fun _ => ⟨e, rfl, .inl rfl⟩, fun hexit => ?_⟩⟩
    rw [CommandLine.report_of_error rfl] at hexit
    cases hexit
  | ok settings =>
    have hperform : ∀ line' : CommandLine, line'.settings = line.settings →
        line'.perform fs = line'.inputs.perform fs (line'.adjust settings) line'.command := by
      intro line' hsame
      rw [CommandLine.perform, hsame, hsettings]
    rw [hperform line rfl, hperform line.printing rfl]
    refine ⟨line.inputs.perform_fs fs _, fun output hcommand => ?_⟩
    have hwrites : line.inputs.perform fs (line.adjust settings) line.command =
        line.inputs.generate fs (line.adjust settings) output false := by
      rw [hcommand]
      rfl
    have hprints : line.printing.inputs.perform fs (line.printing.adjust settings)
        line.printing.command = line.inputs.generate fs (line.adjust settings) output true := by
      rw [CommandLine.printing, hcommand]
      rfl
    rw [hwrites, hprints]
    rcases line.inputs.generate_spec fs (line.adjust settings) output rfl with
      ⟨e, hfails, hchanges⟩ | ⟨message, text, hsucceeds, hprinted, hchanges, htext⟩
    · refine ⟨fun _ => ⟨e, hfails, hchanges⟩, fun hexit => ?_⟩
      rw [CommandLine.report_of_error hfails] at hexit
      cases hexit
    · refine ⟨fun hexit => absurd (CommandLine.report_of_ok hsucceeds).1 hexit, fun _ => ?_⟩
      obtain ⟨hexit, hout⟩ := @CommandLine.report_of_ok line.printing _ _ hprinted
      rw [hout]
      exact ⟨hchanges, hexit, htext⟩

/-- A tree with one header, and no directory for the output. -/
def singleHeader : FileSystem where
  root := .directory [("a.h", .file "class [[SH::Reflect]] A \x7b\x7d;\n".toUTF8)]
  start := []

theorem run_writes_output_or_nothing_below :
    let words := ["generate", "-f", "a.h", "-o", "out/a.cpp"]
    ∃ line, CommandLine.ofArguments words = .ok line ∧
      line.command = .generate ⟨"out/a.cpp"⟩ false ∧ (run singleHeader words).2.exit = 0 ∧
      ((∀ output, line.command ≠ .generate output false) →
        (run singleHeader words).1 = singleHeader) ∧
      ∀ output, line.command = .generate output false →
        ((run singleHeader words).2.exit ≠ 0 → ∃ e, (line.perform singleHeader).result = .error e ∧
          ((run singleHeader words).1 = singleHeader ∨ e.IsOfWriting output ∧
            FileSystem.ChangesOnly output singleHeader (run singleHeader words).1)) ∧
        ((run singleHeader words).2.exit = 0 →
          FileSystem.ChangesOnly output singleHeader (run singleHeader words).1 ∧
          (line.printing.report (line.printing.perform singleHeader)).exit = 0 ∧
          (singleHeader.NoCollision output
              (line.printing.report (line.printing.perform singleHeader)).out →
            (run singleHeader words).1.text? output =
              some (line.printing.report (line.printing.perform singleHeader)).out)) := by
  have hexit : (run singleHeader ["generate", "-f", "a.h", "-o", "out/a.cpp"]).2.exit = 0 := by
    decide +kernel
  exact ⟨_, rfl, rfl, hexit, run_writes_output_or_nothing rfl⟩

end HeaderReflection
