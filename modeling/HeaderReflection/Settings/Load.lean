import HeaderReflection.Failure
import HeaderReflection.FileTree.Locate
import HeaderReflection.Settings
import HeaderReflection.Settings.Document

/-!
# Loading settings

Settings come from a file that is named, or else from the settings file of a directory, if it has
one. What the file does not set keeps its usual value.
-/

namespace HeaderReflection.Settings

/-- Sets what a key names; a key or a kind of value that means nothing is refused. -/
def set (settings : Settings) (key : String) (value : Value) : Option Settings :=
  match key, value with
  | "cmake_api_dir", .text t => some { settings with replyDirectory := ⟨t⟩ }
  | "include_dirs", .texts ts => some { settings with includeDirectories := ts.map Path.mk }
  | "extensions", .texts ts => some { settings with extensions := ts }
  | "marker_namespace", .text t =>
    some { settings with marker := { settings.marker with scope := t } }
  | "marker_name", .text t => some { settings with marker := { settings.marker with name := t } }
  | "runtime_header", .text t => some { settings with runtimeHeader := t }
  | "follow_includes", .flag b => some { settings with followIncludes := b }
  | _, _ => none

/-- The settings that a document makes; no key may come twice. -/
def ofDocument (text : String) : Option Settings := do
  let pairs ← Document.read text
  if (pairs.map (·.1)).Nodup then pairs.foldlM (fun s p => s.set p.1 p.2) {} else none

/-- The settings in a file. -/
def ofFile (fs : FileSystem) (file : Path) : Except Failure Settings :=
  match fs.text? file with
  | none => .error (.unreadable file)
  | some text =>
    match ofDocument text with
    | none => .error (.malformed file none)
    | some settings => .ok settings

/-- The settings of a run in a directory. -/
def load (fs : FileSystem) (named : Option Path) (directory : Path) : Except Failure Settings :=
  match named with
  | some file => if fs.exists? file then ofFile fs file else .error (.noSettings file)
  | none =>
    let file := directory.join ⟨fileName⟩
    if fs.exists? file then ofFile fs file else .ok {}

end HeaderReflection.Settings
