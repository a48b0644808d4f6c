import HeaderReflection.Model
import HeaderReflection.Path

/-!
# Settings

What a run can be told once for a whole project, with what holds when nothing is said.
-/

namespace HeaderReflection

/-- What a run can be told. -/
structure Settings where
  /-- Where a build folder keeps the replies about its targets. -/
  replyDirectory : Path := ⟨".cmake/api/v1/reply"⟩
  /-- Directories searched for includes after all others. -/
  includeDirectories : List Path := []
  /-- The extensions of files that are read. -/
  extensions : List String := ["cpp", "h"]
  /-- The attribute that selects classes and fields. -/
  marker : Model.Marker := {}
  /-- The header of the runtime. -/
  runtimeHeader : String := "reflection.h"
  /-- Whether the includes of included headers are followed. -/
  followIncludes : Bool := true
  deriving DecidableEq, Repr, Inhabited

namespace Settings

/-- The file in which settings are looked for. -/
def fileName : String := "sht.toml"

/-- Whether a path has one of the extensions of files that are read. -/
def isEligible (settings : Settings) (p : Path) : Bool :=
  p.extension?.any fun e => settings.extensions.contains e

end Settings

end HeaderReflection
