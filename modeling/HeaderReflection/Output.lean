import HeaderReflection.Failure
import HeaderReflection.FileTree.Change
import HeaderReflection.Sha256

/-!
# Writing the output

The output is written only when the file does not hold it already, so that build systems see no
change where there is none. Missing directories above the file are made first.
-/

namespace HeaderReflection.FileSystem

/-- The digest of a file. -/
def checksum (fs : FileSystem) (p : Path) : Except Failure String :=
  match fs.bytes? p with
  | some bytes => .ok (Sha256.hexDigest bytes)
  | none => .error (.unreadable p)

/-- Whether a path leads to a file with the digest of a text. -/
def holds (fs : FileSystem) (p : Path) (content : String) : Bool :=
  (fs.bytes? p).any fun bytes => Sha256.hexDigest bytes = Sha256.hexDigest content.toUTF8

/-- Makes the directories above a file. -/
def prepare (fs : FileSystem) (p : Path) : FileSystem × Option Failure :=
  match p.parent? with
  | none => (fs, none)
  | some directory =>
    match fs.makeDirectories directory with
    | (fs, true) => (fs, none)
    | (fs, false) => (fs, some (.noDirectory directory))

/-- Writes a text to a file unless the file holds it already; tells whether it was written. -/
def writeIfChanged (fs : FileSystem) (p : Path) (content : String) :
    FileSystem × Except Failure Bool :=
  if fs.holds p content then (fs, .ok false)
  else
    match fs.prepare p with
    | (fs, some failure) => (fs, .error failure)
    | (fs, none) =>
      match fs.write? p content.toUTF8 with
      | some fs => (fs, .ok true)
      | none => (fs, .error (.unwritable p))

end HeaderReflection.FileSystem
