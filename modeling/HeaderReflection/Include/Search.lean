import HeaderReflection.FileTree.Locate

/-!
# Searching include directories

An include is looked for in the include directories in order. The other way round, a header gets
the text by which it can be included: its path below the first include directory that it lies in,
or else its name alone.
-/

namespace HeaderReflection.Include

/-- The file that an include leads to: in the first directory that has it. -/
def resolve? (fs : FileSystem) (directories : List Path) (target : String) : Option Path :=
  (directories.map fun d => d.join ⟨target⟩).find? fs.isFile

/-- The path of an entry with all links followed; one that is not there keeps its path. -/
def canonical (fs : FileSystem) (p : Path) : Path :=
  match fs.locate? p with
  | some place => .ofPlace place
  | none => p

/-- The text by which a header can be included. -/
def textFor (fs : FileSystem) (directories : List Path) (p : Path) : String :=
  let below := directories.findSome? fun d =>
    (fs.locate? d).bind fun place => (canonical fs p).below? place
  let text := match below with
    | some rest => rest.text
    | none => p.fileName?.getD ""
  text.map fun c => if c = '\\' then '/' else c

theorem isFile_of_resolve? {fs : FileSystem} {directories : List Path} {target : String}
    {p : Path} (h : resolve? fs directories target = some p) : fs.isFile p = true :=
  List.find?_some h

end HeaderReflection.Include
