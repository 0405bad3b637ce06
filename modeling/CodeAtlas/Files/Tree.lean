import CodeAtlas.Source.Language

/-! Files and directories as they are at one moment.

A place is given by the names on the way to it from the top. Directories are there
because something is in them, or in their own right. -/
namespace CodeAtlas

structure SourceFile where
  content : ByteArray
  /-- When it was written, in milliseconds since 1970. -/
  modified : Int

abbrev Place := List String

structure FileTree where
  files : List (Place × SourceFile) := []
  /-- Directories that may be empty. -/
  directories : List Place := []
  /-- Where paths begin that do not begin at the top. -/
  workingDirectory : Place := []

/-- What may be at a place. -/
inductive FileNode where
  | file (f : SourceFile)
  | directory

namespace Path

def isAbsolute (path : String) : Bool := Text.hasStart path "/"

/-- A path below another one; an absolute path stays as it is. -/
def join (base path : String) : String :=
  if isAbsolute path || base.isEmpty then path
  else if Text.hasEnd base "/" then base ++ path
  else base ++ "/" ++ path

/-- A place as an absolute path. -/
def ofPlace (p : Place) : String := "/" ++ Text.join "/" p

end Path

namespace FileTree

def file? (t : FileTree) (p : Place) : Option SourceFile := t.files.lookup p

def isDirectory (t : FileTree) (p : Place) : Bool :=
  p.isEmpty || t.directories.any (p.isPrefixOf ·) || t.files.any fun (q, _) => p.isPrefixOf q && p != q

def exists? (t : FileTree) (p : Place) : Bool := (t.file? p).isSome || t.isDirectory p

/-- One step on the way along a path. -/
def stepTo? (t : FileTree) (p : Place) (name : String) : Option Place :=
  if !t.isDirectory p then none
  else if name == "" || name == "." then some p
  else if name == ".." then some p.dropLast
  else if t.exists? (p ++ [name]) then some (p ++ [name])
  else none

/-- The place a path leads to, if there is something. -/
def locate? (t : FileTree) (path : String) : Option Place :=
  if path.isEmpty then none
  else (Text.split '/' path).foldlM t.stepTo? (if Path.isAbsolute path then [] else t.workingDirectory)

def nodeAt? (t : FileTree) (path : String) : Option FileNode := do
  let p ← t.locate? path
  match t.file? p with
  | some f => return .file f
  | none => return .directory

/-- The place of a new file. -/
def placeOf (t : FileTree) (path : String) : Place :=
  (if Path.isAbsolute path then [] else t.workingDirectory) ++
    (Text.split '/' path).filter fun name => name != "" && name != "."

def write (t : FileTree) (path : String) (f : SourceFile) : FileTree :=
  let p := t.placeOf path
  { t with files := (p, f) :: t.files.filter (·.1 != p), directories := p.dropLast :: t.directories }

/-- Remove a file; the directory it was in stays. -/
def remove (t : FileTree) (path : String) : FileTree :=
  let p := t.placeOf path
  { t with files := t.files.filter (·.1 != p) }

/-- The text of a file in UTF-8; nothing else is text. -/
def text? (t : FileTree) (path : String) : Option String := do
  match ← t.nodeAt? path with
  | .file f => String.fromUTF8? f.content
  | .directory => none

/-- When the file that a resource names was written. -/
def lastModified (t : FileTree) (resource : String) : Option Int := do
  match ← t.nodeAt? (Uri.path resource) with
  | .file f => return f.modified
  | .directory => none

end FileTree

end CodeAtlas
