import CodeAtlas.Files.Tree

/-! Files as they are written in JSON.

A file has a path, and its content as a text or as the numbers of its bytes. -/
namespace CodeAtlas.FileTree
open Json

/-- The content of a file. -/
def content? (j : Json) : Option ByteArray :=
  match j.field? "text" with
  | some text => (decode? text : Option String).map String.toUTF8
  | none => do
    let bytes : List UInt8 ← (j.field? "bytes").bind decode?
    return ⟨bytes.toArray⟩

/-- The files of a list; those without a time were written at the given one. -/
def writeAll? (t : FileTree) (usual : Int) (files : List Json) : Option FileTree :=
  files.foldlM (fun t j => do
    let path ← (j.field? "path").bind decode?
    let modified := match j.field? "mtime" with
      | some (.int n) => n
      | _ => usual
    return t.write path ⟨← content? j, modified⟩) t

end CodeAtlas.FileTree
