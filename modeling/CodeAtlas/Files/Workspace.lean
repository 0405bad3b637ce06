import CodeAtlas.Config.Reading
import CodeAtlas.Files.IgnoreRule
import CodeAtlas.Index.Provider
import CodeAtlas.Outline.Grammar

/-! A workspace: a directory of source files, with its configuration.

A file belongs to the workspace when neither it nor a directory on the way to it
is left out. The ignore files of all directories above count, also of those above
the workspace: first those of the kind that outranks the others, and of these the
one nearest to the file. Hidden names are left out unless a rule keeps them. -/
namespace CodeAtlas

namespace FileTree
open Files

/-! ### What belongs to a workspace -/

/-- Where rules are kept in a directory; earlier ones outrank later ones. -/
def ignoreFiles : List Place := [[".ignore"], [".gitignore"], [".git", "info", "exclude"]]

/-- The lines of a file, up to the first that is not text. -/
def readableText (f : SourceFile) : String :=
  match String.fromUTF8? f.content with
  | some text => text
  | none =>
    let lines := (f.content.toList.splitBy fun a _ => a != 10).map fun bytes =>
      String.fromUTF8? ⟨bytes.toArray⟩
    String.join ((lines.takeWhile Option.isSome).map (·.getD ""))

/-- The rules of one kind that stand in a directory. -/
def rulesAt (t : FileTree) (kind directory : Place) : List IgnoreRule :=
  match t.file? (directory ++ kind) with
  | some f => IgnoreRule.ofText (readableText f)
  | none => []

/-- The directories above a place, nearest first. -/
def ancestors (p : Place) : List Place := ((List.range p.length).map p.take).reverse

/-- What the rules of all directories above say about a place. -/
def verdict? (t : FileTree) (p : Place) : Option Verdict :=
  let isDirectory := t.isDirectory p
  ignoreFiles.findSome? fun kind =>
    (ancestors p).findSome? fun above =>
      IgnoreRule.verdict? (t.rulesAt kind above) (Text.join "/" (p.drop above.length)) isDirectory

def isLeftOut (t : FileTree) (p : Place) : Bool :=
  match t.verdict? p with
  | some .leaveOut => true
  | some .keep => false
  | none => (p.getLast?.map (Text.hasStart · ".")).getD false

/-- Is a file below the start, with nothing on the way left out? -/
def belongs (t : FileTree) (start p : Place) : Bool :=
  start.isPrefixOf p &&
    (List.range (p.length - start.length)).all fun n => !t.isLeftOut (p.take (start.length + n + 1))

/-- The files of the workspace at a path, as paths below that path. -/
def workspaceFiles (t : FileTree) (root : String) : List String :=
  match t.locate? root with
  | none => []
  | some start =>
    if (t.file? start).isSome then [root]
    else
      (t.files.filter fun (p, _) => t.belongs start p).map fun (p, _) =>
        Path.join root (Text.join "/" (p.drop start.length))

/-- Lists the files whose language is known, and one of `languages` if there are
any, in the order of their identifiers. -/
def resolver (t : FileTree) (root : String) (languages : List Language) : Resolver where
  files scope :=
    let known (path : String) : Bool :=
      let language := Language.ofPath path
      language != .other && (languages.isEmpty || languages.contains language)
    let uris := ((t.workspaceFiles root).filter known).map ("file://" ++ ·)
    .ok ((uris.mergeSort fun a b => a ≤ b).filter scope.contains)

/-! ### Analysis -/

/-- The text of a file of at most `maxBytes` bytes. -/
def read (t : FileTree) (maxBytes : Nat) (uri : String) : Except String String :=
  let path := Uri.path uri
  match t.nodeAt? path with
  | none => .error ("cannot stat " ++ path)
  | some .directory => .error ("cannot read " ++ path)
  | some (.file f) =>
    if maxBytes < f.content.size then
      .error (path ++ " is " ++ toString f.content.size ++ " bytes, over the " ++ toString maxBytes ++ " byte limit")
    else
      match String.fromUTF8? f.content with
      | some text => .ok text
      | none => .error ("cannot read " ++ path)

/-- The analysis of files by their outlines, which knows nothing of references. -/
def provider (t : FileTree) (maxBytes : Nat) : Provider where
  name := "tree-sitter"
  documentSymbols uri :=
    match Outline.Grammar.ofUri? uri with
    | some grammar => grammar.outline <$> t.read maxBytes uri
    | none => .error ("no grammar for " ++ uri)
  documentText := t.read maxBytes
  references _ _ := .ok []
  definition _ _ := .ok []
  implementations _ _ := .ok []
  typeDefinition _ _ := .ok []
  wordAt uri p := (CodeAtlas.wordAt · p) <$> t.read maxBytes uri

/-! ### Configuration -/

/-- Where the configuration of a workspace is looked for. -/
def configPath (root : String) : String := Path.join root ".grove.toml"

/-- The configuration of a workspace; without a file, the default one. -/
def config (t : FileTree) (root : String) : Except AtlasError AtlasConfig :=
  match t.nodeAt? (configPath root) with
  | none => .ok {}
  | some .directory => .error (.io "Is a directory (os error 21)")
  | some (.file f) =>
    match String.fromUTF8? f.content with
    | some text => AtlasConfig.ofText text
    | none => .error (.io "stream did not contain valid UTF-8")

/-- The path of a workspace without detours, if there is one. -/
def canonicalPath (t : FileTree) (root : String) : String := ((t.locate? root).map Path.ofPlace).getD root

end FileTree

end CodeAtlas
