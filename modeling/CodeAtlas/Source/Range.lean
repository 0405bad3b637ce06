import CodeAtlas.Json.Wire
import CodeAtlas.Text.Chars

/-! Places in source files, and the word at a place.

Lines and characters count from zero. A range holds both of its ends. -/
namespace CodeAtlas
open Json

structure Position where
  line : UInt32 := 0
  character : UInt32 := 0
deriving DecidableEq, Inhabited, Repr

/-- Line first, then character. -/
def Position.le (a b : Position) : Bool :=
  a.line < b.line || (a.line == b.line && a.character ≤ b.character)

structure Range where
  start : Position := {}
  stop : Position := {}
deriving DecidableEq, Inhabited, Repr

def Range.contains (r : Range) (p : Position) : Bool := r.start.le p && p.le r.stop

/-- A range that ends before it starts. -/
def Range.isInverted (r : Range) : Bool := !r.start.le r.stop

/-- A file and a range in it. -/
structure Location where
  uri : String
  range : Range
deriving DecidableEq, Inhabited, Repr

instance : Wire Position where
  encode p := .obj [("line", encode p.line), ("character", encode p.character)]
  decode? := record? do
    let line ← required "line"
    let character ← required "character"
    return { line, character }

instance : Wire Range where
  encode r := .obj [("start", encode r.start), ("end", encode r.stop)]
  decode? := record? do
    let start ← required "start"
    let stop ← required "end"
    return { start, stop }

instance : Wire Location where
  encode l := .obj [("uri", encode l.uri), ("range", encode l.range)]
  decode? := record? do
    let uri ← required "uri"
    let range ← required "range"
    return { uri, range }

/-! ### Words -/

/-- Letters, digits and underscores make words. -/
def isWordPart (c : Char) : Bool := Text.isAlphanumeric c || c == '_'

/-- The run of word characters that ends at, begins at or holds the position; past
the end of the line the end counts. -/
def wordAt (text : String) (p : Position) : Option String := do
  let line ← (Text.lines text)[p.line.toNat]?
  let chars := line.toList
  let column := min p.character.toNat chars.length
  let before := ((chars.take column).reverse.takeWhile isWordPart).reverse
  let after := (chars.drop column).takeWhile isWordPart
  let word := before ++ after
  if word.isEmpty then none else some (String.ofList word)

end CodeAtlas
