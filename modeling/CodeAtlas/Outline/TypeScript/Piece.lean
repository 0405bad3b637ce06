import CodeAtlas.Outline.TypeScript.Markup

/-! The tokens of TypeScript and JavaScript sources.

After an operand a slash divides and an angle bracket compares; anywhere else they
begin a regular expression and, in files that have it, markup. -/
namespace CodeAtlas.Outline.TypeScript

/-- What an open brace belongs to. -/
inductive BraceOwner where
  | code
  /-- Markup, with what is open in it. -/
  | markup (parts : List MarkupPart)

/-- What the next piece depends on. -/
structure ScanState where
  /-- Was the last token the end of an operand? -/
  operand : Bool := false
  /-- Was the last token a dot, so that any word is a name? -/
  afterDot : Bool := false
  /-- The open markup; none while in code. -/
  markup : List MarkupPart := []
  braces : List BraceOwner := []
  /-- Is there nothing before the next piece? -/
  atStart : Bool := true

/-- Words that an operand may follow. -/
def operatorWords : List String :=
  ["typeof", "void", "delete", "await", "yield", "new", "throw", "return", "case", "default", "else",
    "do", "in", "of", "instanceof", "extends", "implements"]

/-- Any character may be in a name that is neither blank nor an ASCII mark. -/
def isIdentifierPart (c : Char) : Bool :=
  if c.toNat < 128 then Text.isAsciiAlphanumeric c || c == '_' || c == '$' || c == '\\'
  else !Text.isSpace c && c != '\uFEFF'

def isIdentifierStart (c : Char) : Bool := isIdentifierPart c && !Text.isAsciiDigit c

def marks : List String :=
  ["=>", "==", "===", "!=", "!==", "<=", "<<", "<<=", "&&", "||", "??", "?.", "...", "++", "--", "**",
    "&&=", "||=", "??=", "+=", "-=", "*=", "/=", "%=", "&=", "|=", "^=", "**="]

/-- The rest of a regular expression, in or out of a class of characters. -/
def patternLength (inClass : Bool) : List Char → Nat
  | [] => 0
  | [_] => 1
  | c :: d :: rest =>
    if c == '\\' then 2 + patternLength inClass rest
    else if c == '[' then 1 + patternLength true (d :: rest)
    else if c == ']' then 1 + patternLength false (d :: rest)
    else if c == '/' && !inClass then 1 + runLength isIdentifierPart (d :: rest)
    else 1 + patternLength inClass (d :: rest)

def numberLength (cs : List Char) : Nat :=
  let whole := runLength isIdentifierPart cs
  match cs.drop whole with
  | '.' :: rest => whole + 1 + runLength isIdentifierPart rest
  | _ => whole

/-- A comment with a line break in it ends the line. -/
def commentPiece (rest : List Char) : Piece :=
  let n := lengthThrough ['*', '/'] rest
  ⟨if (rest.take n).contains '\n' then .newline else .blank, 2 + n⟩

/-- The piece and the state after it, in code. -/
def codePiece (hasMarkup : Bool) (s : ScanState) (cs : List Char) : Piece × ScanState :=
  let token (p : Piece) (operand : Bool) : Piece × ScanState := (p, { s with operand, afterDot := false })
  match cs with
  | '\n' :: _ => (.newline, s)
  | '/' :: '/' :: rest => (.blank (2 + lineLength rest), s)
  | '/' :: '*' :: rest => (commentPiece rest, s)
  | '\x60' :: rest => token (.text (1 + TemplatePart.length [.literal] rest)) true
  | '"' :: rest => token (.text (1 + quotedLength '"' rest)) true
  | '\'' :: rest => token (.text (1 + quotedLength '\'' rest)) true
  | '\x7b' :: _ => (.opening .brace, { s with operand := false, afterDot := false, braces := .code :: s.braces })
  | '\x7d' :: _ =>
    match s.braces with
    | .markup parts :: braces => (.closing, { s with operand := true, markup := parts, braces })
    | braces => (.closing, { s with operand := false, afterDot := false, braces := braces.drop 1 })
  | c :: rest =>
    if Text.isSpace c || c == '\uFEFF' then (.blank 1, s)
    else if c == '#' && s.atStart && Text.startsWith ['!'] rest then (.blank (1 + lineLength rest), s)
    else if Text.isAsciiDigit c then token (.number (numberLength cs)) true
    else if isIdentifierStart c || (c == '#' && (rest.head?.map isIdentifierStart).getD false) then
      let n := 1 + runLength isIdentifierPart rest
      token (.word n) (s.afterDot || !operatorWords.contains (String.ofList (cs.take n)))
    else if c == '/' && !s.operand then token (.text (1 + patternLength false rest)) true
    else if c == '<' && hasMarkup && !s.operand && beginsElement rest then
      let (n, markup) := MarkupPart.length [.opening] rest
      (.text (1 + n), { s with operand := true, afterDot := false, markup })
    else
      match bracket? c with
      | some b => token b (c == ')' || c == ']')
      | none =>
        let n := markLength marks cs
        let mark := String.ofList (cs.take n)
        let mark := if mark == "?." && ((cs.drop 2).head?.map Text.isAsciiDigit).getD false then "?" else mark
        (.mark mark.length,
          { s with operand := s.operand && ["++", "--", "!"].contains mark, afterDot := mark == "." || mark == "?." })
  | [] => (.blank 1, s)

/-- The piece and the state after it, in code or markup. -/
def piece (hasMarkup : Bool) (s : ScanState) (cs : List Char) : Piece × ScanState :=
  match s.markup, cs with
  | [], _ =>
    let (p, s) := codePiece hasMarkup s cs
    (p, { s with atStart := false })
  | parts, '\x7b' :: _ =>
    if MarkupPart.takesCode parts then
      (.opening .embedded, { s with operand := false, afterDot := false, markup := [], braces := .markup parts :: s.braces })
    else textPiece parts
  | parts, _ => textPiece parts
where
  textPiece (parts : List MarkupPart) : Piece × ScanState :=
    let (n, markup) := MarkupPart.length parts cs
    (.text n, { s with operand := true, markup })

def scanner (hasMarkup : Bool) : Scanner ScanState := ⟨{}, piece hasMarkup⟩

end CodeAtlas.Outline.TypeScript
