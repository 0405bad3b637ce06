import CodeAtlas.Outline.Scanner

/-! Text within TypeScript and JavaScript sources that has a lexical form of its own:
templates and markup.

Both are read character by character with a stack that tells what is open. A
template ends when nothing is open any more. Markup also stops at the brace that
begins embedded code, and goes on after the brace that ends it. -/
namespace CodeAtlas.Outline.TypeScript

/-! ### Templates -/

inductive TemplatePart where
  | literal
  /-- After a backslash. -/
  | escape
  /-- After a dollar sign. -/
  | dollar
  /-- Code, with so many braces open. -/
  | code (braces : Nat)
  | quoted (quote : Char)
deriving DecidableEq

namespace TemplatePart

/-- What is open after a character, innermost first. -/
def step : List TemplatePart → Char → List TemplatePart
  | [], _ => []
  | escape :: rest, _ => rest
  | literal :: rest, c => inLiteral rest c
  | dollar :: rest, c =>
    if c == '\x7b' then code 0 :: rest
    else
      match rest with
      | literal :: rest => inLiteral rest c
      | rest => rest
  | code n :: rest, c =>
    if c == '\x7b' then code (n + 1) :: rest
    else if c == '\x7d' then if n == 0 then rest else code (n - 1) :: rest
    else if c == '\x60' then literal :: code n :: rest
    else if c == '"' || c == '\'' then quoted c :: code n :: rest
    else code n :: rest
  | quoted q :: rest, c =>
    if c == q then rest else if c == '\\' then escape :: quoted q :: rest else quoted q :: rest
where
  inLiteral (rest : List TemplatePart) (c : Char) : List TemplatePart :=
    if c == '\x60' then rest
    else if c == '\\' then escape :: literal :: rest
    else if c == '$' then dollar :: literal :: rest
    else literal :: rest

/-- How many characters it takes until nothing is open. -/
def length : List TemplatePart → List Char → Nat
  | _, [] => 0
  | parts, c :: cs =>
    match step parts c with
    | [] => 1
    | parts => 1 + length parts cs

end TemplatePart

/-! ### Markup -/

inductive MarkupPart where
  /-- After an angle bracket. -/
  | opening
  | tag
  /-- After a slash in a tag. -/
  | slash
  | quoted (quote : Char)
  | children
  | closing
deriving DecidableEq

namespace MarkupPart

/-- What is open after a character, innermost first. -/
def step : List MarkupPart → Char → List MarkupPart
  | [], _ => []
  | opening :: rest, c =>
    if c == '/' then closing :: rest.drop 1 else if c == '>' then children :: rest else tag :: rest
  | tag :: rest, c => inTag rest c
  | slash :: rest, c => if c == '>' then rest else inTag rest c
  | quoted q :: rest, c => if c == q then rest else quoted q :: rest
  | children :: rest, c => if c == '<' then opening :: children :: rest else children :: rest
  | closing :: rest, c => if c == '>' then rest else closing :: rest
where
  inTag (rest : List MarkupPart) (c : Char) : List MarkupPart :=
    if c == '>' then children :: rest
    else if c == '/' then slash :: rest
    else if c == '"' || c == '\'' then quoted c :: tag :: rest
    else tag :: rest

/-- Does a brace begin embedded code here? -/
def takesCode : List MarkupPart → Bool
  | children :: _ | tag :: _ => true
  | _ => false

/-- How many characters there are before embedded code or the end, and what is open
then. -/
def length : List MarkupPart → List Char → Nat × List MarkupPart
  | parts, [] => (0, parts)
  | parts, c :: cs =>
    if takesCode parts && c == '\x7b' then (0, parts)
    else
      match step parts c with
      | [] => (1, [])
      | parts => let (n, parts) := length parts cs; (n + 1, parts)

end MarkupPart

/-- Does an angle bracket begin an element, as against type parameters? An element
has attributes, or ends at once, or is closed later on. -/
def beginsElement (afterBracket : List Char) : Bool :=
  match afterBracket with
  | '>' :: _ => true
  | c :: _ =>
    let n := runLength (fun c => isNamePart c || c == '.' || c == '-' || c == ':' || c == '$') afterBracket
    let name := afterBracket.take n
    let rest := (afterBracket.drop n).dropWhile Text.isSpace
    isNameStart c && match rest with
      | '/' :: '>' :: _ | '\x7b' :: _ => true
      | '>' :: more => Text.occursIn ('<' :: '/' :: name) more
      | d :: _ =>
        isNameStart d && String.ofList (rest.takeWhile isNamePart) != "extends"
      | [] => false
  | [] => false

end CodeAtlas.Outline.TypeScript
