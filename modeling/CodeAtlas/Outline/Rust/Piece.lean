import CodeAtlas.Outline.Scanner

/-! The tokens of Rust sources.

Comments may hold comments. A quote begins a character when one stands between it
and another quote, and a lifetime otherwise. -/
namespace CodeAtlas.Outline.Rust

/-- The rest of a comment that has so many levels still open. -/
def commentLength : Nat → List Char → Nat
  | 0, _ => 0
  | _, [] => 0
  | _, [_] => 1
  | depth + 1, c :: d :: rest =>
    if c == '*' && d == '/' then 2 + commentLength depth rest
    else if c == '/' && d == '*' then 2 + commentLength (depth + 2) rest
    else 1 + commentLength (depth + 1) (d :: rest)

/-- A raw string from its first number sign or quote on. -/
def rawStringLength? (cs : List Char) : Option Nat :=
  let signs := runLength (· == '#') cs
  match cs.drop signs with
  | '"' :: rest => some (signs + 1 + lengthThrough ('"' :: List.replicate signs '#') rest)
  | _ => none

/-- A character or a lifetime, from its first quote on. -/
def quotePiece : List Char → Piece
  | _ :: '\\' :: _ :: rest => .text (4 + runLength (· != '\'') rest)
  | _ :: _ :: '\'' :: _ => .text 3
  | _ :: rest => .word (1 + runLength isNamePart rest)
  | [] => .blank 1

/-- A piece that begins with a name, of which `n` characters are the name. -/
def namePiece (n : Nat) (cs : List Char) : Piece :=
  let name := String.ofList (cs.take n)
  let rest := cs.drop n
  match name, rest with
  | "r", '#' :: c :: more =>
    if isNameStart c then .word (n + 1 + runLength isNamePart (c :: more)) else rawOrName name rest
  | "b", '"' :: more | "c", '"' :: more => .text (n + 1 + quotedLength '"' more)
  | "b", '\'' :: more => .text (n + (quotePiece ('\'' :: more)).length)
  | _, _ => rawOrName name rest
where
  rawOrName (name : String) (rest : List Char) : Piece :=
    if ["r", "br", "cr"].contains name then
      match rawStringLength? rest with
      | some m => .text (n + m)
      | none => .word n
    else .word n

def marks : List String := ["->", "=>", "::", "!=", "==", ".."]

def piece (cs : List Char) : Piece :=
  match cs with
  | '\n' :: _ => .newline
  | '/' :: '/' :: rest => .blank (2 + lineLength rest)
  | '/' :: '*' :: rest => .blank (2 + commentLength 1 rest)
  | '"' :: rest => .text (1 + quotedLength '"' rest)
  | '\'' :: _ => quotePiece cs
  | c :: _ =>
    if Text.isSpace c || c == '\uFEFF' then .blank 1
    else if Text.isAsciiDigit c then .number (numberLength cs)
    else if isNameStart c then namePiece (runLength isNamePart cs) cs
    else (bracket? c).getD (.mark (markLength marks cs))
  | [] => .blank 1

def scanner : Scanner Unit := ⟨(), fun _ cs => (piece cs, ())⟩

end CodeAtlas.Outline.Rust
