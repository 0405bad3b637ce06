import CodeAtlas.Outline.Token
import CodeAtlas.Text.Chars

/-! Cutting a source text into tokens.

A scanner says what stands at the front of a text: how many characters belong
together, and whether they are blank or a token of some kind. Cutting a text takes
one such piece after the other until nothing is left, so no character is lost. -/
namespace CodeAtlas.Outline

/-- What the first piece of a text is. -/
inductive PieceKind where
  | blank
  /-- Blank, and a new line begins after it. -/
  | newline
  | token (kind : TokenKind)
deriving Inhabited

/-- The first piece of a text: its kind and its length. -/
structure Piece where
  kind : PieceKind
  length : Nat := 1

namespace Piece

def blank (length : Nat) : Piece := ⟨.blank, length⟩

def newline : Piece := ⟨.newline, 1⟩

def word (length : Nat) : Piece := ⟨.token .word, length⟩

def number (length : Nat) : Piece := ⟨.token .number, length⟩

def text (length : Nat) : Piece := ⟨.token .text, length⟩

def mark (length : Nat) : Piece := ⟨.token .mark, length⟩

def opening (d : Delimiter) : Piece := ⟨.token (.opening d), 1⟩

def closing : Piece := ⟨.token .closing, 1⟩

end Piece

/-- The pieces of a language; what a piece is may depend on those before it. -/
structure Scanner (σ : Type) where
  start : σ
  /-- The first piece of a text that is not empty, and the state after it. -/
  next : σ → List Char → Piece × σ

namespace Scanner

variable {σ : Type}

/-- The tokens of a text of at most `fuel` characters, which begins at a place and
after some blank text. -/
def tokensFrom (s : Scanner σ) : Nat → σ → Position → String → Bool → List Char → List Token
  | 0, _, _, _, _, _ => []
  | _, _, _, _, _, [] => []
  | fuel + 1, state, place, gap, fresh, c :: cs =>
    let (piece, state) := s.next state (c :: cs)
    let front := c :: cs.take (piece.length - 1)
    let rest := cs.drop (piece.length - 1)
    let stop := front.foldl Position.after place
    let text := String.ofList front
    match piece.kind with
    | .token kind =>
      ⟨kind, text, ⟨place, stop⟩, gap, fresh⟩ :: s.tokensFrom fuel state stop "" false rest
    | .blank => s.tokensFrom fuel state stop (gap ++ text) fresh rest
    | .newline => s.tokensFrom fuel state stop (gap ++ text) true rest

def tokens (s : Scanner σ) (text : String) : List Token :=
  s.tokensFrom text.length s.start {} "" false text.toList

/-- The trees of a text. -/
def trees (s : Scanner σ) (text : String) : List Tree := forest (s.tokens text)

end Scanner

/-! ### Lengths -/

/-- How many characters the front of a text has that are all of a class. -/
def runLength (p : Char → Bool) (cs : List Char) : Nat := (cs.takeWhile p).length

/-- The rest of a line. -/
def lineLength (cs : List Char) : Nat := runLength (· != '\n') cs

/-- The rest of a string up to and with its quote, where a backslash takes the next
character along. -/
def quotedLength (quote : Char) : List Char → Nat
  | [] => 0
  | [_] => 1
  | c :: d :: rest =>
    if c == quote then 1
    else if c == '\\' then 2 + quotedLength quote rest
    else 1 + quotedLength quote (d :: rest)

/-- The rest of a text up to and with some ending. -/
def lengthThrough (ending : List Char) : List Char → Nat
  | [] => 0
  | c :: cs => if Text.startsWith ending (c :: cs) then ending.length else 1 + lengthThrough ending cs

/-- The kind of an ASCII bracket. -/
def bracket? : Char → Option Piece
  | '(' => some (.opening .paren)
  | '[' => some (.opening .bracket)
  | '\x7b' => some (.opening .brace)
  | ')' | ']' | '\x7d' => some .closing
  | _ => none

/-- Letters, digits, underscores and what other scripts have of these. -/
def isNamePart (c : Char) : Bool := Text.isWord c

def isNameStart (c : Char) : Bool := isNamePart c && !Text.isAsciiDigit c

/-- A number: digits and letters, and then what follows a decimal point. -/
def numberLength (cs : List Char) : Nat :=
  let whole := runLength isNamePart cs
  match cs.drop whole with
  | '.' :: d :: rest => if Text.isAsciiDigit d then whole + 1 + runLength isNamePart (d :: rest) else whole
  | _ => whole

/-- The longest of some marks at the front of a text, or its first character. -/
def markLength (marks : List String) (cs : List Char) : Nat :=
  marks.foldl (fun n m => if n < m.length && Text.startsWith m.toList cs then m.length else n) 1

end CodeAtlas.Outline
