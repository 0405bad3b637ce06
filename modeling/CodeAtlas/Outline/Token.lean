import CodeAtlas.Symbol.Raw

/-! Tokens of source files, and the trees that brackets make of them.

Columns count bytes. A token remembers the blank text before it, so that the text
between any two tokens can be read back. -/
namespace CodeAtlas

/-- The place after a character. -/
def Position.after (p : Position) (c : Char) : Position :=
  if c == '\n' then ⟨p.line + 1, 0⟩ else ⟨p.line, p.character + c.utf8Size.toUInt32⟩

namespace Outline

/-- What brackets enclose; embedded code stands in braces inside of markup. -/
inductive Delimiter where
  | paren | bracket | brace | embedded
deriving DecidableEq, Inhabited, Repr

inductive TokenKind where
  | word
  | number
  /-- Strings, patterns and markup, with all that marks them off. -/
  | text
  | mark
  | opening (d : Delimiter)
  | closing
deriving DecidableEq, Inhabited, Repr

structure Token where
  kind : TokenKind
  text : String
  range : Range
  /-- The blank text before it. -/
  gap : String := ""
  /-- Does a new line begin before it? -/
  fresh : Bool := false
deriving Inhabited

/-- A token, or brackets and what is in them. -/
inductive Tree where
  | leaf (t : Token)
  | group (d : Delimiter) (opening : Token) (inner : List Tree) (closing : Token)
deriving Inhabited

namespace Tree

mutual

/-- The tokens of a tree in order. -/
def tokens : Tree → List Token
  | leaf t => [t]
  | group _ opening inner closing => opening :: (tokensOfAll inner ++ [closing])

def tokensOfAll : List Tree → List Token
  | [] => []
  | t :: rest => tokens t ++ tokensOfAll rest

end

def first : Tree → Token
  | leaf t => t
  | group _ opening _ _ => opening

def last : Tree → Token
  | leaf t => t
  | group _ _ _ closing => closing

def fresh (t : Tree) : Bool := t.first.fresh

def range (t : Tree) : Range := ⟨t.first.range.start, t.last.range.stop⟩

/-- The text from the first token to the last. -/
def textOfAll (ts : List Tree) : String :=
  match tokensOfAll ts with
  | [] => ""
  | t :: rest => t.text ++ String.join (rest.map fun t => t.gap ++ t.text)

def text (t : Tree) : String := textOfAll [t]

def isLeaf (kind : TokenKind) (text : String) : Tree → Bool
  | leaf t => t.kind == kind && t.text == text
  | group .. => false

def isWord (t : Tree) (text : String) : Bool := t.isLeaf .word text

def isMark (t : Tree) (text : String) : Bool := t.isLeaf .mark text

def isWordOf (t : Tree) (texts : List String) : Bool := texts.any t.isWord

def isMarkOf (t : Tree) (texts : List String) : Bool := texts.any t.isMark

/-- Any word at all. -/
def isAnyWord : Tree → Bool
  | leaf t => t.kind == .word
  | group .. => false

def isGroup (d : Delimiter) : Tree → Bool
  | leaf _ => false
  | group d' _ _ _ => d == d'

/-- A string or the like. -/
def isText : Tree → Bool
  | leaf t => t.kind == .text
  | group .. => false

/-- What is in a group of this kind. -/
def inner? (d : Delimiter) : Tree → Option (List Tree)
  | leaf _ => none
  | group d' _ inner _ => if d == d' then some inner else none

end Tree

/-! ### Brackets -/

/-- A group that is still open: what came before it in the group around it, newest
first, and the token that opened it. -/
structure OpenGroup where
  before : List Tree
  delimiter : Delimiter
  opening : Token

/-- Close what is still open at the end of the text. -/
def closeAll : List OpenGroup → List Tree → List Tree
  | [], trees => trees.reverse
  | g :: rest, trees => closeAll rest (.group g.delimiter g.opening trees.reverse g.opening :: g.before)

/-- Group tokens, given the open groups, innermost first, and the trees read so far
in the innermost, newest first. -/
def groupFrom : List OpenGroup → List Tree → List Token → List Tree
  | groups, trees, [] => closeAll groups trees
  | groups, trees, t :: rest =>
    match t.kind, groups with
    | .opening d, _ => groupFrom (⟨trees, d, t⟩ :: groups) [] rest
    | .closing, g :: groups => groupFrom groups (.group g.delimiter g.opening trees.reverse t :: g.before) rest
    | .closing, [] => groupFrom [] trees rest
    | _, _ => groupFrom groups (.leaf t :: trees) rest

/-- The trees of a text. -/
def forest (tokens : List Token) : List Tree := groupFrom [] [] tokens

/-! ### Angle brackets

Angle brackets are also signs of comparison, so they make no groups of their own
and are matched only where types stand. -/

/-- What stands before the angle bracket that matches one already read, and what
follows it. -/
def angles? : Nat → List Tree → Option (List Tree × List Tree)
  | _, [] => none
  | depth, t :: rest =>
    if t.isMark ">" then
      match depth with
      | 0 => some ([], rest)
      | depth + 1 => (angles? depth rest).map fun (inner, more) => (t :: inner, more)
    else (angles? (if t.isMark "<" then depth + 1 else depth) rest).map fun (inner, more) => (t :: inner, more)

/-- How deep in angle brackets the next tree stands. -/
def angleDepth (depth : Nat) (t : Tree) : Nat :=
  if t.isMark "<" then depth + 1 else if t.isMark ">" then depth - 1 else depth

/-- Cut at the first tree outside of angle brackets that is wanted. -/
def cutAt? (wanted : Tree → Bool) : Nat → List Tree → Option (List Tree × Tree × List Tree)
  | _, [] => none
  | depth, t :: rest =>
    if depth == 0 && wanted t then some ([], t, rest)
    else (cutAt? wanted (angleDepth depth t) rest).map fun (before, found, more) => (t :: before, found, more)

/-! ### Entries -/

/-- The entry of a declaration, from the trees of its name and its ends. -/
def entry (kind : SymbolKind) (name start stop : Tree) (modifiers : List String) (children : List RawSymbol) :
    RawSymbol :=
  { name := name.text
    kind := .name kind.name
    range := ⟨start.range.start, stop.range.stop⟩
    selectionRange := some name.range
    modifiers, children }

end Outline

end CodeAtlas
