import CodeAtlas.Outline.Scanner

/-! The outline of Python sources: functions and classes, nested by indentation.

A logical line runs on through brackets and escaped newlines. A definition begins
a line, and its body is all the lines after it that are indented deeper. -/
namespace CodeAtlas.Outline.Python

/-! ### Tokens -/

/-- The letters that may stand before a string. -/
def stringMarks : List String := ["r", "u", "b", "f", "t", "br", "rb", "fr", "rf", "tr", "rt"]

/-- A string from its first quote on. -/
def stringLength? : List Char → Option Nat
  | c :: rest =>
    if c == '"' || c == '\'' then
      if Text.startsWith [c, c] rest then some (3 + tripleLength c (rest.drop 2))
      else some (1 + quotedLength c rest)
    else none
  | [] => none
where
  /-- The rest of a string up to and with three quotes. -/
  tripleLength (quote : Char) : List Char → Nat
    | [] => 0
    | [_] => 1
    | c :: d :: rest =>
      if c == '\\' then 2 + tripleLength quote rest
      else if c == quote && Text.startsWith [quote, quote] (d :: rest) then 3
      else 1 + tripleLength quote (d :: rest)

def piece (cs : List Char) : Piece :=
  match cs with
  | '\n' :: _ => .newline
  | '\\' :: '\n' :: _ => .blank 2
  | '\\' :: '\r' :: '\n' :: _ => .blank 3
  | '#' :: rest => .blank (1 + lineLength rest)
  | c :: _ =>
    if Text.isSpace c || c == '\uFEFF' then .blank 1
    else if Text.isAsciiDigit c then .number (numberLength cs)
    else if isNameStart c then
      let n := runLength isNamePart cs
      if stringMarks.contains (Text.asciiLowercase (String.ofList (cs.take n))) then
        match stringLength? (cs.drop n) with
        | some m => .text (n + m)
        | none => .word n
      else .word n
    else
      match stringLength? cs, bracket? c with
      | some n, _ => .text n
      | none, some b => b
      | none, none => .mark 1
  | [] => .blank 1

def scanner : Scanner Unit := ⟨(), fun _ cs => (piece cs, ())⟩

/-! ### Lines -/

/-- The width of the blank text before the first token of a line; a tabulator is as
wide as eight blanks. -/
def indentOf (gap : String) : Nat :=
  (Text.afterLast '\n' gap).toList.foldl (fun n c =>
    if c == ' ' then n + 1 else if c == '\t' then n + 8 else if c == '\r' || c == '\x0c' then 0 else n) 0

/-- A logical line. -/
structure Line where
  indent : Nat
  first : Tree
  rest : List Tree

def Line.trees (l : Line) : List Tree := l.first :: l.rest

def Line.last (l : Line) : Tree := l.rest.getLast?.getD l.first

/-- Cut trees into lines. -/
def lines : List Tree → List Line
  | [] => []
  | t :: rest =>
    match lines rest with
    | [] => [⟨indentOf t.first.gap, t, []⟩]
    | l :: more =>
      if l.first.fresh then ⟨indentOf t.first.gap, t, []⟩ :: l :: more
      else ⟨indentOf t.first.gap, t, l.trees⟩ :: more

/-- The name that a line defines, and whether it is that of a class. -/
def definition? (l : Line) : Option (Tree × Bool) :=
  match l.trees with
  | a :: b :: rest =>
    if a.isWord "async" && b.isWord "def" then
      match rest with
      | name :: _ => if name.isAnyWord then some (name, false) else none
      | [] => none
    else if !b.isAnyWord then none
    else if a.isWord "def" then some (b, false)
    else if a.isWord "class" then some (b, true)
    else none
  | _ => none

/-- The entries of lines; a function right inside of a class is a method, and names
with a leading underscore are not for others. -/
def entries (inClass : Bool) : List Line → List RawSymbol
  | [] => []
  | l :: rest =>
    match definition? l with
    | none => entries inClass rest
    | some (name, isClass) =>
      let deeper := fun other : Line => l.indent < other.indent
      let body := rest.takeWhile deeper
      let kind := if isClass then SymbolKind.class else if inClass then .method else .function
      let stop := (body.getLast?.map Line.last).getD l.last
      let modifiers := if Text.hasStart name.text "_" then [] else ["export"]
      entry kind name l.first stop modifiers (entries isClass body) ::
        entries inClass (rest.dropWhile deeper)
termination_by ls => ls.length
decreasing_by
  · simp
  · exact Nat.lt_succ_of_le (List.takeWhile_sublist _).length_le
  · exact Nat.lt_succ_of_le (List.dropWhile_sublist _).length_le

def outline (text : String) : List RawSymbol := entries false (lines (scanner.trees text))

end CodeAtlas.Outline.Python
