import CodeAtlas.Text.Case

/-! Texts as lists of characters: trimming, cutting, searching. -/
namespace CodeAtlas.Text

/-- Without white space at either end. -/
def trimChars (cs : List Char) : List Char :=
  ((cs.dropWhile isSpace).reverse.dropWhile isSpace).reverse

def trim (s : String) : String := String.ofList (trimChars s.toList)

def startsWith : List Char → List Char → Bool
  | [], _ => true
  | _ :: _, [] => false
  | p :: ps, c :: cs => p == c && startsWith ps cs

/-- Does the first text occur somewhere in the second? -/
def occursIn (part : List Char) : List Char → Bool
  | [] => part.isEmpty
  | c :: cs => startsWith part (c :: cs) || occursIn part cs

def contains (s part : String) : Bool := occursIn part.toList s.toList

def hasStart (s start : String) : Bool := startsWith start.toList s.toList

def hasEnd (s ending : String) : Bool := startsWith ending.toList.reverse s.toList.reverse

/-- What follows `start`, when the text begins with it. -/
def afterStart? (s start : String) : Option String :=
  if hasStart s start then some (String.ofList (s.toList.drop start.length)) else none

/-- The pieces between separators; one more than there are separators. -/
def splitChars (sep : Char) : List Char → List (List Char)
  | [] => [[]]
  | c :: cs =>
    if c == sep then [] :: splitChars sep cs
    else
      match splitChars sep cs with
      | [] => [[c]]
      | piece :: rest => (c :: piece) :: rest

def split (sep : Char) (s : String) : List String := (splitChars sep s.toList).map String.ofList

/-- The piece after the last separator; the whole text when there is none. -/
def afterLast (sep : Char) (s : String) : String :=
  String.ofList (s.toList.reverse.takeWhile (· != sep)).reverse

/-- A line ends at a newline, and a carriage return before the newline belongs to
the ending. A text that ends in a newline has no empty line after it. -/
def lines (s : String) : List String :=
  let pieces := splitChars '\n' s.toList
  let kept := if pieces.getLast? == some [] then pieces.dropLast else pieces
  let ended := pieces.length - 1
  kept.mapIdx fun i line =>
    String.ofList (if i < ended && line.getLast? == some '\r' then line.dropLast else line)

/-- The texts with `sep` between neighbours. -/
def join (sep : String) (parts : List String) : String := sep.intercalate parts

end CodeAtlas.Text
