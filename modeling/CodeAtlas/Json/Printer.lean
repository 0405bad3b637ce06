import CodeAtlas.Json.Value

/-! JSON text.

`compact` has no blanks. `pretty` puts every item on a line of its own, two blanks
further in than its container, and writes an empty container without a break. -/
namespace CodeAtlas.Json

def hexDigit (n : Nat) : Char := if n < 10 then Char.ofNat (48 + n) else Char.ofNat (87 + n)

/-- What stands for a character between quotes. -/
def escapeChar (c : Char) : List Char :=
  if c == '"' then ['\\', '"']
  else if c == '\\' then ['\\', '\\']
  else if c.toNat ≥ 32 then [c]
  else if c == '\n' then ['\\', 'n']
  else if c == '\r' then ['\\', 'r']
  else if c == '\t' then ['\\', 't']
  else if c.toNat == 8 then ['\\', 'b']
  else if c.toNat == 12 then ['\\', 'f']
  else ['\\', 'u', '0', '0', hexDigit (c.toNat / 16), hexDigit (c.toNat % 16)]

def quote (cs : List Char) : List Char := '"' :: (cs.flatMap escapeChar ++ ['"'])

def floatText (x : Float) : String := ((Decimal.Value.ofFloat x).text? Decimal.jsonLayout).getD "null"

/-- A fraction of single precision has the digits that tell it from all others of that precision. -/
def singleText (x : Float32) : String := ((Decimal.Value.ofFloat32 x).text? Decimal.jsonLayout).getD "null"

mutual

/-- The characters of the compact text. -/
def chars : Json → List Char
  | .null => ['n', 'u', 'l', 'l']
  | .bool true => ['t', 'r', 'u', 'e']
  | .bool false => ['f', 'a', 'l', 's', 'e']
  | .int n => (toString n).toList
  | .float x => (floatText x).toList
  | .single x => (singleText x).toList
  | .str s => quote s.toList
  | .arr items => '[' :: (itemChars items ++ [']'])
  | .obj fields => '\x7b' :: (fieldChars fields ++ ['\x7d'])

def itemChars : List Json → List Char
  | [] => []
  | [j] => chars j
  | j :: rest => chars j ++ ',' :: itemChars rest

def fieldChars : List (String × Json) → List Char
  | [] => []
  | [(k, j)] => quote k.toList ++ ':' :: chars j
  | (k, j) :: rest => quote k.toList ++ ':' :: (chars j ++ ',' :: fieldChars rest)

end

def compact (j : Json) : String := String.ofList (chars j)

def newline (depth : Nat) : List Char := '\n' :: List.replicate (2 * depth) ' '

mutual

def prettyChars (depth : Nat) : Json → List Char
  | .arr [] => ['[', ']']
  | .arr items => '[' :: (prettyItems (depth + 1) items ++ newline depth ++ [']'])
  | .obj [] => ['\x7b', '\x7d']
  | .obj fields => '\x7b' :: (prettyFields (depth + 1) fields ++ newline depth ++ ['\x7d'])
  | j => chars j

def prettyItems (depth : Nat) : List Json → List Char
  | [] => []
  | [j] => newline depth ++ prettyChars depth j
  | j :: rest => newline depth ++ prettyChars depth j ++ ',' :: prettyItems depth rest

def prettyFields (depth : Nat) : List (String × Json) → List Char
  | [] => []
  | [(k, j)] => newline depth ++ quote k.toList ++ ':' :: ' ' :: prettyChars depth j
  | (k, j) :: rest =>
    newline depth ++ quote k.toList ++ ':' :: ' ' :: prettyChars depth j ++ ',' :: prettyFields depth rest

end

def pretty (j : Json) : String := String.ofList (prettyChars 0 j)

end CodeAtlas.Json
