import CodeAtlas.Json.Parser
import CodeAtlas.Text.Chars

/-! Keys and strings of TOML.

A string stands between double quotes, where a backslash begins an escape, or
between single quotes, where nothing does. Three quotes begin a string of several
lines; a newline right after them is left out, and every newline in it counts as a
line feed. Control characters other than the tabulator stand nowhere. -/
namespace CodeAtlas.Toml

/-- Reads something from the front of a text. -/
abbrev Scan (α : Type) := List Char → Option (α × List Char)

def isBlank (c : Char) : Bool := c == ' ' || c == '\t'

def skipBlanks (cs : List Char) : List Char := cs.dropWhile isBlank

/-- May the character stand in a comment or on a line of a string? -/
def isPlain (c : Char) : Bool := c == '\t' || (32 ≤ c.toNat && c.toNat != 127)

/-- What follows a newline, if there is one. -/
def afterNewline? : List Char → Option (List Char)
  | '\n' :: rest => some rest
  | '\r' :: '\n' :: rest => some rest
  | _ => none

/-! ### Escapes -/

/-- A character given by so many hexadecimal digits. -/
def codePoint? (digits : Nat) : Scan Char := fun cs => do
  let ds ← (cs.take digits).mapM Json.hexValue?
  let n := ds.foldl (fun n d => n * 16 + d) 0
  if ds.length == digits && n.isValidChar then some (Char.ofNat n, cs.drop digits) else none

/-- The character an escape stands for, after the backslash. -/
def escape? : Scan Char
  | 'b' :: rest => some (Char.ofNat 8, rest)
  | 't' :: rest => some ('\t', rest)
  | 'n' :: rest => some ('\n', rest)
  | 'f' :: rest => some (Char.ofNat 12, rest)
  | 'r' :: rest => some ('\r', rest)
  | '"' :: rest => some ('"', rest)
  | '\\' :: rest => some ('\\', rest)
  | 'u' :: rest => codePoint? 4 rest
  | 'U' :: rest => codePoint? 8 rest
  | _ => none

/-! ### Strings of one line -/

/-- The rest of a string after its double quote. -/
def basicRest? : Nat → List Char → Scan String
  | 0, _, _ => none
  | fuel + 1, acc, cs =>
    match cs with
    | '"' :: rest => some (String.ofList acc.reverse, rest)
    | '\\' :: rest => do
      let (c, rest) ← escape? rest
      basicRest? fuel (c :: acc) rest
    | c :: rest => if isPlain c then basicRest? fuel (c :: acc) rest else none
    | [] => none

/-- The rest of a string after its single quote. -/
def literalRest? (cs : List Char) : Option (String × List Char) :=
  let text := cs.takeWhile fun c => c != '\'' && isPlain c
  match cs.drop text.length with
  | '\'' :: rest => some (String.ofList text, rest)
  | _ => none

/-! ### Strings of several lines -/

/-- What a backslash at the end of a line skips: all blanks and newlines up to the
next text. Nothing, if something else follows it on its line. -/
def afterLineEnd? (cs : List Char) : Option (List Char) :=
  (afterNewline? (skipBlanks cs)).map (·.dropWhile fun c => isBlank c || c == '\n' || c == '\r')

/-- How many of the quotes at the end of a string belong to it: of three to five in
a row all but the last three. -/
def closing? (quote : Char) (cs : List Char) : Option (List Char × List Char) :=
  let quotes := (cs.takeWhile (· == quote)).take 5
  if quotes.length < 3 then none else some (quotes.drop 3, cs.drop quotes.length)

/-- The rest of a string of several lines; escapes count only between double quotes. -/
def linesRest? (quote : Char) (escapes : Bool) : Nat → List Char → Scan String
  | 0, _, _ => none
  | fuel + 1, acc, cs =>
    match closing? quote cs with
    | some (own, rest) => some (String.ofList (own ++ acc).reverse, rest)
    | none =>
      match afterNewline? cs with
      | some rest => linesRest? quote escapes fuel ('\n' :: acc) rest
      | none =>
        match cs with
        | [] => none
        | c :: rest =>
          if c == '\\' && escapes then
            match afterLineEnd? rest with
            | some rest => linesRest? quote escapes fuel acc rest
            | none => do
              let (c, rest) ← escape? rest
              linesRest? quote escapes fuel (c :: acc) rest
          else if isPlain c then linesRest? quote escapes fuel (c :: acc) rest
          else none

/-- A string of several lines after its three quotes. -/
def lines? (quote : Char) (escapes : Bool) (cs : List Char) : Option (String × List Char) :=
  let cs := (afterNewline? cs).getD cs
  linesRest? quote escapes (cs.length + 1) [] cs

/-! ### Any string, any key -/

/-- A string on one line. -/
def shortString? : Scan String
  | '"' :: rest => basicRest? (rest.length + 1) [] rest
  | '\'' :: rest => literalRest? rest
  | _ => none

def string? : Scan String
  | '"' :: '"' :: '"' :: rest => lines? '"' true rest
  | '\'' :: '\'' :: '\'' :: rest => lines? '\'' false rest
  | cs => shortString? cs

def isBareKeyChar (c : Char) : Bool := Text.isAsciiAlphanumeric c || c == '_' || c == '-'

/-- One part of a key, plain or quoted. -/
def simpleKey? (cs : List Char) : Option (String × List Char) :=
  let bare := cs.takeWhile isBareKeyChar
  if bare.isEmpty then shortString? cs else some (String.ofList bare, cs.drop bare.length)

/-- A key: parts with dots between them. -/
def keyParts? : Nat → Scan (List String)
  | 0, _ => none
  | fuel + 1, cs => do
    let (part, rest) ← simpleKey? (skipBlanks cs)
    match skipBlanks rest with
    | '.' :: rest =>
      let (more, rest) ← keyParts? fuel rest
      some (part :: more, rest)
    | rest => some ([part], rest)

def key? (cs : List Char) : Option (List String × List Char) := keyParts? (cs.length + 1) cs

end CodeAtlas.Toml
