import CodeAtlas.Text.CharTable

/-! Classes of characters.

Each class is read from its property table, after a direct answer for ASCII,
where nearly all characters of source code are. -/
namespace CodeAtlas.Text

/-- Membership in a table of increasing ranges. -/
def inRanges (n : Nat) : List CodeRange → Bool
  | [] => false
  | (lo, hi) :: rest => if n < lo then false else if n ≤ hi then true else inRanges n rest

def isAsciiLetter (c : Char) : Bool :=
  ('a' ≤ c && c ≤ 'z') || ('A' ≤ c && c ≤ 'Z')

def isAsciiDigit (c : Char) : Bool := '0' ≤ c && c ≤ '9'

def isAsciiAlphanumeric (c : Char) : Bool := isAsciiLetter c || isAsciiDigit c

/-- White space, as the Unicode property has it. -/
def isSpace (c : Char) : Bool :=
  let n := c.toNat
  (9 ≤ n && n ≤ 13) || n == 32 || n == 0x85 || n == 0xA0 || n == 0x1680 ||
    (0x2000 ≤ n && n ≤ 0x200A) || n == 0x2028 || n == 0x2029 || n == 0x202F || n == 0x205F ||
    n == 0x3000

/-- A letter or a number of any script. -/
def isAlphanumeric (c : Char) : Bool :=
  if c.toNat < 128 then isAsciiAlphanumeric c else inRanges c.toNat alphanumericRanges

/-- A character that words are made of: letters, marks, digits, connectors. -/
def isWord (c : Char) : Bool :=
  if c.toNat < 128 then isAsciiAlphanumeric c || c == '_' else inRanges c.toNat wordRanges

def isCased (c : Char) : Bool :=
  if c.toNat < 128 then isAsciiLetter c else inRanges c.toNat casedRanges

def isCaseIgnorable (c : Char) : Bool := inRanges c.toNat caseIgnorableRanges

end CodeAtlas.Text
