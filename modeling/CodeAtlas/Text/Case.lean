import CodeAtlas.Text.CharClass

/-! Lowercase forms and case folding.

`lowercase` is the full mapping: the dotted capital I becomes two characters, and
a capital sigma at the end of a word takes its final form. `fold` is simple case
folding, one character to one; two characters match without regard to case when
their folds are equal. -/
namespace CodeAtlas.Text

/-- Apply the run a code point belongs to, if any. -/
def applyRuns (n : Nat) : List CaseRun → Nat
  | [] => n
  | (first, last, step, shift) :: rest =>
    if n < first then n
    else if n ≤ last && (n - first) % step == 0 then (n + shift).toNat
    else applyRuns n rest

/-- ASCII capitals become small; all else stays. -/
def asciiLower (c : Char) : Char :=
  if 'A' ≤ c && c ≤ 'Z' then Char.ofNat (c.toNat + 32) else c

/-- Simple case folding of one character. -/
def fold (c : Char) : Char :=
  if c.toNat < 128 then asciiLower c else Char.ofNat (applyRuns c.toNat foldingRuns)

/-- Equal up to simple case folding. -/
def sameFold (a b : Char) : Bool := fold a == fold b

/-- The lowercase form of one character on its own. -/
def lowercaseChar (c : Char) : List Char :=
  if c.toNat < 128 then [asciiLower c]
  else if c.toNat == 0x130 then ['i', Char.ofNat 0x307]
  else [Char.ofNat (applyRuns c.toNat lowercaseRuns)]

/-- After case-ignorable characters, is the next one cased? -/
def reachesCased : List Char → Bool
  | [] => false
  | c :: rest => if isCaseIgnorable c then reachesCased rest else isCased c

/-- A capital sigma is final when a cased letter stands before it and none after. -/
def lowercaseFrom (before : List Char) : List Char → List Char
  | [] => []
  | c :: rest =>
    let low :=
      if c.toNat == 0x3A3 then
        [Char.ofNat (if reachesCased before && !reachesCased rest then 0x3C2 else 0x3C3)]
      else lowercaseChar c
    low ++ lowercaseFrom (c :: before) rest

/-- The lowercase form of a text. -/
def lowercase (s : String) : String := String.ofList (lowercaseFrom [] s.toList)

/-- The text with ASCII capitals made small. -/
def asciiLowercase (s : String) : String := String.ofList (s.toList.map asciiLower)

end CodeAtlas.Text
