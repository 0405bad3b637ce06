import CodeAtlas.Text.Chars

/-! Globs over names.

A star stands for any characters but underscores, so that it stays within one word
of a name; everything else stands for itself, whatever its case. A pattern of
stars alone matches every name, underscores and all. Blank patterns match nothing. -/
namespace CodeAtlas.Query

/-- One piece of a pattern. -/
inductive GlobToken where
  | star
  | literal (c : Char)
deriving DecidableEq, Repr

inductive Glob where
  | everything
  | pattern (tokens : List GlobToken)
deriving DecidableEq, Repr

namespace Glob

/-- The tokens of a pattern; stars in a row count as one. -/
def tokens : List Char → List GlobToken
  | [] => []
  | c :: rest =>
    if c == '*' then
      match tokens rest with
      | .star :: more => .star :: more
      | more => .star :: more
    else .literal c :: tokens rest

/-- Read a pattern; a blank one is none. -/
def parse? (pattern : String) : Option Glob :=
  match Text.trimChars pattern.toList with
  | [] => none
  | cs => some (if cs.all (· == '*') then everything else .pattern (tokens cs))

/-- After a gap without underscores, does the rest satisfy `p`? -/
def afterGap (p : List Char → Bool) : List Char → Bool
  | [] => p []
  | x :: rest => p (x :: rest) || (x != '_' && afterGap p rest)

/-- Do the tokens match all of the name? -/
def accepts : List GlobToken → List Char → Bool
  | [], cs => cs.isEmpty
  | .literal _ :: _, [] => false
  | .literal c :: more, x :: rest => Text.sameFold c x && accepts more rest
  | .star :: more, cs => afterGap (accepts more) cs

def isMatch (name : String) : Glob → Bool
  | everything => true
  | .pattern ts => accepts ts name.toList

end Glob

/-- Patterns of which any one is to match. -/
structure GlobSet where
  globs : List Glob

namespace GlobSet

def ofPatterns (patterns : List String) : GlobSet := ⟨patterns.filterMap Glob.parse?⟩

def isMatch (s : GlobSet) (name : String) : Bool := s.globs.any (·.isMatch name)

def isEmpty (s : GlobSet) : Bool := s.globs.isEmpty

end GlobSet

/-- The patterns of a list with commas between them, blank ones left out. -/
def patterns (text : String) : List String :=
  ((Text.split ',' text).map Text.trim).filter (! ·.isEmpty)

end CodeAtlas.Query
