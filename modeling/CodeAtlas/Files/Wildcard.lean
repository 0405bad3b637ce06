import CodeAtlas.Text.Chars

/-! Patterns over paths.

A star stands for any bytes but slashes and a question mark for one of them. Two
stars that make up a whole component stand for any number of components. Brackets
hold a class of bytes, braces hold alternatives, and a backslash takes away the
meaning of the character after it. -/
namespace CodeAtlas.Files

inductive Wildcard where
  | byte (b : UInt8)
  | one
  | star
  /-- Any number of whole components at the front, each with its slash. -/
  | anyFront
  /-- A slash, and any number of whole components, each with its slash. -/
  | anyMiddle
  /-- A slash, and anything. -/
  | anyBack
  | inClass (negated : Bool) (ranges : List (UInt8 × UInt8))
deriving DecidableEq, Repr

namespace Wildcard

def slash : UInt8 := 47

/-- Does what follows any of the slashes satisfy `p`? -/
def afterAnySlash (p : List UInt8 → Bool) : List UInt8 → Bool
  | [] => false
  | b :: rest => (b == slash && p rest) || afterAnySlash p rest

/-- Does any end of a run without slashes satisfy `p`? -/
def afterRun (p : List UInt8 → Bool) : List UInt8 → Bool
  | [] => p []
  | b :: rest => p (b :: rest) || (b != slash && afterRun p rest)

/-- Do the wildcards match all of a path? -/
def accepts : List Wildcard → List UInt8 → Bool
  | [], path => path.isEmpty
  | .anyFront :: [], _ => true
  | .anyFront :: more, path => accepts more path || afterAnySlash (accepts more) path
  | .anyMiddle :: more, path =>
    match path with
    | b :: rest => b == slash && (accepts more rest || afterAnySlash (accepts more) rest)
    | [] => false
  | .anyBack :: more, path =>
    match path with
    | b :: rest => b == slash && anyEnd (accepts more) rest
    | [] => false
  | .star :: more, path => afterRun (accepts more) path
  | .byte b :: more, path =>
    match path with
    | c :: rest => b == c && accepts more rest
    | [] => false
  | .one :: more, path =>
    match path with
    | c :: rest => c != slash && accepts more rest
    | [] => false
  | .inClass negated ranges :: more, path =>
    match path with
    | c :: rest => (ranges.any (fun (lo, hi) => lo ≤ c && c ≤ hi) != negated) && accepts more rest
    | [] => false
where
  /-- Does any end of the rest satisfy `p`? -/
  anyEnd (p : List UInt8 → Bool) : List UInt8 → Bool
    | [] => p []
    | b :: rest => p (b :: rest) || anyEnd p rest

end Wildcard

/-! ### Reading -/

def bytesOf (c : Char) : List UInt8 := (String.singleton c).toUTF8.toList

/-- The ranges of a class, from what comes after its bracket on: the ranges in
reverse, and the rest of the pattern. `open_` tells whether a range lacks its end. -/
def classRanges? : List (Char × Char) → Bool → List Char → Option (List (Char × Char) × List Char)
  | _, _, [] => none
  | ranges, open_, c :: rest =>
    match ranges with
    | [] => classRanges? [(c, c)] false rest
    | (lo, hi) :: more =>
      if c == ']' then some (if open_ then ('-', '-') :: ranges else ranges, rest)
      else if open_ then if c < lo then none else classRanges? ((lo, c) :: more) false rest
      else if c == '-' then classRanges? ((lo, hi) :: more) true rest
      else classRanges? ((c, c) :: ranges) false rest

/-- A range of characters as ranges of bytes. -/
def byteRanges (r : Char × Char) : List (UInt8 × UInt8) :=
  match bytesOf r.1, bytesOf r.2 with
  | [lo], [hi] => [(lo, hi)]
  | los, his => (los ++ his).map fun b => (b, b)

/-- What has been read of a pattern: the ways to read the part inside of the
innermost braces, each in reverse, and around it the parts outside of braces that
are open together with the alternatives that are complete. -/
structure PatternReading where
  ways : List (List Wildcard) := [[]]
  outer : List (List (List Wildcard) × List (List Wildcard)) := []

namespace PatternReading

def push (r : PatternReading) (ws : List Wildcard) : PatternReading :=
  { r with ways := r.ways.map (ws.reverse ++ ·) }

def isEmpty (r : PatternReading) : Bool := r.ways.all (·.isEmpty)

/-- Two stars after a slash take it along. -/
def pushAny (r : PatternReading) (w : Wildcard) : PatternReading :=
  { r with ways := r.ways.map fun
      | .anyFront :: more => .anyFront :: more
      | .anyBack :: more => .anyBack :: more
      | way => w :: way.drop 1 }

def enter (r : PatternReading) : PatternReading := ⟨[[]], (r.ways, []) :: r.outer⟩

def alternative (r : PatternReading) : PatternReading :=
  match r.outer with
  | (before, complete) :: outer => ⟨[[]], (before, complete ++ r.ways) :: outer⟩
  | [] => r

def leave? (r : PatternReading) : Option PatternReading :=
  match r.outer with
  | (before, complete) :: outer =>
    let choices := (complete ++ r.ways).filter (! ·.isEmpty)
    let ways := if choices.isEmpty then before else before.flatMap fun way => choices.map (· ++ way)
    some ⟨ways, outer⟩
  | [] => none

end PatternReading

/-- Read a pattern of at most `fuel` characters, after some character: every way to
choose among its alternatives. -/
def readPattern? : Nat → Option Char → PatternReading → List Char → Option (List (List Wildcard))
  | 0, _, _, _ => none
  | _, _, r, [] => if r.outer.isEmpty then some (r.ways.map List.reverse) else none
  | fuel + 1, before, r, c :: rest =>
    let next (r : PatternReading) : Option (List (List Wildcard)) := readPattern? fuel (some c) r rest
    match c with
    | '?' => next (r.push [.one])
    | '[' =>
      let negated := match rest with
        | '!' :: _ | '^' :: _ => true
        | _ => false
      match classRanges? [] false (if negated then rest.drop 1 else rest) with
      | some (ranges, rest) =>
        readPattern? fuel (some ']') (r.push [.inClass negated (ranges.flatMap byteRanges)]) rest
      | none => none
    | '\x7b' => next r.enter
    | '\x7d' => r.leave?.bind next
    | ',' => if r.outer.isEmpty then next (r.push [.byte 44]) else next r.alternative
    | '\\' =>
      match rest with
      | d :: rest => readPattern? fuel (some d) (r.push ((bytesOf d).map .byte)) rest
      | [] => none
    | '*' =>
      match rest with
      | '*' :: after =>
        let twoStars := readPattern? fuel (some '*') (r.push [.star, .star]) after
        let startsComponent := before == some '/' ||
          (!r.outer.isEmpty && (before == some ',' || before == some '\x7b'))
        if r.isEmpty then
          match after with
          | [] => readPattern? fuel (some '*') (r.push [.anyFront]) []
          | '/' :: after => readPattern? fuel (some '/') (r.push [.anyFront]) after
          | _ => twoStars
        else if !startsComponent then twoStars
        else
          match after with
          | [] => readPattern? fuel (some '*') (r.pushAny .anyBack) []
          | '/' :: after => readPattern? fuel (some '/') (r.pushAny .anyMiddle) after
          | d :: _ =>
            if !r.outer.isEmpty && (d == ',' || d == '\x7d') then
              readPattern? fuel (some '*') (r.pushAny .anyBack) after
            else twoStars
      | _ => next (r.push [.star])
    | c => next (r.push ((bytesOf c).map .byte))

/-- Read a pattern; none if it is malformed. -/
def parsePattern? (pattern : String) : Option (List (List Wildcard)) :=
  readPattern? (pattern.length + 1) none {} pattern.toList

end CodeAtlas.Files
