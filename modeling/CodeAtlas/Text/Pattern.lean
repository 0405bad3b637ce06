import CodeAtlas.Text.Chars

/-! Text patterns.

A pattern is built from characters, runs of characters, choices and options. Where
it can match in several ways the earlier choice is preferred, and the longer run,
unless the run is lazy. A search goes from left to right; the next match begins
where the last one ended. -/
namespace CodeAtlas.Text

inductive Pattern where
  | here
  | one (ok : Char → Bool)
  /-- Any number of characters, as many as can be. -/
  | run (ok : Char → Bool)
  /-- Any number of characters, as few as can be. -/
  | lazyRun (ok : Char → Bool)
  | seq (a b : Pattern)
  | alt (a b : Pattern)
  /-- Remember what was matched. -/
  | capture (a : Pattern)
  /-- Between a word character and something else. -/
  | boundary
  /-- At the start of the text or after a newline. -/
  | lineStart

/-- A stretch of the text that was searched. -/
structure Span where
  start : Nat
  chars : List Char
deriving Repr, DecidableEq

def Span.text (s : Span) : String := String.ofList s.chars

def Span.stop (s : Span) : Nat := s.start + s.chars.length

/-- A place in a text: the character before it, and what follows. -/
structure Cursor where
  position : Nat
  before : Option Char
  rest : List Char

namespace Cursor

def advance (c : Cursor) (x : Char) (rest : List Char) : Cursor := ⟨c.position + 1, some x, rest⟩

/-- The text from here to a later place. -/
def spanTo (c d : Cursor) : Span := ⟨c.position, c.rest.take (d.position - c.position)⟩

def atBoundary (c : Cursor) : Bool :=
  (c.before.map isWord).getD false != (c.rest.head?.map isWord).getD false

def atLineStart (c : Cursor) : Bool := c.before.isNone || c.before == some '\n'

end Cursor

namespace Pattern

variable {α : Type}

/-- The longest run first, then shorter ones. -/
def greedy (ok : Char → Bool) (go : Nat → Option Char → List Char → Option α) :
    Nat → Option Char → List Char → Option α
  | position, before, [] => go position before []
  | position, before, x :: rest =>
    if ok x then
      match greedy ok go (position + 1) (some x) rest with
      | some a => some a
      | none => go position before (x :: rest)
    else go position before (x :: rest)

/-- The empty run first, then longer ones. -/
def modest (ok : Char → Bool) (go : Nat → Option Char → List Char → Option α) :
    Nat → Option Char → List Char → Option α
  | position, before, [] => go position before []
  | position, before, x :: rest =>
    match go position before (x :: rest) with
    | some a => some a
    | none => if ok x then modest ok go (position + 1) (some x) rest else none

/-- Match here and go on: the first way to match after which `go` succeeds. -/
def attempt : Pattern → Cursor → Option Span → (Cursor → Option Span → Option α) → Option α
  | here, c, kept, go => go c kept
  | one ok, c, kept, go =>
    match c.rest with
    | [] => none
    | x :: rest => if ok x then go (c.advance x rest) kept else none
  | run ok, c, kept, go => greedy ok (fun p b r => go ⟨p, b, r⟩ kept) c.position c.before c.rest
  | lazyRun ok, c, kept, go => modest ok (fun p b r => go ⟨p, b, r⟩ kept) c.position c.before c.rest
  | seq a b, c, kept, go => attempt a c kept fun d kept => attempt b d kept go
  | alt a b, c, kept, go =>
    match attempt a c kept go with
    | some r => some r
    | none => attempt b c kept go
  | capture a, c, kept, go => attempt a c kept fun d _ => go d (some (c.spanTo d))
  | boundary, c, kept, go => if c.atBoundary then go c kept else none
  | lineStart, c, kept, go => if c.atLineStart then go c kept else none

/-- What one match covers, and what it captured. -/
structure Match where
  whole : Span
  captured : Option Span

/-- The match that begins here. -/
def matchAt? (p : Pattern) (c : Cursor) : Option Match :=
  attempt p c none fun d kept => some ⟨c.spanTo d, kept⟩

/-- Search from a place on, first passing over `skip` characters. -/
def search (p : Pattern) (skip position : Nat) (before : Option Char) : List Char → List Match
  | [] =>
    match skip, matchAt? p ⟨position, before, []⟩ with
    | 0, some m => [m]
    | _, _ => []
  | x :: rest =>
    match skip with
    | k + 1 => search p k (position + 1) (some x) rest
    | 0 =>
      match matchAt? p ⟨position, before, x :: rest⟩ with
      | some m => m :: search p (m.whole.chars.length - 1) (position + 1) (some x) rest
      | none => search p 0 (position + 1) (some x) rest

/-- All matches, from left to right, none touching another. -/
def findAll (p : Pattern) (text : List Char) : List Match := search p 0 0 none text

def find? (p : Pattern) (text : List Char) : Option Match := (findAll p text).head?

def occurs (p : Pattern) (text : List Char) : Bool := (p.find? text).isSome

/-- What the first match captured. -/
def captured? (p : Pattern) (text : List Char) : Option Span := p.find? text >>= Match.captured

/-- What each match captured. -/
def capturedAll (p : Pattern) (text : List Char) : List Span :=
  (p.findAll text).filterMap Match.captured

instance : Append Pattern := ⟨seq⟩
instance : OrElse Pattern := ⟨fun a b => alt a (b ())⟩

/-- The pattern or nothing, rather the pattern. -/
def optional (a : Pattern) : Pattern := alt a here

/-- At least one character. -/
def some1 (ok : Char → Bool) : Pattern := one ok ++ run ok

/-- These very characters. -/
def exactly (text : String) : Pattern :=
  text.toList.foldr (fun c p => one (· == c) ++ p) here

/-- These characters, whatever their case. -/
def caseless (text : String) : Pattern :=
  text.toList.foldr (fun c p => one (sameFold c) ++ p) here

/-- The first of several that matches. -/
def oneOf : List Pattern → Pattern
  | [] => one fun _ => false
  | [p] => p
  | p :: rest => p <|> oneOf rest

end Pattern

end CodeAtlas.Text
