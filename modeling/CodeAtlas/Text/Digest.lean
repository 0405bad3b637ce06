/-! A digest of bytes in 64 bits.

This is SipHash with one round for every word and three at the end, under the key
of zeros. Words are eight bytes, the lowest first; the last word holds the bytes
left over and the length. -/
namespace CodeAtlas.Digest

structure State where
  v0 : UInt64
  v1 : UInt64
  v2 : UInt64
  v3 : UInt64

def start : State := ⟨0x736f6d6570736575, 0x646f72616e646f6d, 0x6c7967656e657261, 0x7465646279746573⟩

def rotate (x n : UInt64) : UInt64 := (x <<< n) ||| (x >>> (64 - n))

def round (s : State) : State :=
  let v0 := s.v0 + s.v1
  let v2 := s.v2 + s.v3
  let v1 := rotate s.v1 13 ^^^ v0
  let v3 := rotate s.v3 16 ^^^ v2
  let v0 := rotate v0 32
  let v2 := v2 + v1
  let v0 := v0 + v3
  let v1 := rotate v1 17 ^^^ v2
  let v3 := rotate v3 21 ^^^ v0
  ⟨v0, v1, rotate v2 32, v3⟩

def absorb (s : State) (word : UInt64) : State :=
  let s := round { s with v3 := s.v3 ^^^ word }
  { s with v0 := s.v0 ^^^ word }

/-- A word of at most eight bytes, the lowest first. -/
def word (bytes : List UInt8) : UInt64 := bytes.foldr (fun b w => (w <<< 8) ||| b.toUInt64) 0

/-- Absorb the whole words; what is left is fewer than eight bytes. -/
def absorbWords (s : State) : List UInt8 → State × List UInt8
  | a :: b :: c :: d :: e :: f :: g :: h :: rest => absorbWords (absorb s (word [a, b, c, d, e, f, g, h])) rest
  | rest => (s, rest)

def ofBytes (bytes : List UInt8) : UInt64 :=
  let (s, left) := absorbWords start bytes
  let s := absorb s (word left ||| (UInt64.ofNat bytes.length <<< 56))
  let s := round (round (round { s with v2 := s.v2 ^^^ 0xff }))
  s.v0 ^^^ s.v1 ^^^ s.v2 ^^^ s.v3

/-- The digest of some texts, each ended by a byte that no text has. -/
def ofTexts (texts : List String) : UInt64 :=
  ofBytes (texts.flatMap fun t => t.toUTF8.toList ++ [0xff])

/-- Sixteen hexadecimal digits. -/
def hex (x : UInt64) : String :=
  let digits := Nat.toDigits 16 x.toNat
  String.ofList (List.replicate (16 - digits.length) '0' ++ digits)

end CodeAtlas.Digest
