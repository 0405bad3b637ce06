/-! Random numbers from a seed: the ChaCha stream cipher with twelve rounds.

The key is eight words spread out of a 64-bit seed, the block counter starts at
zero, and words are taken in the order the blocks give them. -/
namespace CodeAtlas.Random

/-- The sixteen words a block is made of. -/
structure Block where
  (a0 a1 a2 a3 b0 b1 b2 b3 c0 c1 c2 c3 d0 d1 d2 d3 : UInt32)

def rotateLeft (x : UInt32) (n : UInt32) : UInt32 := (x <<< n) ||| (x >>> (32 - n))

/-- Mix four words. -/
def quarter (a b c d : UInt32) : UInt32 × UInt32 × UInt32 × UInt32 :=
  let a := a + b
  let d := rotateLeft (d ^^^ a) 16
  let c := c + d
  let b := rotateLeft (b ^^^ c) 12
  let a := a + b
  let d := rotateLeft (d ^^^ a) 8
  let c := c + d
  let b := rotateLeft (b ^^^ c) 7
  (a, b, c, d)

namespace Block

/-- Mix the columns, then the diagonals. -/
def doubleRound (s : Block) : Block :=
  let (a0, b0, c0, d0) := quarter s.a0 s.b0 s.c0 s.d0
  let (a1, b1, c1, d1) := quarter s.a1 s.b1 s.c1 s.d1
  let (a2, b2, c2, d2) := quarter s.a2 s.b2 s.c2 s.d2
  let (a3, b3, c3, d3) := quarter s.a3 s.b3 s.c3 s.d3
  let (a0, b1, c2, d3) := quarter a0 b1 c2 d3
  let (a1, b2, c3, d0) := quarter a1 b2 c3 d0
  let (a2, b3, c0, d1) := quarter a2 b3 c0 d1
  let (a3, b0, c1, d2) := quarter a3 b0 c1 d2
  ⟨a0, a1, a2, a3, b0, b1, b2, b3, c0, c1, c2, c3, d0, d1, d2, d3⟩

def rounds : Nat → Block → Block
  | 0, s => s
  | n + 1, s => rounds n s.doubleRound

/-- The words of two blocks added up, in order. -/
def addWords (s t : Block) : List UInt32 :=
  [s.a0 + t.a0, s.a1 + t.a1, s.a2 + t.a2, s.a3 + t.a3, s.b0 + t.b0, s.b1 + t.b1, s.b2 + t.b2,
    s.b3 + t.b3, s.c0 + t.c0, s.c1 + t.c1, s.c2 + t.c2, s.c3 + t.c3, s.d0 + t.d0, s.d1 + t.d1,
    s.d2 + t.d2, s.d3 + t.d3]

/-- Six double rounds, added to the block they started from. -/
def output (s : Block) : List UInt32 := addWords (rounds 6 s) s

end Block

/-- One word of the key, and the seed for the next. -/
def keyWord (seed : UInt64) : UInt32 × UInt64 :=
  let state := seed * 6364136223846793005 + 11634580027462260723
  let x := (((state >>> 18) ^^^ state) >>> 27).toUInt32
  let turn := (state >>> 59).toUInt32
  (if turn == 0 then x else (x >>> turn) ||| (x <<< (32 - turn)), state)

/-- A source of random numbers. -/
structure Generator where
  /-- The block with its counter at zero. -/
  start : Block
  counter : UInt64 := 0
  /-- Words that are made and not yet taken. -/
  pending : List UInt32 := []

namespace Generator

def ofSeed (seed : UInt64) : Generator :=
  let (k0, s) := keyWord seed
  let (k1, s) := keyWord s
  let (k2, s) := keyWord s
  let (k3, s) := keyWord s
  let (k4, s) := keyWord s
  let (k5, s) := keyWord s
  let (k6, s) := keyWord s
  let (k7, _) := keyWord s
  { start := ⟨0x61707865, 0x3320646e, 0x79622d32, 0x6b206574, k0, k1, k2, k3, k4, k5, k6, k7,
      0, 0, 0, 0⟩ }

/-- The generator with these bytes for a key, the lowest of every word first. -/
def ofKey (bytes : ByteArray) : Generator :=
  let byte (i : Nat) : UInt32 := (bytes[i]?.getD 0).toUInt32
  let k (i : Nat) : UInt32 :=
    byte (4 * i) ||| (byte (4 * i + 1) <<< 8) ||| (byte (4 * i + 2) <<< 16) ||| (byte (4 * i + 3) <<< 24)
  { start := ⟨0x61707865, 0x3320646e, 0x79622d32, 0x6b206574, k 0, k 1, k 2, k 3, k 4, k 5, k 6, k 7,
      0, 0, 0, 0⟩ }

/-- The block at the counter. -/
def block (g : Generator) : Block :=
  { g.start with d0 := g.counter.toUInt32, d1 := (g.counter >>> 32).toUInt32 }

def nextWord (g : Generator) : UInt32 × Generator :=
  match g.pending with
  | w :: rest => (w, { g with pending := rest })
  | [] =>
    let g' := { g with counter := g.counter + 1 }
    match g.block.output with
    | w :: rest => (w, { g' with pending := rest })
    | [] => (0, g')

/-- Two words, the lower half first. -/
def nextLong (g : Generator) : UInt64 × Generator :=
  let (lo, g) := g.nextWord
  let (hi, g) := g.nextWord
  (lo.toUInt64 ||| (hi.toUInt64 <<< 32), g)

/-- A number from `lo` to `hi`, in steps of one part in `2 ^ 52`. -/
def between (lo hi : Float) (g : Generator) : Float × Generator :=
  let (n, g) := g.nextLong
  let unit := (n >>> 12).toFloat / 4503599627370496.0
  (unit * (hi - lo) + lo, g)

end Generator

end CodeAtlas.Random
