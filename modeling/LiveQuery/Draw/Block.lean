/-!
# Blocks of random words

The ChaCha block function with eight rounds.  A block has four rows of four words; a round mixes
the columns, and every second round mixes the diagonals instead, which are columns once the rows
are turned against each other.
-/

namespace LiveQuery.Draw

/-- The word with its bits turned to the left. -/
def turnLeft (word : UInt32) (places : UInt32) : UInt32 :=
  (word <<< places) ||| (word >>> (32 - places))

/-- Four words side by side. -/
structure Row where
  first : UInt32
  second : UInt32
  third : UInt32
  fourth : UInt32
  deriving DecidableEq, Repr

namespace Row

/-- Combines two rows word by word. -/
def zipWith (combine : UInt32 → UInt32 → UInt32) (left right : Row) : Row :=
  ⟨combine left.first right.first, combine left.second right.second,
    combine left.third right.third, combine left.fourth right.fourth⟩

def add (left right : Row) : Row := zipWith (· + ·) left right

/-- The exclusive or of two rows, with the bits of each word turned to the left. -/
def mix (places : UInt32) (left right : Row) : Row :=
  zipWith (fun a b => turnLeft (a ^^^ b) places) left right

/-- The row with every word moved one place to the left, the first to the end. -/
def turn (row : Row) : Row := ⟨row.second, row.third, row.fourth, row.first⟩

def toList (row : Row) : List UInt32 := [row.first, row.second, row.third, row.fourth]

end Row

/-- Sixteen words in four rows. -/
structure Block where
  a : Row
  b : Row
  c : Row
  d : Row
  deriving DecidableEq, Repr

namespace Block

/-- Mixes each column: two passes of the same shape with different turns. -/
def mixColumns (block : Block) : Block :=
  let pass (high low : UInt32) (block : Block) : Block :=
    let a := block.a.add block.b
    let d := block.d.mix high a
    let c := block.c.add d
    ⟨a, block.b.mix low c, c, d⟩
  pass 8 7 (pass 16 12 block)

/-- Mixes each diagonal. -/
def mixDiagonals (block : Block) : Block :=
  let mixed := mixColumns ⟨block.a, block.b.turn, block.c.turn.turn, block.d.turn.turn.turn⟩
  ⟨mixed.a, mixed.b.turn.turn.turn, mixed.c.turn.turn, mixed.d.turn⟩

/-- Columns, then diagonals. -/
def doubleRound (block : Block) : Block := block.mixColumns.mixDiagonals

/-- The words after eight rounds, each added to the word that was there before. -/
def scramble (block : Block) : List UInt32 :=
  let mixed := Nat.repeat doubleRound 4 block
  [block.a.add mixed.a, block.b.add mixed.b, block.c.add mixed.c, block.d.add mixed.d].flatMap
    Row.toList

/-- The block of a key and a number: four constant words, the key, the number in two words with
the low one first, and two zero words. -/
def ofKey (low high : Row) (number : UInt64) : Block :=
  ⟨⟨0x61707865, 0x3320646e, 0x79622d32, 0x6b206574⟩, low, high,
    ⟨number.toUInt32, (number >>> 32).toUInt32, 0, 0⟩⟩

end Block
end LiveQuery.Draw
