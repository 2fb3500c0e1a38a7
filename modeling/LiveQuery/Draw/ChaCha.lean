import LiveQuery.Draw.Block
import LiveQuery.Draw.Source

/-!
# The generator of the random draws

The generator that runs behind a random order.  A seed is stretched to a key by a permuted
congruential generator, and the numbers are the words of the blocks of that key, two words each, so
the state of a source is how many numbers it has given.  A draw is made without bias: it is the high
half of a number times the bound, and numbers whose low half lies outside the accepted zone are
passed over.

No proof looks at this generator; that its draws stay below their bounds (`Key.drawBelow_lt`) makes
it one of the generators that the proofs are about.
-/

namespace LiveQuery.Draw

/-- The next state of the generator that stretches a seed. -/
def stretchStep (state : UInt64) : UInt64 :=
  state * 6364136223846793005 + 11634580027462260723

/-- The word that a state of that generator stands for: its folded high bits, turned to the right
by as many places as its five highest bits say. -/
def stretchWord (state : UInt64) : UInt32 :=
  let folded := (((state >>> 18) ^^^ state) >>> 27).toUInt32
  let places := (state >>> 59).toUInt32
  (folded >>> places) ||| (folded <<< (32 - places))

/-- Four words from a generator, and its state afterwards. -/
def stretchRow (state : UInt64) : Row × UInt64 :=
  let s1 := stretchStep state
  let s2 := stretchStep s1
  let s3 := stretchStep s2
  let s4 := stretchStep s3
  (⟨stretchWord s1, stretchWord s2, stretchWord s3, stretchWord s4⟩, s4)

/-- The key of a stream of numbers. -/
structure Key where
  low : Row
  high : Row
  deriving DecidableEq, Repr

namespace Key

/-- The key that a seed is stretched to. -/
def ofSeed (seed : UInt64) : Key :=
  let (low, state) := stretchRow seed
  ⟨low, (stretchRow state).1⟩

/-- The number at a position: eight numbers to a block, the low word of a number first. -/
def numberAt (key : Key) (position : Nat) : UInt64 :=
  let words := (Block.ofKey key.low key.high (position / 8).toUInt64).scramble
  let word (place : Nat) : UInt64 := (words.getD place 0).toUInt64
  word (2 * (position % 8)) ||| (word (2 * (position % 8) + 1) <<< 32)

/-- The largest low half of a product that is accepted in a draw below `bound`: the largest
multiple of `bound` by a power of two within 64 bits, less one. -/
def zone (bound : Nat) : Nat := bound <<< (63 - bound.log2) - 1

/-- A number below a positive bound, drawn when some numbers have been taken, and how many have been
taken afterwards.  After the given number of attempts the draw settles for zero. -/
def drawBelow (key : Key) (bound : Nat) : Nat → Nat → Nat × Nat
  | 0, taken => (0, taken)
  | attempts + 1, taken =>
    let product := (key.numberAt taken).toNat * bound
    if product % UInt64.size ≤ zone bound then (product / UInt64.size, taken + 1)
    else key.drawBelow bound attempts (taken + 1)

/-- How often a draw is attempted.  At least half of all numbers are accepted, so a draw that
fails this often is not to be expected. -/
def attempts : Nat := 4096

theorem drawBelow_lt (key : Key) {bound : Nat} (positive : 0 < bound) (tries taken : Nat) :
    (key.drawBelow bound tries taken).1 < bound := by
  induction tries generalizing taken with
  | zero => exact positive
  | succ tries ih =>
    simp only [drawBelow]
    split
    · refine Nat.div_lt_of_lt_mul ?_
      exact (Nat.mul_lt_mul_right positive).mpr (UInt64.toNat_lt _)
    · exact ih _

/-- The source that draws from the numbers of a key, none of which has been taken. -/
def source (key : Key) : Source where
  draw taken bound := key.drawBelow bound attempts taken
  state := 0
  draw_lt taken _ positive := key.drawBelow_lt positive attempts taken

end Key

instance chaCha : Generator where
  ofSeed seed := (Key.ofSeed seed).source

end LiveQuery.Draw
