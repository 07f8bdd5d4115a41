import Tabletop.Source.Words

/-! Reproducible words: a ChaCha key stream whose key is spread from a 64-bit seed.

The block function of the stream cipher, with eight rounds, makes sixteen words from a
key of eight words and the number of the block. -/

set_option autoImplicit false

namespace Tabletop.ChaCha

abbrev Key := Vector UInt32 8

abbrev Block := Vector UInt32 16

def rotateLeft (word amount : UInt32) : UInt32 := (word <<< amount) ||| (word >>> (32 - amount))

def quarterRound (block : Block) (i j k l : Fin 16) : Block :=
  let a := block[i] + block[j]
  let d := rotateLeft (block[l] ^^^ a) 16
  let c := block[k] + d
  let b := rotateLeft (block[j] ^^^ c) 12
  let a := a + b
  let d := rotateLeft (d ^^^ a) 8
  let c := c + d
  let b := rotateLeft (b ^^^ c) 7
  (((block.set i a).set j b).set k c).set l d

def doubleRound (block : Block) : Block :=
  let block := quarterRound block 0 4 8 12
  let block := quarterRound block 1 5 9 13
  let block := quarterRound block 2 6 10 14
  let block := quarterRound block 3 7 11 15
  let block := quarterRound block 0 5 10 15
  let block := quarterRound block 1 6 11 12
  let block := quarterRound block 2 7 8 13
  quarterRound block 3 4 9 14

def constants : Vector UInt32 4 := #v[0x61707865, 0x3320646e, 0x79622d32, 0x6b206574]

/-- The words before the rounds: four constants, the key, the number of the block as two
words, the low one first, and two zeros. -/
def initial (key : Key) (number : UInt64) : Block :=
  constants ++ key ++ #v[number.toUInt32, (number >>> 32).toUInt32, 0, 0]

def block (key : Key) (number : UInt64) : Block :=
  let start := initial key number
  let mixed := doubleRound (doubleRound (doubleRound (doubleRound start)))
  Vector.zipWith (· + ·) mixed start

def word (key : Key) (place : Nat) : UInt32 :=
  (block key (place / 16).toUInt64).get ⟨place % 16, Nat.mod_lt _ (by decide)⟩

def spread (state : UInt64) : UInt64 := state * 6364136223846793005 + 11634580027462260723

def spreadMany (seed : UInt64) : Nat → UInt64
  | 0 => seed
  | steps + 1 => spread (spreadMany seed steps)

/-- The key word of a state: some of its bits, rotated right by its five highest ones. -/
def keyWord (state : UInt64) : UInt32 :=
  let mixed := (((state >>> 18) ^^^ state) >>> 27).toUInt32
  let amount := (state >>> 59).toUInt32
  (mixed >>> amount) ||| (mixed <<< (32 - amount))

def keyOfSeed (seed : UInt64) : Key :=
  Vector.ofFn fun index => keyWord (spreadMany seed (index + 1))

end Tabletop.ChaCha

namespace Tabletop

def Words.ofSeed (seed : UInt64) : Words := ⟨ChaCha.word (ChaCha.keyOfSeed seed), 0⟩

end Tabletop
