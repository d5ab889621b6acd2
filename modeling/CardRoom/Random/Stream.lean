/-! # A stream of random words

A 64-bit seed is spread over a 256-bit key, and the ChaCha block function with twelve rounds
turns the key and a counter into sixteen words at a time. The words of successive counters, from
zero on, are the stream.
-/

namespace CardRoom.Random

/-- The key of a seed: eight outputs of a linear congruential generator, each permuted by a shift
and a rotation that the state itself chooses. -/
def seedWords : Nat → UInt64 → List UInt32
  | 0, _ => []
  | n + 1, state =>
    let state := state * 6364136223846793005 + 11634580027462260723
    let word := (((state >>> 18) ^^^ state) >>> 27).toUInt32
    let turn := (state >>> 59).toUInt32
    ((word >>> turn) ||| (word <<< ((32 - turn) % 32))) :: seedWords n state

/-- The sixteen words that a block is made from. -/
abbrev Block := Vector UInt32 16

def rotateLeft (x n : UInt32) : UInt32 := (x <<< n) ||| (x >>> (32 - n))

/-- Mixes the words at four places. -/
def quarterRound (s : Block) (a b c d : Fin 16) : Block :=
  let s := s.set a (s[a] + s[b])
  let s := s.set d (rotateLeft (s[d] ^^^ s[a]) 16)
  let s := s.set c (s[c] + s[d])
  let s := s.set b (rotateLeft (s[b] ^^^ s[c]) 12)
  let s := s.set a (s[a] + s[b])
  let s := s.set d (rotateLeft (s[d] ^^^ s[a]) 8)
  let s := s.set c (s[c] + s[d])
  s.set b (rotateLeft (s[b] ^^^ s[c]) 7)

/-- One round over the columns and one over the diagonals. -/
def doubleRound (s : Block) : Block :=
  let s := quarterRound s 0 4 8 12
  let s := quarterRound s 1 5 9 13
  let s := quarterRound s 2 6 10 14
  let s := quarterRound s 3 7 11 15
  let s := quarterRound s 0 5 10 15
  let s := quarterRound s 1 6 11 12
  let s := quarterRound s 2 7 8 13
  quarterRound s 3 4 9 14

/-- The words before mixing: four constants, the key, the counter and two zeros. -/
def initialBlock (key : List UInt32) (counter : UInt64) : Block :=
  let k (i : Nat) := key.getD i 0
  #v[0x61707865, 0x3320646e, 0x79622d32, 0x6b206574, k 0, k 1, k 2, k 3, k 4, k 5, k 6, k 7,
    counter.toUInt32, (counter >>> 32).toUInt32, 0, 0]

def block (key : List UInt32) (counter : UInt64) : List UInt32 :=
  let first := initialBlock key counter
  let mixed := (List.range 6).foldl (fun s _ => doubleRound s) first
  (Vector.zipWith (· + ·) mixed first).toList

/-- A place in the stream of a key. -/
structure Stream where
  key : List UInt32
  /-- The counter of the next block. -/
  counter : UInt64
  /-- Words of the last block that are still to come. -/
  pending : List UInt32
  deriving DecidableEq

namespace Stream

def ofSeed (seed : UInt64) : Stream := ⟨seedWords 8 seed, 0, []⟩

def next (s : Stream) : UInt32 × Stream :=
  match s.pending with
  | word :: rest => (word, { s with pending := rest })
  | [] =>
    match block s.key s.counter with
    | word :: rest => (word, { s with counter := s.counter + 1, pending := rest })
    | [] => (0, s)

end Stream

end CardRoom.Random
