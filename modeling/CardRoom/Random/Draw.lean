import CardRoom.Random.Shuffle
import CardRoom.Random.Stream

/-! # Drawing places and shuffling from a stream

A place among `m` is drawn from one word by the high half of its product with `m`. Words whose
low half is too large are passed over, which makes all places equally likely. A shuffle puts a
drawn entry at each place, from the last one down.
-/

namespace CardRoom.Random

/-- How many words in a row may be passed over. Each is with a chance below one half, so the
bound is never met in practice; it makes drawing end for every stream. -/
def patience : Nat := 4096

/-- The largest low half that is taken for `m` places: one less than `m` shifted up to 32 bits. -/
def acceptedUpTo (m : Nat) : Nat := m <<< (31 - Nat.log2 m) - 1

def drawFrom (m : Nat) : Nat → Stream → Nat × Stream
  | 0, s => (0, s)
  | tries + 1, s =>
    let (word, s) := s.next
    let product := word.toNat * m
    if product % UInt32.size ≤ acceptedUpTo m then (product / UInt32.size, s)
    else drawFrom m tries s

def draw (m : Nat) (s : Stream) : Nat × Stream := drawFrom m patience s

/-- Fills the places from `i` down to 1. -/
def shuffleDown {α : Type} : Nat → Array α → Stream → Array α × Stream
  | 0, xs, s => (xs, s)
  | i + 1, xs, s =>
    let (j, s) := draw (i + 2) s
    shuffleDown i (xs.swapIfInBounds (i + 1) j) s

instance : Shuffler Stream where
  shuffle s xs :=
    let (ys, s) := shuffleDown (xs.length - 1) xs.toArray s
    (ys.toList, s)

end CardRoom.Random
