import CardRoom.Identity
import CardRoom.Journal
import CardRoom.Tally

/-! # The bubble

Players who are eliminated together on the bubble share the prizes of the places that they take
up. A watch announces the bubble of a tournament once, at the first sight of the right number
of players, until it is told to forget the tournament.
-/

namespace CardRoom

structure BubbleShare where
  playerId : PlayerId
  prize : Nat
  deriving DecidableEq, Repr

/-- The prizes of players who are eliminated together, given with their stacks before the hand.
They share equally, and what is left over goes one chip each to the largest stacks. -/
def shareBubble (busts : List (PlayerId × Nat)) (prizes : List Nat) : List BubbleShare :=
  let ordered := busts.mergeSort fun a b => decide (b.2 ≤ a.2)
  let pot := tally (prizes.take busts.length)
  ordered.mapIdx fun i (id, _) =>
    ⟨id, pot / busts.length + if i < pot % busts.length then 1 else 0⟩

/-- The tournaments whose bubble has been announced. -/
structure BubbleWatch where
  announced : List TournamentId := []
  deriving DecidableEq, Repr

namespace BubbleWatch

/-- The bubble of tournament `t` begins now, at `threshold` players. -/
def begins (b : BubbleWatch) (t : TournamentId) (remaining threshold : Nat) : Bool :=
  remaining == threshold && !b.announced.contains t

def observe (b : BubbleWatch) (t : TournamentId) (remaining threshold : Nat) :
    Bool × BubbleWatch × List Note :=
  if b.begins t remaining threshold then
    (true, ⟨t :: b.announced⟩,
      [⟨.info, s!"tournament {t}: bubble reached with {remaining} players left"⟩])
  else (false, b, [])

/-- The watch without tournament `t`, which is over. -/
def forget (b : BubbleWatch) (t : TournamentId) : BubbleWatch := ⟨b.announced.filter (· != t)⟩

end BubbleWatch

end CardRoom
