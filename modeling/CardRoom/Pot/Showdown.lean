import CardRoom.Hand.Best
import CardRoom.Pot.Layer
import CardRoom.Pot.Uncontested

/-! # Showdown

At the end of a hand the chips on the table go to the players. Players who have not folded
are active. Each pot is shared equally by those active players on its list who have the best
score there, and what equal shares leave over goes to the first of them in the order of seating.
Cards that cannot be judged score zero. Payments name a place in the seating rather than an id,
so every payment reaches one player even when an id is given twice. Without an active player
nothing happens.
-/

namespace CardRoom

structure Player where
  id : PlayerId
  stack : Chips
  folded : Bool
  /-- Nothing when the cards were not recorded. -/
  holeCards : Option (List Card)
  deriving DecidableEq

namespace Player

def seated (id : PlayerId) (stack : Chips) : Player := ⟨id, stack, false, none⟩

def receive (p : Player) (amount : Chips) : Player := { p with stack := p.stack + amount }

def cards (p : Player) (board : List Card) : List Card := p.holeCards.getD [] ++ board

/-- The player's score, zero for cards that cannot be judged. -/
def score (judge : Judge) (board : List Card) (p : Player) : Score :=
  match judge (p.cards board) with
  | .ok s => s
  | .error _ => 0

end Player

/-- A pot, or one share of it, won by one player. -/
structure Award where
  /-- The place of the pot in the order of settling. -/
  potIndex : Nat
  playerId : PlayerId
  amount : Chips
  score : Score
  deriving DecidableEq

structure Settlement where
  awards : List Award := []
  /-- The score of each active player. -/
  scores : List (PlayerId × Score) := []
  /-- Chips that nobody called, back to who put them in. -/
  refunds : List (PlayerId × Chips) := []
  deriving DecidableEq

namespace Settlement

def awarded (s : Settlement) : Chips := Chips.sum (s.awards.map Award.amount)

def refunded (s : Settlement) : Chips := Chips.sum (s.refunds.map Prod.snd)

def winnings (s : Settlement) (id : PlayerId) : Chips :=
  Chips.sum ((s.awards.filter (·.playerId = id)).map Award.amount)

end Settlement

/-- An active player with the place in the seating and the score. -/
structure Contender where
  position : Nat
  playerId : PlayerId
  score : Score
  deriving DecidableEq

/-- An award with the place in the seating of the player who gets it. -/
structure Payment where
  position : Nat
  award : Award
  deriving DecidableEq

def bestScore (contenders : List Contender) : Score :=
  contenders.foldl (fun best c => max best c.score) 0

/-- The contenders on a pot's list with the best score among those on the list. -/
def Pot.winners (contenders : List Contender) (pot : Pot) : List Contender :=
  let eligible := contenders.filter (pot.eligible.contains ·.playerId)
  eligible.filter (·.score = bestScore eligible)

/-- The payments of one pot. The first winner also gets what equal shares leave over. -/
def Pot.payments (contenders : List Contender) (index : Nat) (pot : Pot) : List Payment :=
  if pot.amount = 0 then []
  else
    let winners := pot.winners contenders
    let (share, rest) := pot.amount.split winners.length
    winners.mapIdx fun n w =>
      ⟨w.position, ⟨index, w.playerId, if n = 0 then share + rest else share, w.score⟩⟩

/-- Everything that decides who gets the chips on the table. -/
structure Showdown where
  players : List Player := []
  /-- Chips for all active players, beside the side pots. -/
  pot : Chips := 0
  sidePots : List SidePot := []
  board : List Card := []

namespace Showdown

def atStake (s : Showdown) : Chips := s.pot + Chips.sum (s.sidePots.map SidePot.amount)

/-- The active players in the order of seating. -/
def contenders (judge : Judge) (s : Showdown) : List Contender :=
  s.players.zipIdx.filterMap fun (p, i) =>
    if p.folded then none else some ⟨i, p.id, p.score judge s.board⟩

/-- The side pots, and the plain pot for all active players if it holds chips or is the only one. -/
def pots (active : List PlayerId) (s : Showdown) : List Pot :=
  let layered := s.sidePots.map fun side => (⟨side.amount, side.players⟩ : Pot)
  if layered.isEmpty || s.pot ≠ 0 then layered ++ [⟨s.pot, active⟩] else layered

/-- Chips go back to the first player with an id. -/
def giveBack (players : List Player) (refund : PlayerId × Chips) : List Player :=
  players.modify (players.findIdx (·.id = refund.1)) (·.receive refund.2)

def pay (players : List Player) (payment : Payment) : List Player :=
  players.modify payment.position (·.receive payment.award.amount)

/-- The table after the showdown, with the account of it. -/
def settle (judge : Judge) (s : Showdown) : Showdown × Settlement :=
  let contenders := s.contenders judge
  if contenders.isEmpty then (s, {})
  else
    let active := contenders.map Contender.playerId
    let pots := s.pots active
    let refunds := Pot.refunds active pots
    let payments := (Pot.resolve active pots).zipIdx.flatMap fun (pot, k) =>
      pot.payments contenders k
    ({ s with
        players := payments.foldl pay (refunds.foldl giveBack s.players)
        pot := 0
        sidePots := [] },
      { awards := payments.map Payment.award
        scores := contenders.map fun c => (c.playerId, c.score)
        refunds })

end Showdown

end CardRoom
