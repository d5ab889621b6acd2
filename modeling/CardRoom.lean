import CardRoom.Decimal.Numeral
import CardRoom.Main
import CardRoom.Seating.Rehearsal
import CardRoom.Stored.Payout
import CardRoom.Stored.Seating
import CardRoom.Stored.Settings
import CardRoom.Proofs.Hand.Rules
import CardRoom.Proofs.Pot.Conservation
import CardRoom.Proofs.Pot.Coverage
import CardRoom.Proofs.Seating.Rebalance
import CardRoom.Proofs.Payout.Recall
import CardRoom.Proofs.Hand.Kickers
import CardRoom.Proofs.Hand.Scores
import CardRoom.Proofs.Seating.Standstill
import CardRoom.Proofs.Seating.Stability
import CardRoom.Proofs.Seating.Requests
import CardRoom.Proofs.Seating.Chronicle
import CardRoom.Proofs.Pot.Agreement
import CardRoom.Proofs.Seating.Occupancy
import CardRoom.Proofs.Payout.Division
import CardRoom.Proofs.Payout.Exact
import CardRoom.Proofs.Tournament.Hands
import CardRoom.Proofs.Tournament.Visits
import CardRoom.Proofs.Tournament.Rounds
import CardRoom.Proofs.Pot.Destinations
import CardRoom.Proofs.Pot.Awards
import CardRoom.Proofs.Pot.Refunds
import CardRoom.Proofs.Pot.Levels
import CardRoom.Proofs.Pot.Reordering
import CardRoom.Proofs.Pot.Improvement
import CardRoom.Proofs.Hand.Judging
import CardRoom.Proofs.Pot.Unjudged
import CardRoom.Proofs.Hand.Selection
import CardRoom.Proofs.Hand.Symmetry
import CardRoom.Proofs.Seating.Stages
import CardRoom.Proofs.Seating.Fewest
import CardRoom.Proofs.Seating.Script
import CardRoom.Proofs.Seating.Keeping
import CardRoom.Proofs.Payout.Prospect
import CardRoom.Proofs.Payout.Increase
import CardRoom.Proofs.Payout.Comparison
import CardRoom.Proofs.Payout.Dealing
import CardRoom.Proofs.Payout.Bubble
import CardRoom.Proofs.Payout.Ladder
import CardRoom.Proofs.Payout.Announcements
import CardRoom.Proofs.Cards.Dealing
import CardRoom.Proofs.Cards.Reading
