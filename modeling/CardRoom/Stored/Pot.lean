import CardRoom.Pot.Breakdown
import CardRoom.Pot.Showdown
import CardRoom.Stored.Hand

/-! # Records of pots and showdowns -/

namespace CardRoom.Stored

open Json Format

def chips : Format Chips where
  read v := (word64.read v).map Chips.ofNat
  write c := .ofNat c.count

def breakdown : Format Breakdown :=
  record ["main", "side_pots"]
    (fun b => [chips.write b.main, (list chips).write b.sidePots]) fun
    | [main, sidePots] => do return ⟨← required chips main, ← required (list chips) sidePots⟩
    | _ => none

/-- Amounts by player: an object whose keys are ids in plain digits. The last of equal keys
counts. -/
def contributions : Format (Std.TreeMap PlayerId Chips) where
  read
    | .object members =>
      members.foldlM
        (fun map (key, v) => do
          return map.insert (← key.plain?.bind (digitsUpTo (UInt64.size - 1))) (← chips.read v))
        ∅
    | _ => none
  write map := .record (map.toList.map fun (id, c) => (toString id, chips.write c))

def sidePot : Format SidePot :=
  record ["amount", "players", "contributions"]
    (fun p => [chips.write p.amount, (list word64).write p.players,
      contributions.write p.contributions]) fun
    | [amount, players, paid] => do
      return ⟨← required chips amount, ← required (list word64) players,
        ← required contributions paid⟩
    | _ => none

def player : Format Player :=
  record ["id", "stack", "folded", "hole_cards"]
    (fun p => [word64.write p.id, chips.write p.stack, bool.write p.folded,
      (list card).option.write p.holeCards]) fun
    | [id, stack, folded, holeCards] => do
      return ⟨← required word64 id, ← required chips stack, ← required bool folded,
        ← optional (list card) holeCards⟩
    | _ => none

def showdown : Format Showdown :=
  record ["players", "pot", "side_pots", "community_cards"]
    (fun s => [(list player).write s.players, chips.write s.pot, (list sidePot).write s.sidePots,
      (list card).write s.board]) fun
    | [players, pot, sidePots, board] => do
      return ⟨← required (list player) players, ← required chips pot,
        ← required (list sidePot) sidePots, ← required (list card) board⟩
    | _ => none

def award : Format Award :=
  record ["pot_index", "player_id", "amount", "score"]
    (fun a => [word64.write a.potIndex, word64.write a.playerId, chips.write a.amount,
      score.write a.score]) fun
    | [potIndex, playerId, amount, points] => do
      return ⟨← required word64 potIndex, ← required word64 playerId, ← required chips amount,
        ← required score points⟩
    | _ => none

def settlement : Format Settlement :=
  record ["awards", "scores", "refunds"]
    (fun s => [(list award).write s.awards, (list (pair word64 score)).write s.scores,
      (list (pair word64 chips)).write s.refunds]) fun
    | [awards, scores, refunds] => do
      return ⟨← required (list award) awards, ← required (list (pair word64 score)) scores,
        ← required (list (pair word64 chips)) refunds⟩
    | _ => none

end CardRoom.Stored
