import CardRoom.Json.Format
import CardRoom.Payout.Bubble

/-! # Records of payouts -/

namespace CardRoom.Stored

open Json Format

def bubbleShare : Format BubbleShare :=
  record ["player_id", "prize"] (fun p => [word64.write p.playerId, word64.write p.prize]) fun
    | [playerId, prize] => do return ⟨← required word64 playerId, ← required word64 prize⟩
    | _ => none

end CardRoom.Stored
