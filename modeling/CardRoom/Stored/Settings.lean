import CardRoom.Json.Format
import CardRoom.Settings

/-! # Records of settings

Fields that are absent take their defaults, also at the end of an array.
-/

namespace CardRoom

namespace Stored

open Json Format

def balancerSettings : Format BalancerSettings :=
  let defaults : BalancerSettings := {}
  record ["avoid_within_hands", "max_seat_diff", "max_iterations"]
    (fun s => [word64.write s.restHands, word8.write s.allowedDiff,
      word64.write s.moveLimit])
    (fun
      | [restHands, allowedDiff, moveLimit] => do
        return ⟨← orDefault word64 defaults.restHands restHands,
          ← orDefault word8 defaults.allowedDiff allowedDiff,
          ← orDefault word64 defaults.moveLimit moveLimit⟩
      | _ => none)
    true

def icmSettings : Format IcmSettings :=
  let defaults : IcmSettings := {}
  record ["max_players"] (fun s => [word64.write s.maxPlayers])
    (fun
      | [maxPlayers] => do return ⟨← orDefault word64 defaults.maxPlayers maxPlayers⟩
      | _ => none)
    true

end Stored

def BalancerSettings.ofJson (text : String) : Except SettingsError BalancerSettings :=
  match (Json.Value.parse? text).bind Stored.balancerSettings.read with
  | some s => s.checked
  | none => .error .malformed

end CardRoom
