import CardRoom.Payout.Icm
import CardRoom.Text.Blank
import CardRoom.Text.Digits
import CardRoom.Text.Quoted

/-! # Settings

Settings come from outside and are checked before any rule uses them: a balancer needs some
allowed difference and some moves to work with, and the chip model has a limit of its own.
-/

namespace CardRoom

inductive SettingsError where
  | noDiffAllowed
  | noMoves
  | limitOutOfRange
  /-- The text is no record of the settings. -/
  | malformed
  /-- The text from the environment is no number of hands. -/
  | notANumber (value : String)
  deriving DecidableEq, Repr

/-- The environment variable that overrides how long a moved player is left alone. -/
def restVariable : String := "TOURNAMENT_AVOID_WITHIN"

def SettingsError.message : SettingsError → String
  | .noDiffAllowed => "Invalid config: BalancerConfig: max_seat_diff = 0"
  | .noMoves => "Invalid config: BalancerConfig: max_iterations = 0"
  | .limitOutOfRange =>
    s!"Invalid config: IcmConfig: max_players must be in [1, {Icm.maxPlayers}]"
  | .malformed => "Cannot parse config JSON"
  | .notANumber value =>
    "Cannot parse " ++ restVariable ++ "=" ++ Text.quoted value ++ " as a number of hands"

structure BalancerSettings where
  /-- How many hands must pass before a moved player may be moved again. -/
  restHands : Nat := 10
  /-- How far the fullest and the emptiest table may differ. -/
  allowedDiff : Nat := 1
  /-- The most moves in one go. -/
  moveLimit : Nat := 10000
  deriving DecidableEq, Repr

namespace BalancerSettings

def check (s : BalancerSettings) : Except SettingsError Unit :=
  if s.allowedDiff = 0 then .error .noDiffAllowed
  else if s.moveLimit = 0 then .error .noMoves
  else .ok ()

def checked (s : BalancerSettings) : Except SettingsError BalancerSettings := s.check.map fun _ => s

/-- A number of hands between blanks, with or without a plus sign. -/
def handsOfText? (value : String) : Option Nat :=
  let digits := match Text.trim value.toList with
    | '+' :: digits => digits
    | digits => digits
  (Text.natOfDigits? digits).filter (· < UInt64.size)

/-- The defaults, with the number of hands from the environment if it is set there. -/
def ofEnvironment : Option String → Except SettingsError BalancerSettings
  | none => checked {}
  | some value =>
    match handsOfText? value with
    | some hands => checked { restHands := hands }
    | none => .error (.notANumber value)

end BalancerSettings

structure IcmSettings where
  maxPlayers : Nat := Icm.maxPlayers
  deriving DecidableEq, Repr

def IcmSettings.checked (s : IcmSettings) : Except SettingsError IcmSettings :=
  if s.maxPlayers = 0 ∨ Icm.maxPlayers < s.maxPlayers then .error .limitOutOfRange
  else .ok s

end CardRoom
