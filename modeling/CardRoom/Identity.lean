/-! # Identities

Players, tables, tournaments and seats are known by numbers, and so are the hands of a
tournament, which are counted in the order of play.
-/

namespace CardRoom

abbrev PlayerId := Nat

abbrev TableId := Nat

abbrev TournamentId := Nat

abbrev SeatId := Nat

/-- The number of a hand within its tournament. -/
abbrev HandNumber := Nat

end CardRoom
