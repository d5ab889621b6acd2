import CardRoom.Seating.Relocation
import CardRoom.Stored.Pot

/-! # Records of seats and moves -/

namespace CardRoom.Stored

open Json Format

def seat : Format Seat :=
  record ["id", "player_id", "table_id", "position", "stack", "last_moved_hand"]
    (fun s => [word64.write s.id, word64.write s.playerId, word64.write s.tableId,
      word8.option.write s.position, chips.write s.stack, word64.option.write s.lastMoved]) fun
    | [id, playerId, tableId, position, stack, lastMoved] => do
      return ⟨← required word64 id, ← required word64 playerId, ← required word64 tableId,
        ← optional word8 position, ← required chips stack, ← optional word64 lastMoved⟩
    | _ => none

def table : Format SeatedTable :=
  record ["table_id", "seats"] (fun t => [word64.write t.id, (list seat).write t.seats]) fun
    | [id, seats] => do return ⟨← required word64 id, ← required (list seat) seats⟩
    | _ => none

def transfer : Format Transfer :=
  record ["player_id", "from_table", "to_table"]
    (fun m => [word64.write m.playerId, word64.write m.fromTable, word64.write m.toTable]) fun
    | [playerId, fromTable, toTable] => do
      return ⟨← required word64 playerId, ← required word64 fromTable, ← required word64 toTable⟩
    | _ => none

def tableMove : Format TableMove :=
  transfer.via (fun m => some ⟨m.playerId, m.fromTable, m.toTable⟩)
    fun m => ⟨m.playerId, m.fromTable, m.toTable⟩

def rebalanceReport : Format RebalanceReport :=
  record ["moves", "blocked_by_cooldown", "remaining_players"]
    (fun o => [(list transfer).write o.moves, bool.write o.blocked,
      word64.write o.remaining]) fun
    | [moves, blocked, remaining] => do
      return ⟨← required (list transfer) moves, ← required bool blocked,
        ← required word64 remaining⟩
    | _ => none

end CardRoom.Stored
