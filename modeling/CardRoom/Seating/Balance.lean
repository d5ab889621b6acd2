import Std.Data.TreeMap
import CardRoom.Seating.Seat

/-! # Balancing tables

Tables are balanced when the fullest has at most an allowed number of players more than the
emptiest. As long as they are not, the last player at the first of the fullest tables who may be
moved goes to the end of the first of the emptiest. When nobody at the fullest table may be
moved, balancing is blocked. A plan is the list of moves up to that point, or up to a limit on
their number.
-/

namespace CardRoom

/-- The players at each table, in the order of seating. -/
abbrev Tables := List (List PlayerId)

/-- For each player who has ever been moved, the hand of the last move. -/
abbrev MoveHistory := Std.TreeMap PlayerId HandNumber

namespace Tables

def sizes (tables : Tables) : List Nat := tables.map List.length

def largest (tables : Tables) : Nat := (sizes tables).max?.getD 0

def smallest (tables : Tables) : Nat := (sizes tables).min?.getD 0

def fullest (tables : Tables) : Nat := (sizes tables).idxOf (largest tables)

def emptiest (tables : Tables) : Nat := (sizes tables).idxOf (smallest tables)

/-- The fullest and the emptiest table differ by at most `allowedDiff`. -/
def Balanced (allowedDiff : Nat) (tables : Tables) : Prop :=
  largest tables - smallest tables ≤ allowedDiff

instance (allowedDiff : Nat) (tables : Tables) : Decidable (Balanced allowedDiff tables) :=
  inferInstanceAs (Decidable (_ ≤ _))

end Tables

/-- The last entry that satisfies `p`, and the list without it. -/
def takeLast? {α : Type} (p : α → Bool) : List α → Option (α × List α)
  | [] => none
  | x :: xs =>
    match takeLast? p xs with
    | some (y, rest) => some (y, x :: rest)
    | none => if p x then some (x, xs) else none

theorem takeLast?_eq_none_iff {α : Type} {p : α → Bool} {xs : List α} :
    takeLast? p xs = none ↔ ∀ x ∈ xs, p x = false := by
  induction xs with
  | nil => simp [takeLast?]
  | cons x xs ih =>
    unfold takeLast?
    cases later : takeLast? p xs with
    | some found =>
      simp only [reduceCtorEq, List.mem_cons, forall_eq_or_imp, false_iff, not_and]
      exact fun _ all => by rw [ih.mpr all] at later; cases later
    | none =>
      simpa using fun _ => ih.mp later

/-- The entry taken is the last one that satisfies `p`, and all others stay in their order. -/
theorem takeLast?_eq_some_iff {α : Type} {p : α → Bool} {xs rest : List α} {y : α} :
    takeLast? p xs = some (y, rest) ↔
      ∃ before after, xs = before ++ y :: after ∧ rest = before ++ after ∧ p y = true ∧
        ∀ z ∈ after, p z = false := by
  induction xs generalizing rest with
  | nil => simp [takeLast?]
  | cons x xs ih =>
    unfold takeLast?
    constructor
    · intro taken
      cases later : takeLast? p xs with
      | some found =>
        obtain ⟨z, others⟩ := found
        simp only [later, Option.some.injEq, Prod.mk.injEq] at taken
        obtain ⟨rfl, rfl⟩ := taken
        obtain ⟨before, after, rfl, rfl, holds, none_after⟩ := ih.mp later
        exact ⟨x :: before, after, rfl, rfl, holds, none_after⟩
      | none =>
        simp only [later, Option.ite_none_right_eq_some, Option.some.injEq, Prod.mk.injEq] at taken
        obtain ⟨holds, rfl, rfl⟩ := taken
        exact ⟨[], xs, rfl, rfl, holds, takeLast?_eq_none_iff.mp later⟩
    · rintro ⟨before, after, split, rfl, holds, none_after⟩
      cases before with
      | nil =>
        obtain ⟨rfl, rfl⟩ := List.cons.inj split
        simp [takeLast?_eq_none_iff.mpr none_after, holds]
      | cons b before =>
        obtain ⟨rfl, rfl⟩ := List.cons.inj split
        have later : takeLast? p (before ++ y :: after) = some (y, before ++ after) :=
          ih.mpr ⟨before, after, rfl, rfl, holds, none_after⟩
        simp [later]

structure BalanceRules where
  hand : HandNumber
  restHands : Nat
  allowedDiff : Nat
  deriving DecidableEq, Repr

/-- A move between two tables, given by their places. -/
structure TableMove where
  playerId : PlayerId
  fromTable : Nat
  toTable : Nat
  deriving DecidableEq, Repr

/-- The players at their tables with the history of their moves. -/
structure Arrangement where
  tables : Tables
  history : MoveHistory

inductive NextMove where
  | balanced
  /-- Everyone at the fullest table was moved too lately. -/
  | blocked
  | move (m : TableMove) (after : Arrangement)

/-- Moves of one balancing, and where they lead. -/
structure BalancePlan where
  moves : List TableMove
  final : Arrangement
  blocked : Bool

namespace Arrangement

def mayMove (rules : BalanceRules) (a : Arrangement) (player : PlayerId) : Bool :=
  isRested a.history[player]? rules.hand rules.restHands

def next (rules : BalanceRules) (a : Arrangement) : NextMove :=
  if Tables.Balanced rules.allowedDiff a.tables then .balanced
  else
    let donor := Tables.fullest a.tables
    let receiver := Tables.emptiest a.tables
    match takeLast? (a.mayMove rules) (a.tables.getD donor []) with
    | none => .blocked
    | some (player, rest) =>
      .move ⟨player, donor, receiver⟩
        { tables := (a.tables.set donor rest).modify receiver (· ++ [player])
          history := a.history.insert player rules.hand }

/-- The plan of at most `limit` moves. -/
def plan (rules : BalanceRules) : Nat → Arrangement → BalancePlan
  | 0, a => ⟨[], a, false⟩
  | limit + 1, a =>
    match a.next rules with
    | .balanced => ⟨[], a, false⟩
    | .blocked => ⟨[], a, true⟩
    | .move m after =>
      let rest := plan rules limit after
      ⟨m :: rest.moves, rest.final, rest.blocked⟩

end Arrangement

end CardRoom
