import Mathlib
import CardRoom.Proofs.Seating.Stages
import CardRoom.Proofs.Tallies

/-! # The fewest transfers

A weight of the tables adds up a figure for each of them that depends on its size. Two weights count
the players above a size and the free chairs below one. A transfer of one player, whoever he is, lowers
either by one at most, while the moves of a plan that has not balanced the tables yet lower both by
one each. So fewer transfers than the plan has moves leave a table that is as large, and one that is
as small, as the plan's largest and smallest tables at that point, which are too far apart.
-/

namespace CardRoom

namespace Tables

/-- A player goes from one table to another. How the two tables are seated then is left open. -/
def Transfer (tables shifted : Tables) : Prop :=
  ∃ i j giver taker rest joined, ∃ p : PlayerId, i ≠ j ∧
    tables[i]? = some giver ∧ giver.Perm (p :: rest) ∧
    tables[j]? = some taker ∧ joined.Perm (p :: taker) ∧
    shifted = (tables.set i rest).set j joined

/-- So many transfers in a row. -/
inductive Transfers : Nat → Tables → Tables → Prop where
  | none (tables : Tables) : Transfers 0 tables tables
  | more {n : Nat} {tables between final : Tables} (first : Transfer tables between)
      (rest : Transfers n between final) : Transfers (n + 1) tables final

/-- The sum of the figures that the tables have by their sizes. -/
def weight (g : Nat → Nat) (tables : Tables) : Nat := tally (tables.map fun seated => g seated.length)

variable {tables shifted final : Tables} {m : TableMove} {g : Nat → Nat} {n : Nat}

theorem Shift.transfer (shift : Shift tables m shifted) : Transfer tables shifted := by
  obtain ⟨before, after, taker, here, there, same⟩ := shift.exists_set
  exact ⟨m.fromTable, m.toTable, _, taker, before ++ after, taker ++ [m.playerId], m.playerId,
    shift.apart, here, List.perm_middle, there, List.perm_append_singleton _ _, same⟩

/-- What a transfer takes from a weight at one table and brings to it at the other. -/
theorem weight_transfer (g : Nat → Nat) {i j : Nat} {giver taker : List PlayerId}
    (rest joined : List PlayerId) (apart : i ≠ j) (gives : tables[i]? = some giver)
    (takes : tables[j]? = some taker) :
    weight g ((tables.set i rest).set j joined) + g giver.length + g taker.length =
      weight g tables + g rest.length + g joined.length := by
  have first := tally_modify (fun seated : List PlayerId => g seated.length) (fun _ => rest) gives
  have still : (tables.modify i fun _ => rest)[j]? = some taker := by
    rw [List.getElem?_modify_ne _ _ apart, takes]
  have second := tally_modify (fun seated : List PlayerId => g seated.length) (fun _ => joined) still
  rw [List.set_eq_modify, List.set_eq_modify]
  unfold weight
  omega

/-! ## Transfers -/

/-- A transfer between two tables lowers the sum of their figures by one at most. -/
def Gentle (g : Nat → Nat) : Prop := ∀ x y, g (x + 1) + g y ≤ g x + g (y + 1) + 1

theorem gentle_above (t : Nat) : Gentle (· - t) := by
  intro x y
  dsimp only
  omega

theorem gentle_below (t : Nat) : Gentle (t - ·) := by
  intro x y
  dsimp only
  omega

theorem Transfer.weight_le (gentle : Gentle g) (transfer : Transfer tables shifted) :
    weight g tables ≤ weight g shifted + 1 := by
  obtain ⟨i, j, giver, taker, rest, joined, p, apart, gives, left, takes, came, rfl⟩ := transfer
  have change := weight_transfer g rest joined apart gives takes
  have loses := left.length_eq
  have gains := came.length_eq
  rw [List.length_cons] at loses gains
  rw [loses, gains] at change
  have bound := gentle rest.length taker.length
  omega

theorem Transfers.weight_le (gentle : Gentle g) (transfers : Transfers n tables final) :
    weight g tables ≤ weight g final + n := by
  induction transfers with
  | none => exact Nat.le_refl _
  | more first rest ih =>
      have step := first.weight_le gentle
      omega

theorem exists_of_weight_pos (some_weight : 0 < weight g tables) :
    ∃ seated ∈ tables, 0 < g seated.length := by
  by_contra nowhere
  have nothing : weight g tables ≤ tally (tables.map fun _ => 0) :=
    tally_le_tally fun seated member =>
      Nat.not_lt.mp fun counted => nowhere ⟨seated, member, counted⟩
  rw [tally_const, Nat.zero_mul] at nothing
  omega

theorem le_weight {seated : List PlayerId} (member : seated ∈ tables) :
    g seated.length ≤ weight g tables :=
  le_tally (List.mem_map_of_mem member)

/-! ## Moves of a plan -/

/-- The sum of the figures falls by one when a player leaves a table of `high` players or more for
one of `low` players or fewer. -/
def Falls (low high : Nat) (g : Nat → Nat) : Prop :=
  ∀ top bottom, high ≤ top → bottom ≤ low → g top + g bottom = g (top - 1) + g (bottom + 1) + 1

theorem falls_above {low high : Nat} (apart : low + 2 ≤ high) :
    Falls low high (· - (high - 1)) := by
  intro top bottom full empty
  dsimp only
  omega

theorem falls_below {low high : Nat} (apart : low + 2 ≤ high) :
    Falls low high (low + 1 - ·) := by
  intro top bottom full empty
  dsimp only
  omega

theorem Levelling.weight_eq {low high : Nat} (falls : Falls low high g)
    (level : Levelling tables m shifted) (full : high ≤ largest tables)
    (empty : smallest tables ≤ low) : weight g tables = weight g shifted + 1 := by
  obtain ⟨before, after, taker, here, there, rfl⟩ := level.exists_set
  have change := weight_transfer g (before ++ after) (taker ++ [m.playerId]) level.apart here there
  have loses : (before ++ after).length = largest tables - 1 := by
    rw [← level.full _ here]
    simp
  have gains : (taker ++ [m.playerId]).length = smallest tables + 1 := by
    rw [List.length_append, level.empty _ there]
    rfl
  rw [loses, gains, level.full _ here, level.empty _ there] at change
  have one := falls _ _ full empty
  omega

end Tables

namespace Arrangement

open Tables

variable {rules : BalanceRules} {a : Arrangement} {limit n : Nat} {others : Tables}

theorem transfers_plan (strict : 1 ≤ rules.allowedDiff) (limit : Nat) (a : Arrangement) :
    Transfers (a.plan rules limit).moves.length a.tables (a.plan rules limit).final.tables := by
  induction limit, a using plan_induction rules with
  | stop limit a blocked stops => exact stops ▸ .none a.tables
  | move limit a m b next_is goes_on ih =>
      rw [goes_on]
      exact .more (levelling_of_next strict next_is).transfer ih

/-- Each move of a plan takes one from a weight that falls between its last tables. -/
theorem weight_plan {low high : Nat} {g : Nat → Nat} (strict : 1 ≤ rules.allowedDiff)
    (falls : Falls low high g) (full : high ≤ largest (a.plan rules limit).final.tables)
    (empty : smallest (a.plan rules limit).final.tables ≤ low) :
    weight g a.tables =
      weight g (a.plan rules limit).final.tables + (a.plan rules limit).moves.length := by
  induction limit, a using plan_induction rules with
  | stop limit a blocked stops =>
      rw [stops]
      rfl
  | move limit a m b next_is goes_on ih =>
      have steady := steady_plan strict (limit + 1) a
      have level := levelling_of_next strict next_is
      rw [level.weight_eq falls (full.trans steady.largest_le) (steady.smallest_le.trans empty)]
      simp only [goes_on] at full empty ⊢
      rw [ih full empty, List.length_cons, Nat.add_assoc]

section

variable (strict : 1 ≤ rules.allowedDiff)
  (transfers : Transfers (a.plan rules limit).moves.length a.tables others)
include strict transfers

/-- What a weight counts at the end of a plan, it still counts after as many other transfers. -/
theorem exists_of_mem_final {low high : Nat} {g : Nat → Nat} (gentle : Gentle g)
    (falls : Falls low high g) (full : high ≤ largest (a.plan rules limit).final.tables)
    (empty : smallest (a.plan rules limit).final.tables ≤ low) {seated : List PlayerId}
    (member : seated ∈ (a.plan rules limit).final.tables) (counted : 0 < g seated.length) :
    ∃ other ∈ others, 0 < g other.length := by
  have bound := transfers.weight_le gentle
  rw [weight_plan strict falls full empty] at bound
  have some_weight : 0 < weight g (a.plan rules limit).final.tables :=
    counted.trans_le (le_weight member)
  exact exists_of_weight_pos (by omega)

/-- As long as a plan has not balanced the tables, no other transfers, as many as its moves, have
made the largest table smaller than it did, or the smallest one larger. -/
theorem plan_best_of_transfers
    (unbalanced : ¬ Tables.Balanced rules.allowedDiff (a.plan rules limit).final.tables) :
    largest (a.plan rules limit).final.tables ≤ largest others ∧
      smallest others ≤ smallest (a.plan rules limit).final.tables := by
  have apart := steep_of_unbalanced unbalanced strict
  have nonempty := ne_nil_of_unbalanced unbalanced
  constructor
  · obtain ⟨full, member, size⟩ := List.mem_map.mp (largest_mem nonempty)
    obtain ⟨other, listed, above⟩ := exists_of_mem_final strict transfers (gentle_above _)
      (falls_above apart) le_rfl le_rfl member (by omega)
    have bound := le_largest listed
    omega
  · obtain ⟨low, member, size⟩ := List.mem_map.mp (smallest_mem nonempty)
    obtain ⟨other, listed, below⟩ := exists_of_mem_final strict transfers (gentle_below _)
      (falls_below apart) le_rfl le_rfl member (by omega)
    have bound := smallest_le listed
    omega

end

/-- A plan that ends with balanced tables needs the fewest transfers of players that balance them,
however those who are transferred are chosen. -/
theorem plan_disturbs_fewest (strict : 1 ≤ rules.allowedDiff)
    (balanced : Tables.Balanced rules.allowedDiff (a.plan rules limit).final.tables) :
    IsLeast {n | ∃ others, Transfers n a.tables others ∧ Tables.Balanced rules.allowedDiff others}
      (a.plan rules limit).moves.length := by
  constructor
  · exact ⟨_, transfers_plan strict limit a, balanced⟩
  · rintro n ⟨others, transfers, also_balanced⟩
    by_contra fewer
    obtain ⟨all, unbalanced⟩ := plan_of_fewer (Nat.not_le.mp fewer)
    obtain ⟨high, low⟩ := plan_best_of_transfers strict (all.symm ▸ transfers) unbalanced
    unfold Tables.Balanced at unbalanced also_balanced
    omega

theorem plan_disturbs_fewest_unevenTables :
    (1 ≤ (BalanceRules.mk 9 5 1).allowedDiff ∧
      Tables.Balanced 1 (unevenTables.plan ⟨9, 5, 1⟩ 6).final.tables) ∧
    IsLeast {n | ∃ others, Transfers n [[1, 2, 3, 4, 5], [], [6]] others ∧
      Tables.Balanced 1 others} 3 := by
  have strict : 1 ≤ (BalanceRules.mk 9 5 1).allowedDiff := by decide
  have balanced : Tables.Balanced 1 (unevenTables.plan ⟨9, 5, 1⟩ 6).final.tables := by decide
  exact ⟨⟨strict, balanced⟩, plan_disturbs_fewest strict balanced⟩

end Arrangement

end CardRoom
