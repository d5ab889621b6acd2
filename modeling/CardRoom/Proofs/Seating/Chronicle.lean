import Mathlib
import CardRoom.Proofs.Seating.Requests

/-! # Moved players are left alone

A chronicle keeps beside the store what has occurred since the store was empty. A seat remembers
the hand of the last move of its player or, if there was none, what it was taken with. So whatever
happens in between, no player is moved until he has rested from his last move.
-/

namespace CardRoom

structure Request where
  tournament : TournamentId
  operation : Operation

namespace Occurrence

def Concerns (t : TournamentId) (p : PlayerId) : Occurrence → Prop
  | seated u s => u = t ∧ s.playerId = p
  | moved u _ _ move => u = t ∧ move.playerId = p

instance (t : TournamentId) (p : PlayerId) : DecidablePred (Concerns t p)
  | seated u s => inferInstanceAs (Decidable (u = t ∧ s.playerId = p))
  | moved u _ _ move => inferInstanceAs (Decidable (u = t ∧ move.playerId = p))

/-- The hand of the last move, which a player may bring along when he takes his seat. -/
def lastMoved : Occurrence → Option HandNumber
  | seated _ s => s.lastMoved
  | moved _ hand _ _ => some hand

end Occurrence

/-- What put a player last at a table of a tournament. -/
def latest? (t : TournamentId) (p : PlayerId) (history : List Occurrence) : Option Occurrence :=
  history.reverse.find? (·.Concerns t p)

section

variable {t : TournamentId} {p : PlayerId} {history added : List Occurrence}

theorem latest?_append (history added : List Occurrence) :
    latest? t p (history ++ added) = (latest? t p added).or (latest? t p history) := by
  rw [latest?, List.reverse_append, List.find?_append]
  rfl

theorem latest?_eq_none (absent : ∀ o ∈ added, ¬ o.Concerns t p) :
    latest? t p added = none := by
  simpa [latest?] using absent

theorem latest?_append_of_absent (absent : ∀ o ∈ added, ¬ o.Concerns t p) :
    latest? t p (history ++ added) = latest? t p history := by
  rw [latest?_append, latest?_eq_none absent, Option.none_or]

theorem not_concerns_moves {hand : HandNumber} {restHands : Nat} {moves : List Transfer}
    (stays : p ∉ moves.map Transfer.playerId) :
    ∀ o ∈ moves.map (Occurrence.moved t hand restHands), ¬ o.Concerns t p := by
  intro o listed concerns
  obtain ⟨move, member, rfl⟩ := List.mem_map.mp listed
  exact stays (List.mem_map.mpr ⟨move, member, concerns.2⟩)

theorem latest?_moves {hand : HandNumber} {restHands : Nat} {moves : List Transfer}
    (moved : p ∈ moves.map Transfer.playerId) :
    (latest? t p (moves.map (.moved t hand restHands))).map Occurrence.lastMoved =
      some (some hand) := by
  obtain ⟨move, member, rfl⟩ := List.mem_map.mp moved
  have found : (latest? t move.playerId (moves.map (.moved t hand restHands))).isSome := by
    refine List.find?_isSome.mpr ⟨.moved t hand restHands move, ?_, decide_eq_true ⟨rfl, rfl⟩⟩
    exact List.mem_reverse.mpr (List.mem_map_of_mem member)
  obtain ⟨last, is_last⟩ := Option.isSome_iff_exists.mp found
  obtain ⟨other, -, rfl⟩ :=
    List.mem_map.mp (List.mem_reverse.mp (List.mem_of_find?_eq_some is_last))
  rw [is_last]
  rfl

end

/-! ## What seats remember -/

/-- The last move that a seat remembers is what put its player last at a table. -/
def Remembers (t : TournamentId) (history : List Occurrence) (s : Seat) : Prop :=
  (latest? t s.playerId history).map Occurrence.lastMoved = some s.lastMoved

/-- A player was put at a table of the tournament, and has rested since his last move. -/
def HasRested (t : TournamentId) (p : PlayerId) (history : List Occurrence) (hand : HandNumber)
    (restHands : Nat) : Prop :=
  ∃ last, latest? t p history = some last ∧
    ∀ earlier, last.lastMoved = some earlier → restHands = 0 ∨ earlier + restHands ≤ hand

/-- Whoever is moved has rested. -/
def RestKept (history : List Occurrence) : Prop :=
  ∀ before t hand restHands move after,
    history = before ++ .moved t hand restHands move :: after →
      HasRested t move.playerId before hand restHands

section

variable {t : TournamentId} {history added : List Occurrence}

theorem le_of_isRested {last hand restHands : Nat}
    (rested : isRested (some last) hand restHands = true) :
    restHands = 0 ∨ last + restHands ≤ hand := by
  simp only [isRested, decide_eq_true_eq] at rested
  omega

theorem Remembers.append {s : Seat} (remembers : Remembers t history s)
    (absent : ∀ o ∈ added, ¬ o.Concerns t s.playerId) : Remembers t (history ++ added) s := by
  rw [Remembers, latest?_append_of_absent absent]
  exact remembers

theorem lastMoved_afterMoves (moves : List Transfer) (hand : HandNumber) (s : Seat) :
    (s.afterMoves moves hand).lastMoved =
      if s.playerId ∈ moves.map Transfer.playerId then some hand else s.lastMoved := by
  unfold Seat.afterMoves
  split
  · rename_i absent
    rw [if_neg]
    simpa using absent
  · rename_i move found
    rw [if_pos]
    · rfl
    · have own : move.playerId = s.playerId := by simpa using List.find?_some found
      exact own ▸ List.mem_map_of_mem (List.mem_of_find?_eq_some found)

theorem Remembers.afterMoves {s : Seat} (remembers : Remembers t history s)
    {moves : List Transfer} {hand : HandNumber} {restHands : Nat} :
    Remembers t (history ++ moves.map (.moved t hand restHands)) (s.afterMoves moves hand) := by
  rw [Remembers, playerId_afterMoves, lastMoved_afterMoves]
  by_cases moved : s.playerId ∈ moves.map Transfer.playerId
  · rw [if_pos moved, latest?_append, Option.map_or, latest?_moves moved]
    rfl
  · rw [if_neg moved]
    exact remembers.append (not_concerns_moves moved)

theorem RestKept.append (kept : RestKept history)
    (added_kept : ∀ first u hand restHands move later,
      added = first ++ .moved u hand restHands move :: later →
        HasRested u move.playerId (history ++ first) hand restHands) :
    RestKept (history ++ added) := by
  intro before u hand restHands move after split
  rcases List.append_eq_append_iff.mp split with ⟨first, rfl, parts⟩ | ⟨rest, rfl, parts⟩
  · exact added_kept first u hand restHands move after parts
  · cases rest with
    | nil => simpa using added_kept [] u hand restHands move after parts.symm
    | cons o rest =>
        obtain ⟨rfl, -⟩ := List.cons.inj parts
        exact kept before u hand restHands move rest rfl

end

namespace Change

variable {t : TournamentId} {history occurrences : List Occurrence} {before after : List Seat}
  {op : Operation} (change : Change t before op after occurrences)
include change

theorem not_concerns_of_ne {u : TournamentId} (other : u ≠ t) (p : PlayerId) :
    ∀ o ∈ occurrences, ¬ o.Concerns u p := by
  intro o listed concerns
  cases change with
  | seated joined =>
      rw [List.mem_singleton.mp listed] at concerns
      exact other concerns.1.symm
  | rebalanced seats once rested =>
      obtain ⟨move, -, rfl⟩ := List.mem_map.mp listed
      exact other concerns.1.symm
  | _ => cases listed

theorem remembers (distinct : (after.map Seat.playerId).Nodup)
    (all : ∀ s ∈ before, Remembers t history s) :
    ∀ s ∈ after, Remembers t (history ++ occurrences) s := by
  intro s seated
  cases change with
  | unchanged => simpa using all s seated
  | seated joined =>
      rename_i new
      have apart := (joined.map Seat.playerId).nodup_iff.mp distinct
      rcases List.mem_cons.mp (joined.mem_iff.mp seated) with rfl | known
      · simp [Remembers, latest?, Occurrence.Concerns, Occurrence.lastMoved]
      · -- A player who was there before is not the one who has come.
        refine (all s known).append fun o listed concerns => ?_
        rw [List.mem_singleton.mp listed] at concerns
        exact (List.nodup_cons.mp apart).1 (concerns.2 ▸ List.mem_map_of_mem known)
  | unseated fewer => simpa using all s (fewer.subset seated)
  | unseatedFirst fewer => simpa using all s (fewer.subset seated)
  | restacked own split =>
      rename_i first rest r
      subst split
      rw [List.append_nil]
      rcases List.mem_append.mp seated with earlier | later
      · exact all s (List.mem_append_left _ earlier)
      · rcases List.mem_cons.mp later with rfl | later
        · exact all r (List.mem_append_right _ List.mem_cons_self)
        · exact all s (List.mem_append_right _ (List.mem_cons_of_mem _ later))
  | rebalanced seats once rested =>
      obtain ⟨r, known, rfl⟩ := List.mem_map.mp (seats.mem_iff.mp seated)
      exact (all r known).afterMoves

theorem restKept (all : ∀ s ∈ before, Remembers t history s) (kept : RestKept history) :
    RestKept (history ++ occurrences) := by
  cases change with
  | rebalanced seats once rested =>
      rename_i settings accepted hand restHands moves
      refine kept.append fun first u hand' restHands' move later split => ?_
      obtain ⟨earlier, others, rfl, rfl, later_moves⟩ := List.map_eq_append_iff.mp split
      obtain ⟨_, rest, rfl, same, -⟩ := List.map_eq_cons_iff.mp later_moves
      cases same
      -- The player is moved once, so what has already been reported does not concern him.
      have not_yet : move.playerId ∉ earlier.map Transfer.playerId := by
        rw [List.map_append, List.map_cons, List.nodup_middle, List.nodup_cons] at once
        exact fun already => once.1 (List.mem_append_left _ already)
      obtain ⟨s, seated, own, rests⟩ := rested move.playerId (by simp)
      have remembers := all s seated
      rw [Remembers, own] at remembers
      obtain ⟨last, is_last, same⟩ := Option.map_eq_some_iff.mp remembers
      refine ⟨last, ?_, fun hand_before was => ?_⟩
      · rw [latest?_append_of_absent (not_concerns_moves not_yet)]
        exact is_last
      · rw [Seat.isRestedAt, ← same, was] at rests
        exact le_of_isRested rests
  | _ =>
      refine kept.append fun first u hand restHands move later split => ?_
      simp [List.cons_eq_append_iff] at split

end Change

/-- A store with what has occurred since it was empty. -/
structure Chronicle where
  store : SeatStore := {}
  history : List Occurrence := []

namespace Chronicle

def next (c : Chronicle) (r : Request) : Chronicle :=
  let (store, occurrences) := r.operation.perform c.store r.tournament
  ⟨store, c.history ++ occurrences⟩

def follow (c : Chronicle) (requests : List Request) : Chronicle := requests.foldl next c

/-- Every request is admissible when its turn comes. -/
def Admits : Chronicle → List Request → Prop
  | _, [] => True
  | c, r :: rest => r.operation.Admissible c.store r.tournament ∧ (c.next r).Admits rest

/-- What holds of a chronicle at any time. -/
structure Sound (c : Chronicle) : Prop where
  well : ∀ t, WellSeated (c.store.held t)
  remembers : ∀ t, ∀ s ∈ c.store.seats t, Remembers t c.history s
  rest : RestKept c.history

variable {c : Chronicle} {r : Request} {requests : List Request}

theorem sound_empty : Sound {} where
  well t := by simpa [SeatStore.held, SeatStore.tables?] using WellSeated.nil
  remembers t s seated := by simp [SeatStore.seats, SeatStore.held, SeatStore.tables?] at seated
  rest before t hand restHands move after split := by simp at split

theorem Sound.next (sound : c.Sound)
    (admissible : r.operation.Admissible c.store r.tournament) : (c.next r).Sound := by
  have proceeds := Operation.proceeds_perform (sound.well r.tournament) admissible
  have elsewhere : ∀ u, u ≠ r.tournament → (c.next r).store.held u = c.store.held u :=
    fun u other => congrArg (Option.getD · []) (proceeds.others u other)
  refine ⟨fun u => ?_, fun u s seated => ?_, ?_⟩
  · by_cases here : u = r.tournament
    · exact here ▸ proceeds.well
    · exact elsewhere u here ▸ sound.well u
  · by_cases here : u = r.tournament
    · subst here
      exact proceeds.change.remembers proceeds.well.playerIds (sound.remembers _) s seated
    · rw [SeatStore.seats, elsewhere u here] at seated
      exact (sound.remembers u s seated).append (proceeds.change.not_concerns_of_ne here _)
  · exact proceeds.change.restKept (sound.remembers _) sound.rest

theorem Sound.follow (sound : c.Sound) (admitted : c.Admits requests) :
    (c.follow requests).Sound := by
  induction requests generalizing c with
  | nil => exact sound
  | cons r rest ih => exact ih (sound.next admitted.1) admitted.2

theorem Admits.append {later : List Request} (admitted : c.Admits (requests ++ later)) :
    c.Admits requests := by
  induction requests generalizing c with
  | nil => trivial
  | cons r rest ih => exact ⟨admitted.1, ih admitted.2⟩

/-- As long as only those are seated who are not there already, whoever is moved has rested since
his last move in the tournament. If he was not moved since he was seated, that is the move that
his seat remembered then. No rebalancing reports anyone twice. -/
theorem moves_keep_rest (admitted : Admits {} requests) :
    (∀ before t hand restHands move after,
      (follow {} requests).history = before ++ .moved t hand restHands move :: after →
        HasRested t move.playerId before hand restHands) ∧
    ∀ before t settings accepted hand restHands after report,
      requests = before ++ ⟨t, .rebalance settings accepted hand restHands⟩ :: after →
        (Balancer.rebalance ⟨(follow {} before).store, settings, accepted⟩ t hand
          restHands).result = .ok report →
        (report.moves.map Transfer.playerId).Nodup := by
  refine ⟨(sound_empty.follow admitted).rest, ?_⟩
  rintro before t settings accepted hand restHands after report rfl succeeds
  have well := (sound_empty.follow admitted.append).well t
  cases present : (follow {} before).store.tables? t with
  | none =>
      rw [Balancer.rebalance_of_absent present] at succeeds
      cases succeeds
  | some tables =>
      rw [SeatStore.held_of_present present] at well
      rw [Balancer.result_rebalance present well] at succeeds
      cases succeeds
      exact Balancer.nodup_moves_report _ well hand restHands

/-- Two of four players have just been moved, so the other two go to the second table. One of
them comes back three hands later, when the first table is empty. -/
def thereAndBack : List Request :=
  [⟨7, .openTable 1⟩, ⟨7, .openTable 2⟩,
    ⟨7, .seat (.fresh 11 1 1 none (.ofNat 90))⟩, ⟨7, .seat (.fresh 12 2 1 none (.ofNat 50))⟩,
    ⟨7, .seat ((Seat.fresh 13 3 1 none (.ofNat 70)).movedTo 1 6)⟩,
    ⟨7, .seat ((Seat.fresh 14 4 1 none (.ofNat 20)).movedTo 1 6)⟩,
    ⟨7, .rebalance {} BalancerSettings.check_default 7 3⟩, ⟨7, .unseatFirst 1 2⟩,
    ⟨7, .rebalance {} BalancerSettings.check_default 10 3⟩]

theorem moves_keep_rest_thereAndBack :
    Admits {} thereAndBack ∧
      ∃ before, (follow {} thereAndBack).history = before ++ [.moved 7 10 3 ⟨1, 2, 1⟩] ∧
        ∃ last, latest? 7 1 before = some last ∧
          ∀ earlier, last.lastMoved = some earlier → 3 = 0 ∨ earlier + 3 ≤ 10 := by
  have admitted : Admits {} thereAndBack := by
    simp only [Admits, thereAndBack, Operation.Admissible, true_and, and_true]
    decide +kernel
  have back : (follow {} thereAndBack).history.getLast? = some (.moved 7 10 3 ⟨1, 2, 1⟩) := by
    cbv
  obtain ⟨before, split⟩ := List.getLast?_eq_some_iff.mp back
  exact ⟨admitted, before, split, (moves_keep_rest admitted).1 before 7 10 3 ⟨1, 2, 1⟩ [] split⟩

end Chronicle

end CardRoom
