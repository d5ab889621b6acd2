import Mathlib
import CardRoom.Proofs.Seating.Chronicle

/-! # Who sits where, over whole runs

However a store is used from the start on, refused requests included, each of its tournaments
stays well seated as long as only those are seated who are not there already. A request touches
its own tournament only. Who is there changes by the seats that it brings and takes away, and a
stack changes only by being written.
-/

namespace CardRoom

/-- A seat with its player, wherever it stands. -/
def Seat.occupant (s : Seat) : SeatId × PlayerId := (s.id, s.playerId)

def SeatStore.occupants (store : SeatStore) (t : TournamentId) : List (SeatId × PlayerId) :=
  (store.seats t).map Seat.occupant

@[simp] theorem occupant_afterMoves (moves : List Transfer) (hand : HandNumber) (s : Seat) :
    (s.afterMoves moves hand).occupant = s.occupant := by
  simp [Seat.occupant]

@[simp] theorem stack_afterMoves (moves : List Transfer) (hand : HandNumber) (s : Seat) :
    (s.afterMoves moves hand).stack = s.stack := by
  unfold Seat.afterMoves
  split <;> rfl

namespace SeatedTable

variable {tables : List SeatedTable} {p : PlayerId}

theorem modifyHolder_of_absent (absent : findSeat? tables p = none)
    (f : SeatedTable → SeatedTable) : modifyHolder tables p f = tables := by
  obtain ⟨-, same⟩ | ⟨before, t, after, rfl, here, -⟩ :=
    modify_findIdx_cases (fun t => (t.seatFor? p).isSome) f tables
  · exact same
  · have none_here := List.findSome?_eq_none_iff.mp absent t (by simp)
    rw [none_here] at here
    cases here

theorem seats_modifyHolder_remove {s : Seat} (found : findSeat? tables p = some s) :
    (s :: (modifyHolder tables p (·.remove p)).flatMap SeatedTable.seats).Perm
      (tables.flatMap SeatedTable.seats) := by
  obtain ⟨before, t, after, rfl, here, earlier⟩ := List.findSome?_eq_some_iff.mp found
  have changed : modifyHolder (before ++ t :: after) p (·.remove p) =
      before ++ t.remove p :: after := by
    apply modify_findIdx_append
    · exact fun u member => by rw [earlier u member]; rfl
    · rw [here]
      rfl
  obtain ⟨own, first, rest, seats, others⟩ := List.find?_eq_some_iff_append.mp here
  obtain rfl : s.playerId = p := by simpa using own
  have left := seats_remove seats (by simpa using others)
  rw [changed, List.flatMap_append, List.flatMap_append, List.flatMap_cons, List.flatMap_cons,
    seats, left]
  grind

theorem seats_modifyTable_drop {id : TableId} {t : SeatedTable}
    (found : tables.find? (·.id = id) = some t) (count : Nat) :
    (t.seats.take count ++ (modifyTable tables id fun t =>
      { t with seats := t.seats.drop count }).flatMap SeatedTable.seats).Perm
        (tables.flatMap SeatedTable.seats) := by
  obtain ⟨here, before, after, rfl, earlier⟩ := List.find?_eq_some_iff_append.mp found
  have changed : modifyTable (before ++ t :: after) id (fun t =>
      { t with seats := t.seats.drop count }) =
        before ++ { t with seats := t.seats.drop count } :: after := by
    apply modify_findIdx_append
    · simpa using earlier
    · exact here
  rw [changed, List.flatMap_append, List.flatMap_append, List.flatMap_cons, List.flatMap_cons]
  conv_rhs => rw [← List.take_append_drop count t.seats]
  grind

end SeatedTable

namespace Operation

/-- The seats that an operation brings, none if it is refused. -/
def brings (store : SeatStore) (t : TournamentId) : Operation → List Seat
  | seat s =>
    match store.seat t s with
    | .ok _ => [s]
    | .error _ => []
  | _ => []

/-- The seats that an operation takes away and hands back, none if it is refused. -/
def takes (store : SeatStore) (t : TournamentId) : Operation → List Seat
  | unseat player => (store.unseat t player).1.toList
  | unseatFirst table count =>
    match store.unseatFirst t table count with
    | .ok (left, _) => left
    | .error _ => []
  | _ => []

def seatsOrUnseats : Operation → Bool
  | seat _ | unseat _ | unseatFirst _ _ => true
  | _ => false

variable {store : SeatStore} {t : TournamentId}

theorem takes_unseat (p : PlayerId) :
    ((unseat p).takes store t ++ ((unseat p).perform store t).1.seats t).Perm (store.seats t) := by
  cases present : store.tables? t with
  | none =>
      simp only [takes, perform, SeatStore.unseat, present]
      exact List.Perm.refl _
  | some tables =>
      simp only [takes, perform, SeatStore.unseat, present, SeatStore.seats_withTables,
        SeatStore.seats_of_present present]
      cases found : SeatedTable.findSeat? tables p with
      | none =>
          rw [SeatedTable.modifyHolder_of_absent found]
          exact List.Perm.refl _
      | some s => exact SeatedTable.seats_modifyHolder_remove found

theorem takes_unseatFirst (table : TableId) (count : Nat) :
    ((unseatFirst table count).takes store t ++
      ((unseatFirst table count).perform store t).1.seats t).Perm (store.seats t) := by
  simp only [takes, perform]
  cases done : store.unseatFirst t table count with
  | error e => exact List.Perm.refl _
  | ok result =>
      obtain ⟨left, after⟩ := result
      obtain ⟨⟨found, first, rfl⟩, rfl⟩ := SeatStore.unseatFirst_eq_ok done
      rw [SeatStore.seats_withTables]
      exact SeatedTable.seats_modifyTable_drop first count

end Operation

namespace Change

variable {t : TournamentId} {before after : List Seat} {op : Operation}
  {occurrences : List Occurrence}

theorem joined {s : Seat} (change : Change t before (.seat s) after [.seated t s]) :
    after.Perm (s :: before) := by
  cases change with
  | seated joined => exact joined

/-- Only seating and unseating change who is there. -/
theorem occupants_perm (change : Change t before op after occurrences)
    (quiet : op.seatsOrUnseats = false) :
    (after.map Seat.occupant).Perm (before.map Seat.occupant) := by
  cases change with
  | unchanged => exact List.Perm.refl _
  | restacked own split =>
      rw [split]
      simp [Seat.occupant]
  | rebalanced seats once rested =>
      refine (seats.map Seat.occupant).trans (List.Perm.of_eq ?_)
      rw [List.map_map]
      exact List.map_congr_left fun s _ => occupant_afterMoves _ _ s
  | seated | unseated | unseatedFirst => cases quiet

variable (change : Change t before op after occurrences)
include change

/-- A player who stays keeps his stack, unless it is his own that is written. -/
theorem stack_of_stays (distinct : (after.map Seat.playerId).Nodup)
    (was_distinct : (before.map Seat.playerId).Nodup) {s r : Seat} (was : s ∈ before)
    (stays : r ∈ after) (same : r.playerId = s.playerId) :
    r.stack = s.stack ∨ op = .writeStack s.playerId r.stack := by
  have kept : ∀ q ∈ before, q.playerId = s.playerId → q = s := fun q known own =>
    List.inj_on_of_nodup_map was_distinct known was own
  cases change with
  | unchanged => exact .inl (congrArg Seat.stack (kept r stays same))
  | seated joined =>
      rename_i new
      rcases List.mem_cons.mp (joined.mem_iff.mp stays) with rfl | known
      · have apart := (joined.map Seat.playerId).nodup_iff.mp distinct
        exact absurd (List.mem_map.mpr ⟨s, was, same.symm⟩) (List.nodup_cons.mp apart).1
      · exact .inl (congrArg Seat.stack (kept r known same))
  | unseated fewer => exact .inl (congrArg Seat.stack (kept r (fewer.subset stays) same))
  | unseatedFirst fewer => exact .inl (congrArg Seat.stack (kept r (fewer.subset stays) same))
  | restacked own split =>
      rename_i p stack first rest q
      subst split
      rcases List.mem_append.mp stays with earlier | later
      · exact .inl (congrArg Seat.stack (kept r (List.mem_append_left _ earlier) same))
      · rcases List.mem_cons.mp later with rfl | later
        · exact .inr (by rw [← same, ← own])
        · have known := List.mem_append_right first (List.mem_cons_of_mem q later)
          exact .inl (congrArg Seat.stack (kept r known same))
  | rebalanced seats once rested =>
      obtain ⟨q, known, rfl⟩ := List.mem_map.mp (seats.mem_iff.mp stays)
      rw [playerId_afterMoves] at same
      rw [stack_afterMoves, kept q known same]
      exact .inl rfl

end Change

/-- What a request may do to a store: it touches one tournament, where those are seated who were
there before, less the seats it takes away and with the seats it brings, and only the stack that
it writes changes. -/
structure Confined (store after : SeatStore) (t : TournamentId) (op : Operation) : Prop where
  others : ∀ u, u ≠ t → after.tables? u = store.tables? u
  occupants : ((op.takes store t).map Seat.occupant ++ after.occupants t).Perm
    ((op.brings store t).map Seat.occupant ++ store.occupants t)
  chips : ∀ s ∈ store.seats t, ∀ r ∈ after.seats t, r.playerId = s.playerId →
    r.stack = s.stack ∨ op = .writeStack s.playerId r.stack

namespace Operation

variable {store : SeatStore} {t : TournamentId} {op : Operation}

theorem occupants_perform (well : WellSeated (store.held t)) (admissible : Admissible store t op) :
    ((op.takes store t).map Seat.occupant ++ (op.perform store t).1.occupants t).Perm
      ((op.brings store t).map Seat.occupant ++ store.occupants t) := by
  have change := (proceeds_perform well admissible).change
  simp only [SeatStore.occupants, ← List.map_append]
  cases op with
  | seat s =>
      simp only [takes, brings, List.nil_append]
      cases done : store.seat t s with
      | error e =>
          simp only [perform, done]
          exact List.Perm.refl _
      | ok after =>
          simp only [perform, done] at change ⊢
          exact change.joined.map _
  | unseat p => exact (takes_unseat p).map _
  | unseatFirst table count => exact (takes_unseatFirst table count).map _
  | openTable | writeStack | closeEmpty | rebalance => exact change.occupants_perm rfl

theorem confined_perform (well : WellSeated (store.held t))
    (admissible : Admissible store t op) : Confined store (op.perform store t).1 t op := by
  have proceeds := proceeds_perform well admissible
  refine ⟨proceeds.others, occupants_perform well admissible, fun s was r stays same => ?_⟩
  exact proceeds.change.stack_of_stays proceeds.well.playerIds well.playerIds was stays same

end Operation

namespace Chronicle

variable {c : Chronicle} {r : Request} {requests first rest : List Request}

theorem Admits.here (admitted : c.Admits (first ++ r :: rest)) :
    r.operation.Admissible (c.follow first).store r.tournament := by
  induction first generalizing c with
  | nil => exact admitted.1
  | cons q first ih => exact ih admitted.2

/-- From the empty store on, as long as only those are seated who are not there already, every
tournament is well seated at any time, and each request does to the store what it may do. -/
theorem store_stays_in_order (admitted : Admits {} requests) :
    (∀ first rest, requests = first ++ rest →
      ∀ t, WellSeated ((follow {} first).store.held t)) ∧
    ∀ first r rest, requests = first ++ r :: rest →
      Confined (follow {} first).store (follow {} (first ++ [r])).store r.tournament
        r.operation := by
  constructor
  · rintro first rest rfl t
    exact (sound_empty.follow admitted.append).well t
  · rintro first r rest rfl
    have well := (sound_empty.follow admitted.append).well r.tournament
    have step : follow {} (first ++ [r]) = (follow {} first).next r := by
      rw [follow, List.foldl_append]
      rfl
    rw [step]
    exact Operation.confined_perform well admitted.here

/-- Two tournaments with the same ids, in the first of which a seat at a table that is not there
and a rebalancing of a third tournament are refused, before a player is moved and paid. -/
def mixedRequests : List Request :=
  [⟨7, .openTable 1⟩, ⟨8, .openTable 1⟩, ⟨7, .seat (.fresh 11 1 1 none (.ofNat 90))⟩,
    ⟨8, .seat (.fresh 11 1 1 none (.ofNat 40))⟩, ⟨7, .seat (.fresh 12 2 5 none (.ofNat 10))⟩,
    ⟨9, .rebalance {} BalancerSettings.check_default 3 0⟩, ⟨7, .openTable 2⟩,
    ⟨7, .seat (.fresh 12 2 1 none (.ofNat 10))⟩,
    ⟨7, .rebalance {} BalancerSettings.check_default 3 0⟩, ⟨7, .writeStack 2 (.ofNat 60)⟩,
    ⟨8, .unseat 1⟩]

theorem store_stays_in_order_mixedRequests :
    Admits {} mixedRequests ∧ WellSeated ((follow {} mixedRequests).store.held 7) ∧
      Confined (follow {} (mixedRequests.take 4)).store (follow {} (mixedRequests.take 5)).store 7
        (.seat (.fresh 12 2 5 none (.ofNat 10))) ∧
      (follow {} mixedRequests).store.tables? 7 =
        (follow {} (mixedRequests.take 10)).store.tables? 7 := by
  have admitted : Admits {} mixedRequests := by
    simp only [Admits, mixedRequests, Operation.Admissible, true_and, and_true]
    decide +kernel
  obtain ⟨well, confined⟩ := store_stays_in_order admitted
  refine ⟨admitted, well mixedRequests [] (List.append_nil _).symm 7, ?_, ?_⟩
  · exact confined (mixedRequests.take 4) _ (mixedRequests.drop 5) rfl
  · exact (confined (mixedRequests.take 10) ⟨8, .unseat 1⟩ [] rfl).others 7 (by decide)

end Chronicle

end CardRoom
