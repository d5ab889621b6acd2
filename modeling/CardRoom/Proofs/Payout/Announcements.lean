import Mathlib
import CardRoom.Payout.Bubble

/-! # Announcing the bubble

One watch follows many tournaments, in any order, until it is told to forget them. It answers about
each tournament as if there were no other, and announces its bubble once at most before it is told
to forget it.
-/

namespace CardRoom

/-- What a watch may be asked to do. -/
inductive BubbleCall where
  | observe (t : TournamentId) (remaining threshold : Nat)
  | forget (t : TournamentId)
  deriving DecidableEq, Repr

def BubbleCall.tournament : BubbleCall → TournamentId
  | observe t _ _ => t
  | forget t => t

/-- A call with what the watch had to say to it. -/
inductive BubbleEvent where
  | observed (t : TournamentId) (remaining threshold : Nat) (announced : Bool) (notes : List Note)
  | forgotten (t : TournamentId)
  deriving DecidableEq, Repr

namespace BubbleEvent

def call : BubbleEvent → BubbleCall
  | observed t remaining threshold _ _ => .observe t remaining threshold
  | forgotten t => .forget t

def tournament (e : BubbleEvent) : TournamentId := e.call.tournament

def Announces (t : TournamentId) : BubbleEvent → Prop
  | observed u _ _ announced _ => u = t ∧ announced = true
  | forgotten _ => False

end BubbleEvent

/-- The bubble of the tournament was announced, and the tournament has not been forgotten since. -/
def AnnouncedSince (t : TournamentId) (past : List BubbleEvent) : Prop :=
  ∃ (first : List BubbleEvent) (e : BubbleEvent) (rest : List BubbleEvent),
    past = first ++ e :: rest ∧ e.Announces t ∧ .forgotten t ∉ rest

theorem announcedSince_concat {t : TournamentId} {past : List BubbleEvent} {e : BubbleEvent} :
    AnnouncedSince t (past ++ [e]) ↔ e.Announces t ∨ AnnouncedSince t past ∧ e ≠ .forgotten t := by
  constructor
  · rintro ⟨first, f, rest, split, announces, kept⟩
    rcases List.eq_nil_or_concat rest with rfl | ⟨rest, last, rfl⟩
    · obtain ⟨-, same⟩ := List.append_inj' split rfl
      obtain rfl := List.singleton_inj.mp same
      exact .inl announces
    · rw [List.concat_eq_append, ← List.cons_append, ← List.append_assoc] at split
      obtain ⟨rfl, same⟩ := List.append_inj' split rfl
      obtain rfl := List.singleton_inj.mp same
      simp only [List.concat_eq_append, List.mem_append, List.mem_singleton, not_or] at kept
      exact .inr ⟨⟨first, f, rest, rfl, announces, kept.1⟩, Ne.symm kept.2⟩
  · rintro (announces | ⟨⟨first, f, rest, rfl, announces, kept⟩, other⟩)
    · exact ⟨past, e, [], rfl, announces, List.not_mem_nil⟩
    · refine ⟨first, f, rest ++ [e], by simp, announces, ?_⟩
      simpa [kept] using Ne.symm other

namespace BubbleWatch

def perform (b : BubbleWatch) : BubbleCall → BubbleEvent × BubbleWatch
  | .observe t remaining threshold =>
    let (announced, after, notes) := b.observe t remaining threshold
    (.observed t remaining threshold announced notes, after)
  | .forget t => (.forgotten t, b.forget t)

/-- What a watch has to say to some calls, one after the other. -/
def follow : BubbleWatch → List BubbleCall → List BubbleEvent
  | _, [] => []
  | b, call :: calls => (b.perform call).1 :: (b.perform call).2.follow calls

variable {b c : BubbleWatch} {t : TournamentId} {call : BubbleCall} {past : List BubbleEvent}

theorem begins_eq_true_iff {remaining threshold : Nat} :
    b.begins t remaining threshold = true ↔ remaining = threshold ∧ t ∉ b.announced := by
  simp [begins]

/-- What an observation has to say is settled by whether the bubble begins. -/
theorem perform_observe (b : BubbleWatch) (t : TournamentId) (remaining threshold : Nat) :
    b.perform (.observe t remaining threshold) =
      if b.begins t remaining threshold then
        (.observed t remaining threshold true
          [⟨.info, s!"tournament {t}: bubble reached with {remaining} players left"⟩],
          ⟨t :: b.announced⟩)
      else (.observed t remaining threshold false [], b) := by
  simp only [perform, observe]
  split <;> rfl

@[simp] theorem call_perform (b : BubbleWatch) (call : BubbleCall) :
    (b.perform call).1.call = call := by
  cases call with
  | observe t remaining threshold =>
      rw [perform_observe]
      split <;> rfl
  | forget t => rfl

/-- A call adds the tournament that it announces and takes away the one that it forgets. -/
theorem mem_announced_perform :
    t ∈ (b.perform call).2.announced ↔
      (b.perform call).1.Announces t ∨
        t ∈ b.announced ∧ (b.perform call).1 ≠ .forgotten t := by
  cases call with
  | observe u remaining threshold =>
      rw [perform_observe]
      split
      · simp [BubbleEvent.Announces, eq_comm]
      · simp [BubbleEvent.Announces]
  | forget u =>
      have names : BubbleEvent.forgotten u = .forgotten t ↔ t = u := by simp [eq_comm]
      simp [perform, forget, BubbleEvent.Announces, names]

/-! ## What a watch keeps on record -/

/-- A watch has on record exactly the tournaments announced and not forgotten. -/
def Records (b : BubbleWatch) (past : List BubbleEvent) : Prop :=
  ∀ t, t ∈ b.announced ↔ AnnouncedSince t past

theorem records_empty : Records {} [] := by
  intro t
  simp [AnnouncedSince]

theorem Records.perform (records : b.Records past) (call : BubbleCall) :
    (b.perform call).2.Records (past ++ [(b.perform call).1]) := by
  intro t
  rw [mem_announced_perform, announcedSince_concat, records t]

theorem Records.announced_iff (records : b.Records past) {remaining threshold : Nat}
    {announced : Bool} {notes : List Note}
    (answer : (b.perform call).1 = .observed t remaining threshold announced notes) :
    announced = true ↔ remaining = threshold ∧ ¬ AnnouncedSince t past := by
  have asked : call = .observe t remaining threshold := by
    rw [← b.call_perform call, answer, BubbleEvent.call]
  subst asked
  rw [← records t, ← begins_eq_true_iff]
  rw [perform_observe] at answer
  split at answer
  · rename_i begins
    cases answer
    exact iff_of_true rfl begins
  · rename_i waits
    cases answer
    exact iff_of_false Bool.false_ne_true waits

/-- Whatever was asked before, each observation is answered by what was announced so far. -/
theorem Records.follow (records : b.Records past) {calls : List BubbleCall}
    {before after : List BubbleEvent} {remaining threshold : Nat} {announced : Bool}
    {notes : List Note}
    (split : b.follow calls = before ++ .observed t remaining threshold announced notes :: after) :
    announced = true ↔ remaining = threshold ∧ ¬ AnnouncedSince t (past ++ before) := by
  induction calls generalizing b past before with
  | nil => simp [BubbleWatch.follow] at split
  | cons call calls ih =>
      rw [BubbleWatch.follow] at split
      cases before with
      | nil =>
          rw [List.append_nil]
          exact records.announced_iff (List.cons.inj split).1
      | cons e before =>
          obtain ⟨first, later⟩ := List.cons.inj split
          have goes_on := ih (records.perform call) later
          rwa [first, List.append_assoc] at goes_on

@[simp] theorem map_call_follow (b : BubbleWatch) (calls : List BubbleCall) :
    (b.follow calls).map BubbleEvent.call = calls := by
  induction calls generalizing b with
  | nil => rfl
  | cons call calls ih => rw [follow, List.map_cons, call_perform, ih]

/-! ## Other tournaments -/

/-- Whether a watch has the tournament on record is all that its calls depend on. -/
theorem perform_congr (same : call.tournament ∈ b.announced ↔ call.tournament ∈ c.announced) :
    (b.perform call).1 = (c.perform call).1 := by
  cases call with
  | observe t remaining threshold =>
      have begins : b.begins t remaining threshold = c.begins t remaining threshold := by
        rw [Bool.eq_iff_iff, begins_eq_true_iff, begins_eq_true_iff]
        exact and_congr_right' (not_congr same)
      rw [perform_observe, perform_observe, begins]
      split <;> rfl
  | forget t => rfl

theorem mem_announced_perform_of_ne (other : call.tournament ≠ t) :
    t ∈ (b.perform call).2.announced ↔ t ∈ b.announced := by
  rw [mem_announced_perform]
  cases call with
  | observe u remaining threshold =>
      rw [perform_observe]
      have elsewhere : u ≠ t := other
      split <;> simp [BubbleEvent.Announces, elsewhere]
  | forget u =>
      have elsewhere : u ≠ t := other
      simp [perform, BubbleEvent.Announces, elsewhere]

/-- Two watches with the same record of a tournament say the same about it, whatever one of them
is asked about others. -/
theorem filter_follow (same : t ∈ b.announced ↔ t ∈ c.announced) (calls : List BubbleCall) :
    (b.follow calls).filter (·.tournament = t) =
      c.follow (calls.filter (·.tournament = t)) := by
  induction calls generalizing b c with
  | nil => rfl
  | cons call calls ih =>
      have about : (b.perform call).1.tournament = call.tournament := by
        rw [BubbleEvent.tournament, call_perform]
      rw [follow]
      by_cases concerns : call.tournament = t
      · have answer : (b.perform call).1 = (c.perform call).1 := perform_congr (concerns ▸ same)
        have still : t ∈ (b.perform call).2.announced ↔ t ∈ (c.perform call).2.announced := by
          rw [mem_announced_perform, mem_announced_perform, answer, same]
        rw [List.filter_cons_of_pos (by simpa [about]), List.filter_cons_of_pos (by simpa),
          follow, ih still, answer]
      · rw [List.filter_cons_of_neg (by simpa [about]), List.filter_cons_of_neg (by simpa)]
        exact ih ((mem_announced_perform_of_ne concerns).trans same)

/-- A new watch answers every call, and it says that the bubble of a tournament begins exactly when
the number of players is right and it has not said so since the tournament was last forgotten. So
between two announcements of a tournament it was told to forget it. Calls about other tournaments
could be left out. -/
theorem bubble_announced_once_per_life (calls : List BubbleCall) :
    let history : List BubbleEvent := follow {} calls
    history.map BubbleEvent.call = calls ∧
    (∀ (before : List BubbleEvent) (t : TournamentId) (remaining threshold : Nat)
        (announced : Bool) (notes : List Note) (after : List BubbleEvent),
      history = before ++ .observed t remaining threshold announced notes :: after →
        (announced = true ↔ remaining = threshold ∧ ¬ AnnouncedSince t before)) ∧
    (∀ (t : TournamentId) (before : List BubbleEvent) (first : BubbleEvent)
        (between : List BubbleEvent) (second : BubbleEvent) (after : List BubbleEvent),
      history = before ++ first :: between ++ second :: after →
        first.Announces t → second.Announces t → .forgotten t ∈ between) ∧
    ∀ t, history.filter (·.tournament = t) = follow {} (calls.filter (·.tournament = t)) := by
  intro history
  refine ⟨map_call_follow {} calls,
    fun before t remaining threshold announced notes after split => records_empty.follow split,
    fun t before first between second after split opens again => ?_,
    fun t => filter_follow Iff.rfl calls⟩
  cases second with
  | forgotten u => exact again.elim
  | observed u remaining threshold announced notes =>
      obtain ⟨rfl, rfl⟩ := again
      have not_yet : ¬ AnnouncedSince u (before ++ first :: between) :=
        ((records_empty.follow split).mp rfl).2
      by_contra kept
      exact not_yet ⟨before, first, between, rfl, opens, kept⟩

/-- A tournament comes to an end and begins anew, while another one reaches its bubble too. -/
def twoLives : List BubbleCall :=
  [.observe 7 9 9, .observe 8 9 9, .observe 7 9 9, .forget 7, .observe 7 7 6, .observe 7 6 6]

/-- The third call comes too early, since the first announcement still stands. -/
theorem bubble_announced_once_per_life_twoLives :
    (∃ before after, follow {} twoLives = before ++ .observed 7 9 9 false [] :: after ∧
      AnnouncedSince 7 before) ∧
    ∃ first between second, follow {} twoLives = first :: between ++ [second] ∧
      first.Announces 7 ∧ second.Announces 7 ∧ .forgotten 7 ∈ between := by
  obtain ⟨-, answers, forgets, -⟩ := bubble_announced_once_per_life twoLives
  have again : follow {} twoLives = [_, _] ++ .observed 7 9 9 false [] :: [_, _, _] := rfl
  have split : follow {} twoLives = [] ++ _ :: [_, _, _, _] ++ _ :: [] := rfl
  have answer := answers _ _ _ _ _ _ _ again
  simp only [Bool.false_eq_true, true_and, false_iff, not_not] at answer
  exact ⟨⟨_, _, again, answer⟩, _, _, _, split, ⟨rfl, rfl⟩, ⟨rfl, rfl⟩,
    forgets 7 _ _ _ _ _ split ⟨rfl, rfl⟩ ⟨rfl, rfl⟩⟩

end BubbleWatch

end CardRoom
