import Mathlib
import CardRoom.Deal
import CardRoom.Random.Draw

/-! # What is dealt

A lawful source of randomness only reorders what it is given, as do swaps and the random stream.
From such a source each hand is full and no card is dealt twice, since the hands and the board are
taken from the top of one deck, one after the other, as long as the deck lasts.
-/

namespace CardRoom

/-- A source that loses no entry of a list and adds none. -/
class LawfulShuffler (σ : Type) [Shuffler σ] : Prop where
  shuffle_perm {α : Type} (source : σ) (xs : List α) : (Shuffler.shuffle source xs).1.Perm xs

theorem swapIfInBounds_perm {α : Type} (xs : Array α) (i j : Nat) :
    (xs.swapIfInBounds i j).toList.Perm xs.toList := by
  unfold Array.swapIfInBounds
  split
  · split
    · exact (Array.swap_perm _ _).toList
    · exact List.Perm.refl _
  · exact List.Perm.refl _

theorem Swaps.apply_perm {α : Type} (s : Swaps) (xs : List α) : (s.apply xs).Perm xs := by
  have swapped : ∀ (pairs : List (Nat × Nat)) (a : Array α),
      (pairs.foldl (fun a pair => a.swapIfInBounds pair.1 pair.2) a).toList.Perm a.toList := by
    intro pairs
    induction pairs with
    | nil => exact fun a => List.Perm.refl _
    | cons pair pairs ih => exact fun a => (ih _).trans (swapIfInBounds_perm a pair.1 pair.2)
  exact swapped s.pairs xs.toArray

instance : LawfulShuffler Swaps := ⟨Swaps.apply_perm⟩

namespace Random

theorem shuffleDown_perm {α : Type} (i : Nat) (xs : Array α) (s : Stream) :
    (shuffleDown i xs s).1.toList.Perm xs.toList := by
  induction i generalizing xs s with
  | zero => exact List.Perm.refl _
  | succ i ih =>
      rw [shuffleDown]
      -- Which place is drawn does not matter.
      generalize draw (i + 2) s = drawn
      exact (ih _ _).trans (swapIfInBounds_perm xs _ _)

instance : LawfulShuffler Stream := ⟨fun s xs => shuffleDown_perm (xs.length - 1) xs.toArray s⟩

end Random

namespace Deck

theorem length_draw (d : Deck) (n : Nat) : (d.draw n).1.length = min n d.size := by
  simp [draw, size]

theorem size_draw (d : Deck) (n : Nat) : (d.draw n).2.size = d.size - n := by
  simp [draw, size]

theorem size_drawHands (size players : Nat) (d : Deck) :
    (d.drawHands size players).2.size = d.size - players * size := by
  induction players generalizing d with
  | zero => simp [drawHands]
  | succ players ih =>
      simp only [drawHands, ih, size_draw, Nat.succ_mul]
      omega

theorem length_drawHands (size players : Nat) (d : Deck) :
    (d.drawHands size players).1.length = players := by
  induction players generalizing d with
  | zero => rfl
  | succ players ih => simp [drawHands, ih]

/-- As long as the deck lasts for all hands, each of them is full. -/
theorem length_of_mem_drawHands {size players : Nat} {d : Deck} (lasts : players * size ≤ d.size) :
    ∀ hand ∈ (d.drawHands size players).1, hand.length = size := by
  induction players generalizing d with
  | zero => simp [drawHands]
  | succ players ih =>
      rw [Nat.succ_mul] at lasts
      have first : (d.draw size).1.length = size := by
        rw [length_draw]
        omega
      have later := ih (d := (d.draw size).2) (by rw [size_draw]; omega)
      simp only [drawHands, List.forall_mem_cons]
      exact ⟨first, later⟩

theorem nodup_standard : standard.cards.Nodup :=
  List.nodup_range.map fun _ _ same => (Card.mk.injEq _ _).mp same

theorem isValid_of_mem_standard : ∀ c ∈ standard.cards, c.IsValid := by
  intro c member
  obtain ⟨code, inside, rfl⟩ := List.mem_map.mp member
  exact List.mem_range.mp inside

theorem shuffled_perm {σ : Type} [Shuffler σ] [LawfulShuffler σ] (source : σ) :
    (shuffled source).1.cards.Perm standard.cards :=
  LawfulShuffler.shuffle_perm source standard.cards

end Deck

/-- All cards that are dealt, in the order in which they are taken from the deck. -/
def Deal.cards (d : Deal) : List Card := d.hands.flatten ++ d.board

/-- The hands and the board that a deck gives. -/
def Deck.dealt (players hole board : Nat) (d : Deck) : Deal :=
  ⟨(d.drawHands hole players).1, ((d.drawHands hole players).2.draw board).1⟩

namespace Deck

variable {d : Deck} {players hole board : Nat}

/-- What is dealt and what is left are the deck, read from the top. -/
theorem cards_dealt_append (players hole board : Nat) (d : Deck) :
    (d.dealt players hole board).cards ++
        ((d.drawHands hole players).2.draw board).2.cards.reverse = d.cards.reverse := by
  rw [Deal.cards, dealt, List.append_assoc, draw_append, flatten_drawHands]

theorem length_board_dealt (lasts : players * hole + board ≤ d.size) :
    (d.dealt players hole board).board.length = board := by
  rw [dealt, length_draw, size_drawHands]
  omega

theorem length_cards_dealt (lasts : players * hole + board ≤ d.size) :
    (d.dealt players hole board).cards.length = players * hole + board := by
  have hands_last : players * hole ≤ d.size := Nat.le_of_add_right_le lasts
  have full : ∀ hand ∈ (d.dealt players hole board).hands, hand.length = hole :=
    length_of_mem_drawHands hands_last
  have served : (d.dealt players hole board).hands.length = players :=
    length_drawHands hole players d
  rw [Deal.cards, List.length_append, length_board_dealt lasts, List.length_flatten,
    List.map_congr_left full, List.map_const', List.sum_replicate, served, smul_eq_mul]

theorem cards_dealt (lasts : players * hole + board ≤ d.size) :
    (d.dealt players hole board).cards = d.cards.reverse.take (players * hole + board) := by
  rw [← cards_dealt_append players hole board d, ← length_cards_dealt lasts, List.take_left']
  rfl

end Deck

section

variable {σ : Type} [Shuffler σ] {source : σ} {players hole board : Nat}

/-- A deal that needs more cards than there are is refused and leaves the source as it was. -/
theorem deal_eq (source : σ) (players hole board : Nat) :
    deal source players hole board =
      if players * hole + board ≤ Deck.standard.size then
        (some ((Deck.shuffled source).1.dealt players hole board), (Deck.shuffled source).2)
      else (none, source) := by
  rw [← ite_not]
  simp only [Nat.not_le]
  rfl

theorem deal_eq_some_iff {d : Deal} :
    (deal source players hole board).1 = some d ↔
      players * hole + board ≤ Deck.standard.size ∧
        (Deck.shuffled source).1.dealt players hole board = d := by
  rw [deal_eq]
  split
  · rename_i fits
    exact ⟨fun same => ⟨fits, Option.some.inj same⟩, fun ⟨_, same⟩ => congrArg some same⟩
  · rename_i many
    exact iff_of_false (Option.some_ne_none d).symm fun dealt => many dealt.1

end

/-- Cards are dealt exactly when the deck has enough of them. Then each player gets a full hand, the
board is full too, and hand after hand they are the cards from the top of the shuffled deck, proper
cards of which no two are the same. -/
theorem deal_takes_distinct_cards_from_top {σ : Type} [Shuffler σ] [LawfulShuffler σ] (source : σ)
    (players hole board : Nat) :
    let result := (deal source players hole board).1
    let needed := players * hole + board
    (result.isSome ↔ needed ≤ 52) ∧
    ∀ d, result = some d →
      d.hands.length = players ∧ (∀ hand ∈ d.hands, hand.length = hole) ∧
      d.board.length = board ∧ (∀ c ∈ d.cards, c.IsValid) ∧ d.cards.Nodup ∧
      d.cards = (Deck.shuffled source).1.cards.reverse.take needed := by
  intro result needed
  constructor
  · rw [Option.isSome_iff_exists]
    simp only [result, deal_eq_some_iff, exists_and_left, exists_eq', and_true]
    exact Iff.rfl
  · intro d dealt
    obtain ⟨fits, rfl⟩ := deal_eq_some_iff.mp dealt
    have mixed := Deck.shuffled_perm source
    have lasts : needed ≤ (Deck.shuffled source).1.size := fits.trans mixed.length_eq.ge
    have top := Deck.cards_dealt lasts
    have taken : ((Deck.shuffled source).1.dealt players hole board).cards.Sublist
        (Deck.shuffled source).1.cards.reverse := top ▸ List.take_sublist _ _
    have reversed := (List.reverse_perm _).trans mixed
    refine ⟨Deck.length_drawHands hole players _,
      Deck.length_of_mem_drawHands (Nat.le_of_add_right_le lasts), Deck.length_board_dealt lasts,
      fun c member => ?_, ?_, top⟩
    · exact Deck.isValid_of_mem_standard c (reversed.mem_iff.mp (taken.subset member))
    · exact (reversed.nodup_iff.mpr Deck.nodup_standard).sublist taken

/-- The two cards on top of the deck are swapped with the two at the bottom, and a third swap lies
beyond the deck. -/
theorem deal_takes_distinct_cards_from_top_swappedEnds :
    let source : Swaps := ⟨[(0, 51), (50, 1), (7, 52)]⟩
    let d : Deal := ⟨[[⟨0⟩, ⟨1⟩], [⟨49⟩, ⟨48⟩]], [⟨47⟩, ⟨46⟩, ⟨45⟩]⟩
    (deal source 2 2 3).1 = some d ∧ d.cards.Nodup ∧
      d.cards = (Deck.shuffled source).1.cards.reverse.take 7 := by
  intro source d
  have dealt : (deal source 2 2 3).1 = some d := by decide
  obtain ⟨-, -, -, -, distinct, top⟩ := (deal_takes_distinct_cards_from_top source 2 2 3).2 d dealt
  exact ⟨dealt, distinct, top⟩

end CardRoom
