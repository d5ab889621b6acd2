import Mathlib
import CardRoom.Card
import CardRoom.Proofs.Text.Words

/-! # Reading and writing cards

A word names a card when its two letters are those of the card, each in either case. So the texts
that name a list of cards are exactly the texts of these cards, in any case and with any blanks
between them. When a text names no list of cards, its first bad word says why.
-/

namespace CardRoom

theorem idxOf?_eq_some_iff_of_nodup {letters : List Char} (once : letters.Nodup) {letter : Char}
    {place : Nat} : letters.idxOf? letter = some place ↔ letters[place]? = some letter := by
  rw [List.idxOf?_eq_some_iff]
  constructor
  · rintro ⟨inside, rfl, -⟩
    exact List.getElem?_eq_getElem inside
  · intro here
    obtain ⟨inside, rfl⟩ := List.getElem?_eq_some_iff.mp here
    exact ⟨inside, rfl, fun j earlier same => earlier.ne (once.getElem_inj_iff.mp same)⟩

section

variable {α β ε : Type} {f : α → Except ε β} {x : α} {xs : List α} {y : β} {ys : List β} {e : ε}

theorem mapM_cons_of_error (fails : f x = .error e) : (x :: xs).mapM f = .error e := by
  rw [List.mapM_cons, fails]
  rfl

theorem mapM_cons_of_ok (first : f x = .ok y) : (x :: xs).mapM f = (xs.mapM f).map (y :: ·) := by
  rw [List.mapM_cons, first]
  cases xs.mapM f <;> rfl

theorem mapM_eq_ok_iff : xs.mapM f = .ok ys ↔ List.Forall₂ (fun x y => f x = .ok y) xs ys := by
  induction xs generalizing ys with
  | nil => simp [pure, Except.pure, eq_comm]
  | cons x xs ih =>
      rw [List.forall₂_cons_left_iff]
      cases first : f x with
      | error e =>
          rw [mapM_cons_of_error first]
          simp
      | ok y =>
          rw [mapM_cons_of_ok first]
          cases later : xs.mapM f with
          | error e => simp [Except.map, ← ih, later]
          | ok rest => simp [Except.map, ← ih, later, eq_comm]

/-- The error is that of the first entry that fails. -/
theorem mapM_eq_error_iff :
    xs.mapM f = .error e ↔ ∃ before x after, xs = before ++ x :: after ∧
      (∀ z ∈ before, ∃ y, f z = .ok y) ∧ f x = .error e := by
  constructor
  · intro fails
    induction xs with
    | nil => cases fails
    | cons x xs ih =>
        cases first : f x with
        | error e' =>
            rw [mapM_cons_of_error first] at fails
            obtain rfl := Except.error.inj fails
            exact ⟨[], x, xs, rfl, by simp, first⟩
        | ok y =>
            rw [mapM_cons_of_ok first] at fails
            cases later : xs.mapM f with
            | ok rest =>
                rw [later] at fails
                cases fails
            | error e' =>
                rw [later] at fails
                obtain rfl := Except.error.inj fails
                obtain ⟨before, z, after, rfl, good, bad⟩ := ih later
                exact ⟨x :: before, z, after, rfl, List.forall_mem_cons.mpr ⟨⟨y, first⟩, good⟩, bad⟩
  · rintro ⟨before, x, after, rfl, good, bad⟩
    induction before with
    | nil => exact mapM_cons_of_error bad
    | cons z before ih =>
        obtain ⟨⟨y, first⟩, good⟩ := List.forall_mem_cons.mp good
        rw [List.cons_append, mapM_cons_of_ok first, ih good]
        rfl

end

/-- The letter `x` is the letter `y` in one case or the other. -/
def EitherCase (x y : Char) : Prop := x = y.toUpper ∨ x = y.toLower

theorem eitherCase_self (x : Char) : EitherCase x x := by
  by_cases lower : x.isLower = true
  · exact .inr (Char.toLower_eq_of_not_isUpper (Char.not_isUpper_of_isLower lower)).symm
  · exact .inl (Char.toUpper_eq_of_not_isLower lower).symm

theorem eitherCase_toUpper (x : Char) : EitherCase x x.toUpper := by
  simpa [EitherCase] using eitherCase_self x

theorem eitherCase_toLower (x : Char) : EitherCase x x.toLower := by
  simpa [EitherCase] using eitherCase_self x

section

variable {x y : Char} (either : EitherCase x y)
include either

theorem EitherCase.toUpper_eq (upper : y.toUpper = y) : x.toUpper = y := by
  rcases either with rfl | rfl <;> simp [upper]

theorem EitherCase.toLower_eq (lower : y.toLower = y) : x.toLower = y := by
  rcases either with rfl | rfl <;> simp [lower]

end

namespace Card

section

variable {letter : Char}

theorem toUpper_of_mem (listed : letter ∈ rankLetters) : letter.toUpper = letter := by
  have all : rankLetters.map Char.toUpper = rankLetters.map id := by decide
  exact List.map_inj_left.mp all letter listed

theorem toLower_of_mem (listed : letter ∈ suitLetters) : letter.toLower = letter := by
  have all : suitLetters.map Char.toLower = suitLetters.map id := by decide
  exact List.map_inj_left.mp all letter listed

theorem not_blank_of_eitherCase {x : Char} (listed : letter ∈ rankLetters ++ suitLetters)
    (either : EitherCase x letter) : Text.isBlank x = false := by
  have all : (rankLetters ++ suitLetters).all
      (fun y => !Text.isBlank y.toUpper && !Text.isBlank y.toLower) = true := by decide
  have solid := List.all_eq_true.mp all letter listed
  simp only [Bool.and_eq_true, Bool.not_eq_true'] at solid
  rcases either with rfl | rfl
  · exact solid.1
  · exact solid.2

end

section

variable {c : Card} {w : List Char} {r s : Char}

theorem letters_of_places (first : rankLetters[c.rank]? = some r)
    (second : suitLetters[c.suit]? = some s) : c.IsValid ∧ c.letters = [r, s] := by
  have rank_lt : c.code / 4 < 13 := (List.getElem?_eq_some_iff.mp first).1
  have valid : c.IsValid := by
    rw [IsValid, deckSize]
    omega
  refine ⟨valid, ?_⟩
  rw [letters, if_pos valid, List.getD_eq_getElem?_getD, first, List.getD_eq_getElem?_getD, second]
  rfl

theorem exists_places (valid : c.IsValid) :
    ∃ r s, rankLetters[c.rank]? = some r ∧ suitLetters[c.suit]? = some s := by
  have in_deck : c.code < 52 := valid
  have rank_lt : c.rank < rankLetters.length := by
    simp only [rank, rankLetters, List.length_cons, List.length_nil]
    omega
  have suit_lt : c.suit < suitLetters.length := by
    simp only [suit, suitLetters, List.length_cons, List.length_nil]
    omega
  exact ⟨_, _, List.getElem?_eq_getElem rank_lt, List.getElem?_eq_getElem suit_lt⟩

/-- What a word is read as: a rank by its first letter made large, a suit by its second made small,
and nothing else. -/
theorem ofLetters_eq_ok_iff_places :
    ofLetters w = .ok c ↔ ∃ r s, w = [r, s] ∧ rankLetters[c.rank]? = some r.toUpper ∧
      suitLetters[c.suit]? = some s.toLower := by
  have rank_iff : ∀ {letter : Char} {place : Nat}, rankLetters.idxOf? letter = some place ↔
      rankLetters[place]? = some letter := idxOf?_eq_some_iff_of_nodup (by decide)
  have suit_iff : ∀ {letter : Char} {place : Nat}, suitLetters.idxOf? letter = some place ↔
      suitLetters[place]? = some letter := idxOf?_eq_some_iff_of_nodup (by decide)
  constructor
  · intro named
    unfold ofLetters at named
    split at named
    · rename_i r s
      split at named
      · cases named
      · rename_i rank rank_is
        split at named
        · cases named
        · rename_i suit suit_is
          obtain rfl := Except.ok.inj named
          have second := suit_iff.mp suit_is
          have suit_lt : suit < 4 := (List.getElem?_eq_some_iff.mp second).1
          rw [rank_ofRankSuit suit_lt, suit_ofRankSuit suit_lt]
          exact ⟨r, s, rfl, rank_iff.mp rank_is, second⟩
    · cases named
  · rintro ⟨r, s, rfl, first, second⟩
    simp only [ofLetters, rank_iff.mpr first, suit_iff.mpr second, ofRankSuit_rank_suit]

/-- A word names the card whose letters it has, in any case. -/
theorem ofLetters_eq_ok_iff :
    ofLetters w = .ok c ↔ c.IsValid ∧ List.Forall₂ EitherCase w c.letters := by
  rw [ofLetters_eq_ok_iff_places]
  constructor
  · rintro ⟨r, s, rfl, first, second⟩
    obtain ⟨valid, written⟩ := letters_of_places first second
    rw [written]
    exact ⟨valid, .cons (eitherCase_toUpper r) (.cons (eitherCase_toLower s) .nil)⟩
  · rintro ⟨valid, same⟩
    obtain ⟨upper, lower, first, second⟩ := exists_places valid
    rw [(letters_of_places first second).2] at same
    obtain ⟨r, _, either, rest, rfl⟩ := List.forall₂_cons_right_iff.mp same
    obtain ⟨s, _, also_either, last, rfl⟩ := List.forall₂_cons_right_iff.mp rest
    obtain rfl := List.forall₂_nil_right_iff.mp last
    refine ⟨r, s, rfl, ?_, ?_⟩
    · rw [first, either.toUpper_eq (toUpper_of_mem (List.mem_of_getElem? first))]
    · rw [second, also_either.toLower_eq (toLower_of_mem (List.mem_of_getElem? second))]

/-- The first letter large and the second one small. -/
def spelled : List Char → List Char
  | [] => []
  | [r] => [r.toUpper]
  | r :: s :: rest => r.toUpper :: s.toLower :: rest

theorem spelled_of_ofLetters (named : ofLetters w = .ok c) : spelled w = c.letters := by
  obtain ⟨r, s, rfl, first, second⟩ := ofLetters_eq_ok_iff_places.mp named
  exact (letters_of_places first second).2.symm

theorem isWord_of_ofLetters (named : ofLetters w = .ok c) : Text.IsWord w := by
  obtain ⟨r, s, rfl, first, second⟩ := ofLetters_eq_ok_iff_places.mp named
  have solid : Text.isBlank r = false := not_blank_of_eitherCase
    (List.mem_append_left _ (List.mem_of_getElem? first)) (eitherCase_toUpper r)
  have also_solid : Text.isBlank s = false := not_blank_of_eitherCase
    (List.mem_append_right _ (List.mem_of_getElem? second)) (eitherCase_toLower s)
  exact ⟨List.cons_ne_nil r [s], by simp [solid, also_solid]⟩

end

/-! ## Lists of cards -/

section

variable {text : List Char} {cards : List Card}

theorem listOfLetters_eq_ok_iff :
    listOfLetters text = .ok cards ↔
      List.Forall₂ (fun w c => ofLetters w = .ok c) (Text.words text) cards :=
  mapM_eq_ok_iff

/-- The text with single spaces between its words and every word spelled as cards are. -/
def tidy (text : List Char) : List Char :=
  [' '].intercalate (((Text.collapse text).splitOn ' ').map spelled)

theorem tidy_eq (text : List Char) :
    tidy text = [' '].intercalate ((Text.words text).map spelled) := by
  have proper : ∀ w ∈ Text.words text, ' ' ∉ w := by
    intro w listed space
    have solid := (Text.isWord_of_mem_words w listed).solid ' ' space
    exact absurd solid (by decide)
  rw [tidy, (Text.spaced_words text).collapse_eq Text.isWord_of_mem_words]
  cases named : Text.words text with
  | nil => simp [spelled]
  | cons w others => rw [List.splitOn_intercalate ' ' (named ▸ proper) (List.cons_ne_nil w others)]

theorem tidy_of_listOfLetters (named : listOfLetters text = .ok cards) :
    tidy text = [' '].intercalate (cards.map letters) := by
  have same : List.Forall₂ Eq ((Text.words text).map spelled) (cards.map letters) := by
    rw [List.forall₂_map_left_iff, List.forall₂_map_right_iff]
    exact (listOfLetters_eq_ok_iff.mp named).imp fun w c => spelled_of_ofLetters
  rw [List.forall₂_eq_eq_eq] at same
  rw [tidy_eq, same]

theorem toList_joined (cards : List Card) :
    (" ".intercalate (cards.map Card.text)).toList = [' '].intercalate (cards.map letters) := by
  have written : (cards.map Card.text).map String.toList = cards.map letters := by
    rw [List.map_map]
    exact List.map_congr_left fun c _ => String.toList_ofList
  rw [String.toList_intercalate, written]
  rfl

/-- All words of a text name cards exactly if they have the letters of cards. -/
theorem forall₂_ofLetters_iff {ws : List (List Char)} :
    List.Forall₂ (fun w c => ofLetters w = .ok c) ws cards ↔
      (∀ c ∈ cards, c.IsValid) ∧
        List.Forall₂ (fun w c => List.Forall₂ EitherCase w c.letters) ws cards := by
  simp only [ofLetters_eq_ok_iff]
  constructor
  · intro both
    obtain ⟨valid, same⟩ := (List.forall₂_and_left cards ws).mp both.flip
    exact ⟨valid, same.flip⟩
  · rintro ⟨valid, same⟩
    exact ((List.forall₂_and_left cards ws).mpr ⟨valid, same.flip⟩).flip

/-- The texts of a list of cards, and no others. -/
theorem listOfLetters_eq_ok_iff_spaced :
    listOfLetters text = .ok cards ↔ (∀ c ∈ cards, c.IsValid) ∧
      ∃ ws, Text.Spaced ws text ∧ List.Forall₂ (fun w c => List.Forall₂ EitherCase w c.letters)
        ws cards := by
  rw [listOfLetters_eq_ok_iff]
  constructor
  · intro named
    obtain ⟨valid, same⟩ := forall₂_ofLetters_iff.mp named
    exact ⟨valid, Text.words text, Text.spaced_words text, same⟩
  · rintro ⟨valid, ws, spaced, same⟩
    have named := forall₂_ofLetters_iff.mpr ⟨valid, same⟩
    have proper : ∀ w ∈ ws, Text.IsWord w := ((List.forall₂_and_left ws cards).mp
      (named.imp fun w c read => ⟨isWord_of_ofLetters read, read⟩)).1
    rwa [spaced.words_eq proper]

theorem listOfLetters_eq_error_iff {e : TextError} :
    listOfLetters text = .error e ↔ ∃ before word after,
      Text.Spaced (before ++ word :: after) text ∧
      (∀ w ∈ before ++ word :: after, Text.IsWord w) ∧
      (∀ w ∈ before, ∃ c, ofLetters w = .ok c) ∧ ofLetters word = .error e := by
  rw [listOfLetters, mapM_eq_error_iff]
  simp only [Text.words_eq_iff, and_assoc]

end

/-- A text names a list of cards exactly if it sets out their texts, each letter in any case, with
blanks between them. Tidied up it then is their texts with single spaces. Otherwise it
falls into words of which the first one that names no card tells the error. -/
theorem card_lists_read_and_written (text : String) :
    (∀ cards, listOfText text = .ok cards ↔ (∀ c ∈ cards, c.IsValid) ∧
      ∃ ws, Text.Spaced ws text.toList ∧
        List.Forall₂ (fun w c => List.Forall₂ EitherCase w c.text.toList) ws cards) ∧
    (∀ cards, listOfText text = .ok cards →
      " ".intercalate (cards.map Card.text) = String.ofList (tidy text.toList)) ∧
    ∀ e, listOfText text = .error e ↔ ∃ before word after,
      Text.Spaced (before ++ word :: after) text.toList ∧
      (∀ w ∈ before ++ word :: after, Text.IsWord w) ∧
      (∀ w ∈ before, ∃ c, ofText (String.ofList w) = .ok c) ∧
      ofText (String.ofList word) = .error e := by
  simp only [ofText, Card.text, String.toList_ofList]
  refine ⟨fun cards => listOfLetters_eq_ok_iff_spaced, fun cards named => ?_,
    fun e => listOfLetters_eq_error_iff⟩
  rw [tidy_of_listOfLetters named, ← toList_joined, String.ofList_toList]

/-- Three words with a tab and a wide space between them. -/
example : listOfText " aH\tTd\u30007C\n" = .ok [⟨50⟩, ⟨33⟩, ⟨20⟩] := by decide

end Card

end CardRoom
