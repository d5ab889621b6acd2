import Mathlib
import CardRoom.Text.Blank

/-! # Texts as words with blanks between them

A text falls into words in one way only: between any two of them there is at least one blank, and
there may be blanks before the first and behind the last. Collapsing a text leaves a single space
between its words and nothing at its ends.
-/

namespace CardRoom.Text

def IsGap (cs : List Char) : Prop := ∀ c ∈ cs, isBlank c = true

structure IsWord (word : List Char) : Prop where
  nonempty : word ≠ []
  solid : ∀ c ∈ word, isBlank c = false

/-- The text is the words in their order, set apart by blanks. -/
inductive Spaced : List (List Char) → List Char → Prop
  | nil {gap : List Char} (blank : IsGap gap) : Spaced [] gap
  /-- A word reaches up to a blank or to the end of the text. -/
  | cons {gap word rest : List Char} {others : List (List Char)} (blank : IsGap gap)
      (apart : rest.head?.all isBlank = true) (later : Spaced others rest) :
      Spaced (word :: others) (gap ++ word ++ rest)

variable {c : Char} {gap word rest text : List Char} {ws : List (List Char)}

theorem words_cons_of_blank (blank : isBlank c = true) (rest : List Char) :
    words (c :: rest) = words rest := by
  rw [words, if_pos blank]

theorem words_gap_append (blank : IsGap gap) (rest : List Char) :
    words (gap ++ rest) = words rest := by
  induction gap with
  | nil => rfl
  | cons c gap ih =>
      obtain ⟨first, others⟩ := List.forall_mem_cons.mp blank
      rw [List.cons_append, words_cons_of_blank first, ih others]

/-- A word at the front, up to a blank or to the end, is the first one. -/
theorem words_word_append (solid : ∀ c ∈ word, isBlank c = false) (nonempty : word ≠ [])
    (apart : rest.head?.all isBlank = true) : words (word ++ rest) = word :: words rest := by
  induction word with
  | nil => exact absurd rfl nonempty
  | cons c word ih =>
      obtain ⟨first, others⟩ := List.forall_mem_cons.mp solid
      rw [List.cons_append, words, if_neg (by simp [first])]
      cases word with
      | nil => rw [List.nil_append, if_pos apart]
      | cons d word =>
          have goes_on : isBlank d = false := others d List.mem_cons_self
          rw [ih others (List.cons_ne_nil d word), if_neg (by simp [goes_on])]

theorem Spaced.words_eq (spaced : Spaced ws text) (proper : ∀ w ∈ ws, IsWord w) :
    words text = ws := by
  induction spaced with
  | nil blank => simpa [words] using words_gap_append blank []
  | cons blank apart later ih =>
      obtain ⟨first, others⟩ := List.forall_mem_cons.mp proper
      rw [List.append_assoc, words_gap_append blank,
        words_word_append first.solid first.nonempty apart, ih others]

theorem Spaced.cons_blank (blank : isBlank c = true) (spaced : Spaced ws text) :
    Spaced ws (c :: text) := by
  cases spaced with
  | nil gap => exact .nil (List.forall_mem_cons.mpr ⟨blank, gap⟩)
  | cons gap apart later => exact .cons (List.forall_mem_cons.mpr ⟨blank, gap⟩) apart later

theorem Spaced.cons_word {others : List (List Char)} (apart : rest.head?.all isBlank = true)
    (later : Spaced others rest) : Spaced (word :: others) (word ++ rest) :=
  @Spaced.cons [] word rest others (List.forall_mem_nil _) apart later

/-- What goes on without a blank goes on with its first word. -/
theorem Spaced.prolong (goes_on : ¬ text.head?.all isBlank = true) (spaced : Spaced ws text)
    (c : Char) :
    ∃ word others, ws = word :: others ∧ Spaced ((c :: word) :: others) (c :: text) := by
  cases spaced with
  | nil blank =>
      cases text with
      | nil => exact absurd rfl goes_on
      | cons d gap => exact absurd (blank d List.mem_cons_self) goes_on
  | @cons gap word rest others blank apart later =>
      cases gap with
      | nil => exact ⟨word, others, rfl, .cons_word apart later⟩
      | cons d gap => exact absurd (blank d List.mem_cons_self) goes_on

theorem spaced_words (text : List Char) : Spaced (words text) text := by
  induction text with
  | nil => exact .nil (by simp [IsGap])
  | cons c text ih =>
      unfold words
      split
      · rename_i blank
        exact ih.cons_blank blank
      · split
        · rename_i apart
          exact .cons_word apart ih
        · rename_i goes_on
          obtain ⟨word, others, same, prolonged⟩ := ih.prolong goes_on c
          rw [same]
          exact prolonged

theorem isWord_of_mem_words : ∀ w ∈ words text, IsWord w := by
  induction text with
  | nil => simp [words]
  | cons c text ih =>
      unfold words
      split
      · exact ih
      · rename_i solid
        have single : IsWord [c] := ⟨List.cons_ne_nil c [], by simpa using solid⟩
        split
        · exact List.forall_mem_cons.mpr ⟨single, ih⟩
        · split
          · exact List.forall_mem_singleton.mpr single
          · rename_i word others same
            rw [same] at ih
            obtain ⟨first, later⟩ := List.forall_mem_cons.mp ih
            have longer : IsWord (c :: word) :=
              ⟨List.cons_ne_nil c word, List.forall_mem_cons.mpr ⟨by simpa using solid, first.solid⟩⟩
            exact List.forall_mem_cons.mpr ⟨longer, later⟩

/-- The words of a text are the only ones that it can be made up of. -/
theorem words_eq_iff : words text = ws ↔ Spaced ws text ∧ ∀ w ∈ ws, IsWord w := by
  constructor
  · rintro rfl
    exact ⟨spaced_words text, isWord_of_mem_words⟩
  · rintro ⟨spaced, proper⟩
    exact spaced.words_eq proper

/-! ## Collapsing blanks -/

/-- One space for each run of blanks, and none for a run at the end. -/
def squeeze : List Char → List Char
  | [] => []
  | c :: rest =>
    if isBlank c then
      if rest.head?.all isBlank then squeeze rest else ' ' :: squeeze rest
    else c :: squeeze rest

/-- The text with one space for each run of blanks and none at its ends. -/
def collapse (text : List Char) : List Char := squeeze (text.dropWhile isBlank)

theorem squeeze_word_append (solid : ∀ c ∈ word, isBlank c = false) (rest : List Char) :
    squeeze (word ++ rest) = word ++ squeeze rest := by
  induction word with
  | nil => rfl
  | cons c word ih =>
      obtain ⟨first, others⟩ := List.forall_mem_cons.mp solid
      rw [List.cons_append, squeeze, if_neg (by simp [first]), ih others, List.cons_append]

theorem collapse_gap_append (blank : IsGap gap) (rest : List Char) :
    collapse (gap ++ rest) = collapse rest := by
  rw [collapse, List.dropWhile_append_of_pos blank, collapse]

theorem collapse_of_solid (solid : ∀ c ∈ word, isBlank c = false) (nonempty : word ≠ [])
    (rest : List Char) : collapse (word ++ rest) = word ++ squeeze rest := by
  obtain ⟨c, word, rfl⟩ := List.exists_cons_of_ne_nil nonempty
  have first : isBlank c = false := solid c List.mem_cons_self
  rw [collapse, List.cons_append, List.dropWhile_cons_of_neg (by simp [first]), ← List.cons_append,
    squeeze_word_append solid]

/-- Behind a word, blanks count if there is another word to come. -/
theorem squeeze_of_apart (apart : rest.head?.all isBlank = true) :
    squeeze rest = if collapse rest = [] then [] else ' ' :: collapse rest := by
  induction rest with
  | nil => rfl
  | cons c rest ih =>
      have blank : isBlank c = true := apart
      have skipped : collapse (c :: rest) = collapse rest := by
        rw [collapse, List.dropWhile_cons_of_pos blank, collapse]
      rw [squeeze, if_pos blank, skipped]
      split
      · rename_i apart
        exact ih apart
      · rename_i goes_on
        cases rest with
        | nil => exact absurd rfl goes_on
        | cons d rest =>
            have solid : ∀ c ∈ [d], isBlank c = false := by simpa using goes_on
            have head := collapse_of_solid solid (List.cons_ne_nil d []) rest
            have same := squeeze_word_append solid rest
            rw [List.singleton_append] at head same
            rw [head, same, if_neg (by simp)]

theorem Spaced.collapse_eq (spaced : Spaced ws text) (proper : ∀ w ∈ ws, IsWord w) :
    collapse text = [' '].intercalate ws := by
  induction spaced with
  | nil blank => simpa [collapse, squeeze] using collapse_gap_append blank []
  | @cons gap word rest others blank apart later ih =>
      obtain ⟨first, proper⟩ := List.forall_mem_cons.mp proper
      rw [List.append_assoc, collapse_gap_append blank,
        collapse_of_solid first.solid first.nonempty, squeeze_of_apart apart, ih proper]
      cases others with
      | nil => simp
      | cons w others =>
          have next := (proper w List.mem_cons_self).nonempty
          have more : [' '].intercalate (w :: others) ≠ [] := by
            cases others <;> simp [List.intercalate_cons_cons, next]
          rw [if_neg more, List.intercalate_cons_cons, List.append_assoc, List.singleton_append]

end CardRoom.Text
