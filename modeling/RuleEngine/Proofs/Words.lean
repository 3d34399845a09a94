import Mathlib.Data.List.Chain
import RuleEngine.Text.Words

/-!
# The words of a text

What it means for a text to hold certain words, said without the reader: blanks
may stand anywhere between words, a word goes on to the next blank or to the end
of the text, and nothing else is in the text.  The reader finds these words, and
only one sequence of words is held by a text.

A text made of words with one space between each two holds just these words, so
writing words and reading them again loses none and joins none.

* `HoldsWords` — the words that a text holds;
* `wordsFrom_eq_iff` — the reader finds them;
* `words_append_space` — two texts with a space between them have the words of both;
* `words_spaced` — words that were written with single spaces are read back;
* `singleSpaced_spaced` — such a text has no other white space than those
  spaces.
-/

namespace RuleEngine

/-- A word: it has characters, and none of them is a blank. -/
def IsWord (word : List Char) : Prop :=
  word ≠ [] ∧ ∀ c ∈ word, isBlank c = false

instance (word : List Char) : Decidable (IsWord word) :=
  decidable_of_iff (word ≠ [] ∧ word.all (fun c => !isBlank c) = true) (by simp [IsWord])

/-- Letters that were gathered from the back are a word once they are turned round. -/
theorem isWord_reverse {letters : List Char} (hne : letters ≠ [])
    (hletters : ∀ c ∈ letters, isBlank c = false) : IsWord letters.reverse :=
  ⟨by simpa using hne, fun c hc => hletters c (List.mem_reverse.mp hc)⟩

/-- A text holds words, in this order: blanks, a word that ends at a blank or at
the end of the text, and so on; at last blanks only. -/
inductive HoldsWords : List Char → List (List Char) → Prop
  | nil {gap : List Char} (hgap : ∀ c ∈ gap, isBlank c = true) : HoldsWords gap []
  | cons {gap word rest : List Char} {ws : List (List Char)}
      (hgap : ∀ c ∈ gap, isBlank c = true)
      (hword : IsWord word)
      (hend : ∀ c ∈ rest.head?, isBlank c = true)
      (hrest : HoldsWords rest ws) :
      HoldsWords (gap ++ word ++ rest) (word :: ws)

/-- White space in front of a text adds no word. -/
theorem HoldsWords.cons_blank {c : Char} {text : List Char} {ws : List (List Char)}
    (hc : isBlank c = true) (h : HoldsWords text ws) : HoldsWords (c :: text) ws := by
  cases h with
  | nil hgap => exact .nil (List.forall_mem_cons.mpr ⟨hc, hgap⟩)
  | @cons gap word rest ws hgap hword hend hrest =>
      have hgap' : ∀ d ∈ c :: gap, isBlank d = true := List.forall_mem_cons.mpr ⟨hc, hgap⟩
      exact HoldsWords.cons hgap' hword hend hrest

/-- No blank need stand before the first word. -/
theorem HoldsWords.cons_word {word rest : List Char} {ws : List (List Char)}
    (hword : IsWord word) (hend : ∀ c ∈ rest.head?, isBlank c = true)
    (hrest : HoldsWords rest ws) : HoldsWords (word ++ rest) (word :: ws) := by
  have hgap : ∀ c ∈ ([] : List Char), isBlank c = true := by simp
  exact HoldsWords.cons hgap hword hend hrest

/-- What a text holds are words. -/
theorem HoldsWords.isWord {text : List Char} {ws : List (List Char)}
    (h : HoldsWords text ws) : ∀ w ∈ ws, IsWord w := by
  induction h with
  | nil hgap =>
      intro w hw
      cases hw
  | cons hgap hword hend hrest ih => exact List.forall_mem_cons.mpr ⟨hword, ih⟩

/-! ## The reader finds the words -/

theorem wordsFrom_blank_nil {c : Char} (hc : isBlank c = true) (rest : List Char) :
    wordsFrom [] (c :: rest) = wordsFrom [] rest := by
  simp [wordsFrom, hc]

/-- Between words a whole gap of white space is passed over. -/
theorem wordsFrom_gap {gap : List Char} (hgap : ∀ c ∈ gap, isBlank c = true)
    (rest : List Char) : wordsFrom [] (gap ++ rest) = wordsFrom [] rest := by
  induction gap with
  | nil => rfl
  | cons c gap ih =>
      obtain ⟨hc, htail⟩ := List.forall_mem_cons.mp hgap
      rw [List.cons_append, wordsFrom_blank_nil hc]
      exact ih htail

theorem wordsFrom_letter {c : Char} (hc : isBlank c = false) (current rest : List Char) :
    wordsFrom current (c :: rest) = wordsFrom (c :: current) rest := by
  simp [wordsFrom, hc]

/-- All the letters of a word go on with the one that is being read. -/
theorem wordsFrom_letters {word : List Char} (hword : ∀ c ∈ word, isBlank c = false)
    (current rest : List Char) :
    wordsFrom current (word ++ rest) = wordsFrom (word.reverse ++ current) rest := by
  induction word generalizing current with
  | nil => rfl
  | cons c word ih =>
      obtain ⟨hc, htail⟩ := List.forall_mem_cons.mp hword
      rw [List.cons_append, wordsFrom_letter hc, ih htail, List.reverse_cons,
        List.append_assoc, List.singleton_append]

/-- A word that has been read is given out at its end. -/
theorem wordsFrom_end {current rest : List Char} (hcurrent : current ≠ [])
    (hend : ∀ c ∈ rest.head?, isBlank c = true) :
    wordsFrom current rest = current.reverse :: wordsFrom [] rest := by
  have hne : current.isEmpty = false := by simpa using hcurrent
  cases rest with
  | nil => simp [wordsFrom, hne]
  | cons c rest =>
      have hc : isBlank c = true := hend c rfl
      rw [wordsFrom_blank_nil hc]
      simp [wordsFrom, hc, hne]

/-- The text read so far and the text to come hold the words that are found. -/
theorem holdsWords_wordsFrom (current : List Char)
    (hcurrent : ∀ c ∈ current, isBlank c = false) (text : List Char) :
    HoldsWords (current.reverse ++ text) (wordsFrom current text) := by
  -- along the text, for every word begun; at a blank the word begun is complete
  induction text generalizing current with
  | nil =>
      by_cases hne : current = []
      · subst hne
        exact .nil (by simp)
      · rw [wordsFrom_end hne (by simp)]
        exact .cons_word (isWord_reverse hne hcurrent) (by simp) (.nil (by simp))
  | cons c rest ih =>
      by_cases hc : isBlank c = true
      · have htail : HoldsWords (c :: rest) (wordsFrom [] (c :: rest)) := by
          rw [wordsFrom_blank_nil hc]
          exact (ih [] (by simp)).cons_blank hc
        by_cases hne : current = []
        · subst hne
          exact htail
        · have hend : ∀ d ∈ (c :: rest).head?, isBlank d = true := by simpa using hc
          rw [wordsFrom_end hne hend]
          exact .cons_word (isWord_reverse hne hcurrent) hend htail
      · have hc : isBlank c = false := by simpa using hc
        have hletters : ∀ d ∈ c :: current, isBlank d = false :=
          List.forall_mem_cons.mpr ⟨hc, hcurrent⟩
        rw [wordsFrom_letter hc]
        simpa using ih (c :: current) hletters

/-- **A text holds one sequence of words,** and it is the one that is read. -/
theorem wordsFrom_eq_iff {text : List Char} {ws : List (List Char)} :
    wordsFrom [] text = ws ↔ HoldsWords text ws := by
  constructor
  · rintro rfl
    exact holdsWords_wordsFrom [] (by simp) text
  · intro h
    induction h with
    | nil hgap =>
        have h := wordsFrom_gap hgap []
        simpa [wordsFrom] using h
    | @cons gap word rest ws hgap hword hend hrest ih =>
        have hne : word.reverse ++ [] ≠ [] := by simpa using hword.1
        rw [List.append_assoc, wordsFrom_gap hgap, wordsFrom_letters hword.2,
          wordsFrom_end hne hend, ih]
        simp

/-- A blank ends the word before it, and the words behind it are read by themselves. -/
theorem wordsFrom_append_blank {c : Char} (hc : isBlank c = true)
    (current text rest : List Char) :
    wordsFrom current (text ++ c :: rest) = wordsFrom current text ++ wordsFrom [] rest := by
  induction text generalizing current with
  | nil => by_cases hcurrent : current.isEmpty <;> simp [wordsFrom, hc, hcurrent]
  | cons d text ih =>
      by_cases hd : isBlank d = true
      · by_cases hcurrent : current.isEmpty <;> simp [wordsFrom, hd, hcurrent, ih]
      · simp [wordsFrom, hd, ih]

/-- **Texts with a space between them have the words of both.** -/
theorem words_append_space (s t : String) : words (s ++ " " ++ t) = words s ++ words t := by
  have hspace : (s ++ " " ++ t).toList = s.toList ++ ' ' :: t.toList := by
    simp [String.toList_append]
  rw [words, hspace, wordsFrom_append_blank isBlank_space, List.map_append, words, words]

/-- The words of a text are words. -/
theorem isWord_of_mem_words {text w : String} (h : w ∈ words text) : IsWord w.toList := by
  obtain ⟨word, hword, rfl⟩ := List.mem_map.mp h
  have hholds : HoldsWords text.toList (wordsFrom [] text.toList) := wordsFrom_eq_iff.mp rfl
  rw [String.toList_ofList]
  exact hholds.isWord word hword

/-! ## Words with single spaces between them -/

/-- No white space at either end of a text, and single spaces only inside. -/
structure SingleSpaced (text : List Char) : Prop where
  spaces : ∀ c ∈ text, isBlank c = true → c = ' '
  first : ∀ c ∈ text.head?, isBlank c = false
  last : ∀ c ∈ text.getLast?, isBlank c = false
  apart : text.IsChain fun c d => isBlank c = true → isBlank d = false

/-- Words one after another, with a space between each two, are a text that holds them. -/
theorem holdsWords_spacedChars {ws : List (List Char)} (h : ∀ w ∈ ws, IsWord w) :
    HoldsWords (spacedChars ws) ws := by
  fun_induction spacedChars ws with
  | case1 => exact .nil (by simp)
  | case2 w =>
      have hw : IsWord w := h w List.mem_cons_self
      have hnil : HoldsWords [] [] := .nil (by simp)
      simpa using HoldsWords.cons_word hw (by simp) hnil
  | case3 w rest hne ih =>
      obtain ⟨hw, hrest⟩ := List.forall_mem_cons.mp h
      exact .cons_word hw (by simp [isBlank_space]) ((ih hrest).cons_blank isBlank_space)

theorem isWord_of_mem_map_toList {ws : List String} (h : ∀ w ∈ ws, IsWord w.toList) :
    ∀ w ∈ ws.map String.toList, IsWord w := by
  intro w hw
  obtain ⟨v, hv, rfl⟩ := List.mem_map.mp hw
  exact h v hv

/-- **Words survive writing.**  Words that are written with one space between
each two are read as they were. -/
theorem words_spaced {ws : List String} (h : ∀ w ∈ ws, IsWord w.toList) :
    words (spaced ws) = ws := by
  have hholds : HoldsWords (spacedChars (ws.map String.toList)) (ws.map String.toList) :=
    holdsWords_spacedChars (isWord_of_mem_map_toList h)
  rw [words, spaced, String.toList_ofList, wordsFrom_eq_iff.mpr hholds, List.map_map]
  simp

/-- One word is the only word of its text. -/
theorem words_of_isWord {word : String} (h : IsWord word.toList) : words word = [word] := by
  have hsingle : words (spaced [word]) = [word] := words_spaced (by simpa using h)
  simpa [spaced, spacedChars] using hsingle

/-- A word has no white space in it at all. -/
theorem SingleSpaced.of_isWord {word : List Char} (h : IsWord word) : SingleSpaced word where
  spaces c hc hblank := by simp [h.2 c hc] at hblank
  first c hc := h.2 c (List.mem_of_mem_head? hc)
  last c hc := h.2 c (List.mem_of_getLast? hc)
  apart := by
    refine List.Pairwise.isChain (List.pairwise_of_forall_mem_list ?_)
    intro c _ d hd _
    exact h.2 d hd

/-- A word and a space may stand before a text with single spaces. -/
theorem SingleSpaced.cons_word {word text : List Char} (hword : IsWord word)
    (hne : text ≠ []) (htext : SingleSpaced text) : SingleSpaced (word ++ ' ' :: text) := by
  have hw := SingleSpaced.of_isWord hword
  constructor
  · intro c hc hblank
    rcases List.mem_append.mp hc with hc | hc
    · exact hw.spaces c hc hblank
    · rcases List.mem_cons.mp hc with rfl | hc
      · rfl
      · exact htext.spaces c hc hblank
  · intro c hc
    rw [List.head?_append_of_ne_nil _ hword.1] at hc
    exact hw.first c hc
  · intro c hc
    rw [List.getLast?_append_of_ne_nil _ (List.cons_ne_nil ' ' text),
      List.getLast?_cons_of_ne_nil hne] at hc
    exact htext.last c hc
  · refine hw.apart.append (htext.apart.cons ?_) ?_
    · intro d hd _
      exact htext.first d hd
    · intro c hc d _ hblank
      rw [hw.last c hc] at hblank
      cases hblank

/-- Words, one at least, are not written as the empty text. -/
theorem spacedChars_ne_nil {ws : List (List Char)} (hne : ws ≠ [])
    (h : ∀ w ∈ ws, IsWord w) : spacedChars ws ≠ [] := by
  fun_cases spacedChars ws with
  | case1 => exact absurd rfl hne
  | case2 w => exact (h w List.mem_cons_self).1
  | case3 w rest hrest => simp

/-- Words that are written out have single spaces between them. -/
theorem singleSpaced_spacedChars {ws : List (List Char)} (h : ∀ w ∈ ws, IsWord w) :
    SingleSpaced (spacedChars ws) := by
  fun_induction spacedChars ws with
  | case1 => exact ⟨by simp, by simp, by simp, by simp⟩
  | case2 w => exact .of_isWord (h w List.mem_cons_self)
  | case3 w rest hne ih =>
      obtain ⟨hw, hrest⟩ := List.forall_mem_cons.mp h
      exact .cons_word hw (spacedChars_ne_nil hne hrest) (ih hrest)

/-- Words that are written with one space between each two stand in a text that
has no other white space. -/
theorem singleSpaced_spaced {ws : List String} (h : ∀ w ∈ ws, IsWord w.toList) :
    SingleSpaced (spaced ws).toList := by
  rw [spaced, String.toList_ofList]
  exact singleSpaced_spacedChars (isWord_of_mem_map_toList h)

end RuleEngine
