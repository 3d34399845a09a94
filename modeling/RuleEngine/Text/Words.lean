/-!
# Blanks and words

White space in rule text is the Unicode property White_Space: twenty-five
code points in ten closed ranges.  Neither the separators U+001C to U+001F
nor the zero-width characters belong to it, so a word may hold them.

A text is read as its sequence of **words**: the maximal runs of characters
that are not white space.  How much white space stands between two words, and
of which kind, is forgotten; `spaced` writes a sequence of words back with one
space between each two.

* `isBlank` — membership in the table of white space;
* `trimWhere` — a text without the characters of a class at its two ends;
* `words`, `spaced` — from a text to its words, and back to a text;
* `splitAtFirst?` — the words before and after the first place of a word.
-/

namespace RuleEngine

/-! ## Blanks -/

/-- The code points of white space as closed ranges, ascending and apart. -/
def blankRanges : List (Nat × Nat) :=
  [(0x09, 0x0D), (0x20, 0x20), (0x85, 0x85), (0xA0, 0xA0), (0x1680, 0x1680),
    (0x2000, 0x200A), (0x2028, 0x2029), (0x202F, 0x202F), (0x205F, 0x205F),
    (0x3000, 0x3000)]

/-- A code point lies in one of the closed ranges. -/
def inRanges (ranges : List (Nat × Nat)) (n : Nat) : Bool :=
  ranges.any fun r => r.1 ≤ n && n ≤ r.2

/-- White space, over all of Unicode. -/
def isBlank (c : Char) : Bool := inRanges blankRanges c.toNat

/-- The text without the leading characters of the class, and without the
trailing ones. -/
def trimWhere (drop : Char → Bool) (text : List Char) : List Char :=
  ((text.dropWhile drop).reverse.dropWhile drop).reverse

/-- The text without the white space at its two ends. -/
def trimBlanks (text : String) : String :=
  String.ofList (trimWhere isBlank text.toList)

/-- The space is a blank. -/
theorem isBlank_space : isBlank ' ' = true := by decide

/-! ## Words -/

/-- Cuts the words off a text.  `current` holds the characters of the word that
is being read, the last one first; it is empty between words. -/
def wordsFrom (current : List Char) : List Char → List (List Char)
  | [] => if current.isEmpty then [] else [current.reverse]
  | c :: rest =>
      if isBlank c then
        if current.isEmpty then wordsFrom [] rest
        else current.reverse :: wordsFrom [] rest
      else wordsFrom (c :: current) rest

/-- The words of a text, in order. -/
def words (text : String) : List String :=
  (wordsFrom [] text.toList).map String.ofList

/-- Words one after another, a single space between each two. -/
def spacedChars : List (List Char) → List Char
  | [] => []
  | [w] => w
  | w :: rest => w ++ ' ' :: spacedChars rest

/-- The text that holds the given words with one space between each two. -/
def spaced (ws : List String) : String :=
  String.ofList (spacedChars (ws.map String.toList))

/-- The words before the first place of `keyword`, and those after it; `none`
when it is not among them. -/
def splitAtFirst? (keyword : String) : List String → Option (List String × List String)
  | [] => none
  | w :: rest =>
      if w = keyword then some ([], rest)
      else (splitAtFirst? keyword rest).map fun (before, after) => (w :: before, after)

/-- A text splits at its first keyword without losing a word. -/
theorem append_of_splitAtFirst? {keyword : String} {ws before after : List String}
    (h : splitAtFirst? keyword ws = some (before, after)) :
    ws = before ++ keyword :: after ∧ keyword ∉ before := by
  induction ws generalizing before with
  | nil => simp [splitAtFirst?] at h
  | cons w rest ih =>
      by_cases hw : w = keyword
      · simp only [splitAtFirst?, if_pos hw, Option.some.injEq, Prod.mk.injEq] at h
        obtain ⟨rfl, rfl⟩ := h
        simp [hw]
      · simp only [splitAtFirst?, if_neg hw, Option.map_eq_some_iff, Prod.mk.injEq] at h
        obtain ⟨⟨b, a⟩, hsome, rfl, rfl⟩ := h
        obtain ⟨hrest, hnot⟩ := ih hsome
        exact ⟨by simp [hrest], by simp [hnot, Ne.symm hw]⟩

/-- The first place of a keyword is where no keyword stands before it. -/
theorem splitAtFirst?_append {keyword : String} {before : List String}
    (h : keyword ∉ before) (after : List String) :
    splitAtFirst? keyword (before ++ keyword :: after) = some (before, after) := by
  induction before with
  | nil => simp [splitAtFirst?]
  | cons w rest ih =>
      obtain ⟨hw, hrest⟩ := not_or.mp (mt List.mem_cons.mpr h)
      simp [splitAtFirst?, Ne.symm hw, ih hrest]

/-- There is no split exactly where the keyword is not among the words. -/
theorem splitAtFirst?_eq_none_iff {keyword : String} {ws : List String} :
    splitAtFirst? keyword ws = none ↔ keyword ∉ ws := by
  induction ws with
  | nil => simp [splitAtFirst?]
  | cons w rest ih =>
      by_cases hw : w = keyword
      · simp [splitAtFirst?, hw]
      · simp [splitAtFirst?, hw, ih, Ne.symm hw]

end RuleEngine
