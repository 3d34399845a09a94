import RuleEngine.Proofs.RulesOfTexts
import RuleEngine.Proofs.Trimming
import RuleEngine.Rule.Verdict

/-!
# What is read of a text

Two rule texts may differ in their white space only: in how much of it there is, of
which kind, and whether any stands at the ends.  Then they mean the same.  With a keyword
they even become the same rule, for its operands are written anew from the words.
Without one the text is kept, white space and all, but it is read as words again when
the rule is judged.  The white space is seen in one place: a text with too few words is
reported as it stands, trimmed at its ends, and trimming takes no word away.

A condition is read no further than its third word, and the right side of an operator is a
condition, whatever keywords stand in it.  So a text that has had its say may be followed
by more, and the rule is the same to every record.  How much more depends on where the text
was split.  Behind an `AND` anything may follow, for a text is split at its first `AND`.
Behind an `OR` anything but an `AND`, which would be found first and take the whole text
for its left side.  And a text without a keyword may be followed by words that are none.

* `words_trimBlanks` — trimming keeps the words;
* `verdictOfText_of_take`, `verdictOfText_of_few_words` — judging conditions with the same
  first three words, and those with too few;
* `Rule.verdict_of_same_words` — rules from texts with the same words;
* `verdictOfText_append` — words behind those of a condition;
* `Rule.verdict_append_of_keyword` — words behind those of an operator, for either keyword;
* `Rule.verdict_append` — the three kinds of text with more behind them.
-/

namespace RuleEngine

/-! ## Words of a trimmed text -/

/-- Blanks behind a text hold no word. -/
theorem HoldsWords.append_gap {text gap : List Char} {ws : List (List Char)}
    (h : HoldsWords text ws) (hgap : ∀ c ∈ gap, isBlank c = true) :
    HoldsWords (text ++ gap) ws := by
  induction h with
  | nil hblank => exact .nil (List.forall_mem_append.mpr ⟨hblank, hgap⟩)
  | @cons front word rest ws hfront hword hend hrest ih =>
      have hend' : ∀ c ∈ (rest ++ gap).head?, isBlank c = true := by
        intro c hc
        rw [List.head?_append, Option.mem_def, Option.or_eq_some_iff] at hc
        rcases hc with hc | ⟨-, hc⟩
        · exact hend c hc
        · exact hgap c (List.mem_of_mem_head? hc)
      rw [List.append_assoc]
      exact HoldsWords.cons hfront hword hend' ih

/-- **Trimming keeps the words.** -/
theorem words_trimBlanks (text : String) : words (trimBlanks text) = words text := by
  obtain ⟨front, back, htext, hfront, hback⟩ := exists_trimWhere isBlank text.toList
  have htrimmed : HoldsWords (trimWhere isBlank text.toList)
      (wordsFrom [] (trimWhere isBlank text.toList)) := wordsFrom_eq_iff.mp rfl
  have hwords : wordsFrom [] text.toList = wordsFrom [] (trimWhere isBlank text.toList) := by
    conv_lhs => rw [htext]
    rw [List.append_assoc, wordsFrom_gap hfront]
    exact wordsFrom_eq_iff.mpr (htrimmed.append_gap hback)
  rw [words, words, trimBlanks, String.toList_ofList, hwords]

/-! ## Conditions -/

/-- A text with words enough has a field, a comparison and a literal, in this order. -/
theorem exists_three_words {text : String} (hmany : 3 ≤ (words text).length) :
    ∃ field comparison literal rest, words text = field :: comparison :: literal :: rest := by
  match hwords : words text with
  | [] | [_] | [_, _] => simp [hwords] at hmany
  | field :: comparison :: literal :: rest => exact ⟨field, comparison, literal, rest, rfl⟩

/-- **A condition is read no further than its third word.** -/
theorem verdictOfText_of_take {s t : String} (record : Record)
    (h : (words s).take 3 = (words t).take 3) (hmany : 3 ≤ (words s).length) :
    verdictOfText record s = verdictOfText record t := by
  obtain ⟨field, comparison, literal, rest, hwords⟩ := exists_three_words hmany
  have hother : words t = field :: comparison :: literal :: (words t).drop 3 := by
    rw [hwords] at h
    conv_lhs => rw [← List.take_append_drop 3 (words t), ← h]
    rfl
  rw [verdictOfText_of_words hwords, verdictOfText_of_words hother]

/-- Conditions with the same words, three at least, are the same. -/
theorem verdictOfText_congr {s t : String} (record : Record) (h : words s = words t)
    (hmany : 3 ≤ (words s).length) : verdictOfText record s = verdictOfText record t :=
  verdictOfText_of_take record (by rw [h]) hmany

/-- A text with too few words is no condition on any record. -/
theorem verdictOfText_of_few_words {text : String} (record : Record)
    (hfew : (words text).length < 3) :
    verdictOfText record text = .error (.malformedCondition (trimBlanks text)) := by
  rw [verdictOfText, Condition.ofText_eq_error_iff.mpr ⟨hfew, rfl⟩]

/-- A condition is judged without the words behind its own. -/
theorem verdictOfText_append {s t : String} {ws : List String} (record : Record)
    (hwords : words t = words s ++ ws) (hmany : 3 ≤ (words s).length) :
    verdictOfText record t = verdictOfText record s := by
  have htake : (words s).take 3 = (words t).take 3 := by
    rw [hwords, List.take_append_of_le_length hmany]
  exact (verdictOfText_of_take record htake hmany).symm

namespace Rule

/-! ## The same words -/

/-- The rule of a text with a keyword depends on its words only. -/
theorem ofText_congr {s t : String} (h : words s = words t) {c : Connective}
    (hkeyword : c.keyword ∈ words s) : ofText s = ofText t := by
  rw [h] at hkeyword
  rw [ofText, ofText, h]
  cases c with
  | and =>
      obtain ⟨before, after, -, -, hsplit⟩ := splitAt?_of_mem hkeyword
      rw [hsplit]
  | or =>
      obtain ⟨before, after, -, -, hsplit⟩ := splitAt?_of_mem hkeyword
      rw [hsplit]

/-- **Texts with the same words mean the same.**  If a keyword is among the words, the
texts are texts of one rule.  If none is, and there are three words at least, their rules
have the same verdict on every record, or the same fault.  With fewer words both rules
fail on every record, and what each of them reports is its own text without the white
space at its ends, which has the same words still. -/
theorem verdict_of_same_words {s t : String} (h : words s = words t) :
    ("AND" ∈ words s ∨ "OR" ∈ words s → ofText s = ofText t) ∧
    ("AND" ∉ words s → "OR" ∉ words s → 3 ≤ (words s).length →
      ∀ record, (ofText s).verdict record = (ofText t).verdict record) ∧
    ("AND" ∉ words s → "OR" ∉ words s → (words s).length < 3 →
      (∀ record,
        (ofText s).verdict record = .error (.malformedCondition (trimBlanks s)) ∧
        (ofText t).verdict record = .error (.malformedCondition (trimBlanks t))) ∧
      words (trimBlanks s) = words s ∧ words (trimBlanks t) = words s) := by
  have hoperands (hand : "AND" ∉ words s) (hor : "OR" ∉ words s) :
      ofText s = operand s ∧ ofText t = operand t := by
    have hnone : ∀ c : Connective, c.keyword ∉ words s := Connective.keyword_not_mem hand hor
    exact ⟨ofText_of_not_mem hnone, ofText_of_not_mem (h ▸ hnone)⟩
  refine ⟨?_, ?_, ?_⟩
  · rintro (hand | hor)
    · exact ofText_congr h (c := .and) hand
    · exact ofText_congr h (c := .or) hor
  · intro hand hor hmany record
    obtain ⟨hs, ht⟩ := hoperands hand hor
    rw [hs, ht, verdict_operand, verdict_operand, verdictOfText_congr record h hmany]
  · intro hand hor hfew
    obtain ⟨hs, ht⟩ := hoperands hand hor
    refine ⟨fun record => ⟨?_, ?_⟩, words_trimBlanks s, ?_⟩
    · rw [hs, verdict_operand, verdictOfText_of_few_words record hfew]
    · rw [ht, verdict_operand, verdictOfText_of_few_words record (h ▸ hfew)]
    · rw [words_trimBlanks, h]

/-- The faults of two texts with the same words may show white space of two kinds. -/
theorem verdict_of_same_words_height :
    words "height  >" = words "\theight\u3000>\n" ∧
      (ofText "height  >").verdict .empty = .error (.malformedCondition "height  >") ∧
      (ofText "\theight\u3000>\n").verdict .empty =
        .error (.malformedCondition "height\u3000>") := by
  have hwords : words "height  >" = words "\theight\u3000>\n" := by decide
  obtain ⟨-, -, hfew⟩ := verdict_of_same_words hwords
  obtain ⟨hverdict, -⟩ := hfew (by decide) (by decide) (by decide)
  exact ⟨hwords, hverdict .empty⟩

/-! ## Further words -/

variable {s u : String}

/-- **An operator is judged without the words behind its right side,** once three words
stand there.  Behind an `OR` there must be no `AND` among them. -/
theorem verdict_append_of_keyword {c : Connective} {before after : List String}
    (hwords : words s = before ++ c.keyword :: after) (hbefore : c.keyword ∉ before)
    (hmany : 3 ≤ after.length)
    (hfirst : c = .or → Connective.and.keyword ∉ words s ∧ Connective.and.keyword ∉ words u)
    (record : Record) :
    (ofText (s ++ " " ++ u)).verdict record = (ofText s).verdict record := by
  have htail : words (s ++ " " ++ u) = before ++ c.keyword :: (after ++ words u) := by
    rw [words_append_space, hwords, List.append_assoc, List.cons_append]
  have hnone : c = .or → Connective.and.keyword ∉ words (s ++ " " ++ u) := by
    intro hc
    obtain ⟨hs, hu⟩ := hfirst hc
    rw [words_append_space, List.mem_append]
    exact not_or.mpr ⟨hs, hu⟩
  -- the tail goes into the right side, where it stands behind the words that are read
  have hright : verdictOfText record (spaced (after ++ words u)) =
      verdictOfText record (spaced after) := by
    obtain ⟨-, hafter, -⟩ := sides_of_words hwords
    obtain ⟨-, hlonger, -⟩ := sides_of_words htail
    have hsides : words (spaced (after ++ words u)) = words (spaced after) ++ words u := by
      rw [hlonger, hafter]
    exact verdictOfText_append record hsides (hafter.symm ▸ hmany)
  rw [ofText_of_words htail hbefore hnone,
    ofText_of_words hwords hbefore fun hc => (hfirst hc).1, verdict_operator, verdict_operator,
    verdict_operand, verdict_operand, verdict_operand, hright]

/-- **Text that is not read.**  A rule text may be followed by a space and further text, and
its rule keeps its verdict or its fault on every record: with three words behind its first
`AND`, whatever follows; with no `AND` and three words behind its first `OR`, if no `AND`
follows; with neither keyword and three words in all, if neither keyword follows. -/
theorem verdict_append (s u : String) (record : Record) :
    (∀ before after, words s = before ++ "AND" :: after → "AND" ∉ before →
      3 ≤ after.length →
      (ofText (s ++ " " ++ u)).verdict record = (ofText s).verdict record) ∧
    (∀ before after, words s = before ++ "OR" :: after → "OR" ∉ before →
      3 ≤ after.length → "AND" ∉ words s → "AND" ∉ words u →
      (ofText (s ++ " " ++ u)).verdict record = (ofText s).verdict record) ∧
    ("AND" ∉ words s → "OR" ∉ words s → 3 ≤ (words s).length →
      "AND" ∉ words u → "OR" ∉ words u →
      (ofText (s ++ " " ++ u)).verdict record = (ofText s).verdict record) := by
  refine ⟨?_, ?_, ?_⟩
  · intro before after hwords hbefore hmany
    exact verdict_append_of_keyword (c := .and) hwords hbefore hmany
      (fun h => absurd h (by decide)) record
  · intro before after hwords hbefore hmany hs hu
    exact verdict_append_of_keyword (c := .or) hwords hbefore hmany (fun _ => ⟨hs, hu⟩) record
  · intro hand hor hmany handu horu
    have hs : ∀ c : Connective, c.keyword ∉ words s := Connective.keyword_not_mem hand hor
    have hu : ∀ c : Connective, c.keyword ∉ words u := Connective.keyword_not_mem handu horu
    have hboth : ∀ c : Connective, c.keyword ∉ words (s ++ " " ++ u) := by
      intro c
      rw [words_append_space, List.mem_append]
      exact not_or.mpr ⟨hs c, hu c⟩
    rw [ofText_of_not_mem hboth, ofText_of_not_mem hs, verdict_operand, verdict_operand,
      verdictOfText_append record (words_append_space s u) hmany]

/-- An `AND` behind an `OR` is read: it takes what stands before it for its left side. -/
example : ofText ("a > 1 OR b > 2" ++ " " ++ "AND c > 3") =
    operator .and (operand "a > 1 OR b > 2") (operand "c > 3") := by decide

end Rule

end RuleEngine
