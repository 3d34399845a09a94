import Mathlib.Data.List.DropRight
import RuleEngine.Text.Words

/-!
# Trimming

Trimming takes the characters of a class off the two ends of a text.  It is done in two
passes, one for each end, but what it leaves can be said without them: the text is a core
between two runs of characters of the class, and the core neither begins nor ends with one.
Inside the core such characters may well stand.

* `trimWhere_eq_iff` — what is left, and nothing else is;
* `trimWhere_of_not_mem` — a text without characters of the class is left as it is.
-/

namespace RuleEngine

section

variable {drop : Char → Bool} {text : List Char}

/-- A text that does not begin with a character of the class loses none in front. -/
theorem dropWhile_of_head (h : ∀ c ∈ text.head?, drop c = false) : text.dropWhile drop = text := by
  cases text with
  | nil => rfl
  | cons c rest =>
      have hc : drop c = false := h c rfl
      exact List.dropWhile_cons_of_neg (by simp [hc])

/-- What is taken off the two ends of a text is of the class. -/
theorem exists_trimWhere (drop : Char → Bool) (text : List Char) : ∃ front back,
    text = front ++ trimWhere drop text ++ back ∧ (∀ c ∈ front, drop c = true) ∧
      ∀ c ∈ back, drop c = true := by
  have hfront : text = text.takeWhile drop ++ text.dropWhile drop :=
    List.takeWhile_append_dropWhile.symm
  have hback : text.dropWhile drop =
      trimWhere drop text ++ ((text.dropWhile drop).reverse.takeWhile drop).reverse := by
    rw [trimWhere, ← List.reverse_append, List.takeWhile_append_dropWhile, List.reverse_reverse]
  refine ⟨text.takeWhile drop, ((text.dropWhile drop).reverse.takeWhile drop).reverse,
    ?_, ?_, ?_⟩
  · rw [List.append_assoc, ← hback]
    exact hfront
  · intro c hc
    exact List.all_eq_true.mp List.all_takeWhile c hc
  · intro c hc
    exact List.all_eq_true.mp List.all_takeWhile c (List.mem_reverse.mp hc)

/-- What is left behind the characters of a class does not start with one. -/
theorem head_dropWhile (drop : Char → Bool) (text : List Char) :
    ∀ c ∈ (text.dropWhile drop).head?, drop c = false := by
  intro c hc
  have h := List.head?_dropWhile_not drop text
  rw [Option.mem_def.mp hc] at h
  exact h

/-- Nothing of the class is left at the end of a text. -/
theorem getLast_trimWhere (drop : Char → Bool) (text : List Char) :
    ∀ c ∈ (trimWhere drop text).getLast?, drop c = false := by
  rw [trimWhere, List.getLast?_reverse]
  exact head_dropWhile drop _

/-- Trimming leaves no character of the class in front: the second pass leaves the front
alone, or nothing at all. -/
theorem head_trimWhere (drop : Char → Bool) (text : List Char) :
    ∀ c ∈ (trimWhere drop text).head?, drop c = false := by
  intro c hc
  have hpart : trimWhere drop text <+: text.dropWhile drop := List.rdropWhile_prefix drop _
  obtain ⟨back, hback⟩ := hpart
  apply head_dropWhile drop text
  rw [← hback, List.head?_append, Option.mem_def.mp hc]
  rfl

/-- Characters of the class at the ends are taken off. -/
theorem trimWhere_append {front core back : List Char} (hfront : ∀ c ∈ front, drop c = true)
    (hback : ∀ c ∈ back, drop c = true) (hhead : ∀ c ∈ core.head?, drop c = false)
    (hlast : ∀ c ∈ core.getLast?, drop c = false) :
    trimWhere drop (front ++ core ++ back) = core := by
  have hreverse : ∀ c ∈ back.reverse, drop c = true :=
    fun c hc => hback c (List.mem_reverse.mp hc)
  have hfirst : (front ++ core ++ back).dropWhile drop = (core ++ back).dropWhile drop := by
    rw [List.append_assoc, List.dropWhile_append_of_pos hfront]
  by_cases hcore : core = []
  · -- with nothing between them, the first pass takes both runs
    rw [trimWhere, hfirst, hcore, List.nil_append, List.dropWhile_eq_nil_iff.mpr hback]
    rfl
  · have hkept : ∀ c ∈ (core ++ back).head?, drop c = false := by
      rw [List.head?_append_of_ne_nil core hcore]
      exact hhead
    have hlast' : ∀ c ∈ core.reverse.head?, drop c = false := by
      rw [List.head?_reverse]
      exact hlast
    rw [trimWhere, hfirst, dropWhile_of_head hkept, List.reverse_append,
      List.dropWhile_append_of_pos hreverse, dropWhile_of_head hlast', List.reverse_reverse]

/-- **What trimming leaves:** the core of the text, between runs of characters of the class,
that has none of them at its ends. -/
theorem trimWhere_eq_iff {core : List Char} :
    trimWhere drop text = core ↔
      (∃ front back, text = front ++ core ++ back ∧ (∀ c ∈ front, drop c = true) ∧
        ∀ c ∈ back, drop c = true) ∧
      (∀ c ∈ core.head?, drop c = false) ∧ ∀ c ∈ core.getLast?, drop c = false := by
  constructor
  · rintro rfl
    exact ⟨exists_trimWhere drop text, head_trimWhere drop text, getLast_trimWhere drop text⟩
  · rintro ⟨⟨front, back, rfl, hfront, hback⟩, hhead, hlast⟩
    exact trimWhere_append hfront hback hhead hlast

/-- A text without characters of the class is left as it is. -/
theorem trimWhere_of_not_mem (h : ∀ c ∈ text, drop c = false) : trimWhere drop text = text :=
  trimWhere_eq_iff.mpr ⟨⟨[], [], by simp⟩, fun c hc => h c (List.mem_of_mem_head? hc),
    fun c hc => h c (List.mem_of_getLast? hc)⟩

end

end RuleEngine
