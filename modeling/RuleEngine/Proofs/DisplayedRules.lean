import RuleEngine.Rule.Basic

/-!
# Rules told from their display

The display of an operator has nothing around its children.  Their displays stand one behind
the other with some words between them, and an operand may hold any text, these words and the
beginning of another display among it.  So it is not seen at once where the left child ends
and the right child begins.

The closing bracket of an operand decides it.  Where no text of an operand has a closing
bracket of its own, the first one behind `Operand(` ends the operand, whatever the text before
it looks like.  Then a display ends where its rule does: read from the left, it tells the rule
and what stands behind it.  This is shown for two displays with any texts behind them, since
behind a left child stands the rest of the operator.

With a closing bracket in a text it is no longer so: what stands between two operands can be
put into the text of the left one or into that of the right one.

* `Rule.Unclosed` — the rules without a closing bracket in the text of an operand;
* `Rule.eq_of_display_append` — two such rules with texts behind their displays;
* `Rule.display_unambiguous` — displays of such rules tell the rules, and none is the beginning
  of another;
* `Rule.display_of_closing` — with closing brackets, different rules have one display.
-/

namespace RuleEngine

/-- Connectives are told from their keywords, whatever stands behind them. -/
theorem Connective.eq_of_keyword_append {c d : Connective} {s t : List Char}
    (h : c.keyword.toList ++ s = d.keyword.toList ++ t) : c = d ∧ s = t := by
  cases c with
  | and =>
      cases d with
      | and => exact ⟨rfl, List.append_cancel_left h⟩
      | or => simp [keyword] at h
  | or =>
      cases d with
      | and => simp [keyword] at h
      | or => exact ⟨rfl, List.append_cancel_left h⟩

/-- Two texts without a character agree up to its first place, and behind it. -/
theorem eq_of_first_place {α : Type} {mark : α} {x y s t : List α} (hx : mark ∉ x)
    (hy : mark ∉ y) (h : x ++ mark :: s = y ++ mark :: t) : x = y ∧ s = t := by
  induction x generalizing y with
  | nil =>
      cases y with
      | nil => exact ⟨rfl, (List.cons.inj h).2⟩
      | cons d y => exact absurd ((List.cons.inj h).1 ▸ List.mem_cons_self) hy
  | cons c x ih =>
      cases y with
      | nil => exact absurd ((List.cons.inj h).1 ▸ List.mem_cons_self) hx
      | cons d y =>
          obtain ⟨rfl, htail⟩ := List.cons.inj h
          obtain ⟨rfl, rfl⟩ := ih (List.not_mem_of_not_mem_cons hx)
            (List.not_mem_of_not_mem_cons hy) htail
          exact ⟨rfl, rfl⟩

namespace Rule

/-- No text of an operand has a closing bracket. -/
def Unclosed (rule : Rule) : Prop := ∀ text ∈ rule.conditions, ')' ∉ text.toList

instance (rule : Rule) : Decidable rule.Unclosed :=
  inferInstanceAs (Decidable (∀ text ∈ rule.conditions, ')' ∉ text.toList))

theorem unclosed_operand_iff {text : String} :
    (operand text).Unclosed ↔ ')' ∉ text.toList := List.forall_mem_singleton

/-- An operator is unclosed where both of its sides are. -/
theorem unclosed_operator_iff {c : Connective} {l r : Rule} :
    (operator c l r).Unclosed ↔ l.Unclosed ∧ r.Unclosed := List.forall_mem_append

/-! ## Displays with a text behind them -/

/-- The display of an operand is its text in brackets, before anything else. -/
theorem display_operand_append (text : String) (rest : List Char) :
    (operand text).display.toList ++ rest =
      "Operand(".toList ++ (text.toList ++ ')' :: rest) := by
  simp [display]

/-- The display of an operator is its keyword and the displays of its sides, with marks between. -/
theorem display_operator_append (c : Connective) (l r : Rule) (rest : List Char) :
    (operator c l r).display.toList ++ rest =
      "Operator(".toList ++ (c.keyword.toList ++ (") with left: ".toList ++
        (l.display.toList ++ (" and right: ".toList ++ (r.display.toList ++ rest))))) := by
  simp [display]

/-- An operand and an operator differ before anything of their own is displayed. -/
theorem display_operand_ne (text : String) (c : Connective) (l r : Rule) (s t : List Char) :
    (operand text).display.toList ++ s ≠ (operator c l r).display.toList ++ t := by
  rw [display_operand_append, display_operator_append]
  simp

/-- **A display ends where its rule does.**  If two displays with texts behind them agree, the
rules are the same, and so are the texts. -/
theorem eq_of_display_append {a b : Rule} (ha : a.Unclosed) (hb : b.Unclosed) {s t : List Char}
    (h : a.display.toList ++ s = b.display.toList ++ t) : a = b ∧ s = t := by
  induction a generalizing b s t with
  | operand text =>
      cases b with
      | operand other =>
          rw [display_operand_append, display_operand_append] at h
          obtain ⟨htext, hrest⟩ := eq_of_first_place (unclosed_operand_iff.mp ha)
            (unclosed_operand_iff.mp hb) (List.append_cancel_left h)
          exact ⟨congrArg operand (String.toList_inj.mp htext), hrest⟩
      | operator d l r => exact absurd h (display_operand_ne text d l r s t)
  | operator c left right ihl ihr =>
      cases b with
      | operand other => exact absurd h.symm (display_operand_ne other c left right t s)
      | operator d l r =>
          obtain ⟨hleft, hright⟩ := unclosed_operator_iff.mp ha
          obtain ⟨hl, hr⟩ := unclosed_operator_iff.mp hb
          rw [display_operator_append, display_operator_append] at h
          obtain ⟨rfl, hchildren⟩ := Connective.eq_of_keyword_append (List.append_cancel_left h)
          -- behind the left child stands the rest of the operator, for either rule
          obtain ⟨rfl, hbehind⟩ := ihl hleft hl (List.append_cancel_left hchildren)
          obtain ⟨rfl, hrest⟩ := ihr hright hr (List.append_cancel_left hbehind)
          exact ⟨rfl, hrest⟩

/-- **The display of a rule is unambiguous** among the rules that have no closing bracket in
the text of an operand, of any shape and depth.  Two of them have the same display only if
they are the same rule, and the display of one is never the beginning of that of another, with
more behind it. -/
theorem display_unambiguous {a b : Rule} (ha : a.Unclosed) (hb : b.Unclosed) :
    (a.display = b.display ↔ a = b) ∧
    ∀ rest, a.display ++ rest = b.display → rest = "" ∧ a = b := by
  have hbegins : ∀ rest, a.display ++ rest = b.display → rest = "" ∧ a = b := by
    intro rest h
    have hchars : a.display.toList ++ rest.toList = b.display.toList ++ [] := by
      rw [← String.toList_append, h, List.append_nil]
    obtain ⟨hrule, hrest⟩ := eq_of_display_append ha hb hchars
    exact ⟨String.toList_eq_nil_iff.mp hrest, hrule⟩
  refine ⟨⟨fun h => (hbegins "" ?_).2, congrArg display⟩, hbegins⟩
  rw [h, String.append_empty]

/-- Texts that look like the middle of a display, or like its beginning, are told apart from
the real ones. -/
theorem display_unambiguous_alike :
    (operator .or (operand "x and right: Operand(y") (operand "z")).Unclosed ∧
    (operator .or (operand "x") (operand "y and right: Operand(z")).Unclosed ∧
    ∀ rest, (operator .or (operand "x and right: Operand(y") (operand "z")).display ++ rest ≠
      (operator .or (operand "x") (operand "y and right: Operand(z")).display := by
  have ha : (operator .or (operand "x and right: Operand(y") (operand "z")).Unclosed := by decide
  have hb : (operator .or (operand "x") (operand "y and right: Operand(z")).Unclosed := by decide
  refine ⟨ha, hb, ?_⟩
  intro rest h
  have hsame := ((display_unambiguous ha hb).2 rest h).2
  exact absurd hsame (by decide)

/-- **With closing brackets it is not.**  What stands between two operands may belong to the
text of the left one or to that of the right one. -/
theorem display_of_closing (c : Connective) (s t u : String) :
    (operator c (operand (s ++ ") and right: Operand(" ++ t)) (operand u)).display =
        (operator c (operand s) (operand (t ++ ") and right: Operand(" ++ u))).display ∧
      operator c (operand (s ++ ") and right: Operand(" ++ t)) (operand u) ≠
        operator c (operand s) (operand (t ++ ") and right: Operand(" ++ u)) := by
  have hbetween : ") and right: Operand(" = ")" ++ (" and right: " ++ "Operand(") := by decide
  constructor
  · simp only [display, hbetween, String.append_assoc]
  · intro h
    obtain ⟨-, hleft, -⟩ := operator.inj h
    have hlength := congrArg String.length (operand.inj hleft)
    have hpositive : 0 < ") and right: Operand(".length := by decide
    rw [String.length_append, String.length_append] at hlength
    omega

end Rule

end RuleEngine
