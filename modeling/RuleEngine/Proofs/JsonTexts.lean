import RuleEngine.Json.Reader
import RuleEngine.Proofs.Lexemes

/-!
# The texts of JSON values

A JSON value has one sequence of tokens, and its texts are those that are made of the
pieces of these tokens.  A value is read from exactly its texts.

Going from the text to the value, the reader never looks back: what it holds at any time,
the open brackets and what it expects, says which tokens it has read.  So the tokens of the
value that it ends with are the tokens of the text.  Going from the value to the text, what
matters is that the tokens of a value can be told apart where they stand: no two values are
side by side in them.

* `Frame.tokens`, `Expectation.tokens`, `readSoFar` — the tokens that have been read;
* `readSoFar_next` — one more token, and one more has been read;
* `Json.tokens_of_ofTokens?` — a value is read from its own tokens only;
* `Json.separated_tokens` — no two values stand side by side in them;
* `Json.ofText?_eq_some_iff` — a value is read from its texts.
-/

namespace RuleEngine

/-! ## What has been read -/

/-- The tokens of items, each with a comma behind it. -/
def itemsRead (items : List Json) : List Token :=
  items.flatMap fun item => item.tokens ++ [.comma]

/-- The tokens of members, each with a comma behind it. -/
def membersRead (members : List (Option String × Json)) : List Token :=
  members.flatMap fun m => .scalar (.string m.1) :: .colon :: (m.2.tokens ++ [.comma])

/-- The tokens that have been read since a bracket was opened, up to the value that is
being read inside it. -/
def Frame.tokens : Frame → List Token
  | .array items => .openArray :: itemsRead items.reverse
  | .object members name =>
      .openObject :: (membersRead members.reverse ++ [.scalar (.string name), .colon])

/-- The tokens that have been read since the value that is being read began. -/
def Expectation.tokens : Expectation → List Token
  | .value => []
  | .firstItem => [.openArray]
  | .firstName => [.openObject]
  | .name members => .openObject :: membersRead members.reverse
  | .colon members n => .openObject :: (membersRead members.reverse ++ [.scalar (.string n)])
  | .after v => v.tokens

/-- All tokens that have been read, from the outermost bracket on. -/
def readSoFar (frames : List Frame) (expected : Expectation) : List Token :=
  frames.reverse.flatMap Frame.tokens ++ expected.tokens

namespace Json

/-- The tokens of further items, seen from the last one. -/
theorem itemTokens_concat (items : List Json) (last : Json) :
    itemTokens (items ++ [last]) =
      .comma :: (itemsRead items ++ (last.tokens ++ [.closeArray])) := by
  induction items with
  | nil => simp [itemTokens, itemsRead]
  | cons item items ih =>
      rw [List.cons_append, itemTokens, ih]
      simp [itemsRead]

/-- The tokens of further members, seen from the last one. -/
theorem memberTokens_concat (members : List (Option String × Json)) (name : Option String)
    (last : Json) :
    memberTokens (members ++ [(name, last)]) =
      .comma :: (membersRead members ++
        (.scalar (.string name) :: .colon :: (last.tokens ++ [.closeObject]))) := by
  induction members with
  | nil => simp [memberTokens, membersRead]
  | cons m members ih =>
      rw [List.cons_append, memberTokens, ih]
      simp [membersRead]

/-- The tokens of an array, seen from its end. -/
theorem tokens_array_concat (items : List Json) (last : Json) :
    (array (items ++ [last])).tokens =
      .openArray :: (itemsRead items ++ (last.tokens ++ [.closeArray])) := by
  cases items with
  | nil => simp [tokens, itemTokens, itemsRead]
  | cons item items =>
      rw [List.cons_append, tokens, itemTokens_concat]
      simp [itemsRead]

/-- The tokens of an object, seen from its end. -/
theorem tokens_object_concat (members : List (Option String × Json)) (name : Option String)
    (last : Json) :
    (object (members ++ [(name, last)])).tokens =
      .openObject :: (membersRead members ++
        (.scalar (.string name) :: .colon :: (last.tokens ++ [.closeObject]))) := by
  cases members with
  | nil => simp [tokens, memberTokens, membersRead]
  | cons m members =>
      rw [List.cons_append, tokens, memberTokens_concat]
      simp [membersRead]

end Json

/-- The first token of a value is read behind all that was read before. -/
theorem readSoFar_ofFirstToken? {frames frames' : List Frame} {expected : Expectation}
    {token : Token} (h : Expectation.ofFirstToken? frames token = some (expected, frames')) :
    readSoFar frames' expected = readSoFar frames .value ++ [token] := by
  unfold Expectation.ofFirstToken? at h
  split at h
  · obtain ⟨rfl, rfl⟩ := Prod.mk.inj (Option.some.inj h)
    simp [readSoFar, Expectation.tokens, Json.tokens]
  · obtain ⟨rfl, rfl⟩ := Prod.mk.inj (Option.some.inj h)
    simp [readSoFar, Expectation.tokens]
  · obtain ⟨rfl, rfl⟩ := Prod.mk.inj (Option.some.inj h)
    simp [readSoFar, Expectation.tokens]
  · cases h

/-- **One token is read at a time,** and none is forgotten. -/
theorem readSoFar_next {frames frames' : List Frame} {expected expected' : Expectation}
    {token : Token} (h : expected.next? frames token = some (expected', frames')) :
    readSoFar frames' expected' = readSoFar frames expected ++ [token] := by
  revert h
  fun_cases Expectation.next? frames expected token with
  | case1 => exact readSoFar_ofFirstToken?
  | case3 =>
      intro h
      rw [readSoFar_ofFirstToken? h]
      simp [readSoFar, Frame.tokens, itemsRead, Expectation.tokens]
  | case2 | case4 =>
      rintro ⟨⟩
      simp [readSoFar, Expectation.tokens, Json.tokens]
  | case5 | case7 =>
      rintro ⟨⟩
      simp [readSoFar, Expectation.tokens, membersRead]
  | case9 | case11 =>
      rintro ⟨⟩
      simp [readSoFar, Frame.tokens, Expectation.tokens, itemsRead]
  | case13 =>
      rintro ⟨⟩
      simp [readSoFar, Frame.tokens, Expectation.tokens, membersRead]
  | case12 =>
      rintro ⟨⟩
      simp [readSoFar, Frame.tokens, Expectation.tokens, Json.tokens_array_concat]
  | case14 =>
      rintro ⟨⟩
      simp [readSoFar, Frame.tokens, Expectation.tokens, Json.tokens_object_concat]
  | case6 | case8 | case10 | case15 => nofun

/-- Tokens that are read to their end are those of the value, after those read before. -/
theorem readSoFar_append_of_readTokens? {frames : List Frame} {expected : Expectation}
    {tokens : List Token} {json : Json} (h : readTokens? frames expected tokens = some json) :
    readSoFar frames expected ++ tokens = json.tokens := by
  induction tokens generalizing frames expected with
  | nil =>
      unfold readTokens? at h
      split at h
      · rw [← Option.some.inj h]
        simp [readSoFar, Expectation.tokens]
      · cases h
  | cons token tokens ih =>
      unfold readTokens? at h
      split at h
      · cases h
      · rename_i hnext
        rw [← ih h, readSoFar_next hnext, List.append_assoc, List.singleton_append]

namespace Json

/-- **A value is read from its own tokens only.** -/
theorem tokens_of_ofTokens? {tokens : List Token} {json : Json}
    (h : ofTokens? tokens = some json) : tokens = json.tokens :=
  readSoFar_append_of_readTokens? h

/-! ## Where values stand -/

/-- A token may stand before others, where they stay apart. -/
theorem separated_cons {token : Token} {rest : List Token} (hfirst : token.isScalar = true →
    ∀ t ∈ rest.head?, t.isScalar = false) (hrest : Separated rest) : Separated (token :: rest) :=
  List.isChain_cons.mpr ⟨fun t ht h => hfirst h t ht, hrest⟩

/-- A mark may stand before any tokens that are apart. -/
theorem separated_cons_mark {token : Token} {rest : List Token} (h : token.isScalar = false)
    (hrest : Separated rest) : Separated (token :: rest) :=
  separated_cons (fun hscalar => absurd hscalar (by simp [h])) hrest

/-- Behind an item there is a mark, whatever comes then. -/
theorem head_itemTokens (items : List Json) (rest : List Token) :
    ∀ t ∈ (itemTokens items ++ rest).head?, t.isScalar = false := by
  cases items with
  | nil => simp [itemTokens, Token.isScalar]
  | cons item items => simp [itemTokens, Token.isScalar]

theorem head_memberTokens (members : List (Option String × Json)) (rest : List Token) :
    ∀ t ∈ (memberTokens members ++ rest).head?, t.isScalar = false := by
  cases members with
  | nil => simp [memberTokens, Token.isScalar]
  | cons m members => simp [memberTokens, Token.isScalar]

mutual

/-- The tokens of a value stay apart, before marks that do. -/
theorem separated_tokens_append (json : Json) {rest : List Token}
    (hfirst : ∀ t ∈ rest.head?, t.isScalar = false) (hrest : Separated rest) :
    Separated (json.tokens ++ rest) := by
  match json with
  | .scalar s => exact separated_cons (fun _ => hfirst) hrest
  | .array [] => exact separated_cons_mark rfl (separated_cons_mark rfl hrest)
  | .array (item :: items) =>
      rw [tokens, List.cons_append, List.append_assoc]
      exact separated_cons_mark rfl (separated_tokens_append item (head_itemTokens items rest)
        (separated_itemTokens_append items hrest))
  | .object [] => exact separated_cons_mark rfl (separated_cons_mark rfl hrest)
  | .object ((name, value) :: members) =>
      rw [tokens, List.cons_append, List.cons_append, List.cons_append, List.append_assoc]
      have hvalue := separated_tokens_append value (head_memberTokens members rest)
        (separated_memberTokens_append members hrest)
      exact separated_cons_mark rfl
        (separated_cons (by simp [Token.isScalar]) (separated_cons_mark rfl hvalue))

/-- The tokens of further items stay apart. -/
theorem separated_itemTokens_append (items : List Json) {rest : List Token}
    (hrest : Separated rest) : Separated (itemTokens items ++ rest) := by
  match items with
  | [] => exact separated_cons_mark rfl hrest
  | item :: items =>
      rw [itemTokens, List.cons_append, List.append_assoc]
      exact separated_cons_mark rfl (separated_tokens_append item (head_itemTokens items rest)
        (separated_itemTokens_append items hrest))

/-- The tokens of further members stay apart. -/
theorem separated_memberTokens_append (members : List (Option String × Json)) {rest : List Token}
    (hrest : Separated rest) : Separated (memberTokens members ++ rest) := by
  match members with
  | [] => exact separated_cons_mark rfl hrest
  | (name, value) :: members =>
      rw [memberTokens, List.cons_append, List.cons_append, List.cons_append, List.append_assoc]
      have hvalue := separated_tokens_append value (head_memberTokens members rest)
        (separated_memberTokens_append members hrest)
      exact separated_cons_mark rfl
        (separated_cons (by simp [Token.isScalar]) (separated_cons_mark rfl hvalue))

end

/-- **No two values stand side by side** in the tokens of a value. -/
theorem separated_tokens (json : Json) : Separated json.tokens := by
  have hnil : Separated [] := List.isChain_nil
  have h := separated_tokens_append json (by simp) hnil
  rwa [List.append_nil] at h

/-! ## Texts of a value -/

/-- **A value is read from its texts,** and from no others. -/
theorem ofText?_eq_some_iff {text : String} {json : Json} :
    ofText? text = some json ↔ Spelled json.tokens text.toList := by
  constructor
  · intro h
    unfold ofText? at h
    split at h
    · cases h
    · rename_i tokens htokens
      exact tokens_of_ofTokens? h ▸ spelled_of_tokensOf? htokens
  · intro h
    rw [ofText?, tokensOf?_of_spelled h json.separated_tokens]
    exact ofTokens?_tokens json

end Json

end RuleEngine
