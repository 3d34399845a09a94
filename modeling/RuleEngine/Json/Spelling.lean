import RuleEngine.Json.Basic
import RuleEngine.Number.Digits

/-!
# JSON text of tokens

Tokens are written without blanks between them.  In a string the quote, the
backslash and the controls below the space are escaped, five of them by a
letter, and every other character stands for itself.
-/

namespace RuleEngine

/-- The letter that stands behind a backslash for a character, if it has one. -/
def jsonLetter? (c : Char) : Option Char :=
  if c = '"' then some '"'
  else if c = '\\' then some '\\'
  else if c = '\x08' then some 'b'
  else if c = '\x0c' then some 'f'
  else if c = '\n' then some 'n'
  else if c = '\r' then some 'r'
  else if c = '\t' then some 't'
  else none

/-- A code below 256 in four hexadecimal digits. -/
def fourDigits (n : Nat) : List Char :=
  ['0', '0', hexChar (n / 16), hexChar n]

/-- A character as it stands in a string literal. -/
def spellChar (c : Char) : List Char :=
  match jsonLetter? c with
  | some letter => ['\\', letter]
  | none => if c.toNat < 0x20 then '\\' :: 'u' :: fourDigits c.toNat else [c]

/-- A string literal.  What denotes no text is written as one single
surrogate. -/
def spellString : Option String → List Char
  | some text => '"' :: text.toList.flatMap spellChar ++ ['"']
  | none => "\"\\ud800\"".toList

namespace Token

/-- The text of a token. -/
def spelling : Token → List Char
  | scalar .null => "null".toList
  | scalar (.bool true) => "true".toList
  | scalar (.bool false) => "false".toList
  | scalar (.number n) => n.text 1
  | scalar (.string text) => spellString text
  | openArray => ['[']
  | closeArray => [']']
  | openObject => ['\x7b']
  | closeObject => ['\x7d']
  | comma => [',']
  | colon => [':']

end Token

/-- The compact text of a JSON value. -/
def Json.spelling (json : Json) : String :=
  String.ofList (json.tokens.flatMap Token.spelling)

end RuleEngine
