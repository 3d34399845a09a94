import RuleEngine.Cache.Basic
import RuleEngine.Cache.Shared
import RuleEngine.Condition
import RuleEngine.Connective
import RuleEngine.Fault
import RuleEngine.Json.Basic
import RuleEngine.Json.Reader
import RuleEngine.Json.Scanner
import RuleEngine.Json.Spelling
import RuleEngine.Number.Binary64
import RuleEngine.Number.Decimal
import RuleEngine.Number.Digits
import RuleEngine.Number.Literal
import RuleEngine.Number.Numeral
import RuleEngine.Number.Powers
import RuleEngine.Number.Scaled
import RuleEngine.Proofs.CacheHistory
import RuleEngine.Proofs.Chains
import RuleEngine.Proofs.DecimalRank
import RuleEngine.Proofs.DisplayedRules
import RuleEngine.Proofs.ExactOrder
import RuleEngine.Proofs.FewerFields
import RuleEngine.Proofs.FieldsRead
import RuleEngine.Proofs.FirstFault
import RuleEngine.Proofs.FloatText
import RuleEngine.Proofs.GroupedLiterals
import RuleEngine.Proofs.IntegerText
import RuleEngine.Proofs.JsonDepth
import RuleEngine.Proofs.JsonNumbers
import RuleEngine.Proofs.JsonTexts
import RuleEngine.Proofs.Lexemes
import RuleEngine.Proofs.LiteralForms
import RuleEngine.Proofs.Malformed
import RuleEngine.Proofs.NumberForms
import RuleEngine.Proofs.NumberLine
import RuleEngine.Proofs.NumeralText
import RuleEngine.Proofs.QuotedLiterals
import RuleEngine.Proofs.RecordBuilding
import RuleEngine.Proofs.Rounding
import RuleEngine.Proofs.RoundingError
import RuleEngine.Proofs.RuleForms
import RuleEngine.Proofs.RuleJson
import RuleEngine.Proofs.RuleSetJson
import RuleEngine.Proofs.RulesOfTexts
import RuleEngine.Proofs.ScaledRange
import RuleEngine.Proofs.ScaledReading
import RuleEngine.Proofs.SharedCache
import RuleEngine.Proofs.ShortestDigits
import RuleEngine.Proofs.SpelledText
import RuleEngine.Proofs.StringForms
import RuleEngine.Proofs.Thresholds
import RuleEngine.Proofs.Trimming
import RuleEngine.Proofs.ValueJson
import RuleEngine.Proofs.Walk
import RuleEngine.Proofs.Words
import RuleEngine.Proofs.WordsRead
import RuleEngine.Record
import RuleEngine.Record.Building
import RuleEngine.Record.Json
import RuleEngine.Rule.Basic
import RuleEngine.Rule.Depth
import RuleEngine.Rule.Json
import RuleEngine.Rule.Nesting
import RuleEngine.Rule.Split
import RuleEngine.Rule.Verdict
import RuleEngine.RuleSet.Json
import RuleEngine.Text.Quoted
import RuleEngine.Text.Words
import RuleEngine.Value
import RuleEngine.Value.Json
