import RuleExchange.Rule.Field

/-! Query dialects. A dialect fixes how a filter is introduced and joined, which
quote and wildcard it uses, and how patterns and regular expressions are written. -/

namespace RuleExchange.Query

/-- How a regular expression is written. -/
inductive RegexStyle where
  /-- As a command of its own behind the filter. -/
  | command (name : String)
  /-- As a comparison inside the filter. -/
  | keyword (word : String)
  deriving DecidableEq, Repr

structure Dialect where
  /-- The name under which stages are kept. -/
  id : String
  fields : FieldMap
  /-- What stands before the filter. -/
  lead : String
  conjunction : String
  quote : Char
  wildcard : Char
  /-- Whether an equality reads wildcards too. -/
  wildcardEquality : Bool
  /-- Whether blanks surround comparison signs. -/
  spaced : Bool
  /-- The word of pattern comparisons, where there is one. -/
  like : Option String
  regex : RegexStyle
  /-- Whether patterns at the ends have words of their own. -/
  keywordOperators : Bool
  stageSeparator : String

namespace Dialect

def splunk : Dialect :=
  { id := "splunk", fields := .splunk, lead := "search ", conjunction := " AND ", quote := '"',
    wildcard := '*', wildcardEquality := true, spaced := false, like := none,
    regex := .command "regex", keywordOperators := false, stageSeparator := " | " }

def qradar : Dialect :=
  { id := "qradar", fields := .qradar, lead := "SELECT * FROM events WHERE ",
    conjunction := " AND ", quote := '\'', wildcard := '%', wildcardEquality := false,
    spaced := true, like := some "ILIKE", regex := .keyword "MATCHES", keywordOperators := false,
    stageSeparator := " " }

/-- The generic query language with neutral field names. -/
def siem : Dialect :=
  { id := "siem", fields := .identity, lead := "", conjunction := " AND ", quote := '"',
    wildcard := '*', wildcardEquality := true, spaced := true, like := none,
    regex := .keyword "MATCHES", keywordOperators := true, stageSeparator := " | " }

/-- The event query language of endpoint rules. -/
def eql : Dialect :=
  { id := "edr", fields := .ecs, lead := "", conjunction := " and ", quote := '"',
    wildcard := '*', wildcardEquality := true, spaced := true, like := none,
    regex := .keyword "regex", keywordOperators := false, stageSeparator := " | " }

end Dialect

/-- Why a query cannot be read or written. -/
inductive Error where
  | unterminated (offset : Nat)
  | grouping
  | emptyCommand
  | noConditions
  | disjunction
  | missingValue (field operator : String)
  | negatedKeyword (word : String)
  | unexpectedOperator (operator : String)
  | danglingNot
  | unsupportedComparison (operator : String)
  | regexExpression
  | regexForm
  | regexOperator (operator : String)
  | nothingToWrite
  deriving DecidableEq, Repr

def Error.message : Error → String
  | .unterminated offset => "unterminated string starting at offset " ++ toString offset
  | .grouping => "grouping with parentheses is not supported"
  | .emptyCommand => "empty pipeline command"
  | .noConditions => "query has no filter conditions"
  | .disjunction => "OR is not supported; split the rule into separate rules"
  | .missingValue field operator => "missing value after '" ++ field ++ " " ++ operator ++ "'"
  | .negatedKeyword word => "NOT cannot be combined with " ++ word
  | .unexpectedOperator operator => "unexpected operator '" ++ operator ++ "'"
  | .danglingNot => "dangling NOT at end of filter"
  | .unsupportedComparison operator => "comparison '" ++ operator ++ "' is not supported"
  | .regexExpression => "regex command expects an expression"
  | .regexForm => "regex command expects field=\"expr\""
  | .regexOperator operator => "regex command does not support '" ++ operator ++ "'"
  | .nothingToWrite => "rule has no conditions to express as a query"

end RuleExchange.Query
