import RuleExchange.Query.Dialect
import RuleExchange.Rule.Body
import RuleExchange.Text.Quoted

/-! Writing queries. Conditions become terms joined by the dialect's conjunction;
where regular expressions are commands they follow the filter, and a filter without
terms is the wildcard alone. Stages follow at the end. -/

namespace RuleExchange.Query

def quoted (d : Dialect) (value : String) : List Char := Text.Quoted.enclose d.quote value.toList

/-- A comparison by a sign. -/
def signTerm (d : Dialect) (field sign : String) (value : String) : List Char :=
  let gap := if d.spaced then [' '] else []
  field.toList ++ gap ++ sign.toList ++ gap ++ quoted d value

/-- A comparison by a word. -/
def wordTerm (d : Dialect) (field word : String) (value : String) : List Char :=
  field.toList ++ ' ' :: word.toList ++ ' ' :: quoted d value

def RegexStyle.word : RegexStyle → String
  | .command name => name
  | .keyword word => word

def term (d : Dialect) (c : Condition) : List Char :=
  let field := d.fields.platformOrKeep c.field
  let pattern := c.toPattern d.wildcard
  match c.operator with
  | .equals =>
    match d.like with
    | some like =>
      if c.hasInnerWildcard || c.isMatchAll then wordTerm d field like pattern
      else signTerm d field "=" c.value
    | none => signTerm d field "=" c.value
  | .notEquals => signTerm d field "!=" c.value
  | .contains | .startsWith | .endsWith =>
    match d.like with
    | some like => wordTerm d field like pattern
    | none =>
      if d.keywordOperators then wordTerm d field c.operator.keyword c.value
      else signTerm d field "=" pattern
  | .regex => wordTerm d field d.regex.word c.value

/-- Whether a condition is written as a command behind the filter. -/
def isCommand (d : Dialect) (c : Condition) : Bool :=
  match c.operator, d.regex with
  | .regex, .command _ => true
  | _, _ => false

def command (d : Dialect) (c : Condition) : List Char :=
  d.regex.word.toList ++ ' ' :: (d.fields.platformOrKeep c.field).toList ++ '=' :: quoted d c.value

def filterText (d : Dialect) (cs : List Condition) : List Char :=
  if cs.isEmpty then [d.wildcard] else Text.joinWith d.conjunction.toList (cs.map (term d))

/-- A rule body as a query; a body without conditions has none. -/
def render (d : Dialect) (b : RuleBody) : Except Error (List Char) :=
  if b.conditions.isEmpty then .error .nothingToWrite
  else
    let terms := b.conditions.filter fun c => !isCommand d c
    let commands := b.conditions.filter (isCommand d)
    .ok (d.lead.toList ++ filterText d terms ++
      commands.flatMap (fun c => " | ".toList ++ command d c) ++
      b.stages.flatMap (fun s => d.stageSeparator.toList ++ s.text.toList))

end RuleExchange.Query
