import RuleExchange.Query.Token
import RuleExchange.Rule.Body
import RuleExchange.Text.Quoted
import RuleExchange.Text.Word

/-! Reading queries. The text is cut at pipes outside quotes. The first part loses
its lead, and its terms become conditions up to a trailing clause, which is kept as a
stage. Later parts are further filters as long as no stage has been seen, regular
expression commands, or stages. -/

namespace RuleExchange.Query

/-! ### Leads -/

/-- What follows a keyword whose letters are matched without regard to case. -/
def afterWord? : List Char → List Char → Option (List Char)
  | [], s => some s
  | _ :: _, [] => none
  | k :: ks, c :: cs => if Text.foldsTo k c then afterWord? ks cs else none

/-- Whether no word character comes next. -/
def atWordEnd : List Char → Bool
  | [] => true
  | c :: _ => !Text.isWord c

/-- What follows a keyword that ends as a word. -/
def afterWholeWord? (word s : List Char) : Option (List Char) :=
  match afterWord? word s with
  | some rest => if atWordEnd rest then some rest else none
  | none => none

/-- What follows blanks and a name that are not empty. -/
def afterSource? (s : List Char) : Option (List Char) :=
  match s with
  | c :: _ =>
    if Text.isBlank c then
      let name := s.dropWhile Text.isBlank
      if name.isEmpty then none else some (name.dropWhile fun x => !Text.isBlank x)
    else none
  | [] => none

/-- What follows the first `FROM` clause; `bounded` tells whether a word can start here. -/
def afterFrom? (bounded : Bool) (s : List Char) : Option (List Char) :=
  let here := if bounded then (afterWord? "from".toList s).bind afterSource? else none
  match here with
  | some rest => some rest
  | none =>
    match s with
    | [] => none
    | c :: cs => afterFrom? (!Text.isWord c) cs

def afterSearch? (s : List Char) : Option (List Char) :=
  afterWholeWord? "search".toList (Text.trimStart s)

def afterWhere? (s : List Char) : Option (List Char) :=
  afterWholeWord? "where".toList (Text.trimStart s)

def afterSelect? (s : List Char) : Option (List Char) :=
  (afterWholeWord? "select".toList (Text.trimStart s)).bind (afterFrom? false)

def isNameStart (c : Char) : Bool :=
  c.isAlpha || c == '_' || c.toNat == 0x17F || c.toNat == 0x212A

/-- The category before a `where`, and what follows. -/
def category? (s : List Char) : Option (List Char × List Char) :=
  match Text.trimStart s with
  | c :: cs =>
    if isNameStart c then
      let name := c :: cs.takeWhile Text.isWord
      match cs.dropWhile Text.isWord with
      | b :: rest =>
        if Text.isBlank b then (afterWhere? rest).map fun tail => (name, tail) else none
      | [] => none
    else none
  | [] => none

/-- The filter without its lead, and the event category that the lead named. -/
def dropLead (s : List Char) : List Char × Option String :=
  match afterSearch? s with
  | some rest => (rest, none)
  | none =>
    match afterSelect? s with
    | some rest => ((afterWhere? rest).getD rest, none)
    | none =>
      match category? s with
      | some (name, rest) =>
        let category := String.ofList name
        (rest, some (Text.lowered ((CategoryMap.generic.toCanonical category).getD category)))
      | none => (s, none)

/-! ### Terms -/

/-- The operator of a comparison word; pattern words count as equality. -/
def keywordOperator? (word : List Char) : Option Operator :=
  let w := String.ofList (Text.asciiLower word)
  if w = "like" ∨ w = "ilike" then some .equals
  else if ["matches", "imatches", "regex", "regexp"].contains w then some .regex
  else if w = "contains" then some .contains
  else if w = "startswith" then some .startsWith
  else if w = "endswith" then some .endsWith
  else none

def isWordText (text : String) (word : List Char) : Bool :=
  Text.sameIgnoringCase word text.toList

/-- Whether a sign compares for equality; other signs are not supported. -/
def signEquality (sign : List Char) : Except Error Bool :=
  if sign = ['='] ∨ sign = ['=', '='] then .ok true
  else if sign = ['!', '='] ∨ sign = ['<', '>'] then .ok false
  else .error (.unsupportedComparison (String.ofList sign))

def comparison (d : Dialect) (field : String) (sign value : List Char) (negated : Bool) :
    Except Error Condition := do
  let equal ← signEquality sign
  if equal != negated then
    if d.wildcardEquality then return .ofPattern field (String.ofList value) d.wildcard
    else return ⟨field, .equals, String.ofList value⟩
  else return ⟨field, .notEquals, String.ofList value⟩

def keywordCondition (field : String) (op : Operator) (value : List Char) : Condition :=
  if op = .equals then .ofPattern field (String.ofList value) '%'
  else ⟨field, op, String.ofList value⟩

/-- A word or quoted text alone searches the payload. -/
def freeText (d : Dialect) (text : List Char) (negated : Bool) : Condition :=
  if negated then ⟨Field.payload, .notEquals, String.ofList text⟩
  else .ofPattern Field.payload (String.ofList (d.wildcard :: text ++ [d.wildcard])) d.wildcard

/-- Terms joined by conjunction; `negated` tells whether a negation waits for its term. -/
def readTerms (d : Dialect) (negated : Bool) : List Token → Except Error (List Condition)
  | [] => if negated then .error .danglingNot else .ok []
  | t :: ts =>
    match t.lexeme with
    | .sign s => .error (.unexpectedOperator (String.ofList s))
    | .quoted v => do
      let rest ← readTerms d false ts
      return freeText d v negated :: rest
    | .word w =>
      if isWordText "and" w then readTerms d negated ts
      else if isWordText "or" w then .error .disjunction
      else if isWordText "not" w then readTerms d true ts
      else
        let name := String.ofList w
        let field := d.fields.canonicalOrKeep name
        match ts with
        | [] => .ok [freeText d w negated]
        | u :: us =>
          match u.lexeme with
          | .sign s =>
            match us with
            | [] => .error (.missingValue name (String.ofList s))
            | x :: rest =>
              match x.lexeme.value? with
              | none => .error (.missingValue name (String.ofList s))
              | some value => do
                let c ← comparison d field s value negated
                let cs ← readTerms d false rest
                return c :: cs
          | .word k =>
            match keywordOperator? k with
            | some op =>
              match us with
              | [] => .error (.missingValue name (String.ofList k))
              | x :: rest =>
                match x.lexeme.value? with
                | none => .error (.missingValue name (String.ofList k))
                | some value =>
                  if negated then .error (.negatedKeyword (String.ofList k))
                  else do
                    let cs ← readTerms d false rest
                    return keywordCondition field op value :: cs
            | none => do
              let cs ← readTerms d false (u :: us)
              return freeText d w negated :: cs
          | .quoted _ => do
            let cs ← readTerms d false (u :: us)
            return freeText d w negated :: cs

/-! ### Stages and commands -/

/-- Words that start a clause after the filter. -/
def clauseWords : List String := ["group", "order", "last", "start", "stop", "limit", "having"]

def startsClause (t : Token) (next : Option Token) : Bool :=
  match t.lexeme with
  | .word w =>
    clauseWords.any (fun k => isWordText k w) &&
      match next with
      | some ⟨.sign _, _⟩ => false
      | _ => true
  | _ => false

/-- The tokens before the first trailing clause, and the text of that clause. -/
def splitClause : List Token → List Token × Option (List Char)
  | [] => ([], none)
  | t :: ts =>
    if startsClause t ts.head? then ([], some (Text.trim t.tail))
    else
      let (before, clause) := splitClause ts
      (t :: before, clause)

/-- The expression of a command: `field="expr"`, or an expression for the payload. -/
def readRegexCommand (d : Dialect) (s : List Char) : Except Error Condition := do
  match ← tokenize s with
  | [value] =>
    match value.lexeme.value? with
    | some v => return ⟨Field.payload, .regex, String.ofList v⟩
    | none => .error .regexExpression
  | [field, sign, value] =>
    match field.lexeme, sign.lexeme with
    | .word f, .sign o =>
      match value.lexeme.value? with
      | none => .error .regexExpression
      | some v =>
        if o = ['='] then
          return ⟨d.fields.canonicalOrKeep (String.ofList f), .regex, String.ofList v⟩
        else .error (.regexOperator (String.ofList o))
    | _, _ => .error .regexForm
  | _ => .error .regexForm

/-- The first word of a command and what follows the blank after it. -/
def splitCommand (s : List Char) : List Char × List Char :=
  (s.takeWhile fun c => !Text.isBlank c, (s.dropWhile fun c => !Text.isBlank c).drop 1)

/-- Adds one later part of a query to what has been read. -/
def readCommand (d : Dialect) (b : RuleBody) (part : List Char) : Except Error RuleBody := do
  let part := Text.trim part
  if part.isEmpty then .error .emptyCommand
  let (name, rest) := splitCommand part
  let word := String.ofList (Text.asciiLower name)
  if word = "regex" then
    let c ← readRegexCommand d rest
    return { b with conditions := b.conditions ++ [c] }
  else if (word = "where" ∨ word = "search") ∧ b.stages.isEmpty then
    let tokens ← tokenize rest
    let cs ← readTerms d false tokens
    return { b with conditions := b.conditions ++ cs }
  else return { b with stages := b.stages ++ [⟨d.id, String.ofList part⟩] }

def readCommands (d : Dialect) (b : RuleBody) : List (List Char) → Except Error RuleBody
  | [] => .ok b
  | part :: parts => do
    let b ← readCommand d b part
    readCommands d b parts

/-- The filter of a query as a body with conditions and at most one stage. -/
def readFilter (d : Dialect) (s : List Char) : Except Error RuleBody := do
  let (filter, event) := dropLead s
  let tokens ← tokenize filter
  let (terms, clause) := splitClause tokens
  let conditions ← readTerms d false terms
  let stages := match clause with
    | some text => [⟨d.id, String.ofList text⟩]
    | none => []
  return { event, conditions, stages }

/-- A query as a rule body without a title. -/
def parse (d : Dialect) (s : List Char) : Except Error RuleBody := do
  match Text.Quoted.split ['|'] s with
  | [] => .error .noConditions
  | first :: parts =>
    let b ← readFilter d first
    let b ← readCommands d b parts
    if b.conditions.isEmpty then .error .noConditions else return b

end RuleExchange.Query
