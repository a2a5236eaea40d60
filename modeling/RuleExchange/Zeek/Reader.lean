import RuleExchange.Zeek.Writer
import RuleExchange.Text.Word

/-! Reading Zeek scripts: the name of the event handler, the message and the data of the
notice, and the guard before it, whose terms are joined by conjunction only. -/

namespace RuleExchange.Zeek

inductive Error where
  | noHandler
  | noGuard
  | disjunction
  | unsupported (term : String)
  deriving DecidableEq, Repr

def Error.message : Error → String
  | .noHandler => "no 'event <name>(' handler found"
  | .noGuard => "no 'if ( ... ) NOTICE' guard found"
  | .disjunction => "'||' is not supported; split the script into separate rules"
  | .unsupported term => "unsupported condition '" ++ term ++ "'"

def skipBlank (s : List Char) : List Char := s.dropWhile Text.isBlank

/-- What follows at least one blank. -/
def afterBlank? (s : List Char) : Option (List Char) :=
  match s with
  | c :: cs => if Text.isBlank c then some (skipBlank cs) else none
  | [] => none

/-! ### Event, message and data -/

/-- The name of a handler that starts here after blanks. -/
def handlerHere? (s : List Char) : Option (List Char) := do
  let s ← Text.after? "event".toList (skipBlank s)
  let s ← afterBlank? s
  let name := s.takeWhile Text.isWord
  if name.isEmpty then none
  match skipBlank (s.dropWhile Text.isWord) with
  | '(' :: _ => some name
  | _ => none

/-- The name of the first handler at the start of a line. -/
def handler? (lineStart : Bool) (s : List Char) : Option (List Char) :=
  match (if lineStart then handlerHere? s else none) with
  | some name => some name
  | none =>
    match s with
    | [] => none
    | c :: cs => handler? (c == '\n') cs

/-- The raw text up to a closing mark that no backslash escapes, and what follows it. Unless
`acrossLines` a backslash cannot escape a line feed. -/
def rawUntil? (stop : Char) (acrossLines : Bool) : List Char → Option (List Char × List Char)
  | [] => none
  | c :: cs =>
    if c = stop then some ([], cs)
    else if c = '\\' then
      match cs with
      | [] => none
      | n :: rest =>
        if n = '\n' ∧ !acrossLines then none
        else (rawUntil? stop acrossLines rest).map fun (raw, tail) => (c :: n :: raw, tail)
    else (rawUntil? stop acrossLines cs).map fun (raw, tail) => (c :: raw, tail)

/-- The raw string assigned to a field of the notice here. -/
def assignedHere? (name s : List Char) : Option (List Char) := do
  let s ← Text.after? name s
  let s ← Text.after? ['='] (skipBlank s)
  let s ← Text.after? ['"'] (skipBlank s)
  let (raw, _) ← rawUntil? '"' false s
  return raw

/-- The raw string of the first assignment to a field of the notice. -/
def assigned? (name s : List Char) : Option (List Char) :=
  match assignedHere? name s with
  | some raw => some raw
  | none =>
    match s with
    | [] => none
    | _ :: cs => assigned? name cs

def addPair (b : RuleBody) (pair : List Char) : RuleBody :=
  let pair := Text.trim pair
  if pair.isEmpty then b
  else
    let (key, value) := (Text.cut? ['='] pair).getD (pair, [])
    b.addReference (String.ofList (Text.trim key)) (String.ofList (Text.trim value))

/-! ### Guard -/

/-- Whether the guard is closed here and the notice follows. -/
def closesHere (s : List Char) : Bool :=
  match skipBlank s with
  | ')' :: rest =>
    match Text.after? "NOTICE".toList (skipBlank rest) with
    | some [] => true
    | some (c :: _) => !Text.isWord c
    | none => false
  | _ => false

/-- The shortest text that is followed by the close of the guard. -/
def untilClose (s : List Char) : Option (List Char) :=
  if closesHere s then some []
  else match s with
    | [] => none
    | c :: cs => (untilClose cs).map (c :: ·)

def guardHere? (s : List Char) : Option (List Char) := do
  let s ← Text.after? "if".toList s
  let s ← Text.after? ['('] (skipBlank s)
  untilClose (skipBlank s)

/-- The first guard of a notice; `bounded` tells whether a word can start here. -/
def guard? (bounded : Bool) (s : List Char) : Option (List Char) :=
  match (if bounded then guardHere? s else none) with
  | some g => some g
  | none =>
    match s with
    | [] => none
    | c :: cs => guard? (!Text.isWord c) cs

/-! ### Terms -/

/-- The single word after `in`. -/
def membership? (s : List Char) : Option (List Char) := do
  let s ← afterBlank? s
  let s ← Text.after? "in".toList s
  let word ← afterBlank? s
  if word.isEmpty || word.any Text.isBlank then none else some word

def fieldOf (expr : List Char) : String := FieldMap.zeek.canonicalOrKeep (String.ofList expr)

def containsTerm? (s : List Char) : Option Condition := do
  let s ← Text.after? ['"'] s
  let (raw, rest) ← rawUntil? '"' true s
  let expr ← membership? rest
  return ⟨fieldOf expr, .contains, String.ofList (Text.Quoted.unescape raw)⟩

/-- Characters of a pattern that stand for more than themselves. -/
def patternChars : List Char := ".+*?()|[]\x7b\x7d^$".toList

/-- The text that an expression matches literally, when it does. -/
def literalOf? : List Char → Option (List Char)
  | [] => some []
  | c :: cs =>
    if c = '\\' then
      match cs with
      | [] => none
      | n :: rest => if n.isAlphanum then none else (literalOf? rest).map (n :: ·)
    else if patternChars.contains c then none
    else (literalOf? cs).map (c :: ·)

/-- A pattern with one anchor and a literal text compares at an end; all others stay patterns. -/
def patternCondition (field : String) (re : List Char) : Condition :=
  let atEnd := re.getLast? = some '$'
  let anchored := match re with
    | '^' :: rest => if atEnd then none else (literalOf? rest).map fun v => (Operator.startsWith, v)
    | _ => if atEnd then (literalOf? re.dropLast).map fun v => (Operator.endsWith, v) else none
  match anchored with
  | some (op, v) => ⟨field, op, String.ofList v⟩
  | none => ⟨field, .regex, String.ofList re⟩

def patternTerm? (s : List Char) : Option Condition := do
  let s ← Text.after? ['/'] s
  let (raw, rest) ← rawUntil? '/' true s
  let expr ← membership? rest
  return patternCondition (fieldOf expr) (Text.replaceText ['\\', '/'] ['/'] raw)

/-- A comparison sign here and the text after it, which must not be empty. -/
def signHere? (s : List Char) : Option (Operator × List Char) :=
  match s with
  | '=' :: '=' :: c :: rest => some (.equals, c :: rest)
  | '!' :: '=' :: c :: rest => some (.notEquals, c :: rest)
  | _ => none

/-- The places inside a word where a comparison sign follows, the last one first. -/
def cutsAtSign : List Char → List Char → List (List Char × Operator × List Char)
  | _, [] => []
  | before, c :: cs =>
    (if Text.isBlank c then [] else cutsAtSign (c :: before) cs) ++
      (match signHere? (c :: cs) with
       | some (op, rest) => if before.isEmpty then [] else [(before.reverse, op, rest)]
       | none => [])

/-- The left side, the sign and the right side of a comparison: the longest left side wins. -/
def comparison? (s : List Char) : Option (List Char × Operator × List Char) :=
  let word := s.takeWhile fun c => !Text.isBlank c
  let rest := s.dropWhile fun c => !Text.isBlank c
  match (if word.isEmpty || rest.isEmpty then none else signHere? (skipBlank rest)) with
  | some (op, right) => some (word, op, right)
  | none => (cutsAtSign [] s).head?

def comparedValue (field : String) (raw : List Char) : List Char :=
  let plain := if isPortField field then raw.takeWhile (· != '/') else raw
  match raw with
  | '"' :: inner => if inner.getLast? = some '"' then Text.Quoted.unescape inner.dropLast else plain
  | _ => plain

def compareTerm? (s : List Char) : Option Condition := do
  let (left, op, right) ← comparison? s
  let field := fieldOf left
  return ⟨field, op, String.ofList (comparedValue field (Text.trim right))⟩

def readTerm (s : List Char) : Except Error Condition :=
  match containsTerm? s with
  | some c => .ok c
  | none =>
    match patternTerm? s with
    | some c => .ok c
    | none =>
      match compareTerm? s with
      | some c => .ok c
      | none => .error (.unsupported (String.ofList s))

/-- The terms of a guard; empty ones and the constant truth say nothing. -/
def readTerms : List (List Char) → Except Error (List Condition)
  | [] => .ok []
  | part :: parts =>
    let t := Text.trim part
    if t.isEmpty ∨ t = ['T'] then readTerms parts
    else do
      let c ← readTerm t
      let cs ← readTerms parts
      return c :: cs

def untitled : String := "untitled zeek notice"

def titleOf (s : List Char) : String :=
  match assigned? "$msg".toList s with
  | some raw => String.ofList (Text.Quoted.unescape raw)
  | none => untitled

def referencesOf (s : List Char) : List (String × String) :=
  match assigned? "$sub".toList s with
  | some raw =>
    ((Text.splitWhere (· == ';') (Text.Quoted.unescape raw)).foldl addPair {}).references
  | none => []

/-- A script as a rule body. -/
def parse (s : List Char) : Except Error RuleBody := do
  match handler? true s with
  | none => .error .noHandler
  | some name =>
    match guard? true s with
    | none => .error .noGuard
    | some g =>
      if Text.occursIn ['|', '|'] g then .error .disjunction
      else
        let conditions ← readTerms (Text.Quoted.split ['&', '&'] g)
        return {
          title := titleOf s
          event := some (if "dns_".toList.isPrefixOf name then "dns" else "network")
          conditions
          references := referencesOf s }

end RuleExchange.Zeek
