import RuleExchange.Rule.Body
import RuleExchange.Rule.Field
import RuleExchange.Text.Quoted

/-! Network signatures: an action, a header with addresses, and a list of options
between parentheses. Some options have quoted values; their quotes, backslashes and
semicolons are escaped. The value of a regular expression option keeps its
backslashes, and only its quotes are escaped. -/

namespace RuleExchange.Signature

/-- An option: a key alone, or a key with a value that may be negated. -/
structure RuleOption where
  key : String
  value : Option String := none
  negated : Bool := false
  deriving DecidableEq, Repr

namespace RuleOption

def flag (key : String) : RuleOption := { key }

def pair (key value : String) : RuleOption := { key, value := some value }

def negatedPair (key value : String) : RuleOption := { key, value := some value, negated := true }

end RuleOption

end RuleExchange.Signature

namespace RuleExchange

structure Signature where
  action : String
  header : NetworkHeader
  options : List Signature.RuleOption
  deriving DecidableEq, Repr

namespace Signature

def option? (s : Signature) (key : String) : Option String :=
  (s.options.find? (·.key == key)).bind (·.value)

def hasOption (s : Signature) (key : String) : Bool := s.options.any (·.key == key)

/-! ### Writing -/

/-- Keys whose values are written between quotes. -/
def quotedKeys : List String := ["msg", "content", "uricontent", "pcre"]

/-- Writes a backslash before each occurrence of a character. -/
def guardChar (x : Char) (s : List Char) : List Char :=
  s.flatMap fun c => if c = x then ['\\', c] else [c]

def valueText (key : String) (value : List Char) : List Char :=
  if key = "pcre" then '"' :: guardChar '"' value ++ ['"']
  else if quotedKeys.contains key then
    '"' :: guardChar ';' (Text.Quoted.escape '"' value) ++ ['"']
  else guardChar ';' value

def RuleOption.text (o : RuleOption) : List Char :=
  match o.value with
  | none => o.key.toList ++ [';']
  | some v =>
    o.key.toList ++ ':' :: (if o.negated then ['!'] else []) ++ valueText o.key v.toList ++ [';']

def headerWords (s : Signature) : List String :=
  [s.action, s.header.protocol, s.header.source, s.header.sourcePort, s.header.direction,
    s.header.destination, s.header.destinationPort]

def text (s : Signature) : List Char :=
  Text.joinWith [' '] (s.headerWords.map String.toList) ++ " (".toList ++
    Text.joinWith [' '] (s.options.map RuleOption.text) ++ [')']

def render (s : Signature) : String := String.ofList s.text

/-! ### Regular expressions -/

/-- The expression between the first and the last slash, or all of it without them. -/
def pcreBody (value : List Char) : List Char :=
  let t := Text.trim value
  match t with
  | '/' :: rest =>
    let inner := Text.dropEndWhile (· != '/') rest
    if inner.isEmpty then t else inner.dropLast
  | _ => t

def pcreValue (expr : List Char) : List Char := '/' :: guardChar '/' expr ++ ['/']

/-- The characters with a meaning in regular expressions. -/
def metaChars : List Char := "\\.+*?()|[]\x7b\x7d^$#&-~".toList

def escapeRegex (s : List Char) : List Char :=
  s.flatMap fun c => if metaChars.contains c then ['\\', c] else [c]

end Signature

end RuleExchange
