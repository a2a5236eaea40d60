import RuleExchange.Rule.Body
import RuleExchange.Rule.Field
import RuleExchange.Quality.Warning
import RuleExchange.Signature.Basic

/-! Writing Zeek scripts. A rule becomes one event handler with a guard and a notice.
The handler is chosen by the fields of the conditions; it offers one string to look at,
and conditions on other strings look at that one too, with a warning. -/

namespace RuleExchange.Zeek

structure Handler where
  name : String
  params : String
  /-- The argument that conditions on strings look at. -/
  subject : Option String

namespace Handler

def httpRequest : Handler :=
  { name := "http_request"
    params := "c: connection, method: string, original_URI: string, unescaped_URI: string, " ++
      "version: string"
    subject := some "unescaped_URI" }

def dnsRequest : Handler :=
  { name := "dns_request"
    params := "c: connection, msg: dns_msg, query: string, qtype: count, qclass: count"
    subject := some "query" }

def tcpContents : Handler :=
  { name := "tcp_contents"
    params := "c: connection, is_orig: bool, seq: count, contents: string"
    subject := some "contents" }

def newConnection : Handler :=
  { name := "new_connection", params := "c: connection", subject := none }

def subjectName (h : Handler) : String := h.subject.getD "contents"

end Handler

def isPortField (field : String) : Bool :=
  field == Field.sourcePort || field == Field.destinationPort

def isAddressField (field : String) : Bool :=
  field == Field.sourceIp || field == Field.destinationIp || isPortField field

/-- The conditions that say something. -/
def effective (b : RuleBody) : List Condition := b.conditions.filter fun c => !c.isMatchAll

def chooseHandler (b : RuleBody) : Handler :=
  let cs := effective b
  if cs.any (·.field == Field.httpUri) then .httpRequest
  else if cs.any (·.field == Field.dnsQuery) then .dnsRequest
  else if cs.any fun c => !isAddressField c.field then .tcpContents
  else .newConnection

/-- The expression for a field inside a handler, if the handler has one. -/
def expression (h : Handler) (field : String) : Option String :=
  match FieldMap.zeek.toPlatform field with
  | none => none
  | some name => if isAddressField field || h.subject == some name then some name else none

/-! ### Terms -/

def stringLiteral (s : List Char) : List Char := Text.Quoted.enclose '"' s

/-- A pattern literal between slashes. -/
def patternLiteral (expr : List Char) : List Char := Signature.pcreValue expr

/-- A value as a literal of the type of its field. -/
def literal (field : String) (transport : List Char) (value : List Char) : List Char :=
  if isPortField field then value ++ '/' :: transport
  else if isAddressField field then value
  else stringLiteral value

/-- The expression of an equality with wildcards inside. -/
def wildcardExpr (value : List Char) : List Char :=
  '^' :: Text.joinWith ['.', '*']
    ((Text.splitWhere (· == wildcard) value).map Signature.escapeRegex) ++ ['$']

def memberTerm (left : List Char) (expr : String) : List Char :=
  left ++ " in ".toList ++ expr.toList

def term (c : Condition) (expr : String) (transport : List Char) : List Char :=
  let v := c.value.toList
  match c.operator with
  | .equals =>
    if c.hasInnerWildcard then memberTerm (patternLiteral (wildcardExpr v)) expr
    else expr.toList ++ " == ".toList ++ literal c.field transport v
  | .notEquals => expr.toList ++ " != ".toList ++ literal c.field transport v
  | .contains => memberTerm (stringLiteral v) expr
  | .startsWith => memberTerm (patternLiteral ('^' :: Signature.escapeRegex v)) expr
  | .endsWith => memberTerm (patternLiteral (Signature.escapeRegex v ++ ['$'])) expr
  | .regex => memberTerm (patternLiteral v) expr

/-- The transport that ports are written with. -/
def transportOf (b : RuleBody) : List Char :=
  match b.network with
  | some h =>
    let p := Text.asciiLower h.protocol.toList
    if p = "udp".toList then p else "tcp".toList
  | none => "tcp".toList

def fieldWarning (h : Handler) (field : String) : Warning :=
  .minor "FIELD_APPROXIMATED" ("field '" ++ field ++ "' is not available in " ++ h.name ++
    "; matched against " ++ h.subjectName)

def termOf (h : Handler) (transport : List Char) (c : Condition) : List Char :=
  term c ((expression h c.field).getD h.subjectName) transport

def termWarnings (h : Handler) (c : Condition) : List Warning :=
  if (expression h c.field).isSome then [] else [fieldWarning h c.field]

/-! ### Script -/

def guardText (terms : List (List Char)) : List Char :=
  if terms.isEmpty then ['T'] else Text.joinWith " && ".toList terms

def commaForSemicolon (s : List Char) : List Char := s.map fun c => if c = ';' then ',' else c

def referenceText (key value : String) : List Char :=
  if value.isEmpty then commaForSemicolon key.toList
  else key.toList ++ '=' :: commaForSemicolon value.toList

def noticeText (b : RuleBody) : List Char :=
  "$note=Weird::Activity, $conn=c, $msg=".toList ++ stringLiteral b.title.toList ++
    (if b.references.isEmpty then []
     else ", $sub=".toList ++
       stringLiteral (Text.joinWith [';'] (b.references.map fun (k, v) => referenceText k v)))

def scriptText (h : Handler) (guardExpr notice : List Char) : List Char :=
  "event ".toList ++ h.name.toList ++ '(' :: h.params.toList ++ ")\n\t\x7b\n\tif ( ".toList ++
    guardExpr ++ " )\n\t\tNOTICE([".toList ++ notice ++ "]);\n\t\x7d".toList

/-- A body as a script, with what could not be said exactly. -/
def render (b : RuleBody) : List Char × List Warning :=
  let h := chooseHandler b
  let cs := effective b
  (scriptText h (guardText (cs.map (termOf h (transportOf b)))) (noticeText b),
    cs.flatMap (termWarnings h))

end RuleExchange.Zeek
