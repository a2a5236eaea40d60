import RuleExchange.Signature.Basic
import RuleExchange.Quality.Warning
import RuleExchange.Digest

/-! Signatures and rule bodies. Addresses written out in the header become conditions
and leave `any` behind; variables stay in the header. Content options become
conditions that later flags move to another field or turn into comparisons at an end.
The way back puts equalities on addresses into the header and all else into
options. -/

namespace RuleExchange.Signature

/-- Which options a signature may use. -/
inductive Flavor where
  | generic
  | snort
  | suricata
  deriving DecidableEq, Repr

/-! ### To a body -/

/-- An address that is neither `any` nor a variable. -/
def isExplicitAddress (value : String) : Bool :=
  let bare := value.toList.dropWhile (· == '!')
  !Text.sameIgnoringCase bare "any".toList && bare.head? != some '$' && !bare.isEmpty

def addressCondition (field value : String) : Condition :=
  match value.toList with
  | '!' :: rest => ⟨field, .notEquals, String.ofList rest⟩
  | _ => ⟨field, .equals, value⟩

/-- The addresses of a header with the fields they are conditions on. -/
def addresses (h : NetworkHeader) : List (String × String) :=
  [(Field.sourceIp, h.source), (Field.sourcePort, h.sourcePort),
    (Field.destinationIp, h.destination), (Field.destinationPort, h.destinationPort)]

def headerConditions (h : NetworkHeader) : List Condition :=
  ((addresses h).filter fun (_, v) => isExplicitAddress v).map fun (f, v) => addressCondition f v

def openAddress (value : String) : String := if isExplicitAddress value then "any" else value

/-- The header with its explicit addresses taken out. -/
def openHeader (h : NetworkHeader) : NetworkHeader :=
  { h with
    source := openAddress h.source
    sourcePort := openAddress h.sourcePort
    destination := openAddress h.destination
    destinationPort := openAddress h.destinationPort }

def modifyLast (f : Condition → Condition) : List Condition → List Condition
  | [] => []
  | [c] => [f c]
  | c :: cs => c :: modifyLast f cs

def retargetLast (field : String) : List Condition → List Condition :=
  modifyLast fun c => { c with field }

def reshapeLast (op : Operator) : List Condition → List Condition :=
  modifyLast fun c => if c.operator = .contains then { c with operator := op } else c

/-- Modifiers of a content option that a body does not keep. -/
def ignoredModifiers : List String :=
  ["nocase", "fast_pattern", "depth", "offset", "distance", "within", "rawbytes", "isdataat"]

/-- What the options read so far amount to. -/
structure Reading where
  body : RuleBody
  /-- The field that later contents look at, once one was named. -/
  buffer : Option String := none

namespace Reading

def push (r : Reading) (c : Condition) : Reading :=
  { r with body := { r.body with conditions := r.body.conditions ++ [c] } }

def change (r : Reading) (f : List Condition → List Condition) : Reading :=
  { r with body := { r.body with conditions := f r.body.conditions } }

def field (r : Reading) : String := r.buffer.getD Field.payload

def reference (r : Reading) (key value : String) : Reading :=
  { r with body := r.body.addReference key value }

def flag (r : Reading) (key : String) : Reading :=
  if key = "http_uri" then r.change (retargetLast Field.httpUri)
  else if key = "dns_query" then r.change (retargetLast Field.dnsQuery)
  else if key = "startswith" then r.change (reshapeLast .startsWith)
  else if key = "endswith" then r.change (reshapeLast .endsWith)
  else if key = "http.uri" then { r with buffer := some Field.httpUri }
  else if key = "dns.query" then { r with buffer := some Field.dnsQuery }
  else if key.toList.contains '.' then { r with buffer := some key }
  else if ignoredModifiers.contains key then r
  else r.reference key ""

def pair (r : Reading) (key value : String) (negated : Bool) : Reading :=
  if key = "content" then r.push ⟨r.field, if negated then .notEquals else .contains, value⟩
  else if key = "uricontent" then r.push ⟨Field.httpUri, .contains, value⟩
  else if key = "pcre" then r.push ⟨r.field, .regex, String.ofList (pcreBody value.toList)⟩
  else if ignoredModifiers.contains key then r
  else r.reference key value

def option (r : Reading) (o : RuleOption) : Reading :=
  if o.key = "msg" then r
  else match o.value with
    | none => r.flag o.key
    | some v => r.pair o.key v o.negated

end Reading

def untitled : String := "untitled signature"

def titleOf (s : Signature) : String :=
  match s.option? "msg" with
  | some m => if Text.isBlankString m then untitled else m
  | none => untitled

def eventOf (protocol : String) : String := if Text.sameText protocol "dns" then "dns" else "network"

/-- The body of a signature before its options are read. -/
def headerBody (s : Signature) : RuleBody :=
  { title := titleOf s
    action := some s.action
    event := some (eventOf s.header.protocol)
    network := some (openHeader s.header)
    conditions := headerConditions s.header }

def toBody (s : Signature) : RuleBody :=
  (s.options.foldl Reading.option { body := headerBody s }).body

/-! ### From a body -/

/-- The header with one address replaced, for a field that has a place in it. -/
def setAddress (h : NetworkHeader) (field value : String) : Option NetworkHeader :=
  if field = Field.sourceIp then some { h with source := value }
  else if field = Field.sourcePort then some { h with sourcePort := value }
  else if field = Field.destinationIp then some { h with destination := value }
  else if field = Field.destinationPort then some { h with destinationPort := value }
  else none

/-- The header that takes up a condition, for an equality or inequality on an address. -/
def absorb (h : NetworkHeader) (c : Condition) : Option NetworkHeader :=
  match c.operator with
  | .equals => setAddress h c.field c.value
  | .notEquals => setAddress h c.field ("!" ++ c.value)
  | _ => none

def pcreOption (expr : List Char) : RuleOption :=
  .pair "pcre" (String.ofList (pcreValue expr))

/-- The options that look for a condition's value. -/
def contentOptions (flavor : Flavor) (c : Condition) : List RuleOption :=
  match c.operator with
  | .contains | .equals => [.pair "content" c.value]
  | .notEquals => [.negatedPair "content" c.value]
  | .startsWith =>
    if flavor = .suricata then [.pair "content" c.value, .flag "startswith"]
    else [pcreOption ('^' :: escapeRegex c.value.toList)]
  | .endsWith =>
    if flavor = .suricata then [.pair "content" c.value, .flag "endswith"]
    else [pcreOption (escapeRegex c.value.toList ++ ['$'])]
  | .regex => [pcreOption c.value.toList]

/-- The flag that moves a content to its field. -/
def fieldOptions (field : String) : List RuleOption :=
  if field = Field.httpUri then [.flag "http_uri"]
  else if field = Field.dnsQuery then [.flag "dns_query"]
  else []

def fieldWarnings (field : String) : List Warning :=
  if [Field.payload, Field.httpUri, Field.dnsQuery].contains field then []
  else [.minor "FIELD_APPROXIMATED"
    ("field '" ++ field ++ "' has no signature equivalent; matched as payload content")]

structure Draft where
  header : NetworkHeader
  options : List RuleOption
  warnings : List Warning

def Draft.add (flavor : Flavor) (d : Draft) (c : Condition) : Draft :=
  match absorb d.header c with
  | some header => { d with header }
  | none =>
    { d with
      options := d.options ++ contentOptions flavor c ++ fieldOptions c.field
      warnings := d.warnings ++ fieldWarnings c.field }

/-- The octets of a plain content, which is a candidate for the fast pattern. -/
def contentSize (o : RuleOption) : Option Nat :=
  if o.key = "content" ∧ !o.negated then some (Text.octets (o.value.getD "").toList) else none

/-- The place of the first of the longest contents. -/
def longestContent : List RuleOption → Option (Nat × Nat)
  | [] => none
  | o :: os =>
    let later := (longestContent os).map fun (i, n) => (i + 1, n)
    match contentSize o, later with
    | none, later => later
    | some n, none => some (0, n)
    | some n, some (i, m) => if n < m then some (i, m) else some (0, n)

/-- Marks the first of the longest contents as the fast pattern. -/
def addFastPattern (options : List RuleOption) : List RuleOption :=
  match longestContent options with
  | none => options
  | some (i, _) => options.take (i + 1) ++ .flag "fast_pattern" :: options.drop (i + 1)

def referenceOption (key value : String) : RuleOption :=
  if value.isEmpty then .flag key else .pair key value

/-- The octets that identify a body: its title and, after a zero, each condition. -/
def identityOctets (b : RuleBody) : List UInt8 :=
  Digest.utf8 b.title ++ b.conditions.flatMap fun c =>
    0 :: Digest.utf8 c.field ++ Digest.utf8 c.operator.keyword ++ Digest.utf8 c.value

/-- A number for a rule without one, from the first four octets of its digest. -/
def localSid (b : RuleBody) : Nat :=
  let n := ((Digest.sha256 (identityOctets b)).take 4).foldl (fun n o => 256 * n + o.toNat) 0
  1000000 + n % 1000000000

def hasReference (b : RuleBody) (key : String) : Bool := (Json.lookup key b.references).isSome

def sidOptions (b : RuleBody) : List RuleOption :=
  .pair "sid" (toString (localSid b)) ::
    (if hasReference b "rev" then [] else [.pair "rev" "1"])

def needsSid (flavor : Flavor) (b : RuleBody) : Bool :=
  flavor != .generic && !hasReference b "sid"

/-- A body as a signature, with what could not be said exactly. -/
def ofBody (b : RuleBody) (flavor : Flavor) (level : Nat) : Signature × List Warning :=
  let title := if Text.isBlankString b.title then untitled else b.title
  let start : Draft := ⟨b.network.getD {}, [.pair "msg" title], []⟩
  let draft := (b.conditions.filter fun c => !c.isMatchAll).foldl (Draft.add flavor) start
  let tuned := if 2 ≤ level then addFastPattern draft.options else draft.options
  let references := b.references.map fun (k, v) => referenceOption k v
  let needed := needsSid flavor b
  ({ action := b.action.getD "alert"
     header := draft.header
     options := tuned ++ references ++ (if needed then sidOptions b else []) },
   draft.warnings ++
     (if needed then
       [.info "SID_ASSIGNED" ("assigned sid " ++ toString (localSid b) ++ " to rule without one")]
      else []))

end RuleExchange.Signature
