import RuleExchange.Document.Profile
import RuleExchange.Rule.Body

/-! Reading rule documents. A document is a JSON object: plain values at the top are
patterns for the fields their keys name, the list of conditions holds the others, and
a few reserved keys carry the title, action, network header, stages and references. -/

namespace RuleExchange.Document

inductive Error where
  | notJson
  | notObject
  | conditions (m : Json.Misfit)
  | nonScalar (field : String)
  | network (m : Json.Misfit)
  | stages (m : Json.Misfit)
  | nothingToDetect
  deriving DecidableEq, Repr

def misfitText : Json.Misfit → String
  | .malformed => "malformed value"
  | .unfit message => message

def Error.message : Error → String
  | .notJson => "invalid JSON document: the text is not JSON"
  | .notObject => "rule document must be a JSON object"
  | .conditions m => "invalid conditions: " ++ misfitText m
  | .nonScalar field => "condition on '" ++ field ++ "' has a non-scalar value"
  | .network m => "invalid network header: " ++ misfitText m
  | .stages m => "invalid stages: " ++ misfitText m
  | .nothingToDetect => "document has no detection conditions"

/-- The text of a string, number or truth value. -/
def scalar : Json.Value → Option String
  | .str s => some s
  | .num n => some (String.ofList (Json.numberText n))
  | .bool b => some (if b then "true" else "false")
  | _ => none

/-- A condition whose value may be any JSON value. -/
structure RawCondition where
  field : String
  operator : Operator
  value : Json.Source

def RawCondition.decoder : Json.Decoder RawCondition := fun o v => open Json.Decode in do
  let check (key : String) (x : Json.Source) : Except Json.Misfit Unit :=
    if key = "operator" then ignore (Operator.decoder o x)
    else if key = "field" then ignore (string o x)
    else .ok ()
  let found ← record (Condition.shape "RawCondition") check o v
  let name ← Json.Decode.field string o found "field" ""
  let operator ← Json.Decode.field Operator.decoder o found "operator" .equals
  return ⟨name, operator, (Json.lookup "value" found).getD .null⟩

def sourceScalar : Json.Source → Option String
  | .str s => some s
  | .num n => some (String.ofList (Json.numberText n))
  | .bool b => some (if b then "true" else "false")
  | _ => none

def RawCondition.toCondition (vendor : Vendor) (r : RawCondition) : Except Error Condition :=
  match sourceScalar r.value with
  | some value => .ok ⟨vendor.fields.canonicalOrKeep r.field, r.operator, value⟩
  | none => .error (.nonScalar r.field)

def text? (doc : List (String × Json.Value)) (key : String) : Option String :=
  (Json.lookup key doc).bind Json.Value.str?

/-- The event category or, for an event type without one, a condition on it. -/
def readEvent (vendor : Vendor) (doc : List (String × Json.Value)) :
    Option String × List Condition :=
  match (Json.lookup vendor.eventKey doc).bind scalar with
  | none => (none, [])
  | some event =>
    if event = String.singleton wildcard then (none, [])
    else match vendor.categories.toCanonical event with
      | some category => (some category, [])
      | none => (none, [⟨Field.eventType, .equals, event⟩])

/-- The condition of a plain value at the top, unless it matches everything. -/
def topCondition (vendor : Vendor) (member : String × Json.Value) : Option Condition :=
  let (key, value) := member
  if key = vendor.eventKey ∨ reservedKeys.contains key then none
  else match scalar value with
    | none => none
    | some raw =>
      let c := Condition.ofPattern (vendor.fields.canonicalOrKeep key) raw wildcard
      if c.isMatchAll then none else some c

def readConditions (vendor : Vendor) (doc : List (String × Json.Value)) :
    Except Error (List Condition) :=
  match Json.lookup "conditions" doc with
  | none => .ok []
  | some v =>
    match Json.decodeValue (Json.Decode.list RawCondition.decoder) v with
    | .error m => .error (.conditions m)
    | .ok raws => raws.mapM (RawCondition.toCondition vendor)

def readNetwork (doc : List (String × Json.Value)) : Except Error (Option NetworkHeader) :=
  match Json.lookup "network" doc with
  | none => .ok none
  | some v =>
    match Json.decodeValue NetworkHeader.decoder v with
    | .error m => .error (.network m)
    | .ok h => .ok (some h)

def readStages (doc : List (String × Json.Value)) : Except Error (List Stage) :=
  match Json.lookup "stages" doc with
  | none => .ok []
  | some v =>
    match Json.decodeValue (Json.Decode.list Stage.decoder) v with
    | .error m => .error (.stages m)
    | .ok ss => .ok ss

/-- References: plain values as text, others as compact JSON. -/
def readReferences (doc : List (String × Json.Value)) : List (String × String) :=
  match Json.lookup "metadata" doc with
  | some (.obj members) =>
    (members.foldl (fun (b : RuleBody) (k, v) =>
      b.addReference k ((scalar v).getD v.compactString)) {}).references
  | _ => []

/-- The members of a document, ordered by key. -/
def members (s : List Char) : Except Error (List (String × Json.Value)) :=
  match Json.Value.ofText? s with
  | none => .error .notJson
  | some v =>
    match v.sorted with
    | .obj doc => .ok doc
    | _ => .error .notObject

def parse (vendor : Vendor) (s : List Char) : Except Error RuleBody := do
  let doc ← members s
  let (event, first) := readEvent vendor doc
  let listed ← readConditions vendor doc
  let network ← readNetwork doc
  let stages ← readStages doc
  let conditions := first ++ doc.filterMap (topCondition vendor) ++ listed
  if conditions.isEmpty && event.isNone then .error .nothingToDetect
  return {
    title := ((text? doc "name").orElse fun _ => text? doc "title").getD ""
    action := text? doc "action"
    event
    network
    conditions
    stages
    references := readReferences doc }

/-- Whether a text starts as a document does. -/
def looksLike (s : List Char) : Bool := (Text.trimStart s).head? == some Json.openBrace

/-- The required keys that a document lacks; a text that is no document lacks none. -/
def missingKeys (vendor : Vendor) (s : List Char) : List String :=
  match members s with
  | .ok doc => vendor.requiredKeys.filter fun k => (Json.lookup k doc).isNone
  | .error _ => []

end RuleExchange.Document
