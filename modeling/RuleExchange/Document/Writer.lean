import RuleExchange.Document.Profile
import RuleExchange.Rule.Body
import RuleExchange.Quality.Warning

/-! Writing rule documents. Required fields take their value from the first equality on
them and are a wildcard without one; all other conditions are listed. The members of a
document stand in the order of their keys. -/

namespace RuleExchange.Document

/-- A document under construction: its members and the required keys left open. -/
structure Draft where
  rest : RuleBody
  doc : List (String × Json.Value) := []
  unset : List String := []

namespace Draft

def put (d : Draft) (key : String) (v : Json.Value) : Draft :=
  { d with doc := Json.insertMember key v d.doc }

def putIf (d : Draft) (present : Bool) (key : String) (v : Json.Value) : Draft :=
  if present then d.put key v else d

/-- Puts a required value, or the wildcard. -/
def require (d : Draft) (key : String) (value : Option String) : Draft :=
  match value with
  | some s => d.put key (.str s)
  | none => { d.put key (.str (String.singleton wildcard)) with unset := d.unset ++ [key] }

/-- Puts a required field, taken out of the conditions. -/
def requireField (vendor : Vendor) (d : Draft) (field : String) : Draft :=
  let (value, rest) := d.rest.takeEquality field
  { d with rest }.require (vendor.key field) value

end Draft

/-- The vendor's name of the event: an equality on the event type, or the category. -/
def eventValue (vendor : Vendor) (b : RuleBody) : Option String × RuleBody :=
  let (value, rest) := b.takeEquality Field.eventType
  (value.orElse fun _ => b.event.map fun c => (vendor.categories.toPlatform c).getD c, rest)

def conditionJson (vendor : Vendor) (c : Condition) : Json.Value :=
  { c with field := vendor.key c.field }.toJson

/-- Neutral fields without a name of the vendor. -/
def unmapped (vendor : Vendor) (cs : List Condition) : List String :=
  if vendor.fields.entries.isEmpty then []
  else (cs.map (·.field)).filter fun f =>
    (vendor.fields.toPlatform f).isNone && Field.isCanonical f

/-- Of equal neighbours only the first is kept. -/
def dedupNeighbours : List String → List String
  | [] => []
  | [a] => [a]
  | a :: b :: rest => if a = b then dedupNeighbours (b :: rest) else a :: dedupNeighbours (b :: rest)

def scopeWarnings (keys : List String) : List Warning :=
  if keys.isEmpty then []
  else [.info "SCOPE_WILDCARD" ("required keys set to '*': " ++ Text.joined ", " keys)]

def unmappedWarnings (vendor : Vendor) (fields : List String) : List Warning :=
  if fields.isEmpty then []
  else [.minor "FIELD_UNMAPPED"
    (vendor.id ++ " has no field for: " ++ Text.joined ", " (dedupNeighbours fields))]

/-- The head of a document: title, action, event and required fields. -/
def head (vendor : Vendor) (b : RuleBody) : Draft :=
  let (event, rest) := eventValue vendor b
  let d : Draft := { rest }
  let d := d.put "name" (.str b.title)
  let d := d.putIf b.action.isSome "action" (.str (b.action.getD ""))
  let d := d.require vendor.eventKey event
  vendor.required.foldl (Draft.requireField vendor) d

/-- The members of a document; `notes` are its comments, if it has any. -/
def build (vendor : Vendor) (b : RuleBody) (notes : Option (List String)) :
    List (String × Json.Value) × List Warning :=
  let d := head vendor b
  let cs := d.rest.conditions
  let d := d.putIf (!cs.isEmpty) "conditions" (.arr (cs.map (conditionJson vendor)))
  let d := match b.network with
    | some h => d.put "network" h.toJson
    | none => d
  let d := d.putIf (!b.stages.isEmpty) "stages" (.arr (b.stages.map Stage.toJson))
  let d := d.putIf (!b.references.isEmpty) "metadata"
    (.obj (b.references.map fun (k, v) => (k, .str v)))
  let d := match notes with
    | some lines => d.put annotationsKey (.strings lines)
    | none => d
  (d.doc, scopeWarnings d.unset ++ unmappedWarnings vendor (unmapped vendor cs))

def render (vendor : Vendor) (b : RuleBody) (notes : Option (List String)) :
    List Char × List Warning :=
  let (doc, warnings) := build vendor b notes
  ((Json.Value.obj doc).sorted.prettyAt 0, warnings)

end RuleExchange.Document
