import RuleExchange.Rule.Field

/-! Vendors of endpoint rule documents: their field names, the names of their event
categories, the key of the event type, and the fields that every document has. -/

namespace RuleExchange.Document

structure Vendor where
  id : String
  fields : FieldMap
  categories : CategoryMap
  eventKey : String
  /-- Fields that stand in every document beside the event type. -/
  required : List String

namespace Vendor

def key (v : Vendor) (field : String) : String := v.fields.platformOrKeep field

def requiredKeys (v : Vendor) : List String := v.eventKey :: v.required.map v.key

def generic : Vendor :=
  { id := "edr", fields := .identity, categories := .generic, eventKey := Field.eventType,
    required := [] }

def crowdstrike : Vendor :=
  { id := "crowdstrike", fields := .crowdstrike, categories := .crowdstrike,
    eventKey := "event_simpleName", required := [Field.hostname, Field.commandLine] }

def sentinelone : Vendor :=
  { id := "sentinelone", fields := .sentinelone, categories := .sentinelone,
    eventKey := "eventType", required := [Field.agentId, Field.commandLine] }

def defender : Vendor :=
  { id := "microsoft_defender", fields := .defender, categories := .defender,
    eventKey := "ActionType", required := [Field.hostname, Field.commandLine] }

end Vendor

/-- The key of the comments of a document. -/
def annotationsKey : String := "_annotations"

/-- Keys that are no conditions. -/
def reservedKeys : List String :=
  ["name", "title", "action", "network", "conditions", "stages", "metadata", annotationsKey]

end RuleExchange.Document
