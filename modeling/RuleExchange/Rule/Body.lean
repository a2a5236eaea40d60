import RuleExchange.Rule.Condition

/-! Rule bodies, the neutral form of a detection rule. All conditions must hold
together; stages are what a query does after filtering and are kept as text for
their own language; references carry everything else. A body is stored as compact
JSON with its empty parts left out. -/

namespace RuleExchange

structure NetworkHeader where
  protocol : String := "ip"
  source : String := "any"
  sourcePort : String := "any"
  direction : String := "->"
  destination : String := "any"
  destinationPort : String := "any"
  deriving DecidableEq, Repr

namespace NetworkHeader

def toJson (h : NetworkHeader) : Json.Value :=
  .obj [("protocol", .str h.protocol), ("source", .str h.source),
    ("source_port", .str h.sourcePort), ("direction", .str h.direction),
    ("destination", .str h.destination), ("destination_port", .str h.destinationPort)]

def shape : Json.Decode.Shape :=
  { name := "NetworkHeader",
    fields := [("protocol", .required), ("source", .required), ("source_port", .required),
      ("direction", .required), ("destination", .required), ("destination_port", .required)] }

def decoder : Json.Decoder NetworkHeader := fun o v => do
  let found ← Json.Decode.record shape (fun _ x => Json.Decode.ignore (Json.Decode.string o x)) o v
  let get (name : String) : Except Json.Misfit String :=
    Json.Decode.field Json.Decode.string o found name ""
  return {
    protocol := ← get "protocol"
    source := ← get "source"
    sourcePort := ← get "source_port"
    direction := ← get "direction"
    destination := ← get "destination"
    destinationPort := ← get "destination_port" }

end NetworkHeader

/-- A later step of a query, in the language it was written in. -/
structure Stage where
  dialect : String
  text : String
  deriving DecidableEq, Repr

namespace Stage

def isWordChar (c : Char) : Bool := c.isAlphanum || c == '_'

/-- Words that name a correlation of several events. -/
def correlationWords : List (List Char) :=
  ["join".toList, "transaction".toList, "append".toList, "sequence".toList, "correlate".toList]

/-- Whether the stage correlates events: it has a bracket or one of the words. -/
def isCorrelation (s : Stage) : Bool :=
  let lower := Text.asciiLower s.text.toList
  lower.contains '[' ||
    (Text.splitWhere (fun c => !isWordChar c) lower).any correlationWords.contains

def toJson (s : Stage) : Json.Value := .obj [("dialect", .str s.dialect), ("text", .str s.text)]

def shape : Json.Decode.Shape :=
  { name := "Stage", fields := [("dialect", .required), ("text", .required)] }

def decoder : Json.Decoder Stage := fun o v => do
  let found ← Json.Decode.record shape (fun _ x => Json.Decode.ignore (Json.Decode.string o x)) o v
  let dialect ← Json.Decode.field Json.Decode.string o found "dialect" ""
  let text ← Json.Decode.field Json.Decode.string o found "text" ""
  return ⟨dialect, text⟩

end Stage

structure RuleBody where
  title : String := ""
  action : Option String := none
  event : Option String := none
  network : Option NetworkHeader := none
  conditions : List Condition := []
  stages : List Stage := []
  /-- Ordered by key, each key once. -/
  references : List (String × String) := []
  deriving DecidableEq, Repr

namespace RuleBody

/-- Inserts by rank after all entries of the same or a lower rank. -/
def insertByRank (c : Condition) : List Condition → List Condition
  | [] => [c]
  | d :: ds => if c.operator.rank < d.operator.rank then c :: d :: ds else d :: insertByRank c ds

/-- Cheap conditions first; conditions of one rank keep their order. -/
def prioritize (b : RuleBody) : RuleBody :=
  { b with conditions := b.conditions.foldl (fun acc c => insertByRank c acc) [] }

/-- The text of a reference after one more value was given for it. -/
def extendReference (old new : String) : String :=
  if new.isEmpty then old
  else if old.isEmpty then new
  else old ++ ", " ++ new

/-- Adds a reference; values of one key are joined by a comma. -/
def addReference (b : RuleBody) (key value : String) : RuleBody :=
  match Json.lookup key b.references with
  | some old =>
    { b with references := Json.insertMember key (extendReference old value) b.references }
  | none => { b with references := Json.insertMember key value b.references }

def isEqualityOn (field : String) (c : Condition) : Bool :=
  c.field == field && c.operator = .equals && !c.isMatchAll

/-- Takes out the first equality on a field that does not match everything. -/
def takeEquality (b : RuleBody) (field : String) : Option String × RuleBody :=
  match b.conditions.findIdx? (isEqualityOn field) with
  | some i =>
    ((b.conditions[i]?).map (·.value), { b with conditions := b.conditions.eraseIdx i })
  | none => (none, b)

/-! ### Stored form -/

def member (name : String) (v : Option Json.Value) : List (String × Json.Value) :=
  match v with
  | some x => [(name, x)]
  | none => []

def toJson (b : RuleBody) : Json.Value :=
  .obj (("title", .str b.title) ::
    (member "action" (b.action.map .str) ++
     member "event" (b.event.map .str) ++
     member "network" (b.network.map NetworkHeader.toJson) ++
     [("conditions", .arr (b.conditions.map Condition.toJson))] ++
     (if b.stages.isEmpty then [] else [("stages", .arr (b.stages.map Stage.toJson))]) ++
     (if b.references.isEmpty then []
      else [("references", .obj (b.references.map fun (k, v) => (k, .str v)))])))

def toText (b : RuleBody) : String := b.toJson.compactString

def shape : Json.Decode.Shape :=
  { name := "RuleBody",
    fields := [("title", .required), ("action", .defaulted), ("event", .defaulted),
      ("network", .defaulted), ("conditions", .defaulted), ("stages", .defaulted),
      ("references", .defaulted)] }

def conditionList : Json.Decoder (List Condition) :=
  Json.Decode.list (Condition.decoder "Condition")

def checkField (o : Json.Origin) (key : String) (v : Json.Source) : Except Json.Misfit Unit :=
  open Json.Decode in
  if key = "title" then ignore (string o v)
  else if key = "action" ∨ key = "event" then ignore (option string o v)
  else if key = "network" then ignore (option NetworkHeader.decoder o v)
  else if key = "conditions" then ignore (conditionList o v)
  else if key = "stages" then ignore (list Stage.decoder o v)
  else ignore (table string o v)

def decoder : Json.Decoder RuleBody := fun o v => open Json.Decode in do
  let found ← record shape (checkField o) o v
  let title ← field string o found "title" ""
  let action ← field (option string) o found "action" none
  let event ← field (option string) o found "event" none
  let network ← field (option NetworkHeader.decoder) o found "network" none
  let conditions ← field conditionList o found "conditions" []
  let stages ← field (list Stage.decoder) o found "stages" []
  let references ← field (table string) o found "references" []
  return { title, action, event, network, conditions, stages, references }

def ofText (s : String) : Except Json.Misfit RuleBody := Json.decodeText decoder s.toList

end RuleBody

end RuleExchange
