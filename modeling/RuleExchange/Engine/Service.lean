import RuleExchange.Engine.Schedule
import RuleExchange.Health

/-! What the engine offers: single exchanges, several at once, batches with a limited
number of workers, validation alone, and views of its state. -/

namespace RuleExchange

/-- A request of a batch, with a name to find it by. -/
structure BatchRequest where
  id : String := ""
  content : String
  source : String
  target : String
  options : Overrides := {}
  deriving DecidableEq, Repr

namespace BatchRequest

def shape : Json.Decode.Shape :=
  { name := "BatchRequest"
    fields := [("request_id", .defaulted), ("content", .required), ("source_platform", .required),
      ("target_platform", .required), ("options", .defaulted)] }

def decoder : Json.Decoder BatchRequest := fun o v => open Json.Decode in do
  let check (key : String) (x : Json.Source) : Except Json.Misfit Unit :=
    if key = "options" then ignore (Overrides.decoder o x) else ignore (string o x)
  let found ← record shape check o v
  return {
    id := ← field string o found "request_id" ""
    content := ← field string o found "content" ""
    source := ← field string o found "source_platform" ""
    target := ← field string o found "target_platform" ""
    options := ← field Overrides.decoder o found "options" {} }

def request (b : BatchRequest) (defaults : Options) : Request :=
  ⟨b.content, b.source, b.target, b.options.resolve defaults⟩

end BatchRequest

structure BatchItem where
  id : String
  outcome : Outcome

/-- The items of a batch in the order of their requests. -/
structure BatchResult where
  items : List BatchItem

namespace BatchResult

def successCount (b : BatchResult) : Nat := (b.items.filter fun i => i.outcome.isOk).length

def failureCount (b : BatchResult) : Nat := b.items.length - b.successCount

end BatchResult

/-- The answer to a request for validation. -/
structure ValidationReport where
  platform : String
  /-- Left out when the content cannot be read. -/
  metrics : Option Metrics
  summary : Warning

structure Engine where
  setup : Engine.Setup
  state : Engine.State

namespace Engine

inductive BuildError where
  | settings (fault : Settings.Fault)
  | registry (error : Registry.Error)
  deriving DecidableEq, Repr

def BuildError.message : BuildError → String
  | .settings f => "engine config error: config error: " ++ f.message
  | .registry e => "translator registry error: " ++ e.message

/-- An engine with the platforms given, or with the built-in ones under the settings. -/
def build (s : Settings) (registry : Option Registry) : Except BuildError Engine := do
  s.validate.mapError .settings
  let registry ← match registry with
    | some r => .ok r
    | none => (Registry.ofSettings s).mapError .registry
  return ⟨{ settings := s, registry }, .ofSettings s⟩

/-- Several exchanges at once, with so many workers. -/
def exchangeWith (e : Engine) (workers : Nat) (rs : List Request) : Engine × List Outcome :=
  let w := Schedule.run e.setup e.state workers rs
  ({ e with state := w.state }, w.outcomes)

/-- Several exchanges at once. -/
def exchangeAll (e : Engine) (rs : List Request) : Engine × List Outcome :=
  e.exchangeWith rs.length rs

/-- One exchange. -/
def exchange (e : Engine) (r : Request) : Engine × Outcome :=
  let (e, os) := e.exchangeAll [r]
  (e, os.headD (.error (.internal "no call was made")))

/-- The name of an item; a blank one is replaced by a made-up name. -/
def itemId (fresh : Nat → String) (i : Nat) (id : String) : String :=
  if Text.isBlankString id then fresh i else id

/-- A batch; `fresh` makes up a name for each place of the list. -/
def exchangeBatch (e : Engine) (fresh : Nat → String) (bs : List BatchRequest) :
    Engine × BatchResult :=
  let size : Sample := ⟨Telemetry.batchSize, [], .observe (Float.ofNat bs.length)⟩
  let e := { e with state := e.state.emit size }
  let workers := max e.setup.settings.engine.workerPoolSize 1
  let (e, os) := e.exchangeWith workers (bs.map (·.request e.setup.options))
  (e, ⟨((bs.zip os).zipIdx).map fun ((b, o), i) => ⟨itemId fresh i b.id, o⟩⟩)

/-- Lets time pass. -/
def wait (e : Engine) (ms : Nat) : Engine :=
  { e with state := { e.state with now := e.state.now + ms } }

/-- One sentence about the quality of a content. -/
def summarize (m : Metrics) : Warning :=
  if m.hasMajor then
    let majors := (m.warnings.filter (·.level = .major)).length
    .minor "VALIDATION_DEGRADED" ("Validation found " ++ toString majors ++
      " major issue(s) with confidence score: " ++ Decimal.fixed 2 m.confidence)
  else .info "VALIDATION_SUCCESS" ("Validation passed with confidence score: " ++
    Decimal.fixed 2 m.confidence)

/-- Validation of a content as a rule of the target. -/
def validate (e : Engine) (content target : String) : Except Failure ValidationReport := do
  Request.needText "content" content
  Request.needText "target_platform" target
  let p ← e.setup.resolve target
  return match p.validate content with
    | .ok m => ⟨p.id, some m, summarize m⟩
    | .error f => ⟨p.id, none, .major "VALIDATION_FAILED" f.message⟩

def circuits (e : Engine) : List CircuitView := e.state.circuits.views e.state.now

def health (e : Engine) : Health :=
  if e.setup.registry.size = 0 then .unhealthy "no translators registered"
  else match e.state.circuits.openPairs with
    | [] => .healthy
    | pairs => .degraded ("circuit open: " ++ Text.joined ", " pairs)

/-- The engine as shown to developers. -/
def debug (e : Engine) : String :=
  "TranslationOrchestrator \x7b registry: " ++ e.setup.registry.debug ++ ", cached: " ++
    toString e.state.cache.size ++ ", in_flight: " ++ toString e.state.flights.size ++ " \x7d"

end Engine

end RuleExchange
