import RuleExchange.Engine.Listing
import RuleExchange.Service.MediaType

/-!
The web interface of the engine. A request is led by its path to a route, and by its
method to the action of the route; a body is read only after its media type and its
size have been accepted. Failures of the engine have fixed status codes, and an open
circuit also says after how many seconds another try makes sense.
-/

namespace RuleExchange.Service

structure HttpRequest where
  method : String
  /-- The path, possibly with a query after it. -/
  target : String
  mediaType : Option String := none
  body : String := ""
  deriving DecidableEq, Repr

structure HttpResponse where
  status : Nat
  /-- Seconds until another try makes sense. -/
  retryAfter : Option Nat := none
  /-- The methods that a path takes. -/
  allow : Option String := none
  body : Option Json.Value := none

/-! ### Bodies of requests -/

structure ExchangeCall where
  detectionId : Option String := none
  content : String
  source : String
  target : String
  overrides : Overrides := {}
  deriving DecidableEq, Repr

namespace ExchangeCall

def shape : Json.Decode.Shape :=
  { name := "ExchangeCall"
    fields := [("detection_id", .defaulted), ("content", .required),
      ("source_platform", .required), ("target_platform", .required), ("options", .defaulted)]
    closed := true }

def decoder : Json.Decoder ExchangeCall := fun o v => open Json.Decode in do
  let check (key : String) (x : Json.Source) : Except Json.Misfit Unit :=
    if key = "options" then ignore (Overrides.decoder o x)
    else if key = "detection_id" then ignore (option string o x)
    else ignore (string o x)
  let found ← record shape check o v
  return {
    detectionId := ← field (option string) o found "detection_id" none
    content := ← field string o found "content" ""
    source := ← field string o found "source_platform" ""
    target := ← field string o found "target_platform" ""
    overrides := ← field Overrides.decoder o found "options" {} }

end ExchangeCall

def batchShape : Json.Decode.Shape :=
  { name := "BatchCall", fields := [("requests", .required)], closed := true }

def batchDecoder : Json.Decoder (List BatchRequest) := fun o v => open Json.Decode in do
  let items := list BatchRequest.decoder
  let found ← record batchShape (fun _ x => ignore (items o x)) o v
  field items o found "requests" []

structure ValidateCall where
  content : String
  target : String
  deriving DecidableEq, Repr

namespace ValidateCall

def shape : Json.Decode.Shape :=
  { name := "ValidateCall"
    fields := [("content", .required), ("target_platform", .required)]
    closed := true }

def decoder : Json.Decoder ValidateCall := fun o v => open Json.Decode in do
  let found ← record shape (fun _ x => ignore (string o x)) o v
  return {
    content := ← field string o found "content" ""
    target := ← field string o found "target_platform" "" }

end ValidateCall

/-! ### Errors -/

/-- Why a body is not taken. -/
inductive BodyFault where
  | notJson
  | tooLarge
  | malformed
  | unfit (reason : String)
  deriving DecidableEq, Repr

namespace BodyFault

def status : BodyFault → Nat
  | notJson => 415
  | tooLarge => 413
  | malformed => 400
  | unfit _ => 422

def message : BodyFault → String
  | notJson => "Expected request with `Content-Type: application/json`"
  | tooLarge => "Failed to buffer the request body: length limit exceeded"
  | malformed => "Failed to parse the request body as JSON"
  | unfit reason => "Failed to deserialize the JSON body into the target type: " ++ reason

end BodyFault

inductive ApiError where
  | badRequest (message : String)
  | body (fault : BodyFault)
  | exchange (failure : Failure)

/-- The status code of a failure. -/
def failureStatus : Failure → Nat
  | .invalidInput _ _ | .unsupportedPlatform _ => 400
  | .parse _ _ | .conversion _ _ | .validation _ _ | .belowFloor _ _ _ _ => 422
  | .circuitOpen _ _ => 503
  | .timeout _ => 504
  | .internal _ => 500

/-- A failure as the body of an answer. -/
def failureBody (f : Failure) : Json.Value :=
  .obj ([("code", .str f.kind), ("message", .str f.message), ("retryable", .bool f.isRetryable)] ++
    (f.partialResult.map fun r => ("partial_result", r.toJson)).toList)

def plainBody (code message : String) : Json.Value :=
  .obj [("code", .str code), ("message", .str message), ("retryable", .bool false)]

/-- Whole seconds, rounded up, and at least one. -/
def retrySeconds (ms : Nat) : Nat := max 1 ((ms + 999) / 1000)

def ApiError.response : ApiError → HttpResponse
  | .badRequest message => { status := 400, body := some (plainBody "bad_request" message) }
  | .body fault =>
    { status := fault.status, body := some (plainBody "invalid_body" fault.message) }
  | .exchange f =>
    { status := failureStatus f
      retryAfter := match f with
        | .circuitOpen _ ms => some (retrySeconds ms)
        | _ => none
      body := some (failureBody f) }

/-- Reads the body of a request. -/
def readBody {α : Type} (d : Json.Decoder α) (limit : Nat) (r : HttpRequest) :
    Except ApiError α :=
  let mediaType := r.mediaType.bind fun t => MediaType.ofText? t.toList
  if !mediaType.any MediaType.isJson then .error (.body .notJson)
  else if limit < Text.octets r.body.toList then .error (.body .tooLarge)
  else (Json.decodeText d r.body.toList).mapError fun m =>
    match m with
    | .malformed => .body .malformed
    | .unfit reason => .body (.unfit reason)

/-! ### Answers -/

structure ExchangeReply where
  detectionId : Option String
  target : String
  result : Exchange

def ExchangeReply.toJson (r : ExchangeReply) : Json.Value :=
  let x := r.result
  .obj ((r.detectionId.map fun d => ("detection_id", Json.Value.str d)).toList ++
    [("translated_content", .str x.content), ("target_platform", .str r.target),
      ("confidence_score", .float x.confidence), ("quality_metrics", x.metrics.toJson),
      ("warnings", .arr (x.warnings.map Warning.toJson))])

structure BatchFailure where
  id : String
  failure : Failure

def BatchFailure.toJson (b : BatchFailure) : Json.Value :=
  .obj [("request_id", .str b.id), ("error", failureBody b.failure)]

/-- A batch with its successes and failures apart, both in the order of the requests. -/
structure BatchResponse where
  responses : List ExchangeReply
  errors : List BatchFailure
  successCount : Nat
  failureCount : Nat

namespace BatchResponse

def success? (i : BatchItem) (target : String) : Option ExchangeReply :=
  match i.outcome with
  | .ok x => some ⟨some i.id, target, x⟩
  | .error _ => none

def failure? (i : BatchItem) : Option BatchFailure :=
  match i.outcome with
  | .ok _ => none
  | .error f => some ⟨i.id, f⟩

/-- Each item stands beside the target of its own request. -/
def ofResult (b : BatchResult) (targets : List String) : BatchResponse :=
  let placed := b.items.zip targets
  { responses := placed.filterMap fun (i, t) => success? i t
    errors := placed.filterMap fun (i, _) => failure? i
    successCount := b.successCount
    failureCount := b.failureCount }

def toJson (b : BatchResponse) : Json.Value :=
  .obj [("responses", .arr (b.responses.map ExchangeReply.toJson)),
    ("errors", .arr (b.errors.map BatchFailure.toJson)), ("success_count", .nat b.successCount),
    ("failure_count", .nat b.failureCount)]

end BatchResponse

def validationBody (v : ValidationReport) : Json.Value :=
  .obj ([("code", .str v.summary.code), ("message", .str v.summary.message),
    ("level", .str v.summary.level.name), ("platform", .str v.platform)] ++
    (v.metrics.map fun m => ("metrics", m.toJson)).toList)

def statsBody (e : Engine) : Json.Value :=
  .obj (e.state.tally.counts ++ [("cached_results", .nat e.state.cache.size),
    ("cache_capacity", .nat e.state.cache.capacity),
    ("circuits", .arr (e.circuits.map CircuitView.toJson))])

/-- The version that the service reports. -/
def version : String := "0.1.0"

def components (e : Engine) : List Component := [⟨"translation-engine", e.health⟩]

def healthBody (e : Engine) : Json.Value :=
  .obj ((Component.aggregate (components e)).members ++ [("version", .str version),
    ("translators", .nat e.setup.registry.size),
    ("components", .arr ((components e).map Component.toJson)),
    ("circuits", .arr (e.circuits.map CircuitView.toJson))])

/-! ### Routes -/

inductive Route where
  | exchange
  | batch
  | validate
  | platforms
  | stats
  | health
  deriving DecidableEq, Repr

namespace Route

def all : List Route := [exchange, batch, validate, platforms, stats, health]

def path : Route → String
  | exchange => "/v1/translate"
  | batch => "/v1/translate/batch"
  | validate => "/v1/validate"
  | platforms => "/v1/platforms"
  | stats => "/v1/stats"
  | health => "/healthz"

/-- Whether a route only looks at the engine. -/
def readOnly : Route → Bool
  | platforms | stats | health => true
  | _ => false

def methods (r : Route) : List String := if r.readOnly then ["GET", "HEAD"] else ["POST"]

/-- The route of a target; what follows a question mark does not matter. -/
def ofTarget? (target : String) : Option Route :=
  let path := String.ofList (target.toList.takeWhile fun c => c != '?' && c != '#')
  all.find? (·.path == path)

end Route

structure Api where
  engine : Engine
  /-- Makes up the name of an unnamed item by its place in a batch. -/
  fresh : Nat → String

namespace Api

def done (a : Api) (body : Json.Value) : Api × HttpResponse :=
  (a, { status := 200, body := some body })

def refuse (a : Api) (e : ApiError) : Api × HttpResponse := (a, e.response)

def bodyLimit (a : Api) : Nat := a.engine.setup.settings.server.maxBodyBytes

def exchange (a : Api) (r : HttpRequest) : Api × HttpResponse :=
  match readBody ExchangeCall.decoder a.bodyLimit r with
  | .error e => a.refuse e
  | .ok c =>
    let options := c.overrides.resolve a.engine.setup.options
    let (engine, outcome) := a.engine.exchange ⟨c.content, c.source, c.target, options⟩
    match outcome with
    | .ok x => { a with engine }.done (ExchangeReply.toJson ⟨c.detectionId, c.target, x⟩)
    | .error f => { a with engine }.refuse (.exchange f)

def batch (a : Api) (r : HttpRequest) : Api × HttpResponse :=
  match readBody batchDecoder a.bodyLimit r with
  | .error e => a.refuse e
  | .ok requests =>
    let limit := a.engine.setup.settings.server.maxBatchSize
    if limit < requests.length then
      a.refuse (.badRequest ("batch of " ++ toString requests.length ++
        " requests exceeds max_batch_size " ++ toString limit))
    else
      let (engine, result) := a.engine.exchangeBatch a.fresh requests
      { a with engine }.done (BatchResponse.ofResult result (requests.map BatchRequest.target)).toJson

def validate (a : Api) (r : HttpRequest) : Api × HttpResponse :=
  match readBody ValidateCall.decoder a.bodyLimit r with
  | .error e => a.refuse e
  | .ok c =>
    match a.engine.validate c.content c.target with
    | .ok v => a.done (validationBody v)
    | .error f => a.refuse (.exchange f)

def health (a : Api) : HttpResponse :=
  { status := if (Component.aggregate (components a.engine)).isUnhealthy then 503 else 200
    body := some (healthBody a.engine) }

def act (a : Api) (r : HttpRequest) : Route → Api × HttpResponse
  | .exchange => a.exchange r
  | .batch => a.batch r
  | .validate => a.validate r
  | .platforms => a.done (.arr (a.engine.platforms.map PlatformInfo.toJson))
  | .stats => a.done (statsBody a.engine)
  | .health => (a, a.health)

/-- The answer to a request; an answer to `HEAD` has no body. -/
def respond (a : Api) (r : HttpRequest) : Api × HttpResponse :=
  match Route.ofTarget? r.target with
  | none => (a, { status := 404 })
  | some route =>
    if route.methods.contains r.method then
      let (a, answer) := a.act r route
      (a, if r.method = "HEAD" then { answer with body := none } else answer)
    else (a, { status := 405, allow := some (Text.joined "," route.methods) })

/-- Lets time pass. -/
def wait (a : Api) (ms : Nat) : Api := { a with engine := a.engine.wait ms }

end Api

end RuleExchange.Service
