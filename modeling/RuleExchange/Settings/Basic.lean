import RuleExchange.Json.Record

/-! Settings of the service: logging, the network interface, the engine with its circuit
breakers, the metrics endpoint, and one section for each configured platform. Every
setting has a default. -/

namespace RuleExchange.Settings

open Json (Member)

structure General where
  logLevel : String := "info"
  logFormat : String := "json"
  pidFile : String := ""
  deriving DecidableEq, Repr

def General.members : List (Member General) := [
  .string "log_level" (·.logLevel) fun v s => { s with logLevel := v },
  .string "log_format" (·.logFormat) fun v s => { s with logFormat := v },
  .string "pid_file" (·.pidFile) fun v s => { s with pidFile := v }]

structure Server where
  listenAddr : String := "127.0.0.1"
  listenPort : Nat := 50053
  maxBatchSize : Nat := 100
  maxBodyBytes : Nat := 4194304
  deriving DecidableEq, Repr

def Server.members : List (Member Server) := [
  .string "listen_addr" (·.listenAddr) fun v s => { s with listenAddr := v },
  .nat "port" 16 (·.listenPort) fun v s => { s with listenPort := v },
  .nat "max_batch_size" 64 (·.maxBatchSize) fun v s => { s with maxBatchSize := v },
  .nat "max_body_bytes" 64 (·.maxBodyBytes) fun v s => { s with maxBodyBytes := v }]

structure Breaker where
  /-- Fewer outcomes than this never open a circuit. -/
  minRequests : Nat := 10
  /-- The share of failures that opens a circuit. -/
  failureRatio : Float := 0.6
  windowSecs : Nat := 10
  cooldownSecs : Nat := 30
  /-- How many trials may run at once while a circuit is half open. -/
  halfOpenMax : Nat := 1

def Breaker.members : List (Member Breaker) := [
  .nat "min_requests" 32 (·.minRequests) fun v s => { s with minRequests := v },
  .float "failure_ratio" (·.failureRatio) fun v s => { s with failureRatio := v },
  .nat "window_secs" 64 (·.windowSecs) fun v s => { s with windowSecs := v },
  .nat "cooldown_secs" 64 (·.cooldownSecs) fun v s => { s with cooldownSecs := v },
  .nat "half_open_max_requests" 32 (·.halfOpenMax) fun v s => { s with halfOpenMax := v }]

def Breaker.decoder : Json.Decoder Breaker :=
  Json.Record.decode "circuit_breaker section" Breaker.members false {}

def Breaker.toJson (b : Breaker) : Json.Value := Json.Record.encode Breaker.members b

structure Engine where
  timeoutSecs : Nat := 30
  optimizationLevel : Nat := 1
  strictValidation : Bool := true
  retryAttempts : Nat := 3
  /-- Below this confidence a result is not accepted. -/
  accuracyFloor : Float := 0.99
  workerPoolSize : Nat := 10
  cacheCapacity : Nat := 10000
  breaker : Breaker := {}

def Engine.members : List (Member Engine) := [
  .nat "timeout_secs" 64 (·.timeoutSecs) fun v s => { s with timeoutSecs := v },
  .nat "optimization_level" 8 (·.optimizationLevel) fun v s => { s with optimizationLevel := v },
  .bool "strict_validation" (·.strictValidation) fun v s => { s with strictValidation := v },
  .nat "retry_attempts" 32 (·.retryAttempts) fun v s => { s with retryAttempts := v },
  .float "accuracy_floor" (·.accuracyFloor) fun v s => { s with accuracyFloor := v },
  .nat "worker_pool_size" 64 (·.workerPoolSize) fun v s => { s with workerPoolSize := v },
  .nat "cache_capacity" 64 (·.cacheCapacity) fun v s => { s with cacheCapacity := v },
  .of "circuit_breaker" Breaker.decoder Breaker.toJson (·.breaker) fun v s =>
    { s with breaker := v }]

structure Endpoint where
  enabled : Bool := false
  listenAddr : String := "127.0.0.1"
  listenPort : Nat := 9100
  path : String := "/metrics"
  deriving DecidableEq, Repr

def Endpoint.members : List (Member Endpoint) := [
  .bool "enabled" (·.enabled) fun v s => { s with enabled := v },
  .string "listen_addr" (·.listenAddr) fun v s => { s with listenAddr := v },
  .nat "port" 16 (·.listenPort) fun v s => { s with listenPort := v },
  .string "endpoint" (·.path) fun v s => { s with path := v }]

/-- Waiting times between repeated calls, growing by a factor up to a limit. -/
structure Retry where
  maxRetries : Nat := 3
  initialMs : Nat := 100
  maxMs : Nat := 2000
  multiplier : Nat := 2
  deriving DecidableEq, Repr

def Retry.members : List (Member Retry) := [
  .nat "max_retries" 32 (·.maxRetries) fun v s => { s with maxRetries := v },
  .nat "initial_interval_ms" 64 (·.initialMs) fun v s => { s with initialMs := v },
  .nat "max_interval_ms" 64 (·.maxMs) fun v s => { s with maxMs := v },
  .nat "multiplier" 32 (·.multiplier) fun v s => { s with multiplier := v }]

def Retry.decoder : Json.Decoder Retry :=
  Json.Record.decode "retry_policy section" Retry.members false {}

def Retry.toJson (r : Retry) : Json.Value := Json.Record.encode Retry.members r

structure Platform where
  version : String := "1.0.0"
  apiEndpoint : String := ""
  maxContentSize : Nat := 1048576
  /-- Names of rules and the expressions that every content must match, ordered by name. -/
  validationRules : List (String × String) := []
  accuracyFloor : Option Float := none
  retry : Retry := {}

def stringTable (t : List (String × String)) : Json.Value :=
  .obj (t.map fun (k, v) => (k, .str v))

def Platform.members : List (Member Platform) := [
  .string "version" (·.version) fun v s => { s with version := v },
  .string "api_endpoint" (·.apiEndpoint) fun v s => { s with apiEndpoint := v },
  .nat "max_content_size" 64 (·.maxContentSize) fun v s => { s with maxContentSize := v },
  .of "validation_rules" (Json.Decode.table Json.Decode.string) stringTable (·.validationRules)
    fun v s => { s with validationRules := v },
  .optional "accuracy_floor" Json.Decode.float .float (·.accuracyFloor)
    fun v s => { s with accuracyFloor := v },
  .of "retry_policy" Retry.decoder Retry.toJson (·.retry) fun v s => { s with retry := v }]

def Platform.decoder : Json.Decoder Platform :=
  Json.Record.decode "platform section" Platform.members false {}

def Platform.toJson (p : Platform) : Json.Value := Json.Record.encode Platform.members p

end RuleExchange.Settings

namespace RuleExchange

structure Settings where
  general : Settings.General := {}
  server : Settings.Server := {}
  engine : Settings.Engine := {}
  metrics : Settings.Endpoint := {}
  /-- Sections by platform name, ordered by name. -/
  platforms : List (String × Settings.Platform) := []

namespace Settings

open Json (Member)

def General.decoder : Json.Decoder General :=
  Json.Record.decode "general section" General.members false {}

def Server.decoder : Json.Decoder Server :=
  Json.Record.decode "server section" Server.members false {}

def Engine.decoder : Json.Decoder Engine :=
  Json.Record.decode "engine section" Engine.members false {}

def Endpoint.decoder : Json.Decoder Endpoint :=
  Json.Record.decode "metrics section" Endpoint.members false {}

def General.toJson (g : General) : Json.Value := Json.Record.encode General.members g

def Server.toJson (s : Server) : Json.Value := Json.Record.encode Server.members s

def Engine.toJson (e : Engine) : Json.Value := Json.Record.encode Engine.members e

def Endpoint.toJson (e : Endpoint) : Json.Value := Json.Record.encode Endpoint.members e

def platformsJson (ps : List (String × Platform)) : Json.Value :=
  .obj (ps.map fun (k, p) => (k, p.toJson))

def members : List (Member Settings) := [
  .of "general" General.decoder General.toJson (·.general) fun v s => { s with general := v },
  .of "server" Server.decoder Server.toJson (·.server) fun v s => { s with server := v },
  .of "engine" Engine.decoder Engine.toJson (·.engine) fun v s => { s with engine := v },
  .of "metrics" Endpoint.decoder Endpoint.toJson (·.metrics) fun v s => { s with metrics := v },
  .of "platforms" (Json.Decode.table Platform.decoder) platformsJson (·.platforms)
    fun v s => { s with platforms := v }]

def decoder : Json.Decoder Settings := Json.Record.decode "settings" members false {}

def toJson (s : Settings) : Json.Value := Json.Record.encode members s

/-- The section of a platform; the case of its name does not matter. -/
def platform? (s : Settings) (id : String) : Option Platform :=
  (s.platforms.find? fun (name, _) => Text.sameText name id).map (·.2)

/-- The floor of confidence for a target: its own, or the engine's. -/
def accuracyFloorFor (s : Settings) (target : String) : Float :=
  ((s.platform? target).bind (·.accuracyFloor)).getD s.engine.accuracyFloor

end Settings

end RuleExchange
