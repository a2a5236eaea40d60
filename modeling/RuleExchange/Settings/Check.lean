import RuleExchange.Settings.Basic

/-! Checking of settings. The sections are checked in a fixed order and the first
value out of its bounds is reported with the path of its field. -/

namespace RuleExchange.Settings

/-- A value that is out of bounds. -/
structure Fault where
  field : String
  reason : String
  deriving DecidableEq, Repr

def Fault.message (f : Fault) : String :=
  "invalid config value for '" ++ f.field ++ "': " ++ f.reason

abbrev Checked := Except Fault Unit

def check (ok : Bool) (field reason : String) : Checked :=
  if ok then .ok () else .error ⟨field, reason⟩

def positive (field : String) (n : Nat) : Checked := check (0 < n) field "must be greater than 0"

/-- A share is above zero and at most one; not-a-number is no share. -/
def share (field : String) (x : Float) : Checked :=
  check (0.0 < x && x ≤ 1.0) field "must be within (0, 1]"

def oneOf (field : String) (words : List String) (s : String) : Checked :=
  check (words.contains s) field ("must be one of: " ++ Text.joined ", " words)

def General.check (g : General) : Checked := do
  oneOf "general.log_level" ["trace", "debug", "info", "warn", "error"] g.logLevel
  oneOf "general.log_format" ["json", "pretty"] g.logFormat

def Server.check (s : Server) : Checked := do
  positive "server.port" s.listenPort
  positive "server.max_batch_size" s.maxBatchSize
  positive "server.max_body_bytes" s.maxBodyBytes

def Breaker.check (b : Breaker) : Checked := do
  positive "engine.circuit_breaker.min_requests" b.minRequests
  share "engine.circuit_breaker.failure_ratio" b.failureRatio
  positive "engine.circuit_breaker.window_secs" b.windowSecs
  positive "engine.circuit_breaker.half_open_max_requests" b.halfOpenMax

def Engine.check (e : Engine) : Checked := do
  positive "engine.timeout_secs" e.timeoutSecs
  Settings.check (e.optimizationLevel ≤ 3) "engine.optimization_level" "must be within 0..=3"
  share "engine.accuracy_floor" e.accuracyFloor
  positive "engine.worker_pool_size" e.workerPoolSize
  positive "engine.cache_capacity" e.cacheCapacity
  e.breaker.check

def Endpoint.check (e : Endpoint) : Checked :=
  if e.enabled then positive "metrics.port" e.listenPort else .ok ()

def Retry.check (path : String) (r : Retry) : Checked := do
  Settings.check (r.initialMs ≤ r.maxMs) (path ++ ".retry_policy.initial_interval_ms")
    "must not exceed max_interval_ms"
  positive (path ++ ".retry_policy.multiplier") r.multiplier

def checkRules (path : String) : List (String × String) → Checked
  | [] => .ok ()
  | (name, pattern) :: rest => do
    check (!Text.isBlankString pattern) (path ++ ".validation_rules." ++ name)
      "pattern must not be empty"
    checkRules path rest

def Platform.check (name : String) (p : Platform) : Checked := do
  let path := "platforms." ++ name
  Settings.check (!Text.isBlankString p.version) (path ++ ".version") "must not be empty"
  positive (path ++ ".max_content_size") p.maxContentSize
  checkRules path p.validationRules
  match p.accuracyFloor with
  | some floor => share (path ++ ".accuracy_floor") floor
  | none => .ok ()
  p.retry.check path

def checkPlatforms : List (String × Platform) → Checked
  | [] => .ok ()
  | (name, p) :: rest => do
    p.check name
    checkPlatforms rest

/-- All sections in order: general, server, engine, metrics, platforms by name. -/
def validate (s : Settings) : Checked := do
  s.general.check
  s.server.check
  s.engine.check
  s.metrics.check
  checkPlatforms s.platforms

end RuleExchange.Settings
