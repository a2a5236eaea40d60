import RuleExchange.Decimal.Read
import RuleExchange.Settings.Basic

/-! Settings from environment variables. A variable that is set replaces one setting;
a number or a truth value that cannot be read is passed over. Of two variables for the
same setting the later one in the list wins. -/

namespace RuleExchange.Settings

/-- The variables that are set. -/
abbrev Environment := List (String × String)

/-- A variable and what its value does to the settings. -/
structure Variable where
  name : String
  apply : String → Settings → Settings

namespace Variable

def text (name : String) (set : String → Settings → Settings) : Variable := ⟨name, set⟩

/-- A variable whose value is read, after trimming, by `read`. -/
def read {α : Type} (name : String) (read : List Char → Option α) (set : α → Settings → Settings) :
    Variable :=
  ⟨name, fun v s =>
    match read (Text.trim v.toList) with
    | some a => set a s
    | none => s⟩

def word (name : String) (bits : Nat) (set : Nat → Settings → Settings) : Variable :=
  read name (Decimal.readNat (Nat.pow 2 bits - 1)) set

def float (name : String) (set : Float → Settings → Settings) : Variable :=
  read name Decimal.readFloat set

def readBool (s : List Char) : Option Bool :=
  if s = "true".toList then some true else if s = "false".toList then some false else none

def bool (name : String) (set : Bool → Settings → Settings) : Variable := read name readBool set

end Variable

def onGeneral (f : General → General) (s : Settings) : Settings := { s with general := f s.general }

def onServer (f : Server → Server) (s : Settings) : Settings := { s with server := f s.server }

def onEngine (f : Engine → Engine) (s : Settings) : Settings := { s with engine := f s.engine }

def onBreaker (f : Breaker → Breaker) : Settings → Settings :=
  onEngine fun e => { e with breaker := f e.breaker }

def onMetrics (f : Endpoint → Endpoint) (s : Settings) : Settings :=
  { s with metrics := f s.metrics }

/-- All variables in the order in which they are applied. -/
def readVariables : List Variable := [
  .text "UDFBRIDGE_GENERAL_LOG_LEVEL" fun v => onGeneral fun g => { g with logLevel := v },
  .text "UDFBRIDGE_GENERAL_LOG_FORMAT" fun v => onGeneral fun g => { g with logFormat := v },
  .text "UDFBRIDGE_GENERAL_PID_FILE" fun v => onGeneral fun g => { g with pidFile := v },
  .word "TRANSLATION_SERVICE_GRPC_PORT" 16 fun n => onServer fun s => { s with listenPort := n },
  .word "TRANSLATION_SERVICE_MAX_BATCH_SIZE" 64 fun n =>
    onServer fun s => { s with maxBatchSize := n },
  .text "UDFBRIDGE_SERVER_LISTEN_ADDR" fun v => onServer fun s => { s with listenAddr := v },
  .word "UDFBRIDGE_SERVER_PORT" 16 fun n => onServer fun s => { s with listenPort := n },
  .word "UDFBRIDGE_SERVER_MAX_BATCH_SIZE" 64 fun n =>
    onServer fun s => { s with maxBatchSize := n },
  .word "UDFBRIDGE_SERVER_MAX_BODY_BYTES" 64 fun n =>
    onServer fun s => { s with maxBodyBytes := n },
  .word "UDFBRIDGE_ENGINE_TIMEOUT_SECS" 64 fun n => onEngine fun e => { e with timeoutSecs := n },
  .word "UDFBRIDGE_ENGINE_OPTIMIZATION_LEVEL" 8 fun n =>
    onEngine fun e => { e with optimizationLevel := n },
  .bool "UDFBRIDGE_ENGINE_STRICT_VALIDATION" fun b =>
    onEngine fun e => { e with strictValidation := b },
  .word "UDFBRIDGE_ENGINE_RETRY_ATTEMPTS" 32 fun n =>
    onEngine fun e => { e with retryAttempts := n },
  .float "UDFBRIDGE_ENGINE_ACCURACY_FLOOR" fun x =>
    onEngine fun e => { e with accuracyFloor := x },
  .word "UDFBRIDGE_ENGINE_WORKER_POOL_SIZE" 64 fun n =>
    onEngine fun e => { e with workerPoolSize := n },
  .word "UDFBRIDGE_ENGINE_CACHE_CAPACITY" 64 fun n =>
    onEngine fun e => { e with cacheCapacity := n },
  .word "UDFBRIDGE_ENGINE_CIRCUIT_BREAKER_MIN_REQUESTS" 32 fun n =>
    onBreaker fun b => { b with minRequests := n },
  .float "UDFBRIDGE_ENGINE_CIRCUIT_BREAKER_FAILURE_RATIO" fun x =>
    onBreaker fun b => { b with failureRatio := x },
  .word "UDFBRIDGE_ENGINE_CIRCUIT_BREAKER_COOLDOWN_SECS" 64 fun n =>
    onBreaker fun b => { b with cooldownSecs := n },
  .bool "UDFBRIDGE_METRICS_ENABLED" fun b => onMetrics fun m => { m with enabled := b },
  .text "UDFBRIDGE_METRICS_LISTEN_ADDR" fun v => onMetrics fun m => { m with listenAddr := v },
  .word "UDFBRIDGE_METRICS_PORT" 16 fun n => onMetrics fun m => { m with listenPort := n }]

def Variable.applyIn (env : Environment) (s : Settings) (v : Variable) : Settings :=
  match Json.lookup v.name env with
  | some value => v.apply value s
  | none => s

/-- The settings with every variable that is set put over them. -/
def withEnvironment (s : Settings) (env : Environment) : Settings :=
  readVariables.foldl (Variable.applyIn env) s

end RuleExchange.Settings
